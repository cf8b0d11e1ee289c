import RecordStore.Calendar.Date

/-!
# Timestamps

A timestamp is a date with a time of day to the microsecond. It may carry its offset from universal
time; timestamps with an offset are the same if they denote the same instant, and they are never
compared with those that have none.
-/

namespace RecordStore

/-- The microseconds of a second. -/
def microsPerSecond : Nat := 1000000

/-- The microseconds of a day. -/
def microsPerDay : Nat := 24 * 60 * 60 * microsPerSecond

/-- Whether the parts of a time of day are in range and an offset is shorter than a day. -/
def Timestamp.Valid (hour minute second microsecond : Nat) (offset : Option Int) : Prop :=
  hour < 24 ∧ minute < 60 ∧ second < 60 ∧ microsecond < microsPerSecond ∧
    (offset.all fun shift => shift.natAbs < microsPerDay) = true

instance (hour minute second microsecond : Nat) (offset : Option Int) :
    Decidable (Timestamp.Valid hour minute second microsecond offset) := by
  unfold Timestamp.Valid
  infer_instance

/-- A date with a time of day. The offset is in microseconds east of universal time. -/
structure Timestamp where
  date : Date
  hour : Nat
  minute : Nat
  second : Nat
  microsecond : Nat
  offset : Option Int
  valid : Timestamp.Valid hour minute second microsecond offset
  deriving DecidableEq

namespace Timestamp

/-- The timestamp with these parts, if they are in range. -/
def make? (date : Date) (hour minute second microsecond : Nat) (offset : Option Int) :
    Option Timestamp :=
  if h : Valid hour minute second microsecond offset then
    some ⟨date, hour, minute, second, microsecond, offset, h⟩
  else none

/-- The microseconds since the start of the day. -/
def microsOfDay (t : Timestamp) : Nat :=
  ((t.hour * 60 + t.minute) * 60 + t.second) * microsPerSecond + t.microsecond

/-- The microseconds since the start of year 1, by universal time if the offset is known and by
local time otherwise. -/
def instant (t : Timestamp) : Int :=
  (t.date.dayNumber * microsPerDay + t.microsOfDay : Nat) - t.offset.getD 0

/-- What tells timestamps apart: whether there is an offset, and the instant. -/
def identity (t : Timestamp) : Bool × Int :=
  (t.offset.isSome, t.instant)

/-- The order of two timestamps; nothing if only one of them has an offset. -/
def compare? (a b : Timestamp) : Option Ordering :=
  if a.offset.isSome = b.offset.isSome then some (Ord.compare a.instant b.instant) else none

/-- The time of day as hours, minutes and seconds, with six digits of microseconds if there are
any. -/
def clockText (hour minute second microsecond : Nat) : List Char :=
  Text.padded 2 hour ++ ':' :: Text.padded 2 minute ++ ':' :: Text.padded 2 second ++
    if microsecond = 0 then [] else '.' :: Text.padded 6 microsecond

/-- An offset as a sign, hours and minutes, with seconds and microseconds only where needed. -/
def offsetText (shift : Int) : List Char :=
  let micros := shift.natAbs % microsPerSecond
  let seconds := shift.natAbs / microsPerSecond
  (if shift < 0 then '-' else '+') :: Text.padded 2 (seconds / 3600) ++
    ':' :: Text.padded 2 (seconds / 60 % 60) ++
    (if seconds % 60 = 0 ∧ micros = 0 then [] else ':' :: Text.padded 2 (seconds % 60)) ++
    (if micros = 0 then [] else '.' :: Text.padded 6 micros)

/-- The text of a timestamp with a given character between date and time. -/
def textWith (separator : Char) (t : Timestamp) : String :=
  String.ofList (t.date.text.toList ++
    separator :: clockText t.hour t.minute t.second t.microsecond ++
    t.offset.elim [] offsetText)

/-- The text of a timestamp with a blank between date and time. -/
def text (t : Timestamp) : String :=
  t.textWith ' '

/-- The text of a timestamp in the standard form, with a `T` between date and time. -/
def standardText (t : Timestamp) : String :=
  t.textWith 'T'

end Timestamp

end RecordStore
