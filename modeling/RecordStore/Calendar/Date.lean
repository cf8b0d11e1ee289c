import RecordStore.Text.Digit

/-!
# Calendar dates

Dates of the Gregorian calendar, extended to all years from 1 to 9999, and the ISO weeks that number
the days of a year differently: weeks begin on Monday, and the first week of a year is the one with
its first Thursday.
-/

namespace RecordStore

namespace Date

/-- Whether a year has a leap day. -/
def isLeap (year : Nat) : Bool :=
  year % 4 == 0 && (year % 100 != 0 || year % 400 == 0)

/-- The lengths of the months of a year. -/
def monthLengths (year : Nat) : List Nat :=
  [31, if isLeap year then 29 else 28, 31, 30, 31, 30, 31, 31, 30, 31, 30, 31]

/-- The length of a month, counted from one; there are no others. -/
def monthLength (year month : Nat) : Nat :=
  if month = 0 then 0 else (monthLengths year).getD (month - 1) 0

/-- Whether a year, a month and a day denote a date. -/
def Valid (year month day : Nat) : Prop :=
  1 ≤ year ∧ year ≤ 9999 ∧ 1 ≤ month ∧ month ≤ 12 ∧ 1 ≤ day ∧ day ≤ monthLength year month

instance (year month day : Nat) : Decidable (Valid year month day) := by
  unfold Valid
  infer_instance

end Date

/-- A date of the calendar. -/
structure Date where
  year : Nat
  month : Nat
  day : Nat
  valid : Date.Valid year month day
  deriving DecidableEq

namespace Date

/-- The date of a year, a month and a day, if there is one. -/
def make? (year month day : Nat) : Option Date :=
  if h : Valid year month day then some ⟨year, month, day, h⟩ else none

/-- The number of days in a year. -/
def yearLength (year : Nat) : Nat :=
  if isLeap year then 366 else 365

/-- The number of days before the first day of a year, counted from the first day of year 1. -/
def daysBeforeYear (year : Nat) : Nat :=
  let past := year - 1
  past * 365 + past / 4 - past / 100 + past / 400

/-- The number of days before a date, counted from the first day of year 1. -/
def dayNumber (d : Date) : Nat :=
  daysBeforeYear d.year + ((monthLengths d.year).take (d.month - 1)).foldl (· + ·) 0 + (d.day - 1)

/-- Finds the month in which the day of a given index from `month` on lies. -/
def monthOfDay (month : Nat) : List Nat → Nat → Nat × Nat
  | [], index => (month, index + 1)
  | length :: rest, index =>
    if index < length then (month, index + 1) else monthOfDay (month + 1) rest (index - length)

/-- The date that lies a number of days after the first day of a year; it may fall into the
neighbouring years. -/
def ofYearDay? (year : Nat) (index : Int) : Option Date :=
  let at' (year : Nat) (index : Int) : Option Date :=
    let (month, day) := monthOfDay 1 (monthLengths year) index.toNat
    make? year month day
  if index < 0 then at' (year - 1) (index + yearLength (year - 1))
  else if index < yearLength year then at' year index
  else at' (year + 1) (index - yearLength year)

/-- The weekday of the first day of a year, from 0 for Monday to 6 for Sunday. -/
def firstWeekday (year : Nat) : Nat :=
  daysBeforeYear year % 7

/-- Whether a year has 53 weeks: it begins on a Thursday, or on a Wednesday if it is a leap year. -/
def hasLongWeekYear (year : Nat) : Bool :=
  firstWeekday year == 3 || (firstWeekday year == 2 && isLeap year)

/-- The date of a year, a week and a weekday from 1 for Monday to 7 for Sunday. -/
def ofWeek? (year week weekday : Nat) : Option Date :=
  if 1 ≤ year ∧ 1 ≤ week ∧ (week ≤ 52 ∨ (week = 53 ∧ hasLongWeekYear year)) ∧
      1 ≤ weekday ∧ weekday ≤ 7 then
    let first := firstWeekday year
    let monday : Int := if first ≤ 3 then -(first : Int) else 7 - first
    ofYearDay? year (monday + ((week - 1) * 7 + (weekday - 1) : Nat))
  else none

/-- The order of dates. -/
def compare (a b : Date) : Ordering :=
  Ord.compare a.dayNumber b.dayNumber

/-- The text of a date: year, month and day with dashes, padded with zeros. -/
def text (d : Date) : String :=
  String.ofList (Text.padded 4 d.year ++ '-' :: Text.padded 2 d.month ++
    '-' :: Text.padded 2 d.day)

end Date

end RecordStore
