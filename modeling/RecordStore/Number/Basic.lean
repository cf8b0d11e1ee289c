import RecordStore.Number.Shortest

/-!
# Numbers of all representations

A number is a truth value, an integer of any size or a floating-point number. Numbers are compared
by their exact values on the number line with both infinities, whatever their representation, so
no comparison ever rounds. What is not a number has no place on the line and compares with nothing.
-/

namespace RecordStore

/-- A place on the number line, its two ends included. -/
inductive Position where
  | low
  | at (value : Rat)
  | high
  deriving DecidableEq

/-- The order of the places on the line. -/
def Position.compare : Position → Position → Ordering
  | .low, .low => .eq
  | .low, _ => .lt
  | _, .low => .gt
  | .high, .high => .eq
  | .high, _ => .gt
  | _, .high => .lt
  | .at a, .at b => if a < b then .lt else if a = b then .eq else .gt

/-- The place of a floating-point number, if it is a number. -/
def Binary64.position? : Binary64 → Option Position
  | .finite negative significand exponent canonical =>
    ((Binary64.finite negative significand exponent canonical).value?).map .at
  | .infinite negative => some (if negative then .low else .high)
  | .notNumber _ => none

/-- A number in one of its representations. A truth value counts as zero or one. -/
inductive Number where
  | flag (b : Bool)
  | whole (i : Int)
  | binary (x : Binary64)
  deriving DecidableEq

/-- What tells numbers apart as keys: their place, or the payload of what is not a number. -/
inductive Number.Identity where
  | at (position : Position)
  | notNumber (payload : Nat)
  deriving DecidableEq

namespace Number

/-- The place of a number on the line; what is not a number has none. -/
def position? : Number → Option Position
  | .flag b => some (.at (if b then 1 else 0))
  | .whole i => some (.at i)
  | .binary x => x.position?

/-- What a number is as a key. -/
def identity : Number → Identity
  | .flag b => .at (.at (if b then 1 else 0))
  | .whole i => .at (.at i)
  | .binary (.notNumber payload) => .notNumber payload
  | .binary x => .at (x.position?.getD .low)

/-- Whether two numbers are the same key. -/
def same (a b : Number) : Bool :=
  a.identity = b.identity

/-- The order of two numbers; nothing if one of them is not a number. -/
def compare? (a b : Number) : Option Ordering :=
  match a.position?, b.position? with
  | some p, some q => some (p.compare q)
  | _, _ => none

/-- Whether one number is less than another. -/
def less (a b : Number) : Bool :=
  a.compare? b = some .lt

/-- The first of two numbers unless the second is greater. -/
def larger (a b : Number) : Number :=
  if a.less b then b else a

/-- The number after a number. -/
def successor : Number → Number
  | .flag b => .whole (if b then 2 else 1)
  | .whole i => .whole (i + 1)
  | .binary x => .binary x.successor

/-- Whether a number is a zero. -/
def isZero : Number → Bool
  | .flag b => !b
  | .whole i => i == 0
  | .binary x => x.isZero

/-- Integers of more digits than this are neither read nor written. -/
def digitLimit : Nat := 4300

/-- The decimal text of an integer, unless it has too many digits. -/
def integerText? (i : Int) : Option String :=
  if i.natAbs < Nat.pow 10 digitLimit then some (toString i) else none

/-- The text of a number, unless it is an integer of too many digits. -/
def text? : Number → Option String
  | .flag b => some (if b then "True" else "False")
  | .whole i => integerText? i
  | .binary x => some x.text

end Number

end RecordStore
