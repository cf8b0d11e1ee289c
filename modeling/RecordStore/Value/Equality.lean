import RecordStore.Value.Basic

/-!
# Equality of values

Two values are the same if they agree by exact numeric value, by text, by calendar day or by
instant, and lists and mappings if they agree item by item; the order of the entries of a mapping
does not count. Sameness decides which keys coincide. Equality is sameness, except that what is not
a number equals nothing, not even itself.
-/

namespace RecordStore

/-- What tells values without parts apart. -/
inductive Value.Identity where
  | null
  | number (identity : Number.Identity)
  | text (s : String)
  | date (d : Date)
  | timestamp (aware : Bool) (instant : Int)
  deriving DecidableEq

namespace Value

/-- What a value without parts is as a key; lists, tuples and mappings have no identity of their
own. -/
def identity? : Value → Option Identity
  | .null => some .null
  | .bool b => some (.number (Number.flag b).identity)
  | .int i => some (.number (Number.whole i).identity)
  | .float x => some (.number (Number.binary x).identity)
  | .text s => some (.text s)
  | .date d => some (.date d)
  | .timestamp t => some (.timestamp t.identity.1 t.identity.2)
  | .list _ => none
  | .tuple _ => none
  | .map _ => none

/-- Whether two values without parts are the same. -/
def sameScalar (a b : Value) : Bool :=
  match a.identity?, b.identity? with
  | some x, some y => x = y
  | _, _ => false

mutual

/-- Whether two values are the same key. -/
def same : Value → Value → Bool
  | .list as, .list bs => sameAll as bs
  | .tuple as, .tuple bs => sameAll as bs
  | .map as, .map bs => as.length == bs.length && sameWithin as bs
  | .null, b => sameScalar .null b
  | .bool a, b => sameScalar (.bool a) b
  | .int a, b => sameScalar (.int a) b
  | .float a, b => sameScalar (.float a) b
  | .text a, b => sameScalar (.text a) b
  | .date a, b => sameScalar (.date a) b
  | .timestamp a, b => sameScalar (.timestamp a) b
  | _, _ => false
termination_by structural a => a

/-- Whether two lists are the same item by item. -/
def sameAll : List Value → List Value → Bool
  | [], [] => true
  | a :: as, b :: bs => same a b && sameAll as bs
  | _, _ => false
termination_by structural as => as

/-- Whether every entry of one list of entries is among those of another. -/
def sameWithin : List (Value × Value) → List (Value × Value) → Bool
  | [], _ => true
  | entry :: rest, bs => bs.any (sameEntry entry) && sameWithin rest bs
termination_by structural as => as

/-- Whether two entries have the same key and the same value. -/
def sameEntry : Value × Value → Value × Value → Bool
  | (key, v), b => same key b.1 && same v b.2
termination_by structural a => a

end

/-- Whether a value is a floating-point value that is not a number. -/
def isNotNumber : Value → Bool
  | .float (.notNumber _) => true
  | _ => false

/-- Whether two values are equal. -/
def equals (a b : Value) : Bool :=
  a.same b && !a.isNotNumber

/-- Values are taken for each other as keys if they are the same. -/
instance : BEq Value := ⟨same⟩

end Value

/-- The value of a column, nothing standing for its absence. -/
def Record.value (column : Value) (record : Record) : Value :=
  .ofOption (record.lookup column)

end RecordStore
