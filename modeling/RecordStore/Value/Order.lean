import RecordStore.Value.Equality

/-!
# Order of values

Numbers are ordered by exact value, text by code point, dates and timestamps in time, and lists and
tuples by their first items that are not the same. Values of other kinds, or of different kinds, do
not compare at all, and neither do timestamps of which only one has an offset. What is not a number
compares as neither less, equal nor greater.
-/

namespace RecordStore

/-- The outcome of a comparison of two values. -/
inductive Comparison where
  | ordered (o : Ordering)
  /-- The values are of one kind, but one of them is not a number. -/
  | unordered
  /-- The values are of kinds that do not compare. -/
  | incomparable
  deriving DecidableEq

namespace Value

/-- Compares two values without parts. -/
def compareScalar (a b : Value) : Comparison :=
  match a.number?, b.number? with
  | some m, some n =>
    match m.compare? n with
    | some o => .ordered o
    | none => .unordered
  | _, _ =>
    match a, b with
    | .text s, .text t => .ordered (compare s t)
    | .date d, .date e => .ordered (d.compare e)
    | .timestamp t, .timestamp u =>
      match t.compare? u with
      | some o => .ordered o
      | none => .incomparable
    | _, _ => .incomparable

mutual

/-- Compares two values. -/
def compare : Value → Value → Comparison
  | .list as, .list bs => compareAll as bs
  | .tuple as, .tuple bs => compareAll as bs
  | .bool a, b => compareScalar (.bool a) b
  | .int a, b => compareScalar (.int a) b
  | .float a, b => compareScalar (.float a) b
  | .text a, b => compareScalar (.text a) b
  | .date a, b => compareScalar (.date a) b
  | .timestamp a, b => compareScalar (.timestamp a) b
  | _, _ => .incomparable
termination_by structural a => a

/-- Compares two lists by their first items that are not the same, and then by length. -/
def compareAll : List Value → List Value → Comparison
  | [], [] => .ordered .eq
  | [], _ :: _ => .ordered .lt
  | _ :: _, [] => .ordered .gt
  | a :: as, b :: bs => if same a b then compareAll as bs else compare a b
termination_by structural as => as

end

end Value

end RecordStore
