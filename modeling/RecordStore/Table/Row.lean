import RecordStore.Fault
import RecordStore.Value.Equality

/-!
# Rows

What a table stores under an id. Every row that is written through a table is a record. A snapshot
file may hold anything in place of a record; such a row is kept as it is, and operations on it fail
where they need the parts that it does not have. A list of pairs can still stand for a record.
-/

namespace RecordStore

/-- A stored row. -/
inductive Row where
  | record (record : Record)
  /-- Something else that a snapshot held. -/
  | other (v : Value)

namespace Row

/-- A value as a row. -/
def ofValue (v : Value) : Row :=
  match v with
  | .map entries => .record entries
  | v => .other v

/-- A row as a value. -/
def toValue : Row → Value
  | .record entries => .map entries
  | .other v => v

/-- The value of a column in a row. -/
def value (column : Value) : Row → Except Fault Value
  | .record entries => .ok (entries.value column)
  | .other _ => .error .wrongShape

/-- The two items that a value has, if it has just two. -/
def pairOf (v : Value) : Except Fault (Value × Value) :=
  match v.items? with
  | some [first, second] => .ok (first, second)
  | some _ => .error .notPairs
  | none => .error .wrongType

/-- Enters the pairs that a list of values stands for. -/
def enterPairs (entered : Record) : List Value → Except Fault Record
  | [] => .ok entered
  | v :: rest => do
    let (key, v) ← pairOf v
    if key.isHashable then enterPairs (Entries.put key v entered) rest else throw .wrongType

/-- The record that a row stands for. -/
def toRecord : Row → Except Fault Record
  | .record entries => .ok entries
  | .other v =>
    match v.items? with
    | some items => enterPairs [] items
    | none => .error .wrongType

end Row

end RecordStore
