import RecordStore.Table.Basic

/-!
# Matching rows

Conditions are a mapping from columns to what is asked of them; a row matches if it satisfies them
all. Text that is compared with a date column is read as a date where it can be. A single equality
on an indexed column is answered by the index, and everything else by a scan of all rows; both give
the ids of the matching rows in the order of the rows.
-/

namespace RecordStore

/-- One comparison that the rows must satisfy. -/
structure Predicate where
  column : Value
  operator : Operator
  operand : Value

namespace Predicate

/-- Whether a row satisfies a predicate. -/
def holds (predicate : Predicate) (row : Row) : Except Fault Bool := do
  predicate.operator.holds (← row.value predicate.column) predicate.operand

/-- Whether a row satisfies all predicates; they are tried in order up to the first that fails. -/
def allHold (row : Row) : List Predicate → Except Fault Bool
  | [] => .ok true
  | predicate :: rest => do
    if ← predicate.holds row then allHold row rest else return false

end Predicate

namespace Table

/-- What a column is compared with: text stands for a date if the column holds dates. -/
def operandFor (schema : Schema) (column operand : Value) : Value :=
  match operand with
  | .text s =>
    match schema.column? column with
    | some c => if c.kind = .date then ((Moment.parse? s).map .ofMoment).getD operand else operand
    | none => operand
  | operand => operand

/-- The predicates that conditions state. -/
def predicatesOf (schema : Schema) (conditions : List (Value × Value)) : List Predicate :=
  conditions.flatMap fun (column, condition) =>
    (Operator.comparisons condition).map fun (operator, operand) =>
      ⟨column, operator, operandFor schema column operand⟩

/-- The ids of the rows that satisfy all predicates. -/
def scanFor (predicates : List Predicate) : List (RowId × Row) → Except Fault (List RowId)
  | [] => .ok []
  | (id, row) :: rest => do
    let matched ← Predicate.allHold row predicates
    let others ← scanFor predicates rest
    return if matched then id :: others else others

/-- The ids that an index gives for predicates, if they are a single equality that it can answer. -/
def indexed? (table : Table) (predicates : List Predicate) : Option (List RowId) :=
  match predicates with
  | [⟨column, .equal, operand⟩] =>
    if operand.isNull || !operand.isHashable then none
    else (table.index? column).map fun index => index.ids operand
  | _ => none

/-- The ids of the rows that satisfy predicates. -/
def matchPredicates (table : Table) (predicates : List Predicate) : Except Fault (List RowId) :=
  match table.indexed? predicates with
  | some ids => .ok ids
  | none => scanFor predicates table.rows

/-- The ids of the rows that match conditions; whatever counts as false is matched by all. -/
def matching (table : Table) (conditions : Value) : Except Fault (List RowId) :=
  if conditions.isTruthy then
    match conditions with
    | .map entries => table.matchPredicates (predicatesOf table.schema entries)
    | _ => .error .wrongShape
  else .ok (table.rows.map (·.1))

/-- The record under an id that an index gives. -/
def recordAt (table : Table) (id : RowId) : Except Fault Record :=
  (table.rowAt id).bind Row.toRecord

/-- The matching records. -/
def find (table : Table) (conditions : Value) : Except Fault (List Record) :=
  (table.matching conditions).bind fun ids => ids.mapM table.recordAt

/-- The first matching record, if there is one. -/
def findOne (table : Table) (conditions : Value) : Except Fault (Option Record) := do
  match ← table.matching conditions with
  | [] => return none
  | id :: _ => return some (← table.recordAt id)

end Table

end RecordStore
