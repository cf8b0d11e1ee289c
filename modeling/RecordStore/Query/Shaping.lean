import RecordStore.Fault
import RecordStore.Sorting
import RecordStore.Value.Order

/-!
# Shaping results

The records that a selection finds are cut down to the columns asked for, put in order by one
column and counted off. Absent values and values that do not compare count as equal in the order.
-/

namespace RecordStore.Query

/-- A three-way comparison in which absent and incomparable values are equal. -/
def compareForOrder (a b : Value) : Ordering :=
  if a.isNull || b.isNull then .eq
  else
    match a.compare b with
    | .ordered o => o
    | _ => .eq

/-- Keeps the listed columns that a record has, in the order of the list. -/
def project (columns : List Value) (found : Record) : Record :=
  columns.foldl
    (fun kept column => (found.lookup column).elim kept fun v => Entries.put column v kept) []

/-- Whether one record comes before another in the order of a column. -/
def comesBefore (column : Value) (descending : Bool) (a b : Record) : Bool :=
  compareForOrder (a.value column) (b.value column) == if descending then .gt else .lt

/-- Puts records in the order of a column; records that are equal there keep their order. -/
def orderBy (column : Value) (descending : Bool) (found : List Record) : List Record :=
  Sorting.sort (comesBefore column descending) found

/-! ## Values in the place of records

Columns can also be asked of lists, in which a column that is among the items is a position, and of
texts, which have parts but nothing under them. -/

/-- The item at a position, which is counted from the end if it is negative. -/
def itemAt (items : List Value) (position : Int) : Except Fault Value :=
  let i := if position < 0 then position + items.length else position
  match if i < 0 then none else items[i.toNat]? with
  | some v => .ok v
  | none => .error .outOfRange

/-- The item of a list under a column. -/
def itemUnder (items : List Value) (column : Value) : Except Fault Value :=
  match column with
  | .int i => itemAt items i
  | .bool b => itemAt items (if b then 1 else 0)
  | _ => .error .wrongType

/-- Keeps the listed columns that are among some items. -/
def projectItems (items : List Value) (kept : Record) : List Value → Except Fault Record
  | [] => .ok kept
  | column :: rest =>
    if items.contains column then
      (itemUnder items column).bind fun v => projectItems items (Entries.put column v kept) rest
    else projectItems items kept rest

/-- Whether a text is part of another. -/
def isPart (part s : String) : Bool :=
  part.isEmpty || (s.splitOn part).length > 1

/-- Whether a text can be asked for a column: it must not have it. -/
def lacks (s : String) (column : Value) : Bool :=
  column.text?.any fun part => !isPart part s

/-- Keeps the listed columns of a value. -/
def projectValue (columns : List Value) : Value → Except Fault Record
  | .map found =>
    if columns.all (·.isHashable) then .ok (project columns found) else .error .wrongType
  | .list items => projectItems items [] columns
  | .tuple items => projectItems items [] columns
  | .text s => if columns.all (lacks s) then .ok [] else .error .wrongType
  | _ => if columns.isEmpty then .ok [] else .error .wrongType

/-- Keeps the listed columns of each of some values. -/
def projectAll (rows columns : Value) : Except Fault (List Record) :=
  match rows.items?, columns.items? with
  | some [], _ => .ok []
  | some rows, some columns => rows.mapM (projectValue columns)
  | _, _ => .error .wrongType

end RecordStore.Query
