import RecordStore.Schema.Basic

/-!
# Validation of records

A record is checked column by column in the order of the schema. Each column has a verdict on its
value, and the verdicts together give the record to be stored or the list of everything that is
wrong. Columns that the schema does not have are dropped. For a unique column the value to be
stored is looked up among the values taken.

A stored row that is being updated is checked by the same rules, except that defaults no longer
apply and numbered columns must be there.
-/

namespace RecordStore

/-- What becomes of the value of a column. -/
inductive Verdict where
  /-- The value is absent and stays so. -/
  | absent
  | missing
  /-- The value is absent and the default takes its place. -/
  | filled (v : Value)
  | wrongKind
  | tooLong (size : Value)
  /-- The value is stored in this form. -/
  | stored (v : Value)

/-- Whether a text is longer than the size of its column, which must be a number then. -/
def Column.exceeds (v size : Value) : Except Fault Bool :=
  match v with
  | .text s =>
    match size.number? with
    | some size => .ok (size.less (.whole s.length))
    | none => .error .wrongType
  | _ => .ok false

/-- The verdict of a column on the absence of a value. A numbered column is filled in later, unless
the row is stored already. -/
def Column.absentVerdict (column : Column) (updating : Bool) : Verdict :=
  if column.isNumbered && !updating then .absent
  else if column.isRequired || (updating && column.isNumbered) then .missing
  else
    match column.defaultValue with
    | some v => if updating then .absent else .filled v
    | none => .absent

/-- The verdict of a column on a value that its kind accepts, in canonical form. -/
def Column.sizeVerdict (column : Column) (v : Value) : Except Fault Verdict :=
  if column.size.isNull then .ok (.stored v)
  else
    (Column.exceeds v column.size).map fun exceeds =>
      if exceeds then .tooLong column.size else .stored v

/-- The verdict of a column on a value. -/
def Column.verdict (column : Column) (updating : Bool) (v : Value) : Except Fault Verdict :=
  if v.isNull then .ok (column.absentVerdict updating)
  else
    (column.kind.accepts v).bind fun accepted =>
      if accepted then column.sizeVerdict (column.kind.coerce v) else .ok .wrongKind

/-- Whether a value of a unique column is taken by another row. -/
abbrev TakenTest := Value → Value → Bool

/-- What a verdict adds to the record to be stored. -/
def Verdict.entries (name : Value) : Verdict → Record
  | .filled v => [(name, v)]
  | .stored v => [(name, v)]
  | _ => []

/-- The rules that a verdict finds broken. -/
def Verdict.broken (column : Column) (isTaken : TakenTest) : Verdict → Except Fault (List Violation)
  | .missing => .ok [.missing column.label]
  | .wrongKind => .ok [.wrongKind column.label column.kind]
  | .tooLong size => size.display.map fun shown => [.tooLong column.label shown]
  | .stored v =>
    .ok (if column.isUnique && isTaken column.name v then [.duplicate column.label] else [])
  | .absent => .ok []
  | .filled _ => .ok []

/-- Checks columns one after the other: the record to be stored and the rules that are broken. -/
def Schema.checkColumns (isTaken : TakenTest) (updating : Bool) (valueOf : Value → Value) :
    List Column → Except Fault (Record × List Violation)
  | [] => .ok ([], [])
  | column :: rest => do
    let verdict ← column.verdict updating (valueOf column.name)
    let broken ← verdict.broken column isTaken
    let (record, others) ← checkColumns isTaken updating valueOf rest
    return (verdict.entries column.name ++ record, broken ++ others)

/-- The record to be stored for given values of the columns. -/
def Schema.validateValues (schema : Schema) (isTaken : TakenTest) (updating : Bool)
    (valueOf : Value → Value) : Except Fault Record := do
  let (record, broken) ← checkColumns isTaken updating valueOf schema.columns
  if broken.isEmpty then return record else throw (.violations broken)

/-- The record to be stored for a record. -/
def Schema.validate (schema : Schema) (isTaken : TakenTest) (updating : Bool) (record : Record) :
    Except Fault Record :=
  schema.validateValues isTaken updating fun name => record.value name

/-- The record to be stored for a value, which must be a mapping. -/
def Schema.validateValue (schema : Schema) (isTaken : TakenTest) (v : Value) :
    Except Fault Record :=
  match v with
  | .map record => schema.validate isTaken false record
  | _ => if schema.columns.isEmpty then .ok [] else .error .wrongShape

/-- The values of unique columns that a validation looks up, in order, up to the first fault. -/
def Schema.lookedUp (updating : Bool) (valueOf : Value → Value) :
    List Column → List (Value × Value)
  | [] => []
  | column :: rest =>
    match column.verdict updating (valueOf column.name) with
    | .ok (.stored v) =>
      (if column.isUnique then [(column.name, v)] else []) ++ lookedUp updating valueOf rest
    | .ok _ => lookedUp updating valueOf rest
    | .error _ => []

end RecordStore
