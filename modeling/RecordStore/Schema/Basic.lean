import RecordStore.Schema.Column
import RecordStore.Value.Equality

/-!
# Schemas

The columns of a table in order, and its primary key. A schema is built from descriptions of its
columns; everything that is wrong with any of them is reported together.
-/

namespace RecordStore

/-- The columns of a table. -/
structure Schema where
  columns : List Column
  primaryKey : Option Value

/-- What a column is made from. -/
inductive ColumnSource where
  /-- A column that has been declared before. -/
  | declared (column : Column)
  /-- The properties of a column. -/
  | described (properties : Value)

/-- What a schema is made from. -/
inductive SchemaSource where
  | schema (schema : Schema)
  | columns (sources : List (Value × ColumnSource))
  /-- A value that should be a mapping of columns. -/
  | value (v : Value)

namespace Schema

/-- The schema without columns. -/
def empty : Schema :=
  ⟨[], none⟩

/-- The column of a name. -/
def column? (schema : Schema) (name : Value) : Option Column :=
  schema.columns.find? (·.name == name)

/-- Whether a schema has a column of a name. -/
def has (schema : Schema) (name : Value) : Bool :=
  schema.columns.any (·.name == name)

/-- The names of the columns. -/
def names (schema : Schema) : List Value :=
  schema.columns.map (·.name)

/-- The names of the unique columns. -/
def uniqueNames (schema : Schema) : List Value :=
  (schema.columns.filter (·.isUnique)).map (·.name)

/-- The names of the columns that number their rows. -/
def autoNames (schema : Schema) : List Value :=
  (schema.columns.filter (·.isNumbered)).map (·.name)

/-- Adds a column at the end. There is only one primary key, unless its name counts as false. -/
def add (schema : Schema) (column : Column) : Except Violation Schema :=
  if schema.has column.name then .error (.columnExists column.label)
  else if column.isPrimaryKey then
    if schema.primaryKey.any (·.isTruthy) then .error .secondKey
    else .ok ⟨schema.columns ++ [column], column.name.present?⟩
  else .ok ⟨schema.columns ++ [column], schema.primaryKey⟩

/-- Makes a column of a name from a source. -/
def columnOf (name : Value) : ColumnSource → Except Fault Column
  | .declared column => .ok column
  | .described properties => Column.ofValue name properties

/-- Adds the column of a source, or gives the rules that it breaks; other faults end everything. -/
def addSource (schema : Schema) (name : Value) (source : ColumnSource) :
    Except Fault (Except (List Violation) Schema) :=
  match columnOf name source with
  | .ok column =>
    if column.name.isHashable then .ok ((schema.add column).mapError ([·]))
    else .error .wrongType
  | .error (.violations all) => .ok (.error all)
  | .error fault => .error fault

/-- Adds columns one after the other and collects the rules that are broken. -/
def addAll (schema : Schema) (broken : List Violation) :
    List (Value × ColumnSource) → Except Fault (Schema × List Violation)
  | [] => .ok (schema, broken)
  | (name, source) :: rest => do
    match ← addSource schema name source with
    | .ok schema => addAll schema broken rest
    | .error all => addAll schema (broken ++ all) rest

/-- The schema with the given columns. -/
def ofColumns (sources : List (Value × ColumnSource)) : Except Fault Schema := do
  if sources.isEmpty then throw (.violation .noColumns)
  let (schema, broken) ← addAll empty [] sources
  if broken.isEmpty then return schema else throw (.violations broken)

/-- The schema that a value describes: a mapping of columns that is not empty. -/
def ofValue (v : Value) : Except Fault Schema :=
  if v.isTruthy then
    match v with
    | .map entries =>
      ofColumns (entries.map fun (name, properties) => (name, .described properties))
    | _ => .error .wrongShape
  else .error (.violation .noColumns)

/-- The schema that a source describes. -/
def ofSource : SchemaSource → Except Fault Schema
  | .schema schema => .ok schema
  | .columns sources => ofColumns sources
  | .value v => ofValue v

/-- The descriptions of all columns. -/
def toRecord (schema : Schema) : Record :=
  schema.columns.map fun column => (column.name, .ofFields column.toFields)

/-- The description of a schema as a value. -/
def toValue (schema : Schema) : Value :=
  .map schema.toRecord

end Schema

end RecordStore
