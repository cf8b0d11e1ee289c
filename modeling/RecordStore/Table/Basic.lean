import RecordStore.Filter.Operator
import RecordStore.Index
import RecordStore.Schema.Validation
import RecordStore.World

/-!
# Tables

A table is a schema, the rows in the order in which they were inserted, each under an id that is
never given again, and indexes on some of the columns. Every unique column has an index.

Three snapshot files in the directory of the database stand for a table: one for the schema, one
for the rows and one that names the indexed columns with their contents.
-/

namespace RecordStore

/-- A table of records. -/
structure Table where
  name : String
  schema : Schema
  directory : String
  rows : List (RowId × Row)
  nextRowId : Number
  indexes : List (Value × Index)

/-- How an operation on a table ends: its result, the table as it is then, and what it does to the
world. The table may have changed even if the result is a fault. -/
structure Reply (α : Type) where
  result : Except Fault α
  table : Table
  effects : List Effect

namespace Reply

/-- An operation that ends with a fault before it has done anything. -/
def refused {α : Type} (table : Table) (fault : Fault) : Reply α :=
  ⟨.error fault, table, []⟩

/-- An operation that does nothing. -/
def unchanged {α : Type} (table : Table) (result : α) : Reply α :=
  ⟨.ok result, table, []⟩

end Reply

namespace Table

/-! ## Files -/

/-- How the names of schema files end. -/
def schemaEnding : String := "_schema.json"

/-- The path of the schema file of a table. -/
def schemaPath (directory name : String) : String :=
  Path.join directory (name ++ schemaEnding)

/-- The path of the file of rows of a table. -/
def dataPath (directory name : String) : String :=
  Path.join directory (name ++ ".json")

/-- The path of the index file of a table. -/
def indexPath (directory name : String) : String :=
  Path.join directory (name ++ "_index.json")

/-- The rows of a table as a value, with the id of the next row. -/
def dataValue (table : Table) : Value :=
  Value.ofFields
    [("next_row_id", .ofNumber table.nextRowId),
      ("rows", .map (table.rows.map fun (id, row) => (id, row.toValue)))]

/-- The indexes of a table as a value. -/
def indexesValue (table : Table) : Value :=
  .map (table.indexes.map fun (column, index) => (column, index.toValue))

/-- Writes the index file. -/
def saveIndexes (table : Table) : Effect :=
  .save (indexPath table.directory table.name) table.indexesValue

/-- Writes the rows and then the indexes. -/
def saveAll (table : Table) : List Effect :=
  [.save (dataPath table.directory table.name) table.dataValue, table.saveIndexes]

/-- Writes the schema. -/
def saveSchema (table : Table) : Effect :=
  .save (schemaPath table.directory table.name) table.schema.toValue

/-! ## Rows and indexes -/

/-- The table of a schema without rows and indexes. -/
def empty (name : String) (schema : Schema) (directory : String) : Table :=
  ⟨name, schema, directory, [], .whole 1, []⟩

/-- The row under an id. -/
def row? (table : Table) (id : RowId) : Option Row :=
  table.rows.lookup id

/-- Puts a row under an id: in place if there is one already, at the end otherwise. -/
def withRow (table : Table) (id : RowId) (row : Row) : Table :=
  { table with rows := Entries.put id row table.rows }

/-- Removes the row under an id. -/
def withoutRow (table : Table) (id : RowId) : Table :=
  { table with rows := Entries.drop id table.rows }

/-- The row under an id that an index gives. It is missing if two rows have come under one id and
one of them has been removed. -/
def rowAt (table : Table) (id : RowId) : Except Fault Row :=
  match table.row? id with
  | some row => .ok row
  | none => .error .missingRow

/-- The index of a column. -/
def index? (table : Table) (column : Value) : Option Index :=
  table.indexes.lookup column

/-- The number of rows. -/
def count (table : Table) : Nat :=
  table.rows.length

/-- The records of the rows, in order. -/
def scan (table : Table) : Except Fault (List (RowId × Record)) :=
  table.rows.mapM fun (id, row) => row.toRecord.map fun record => (id, record)

/-- The row under an id as a value, or nothing. -/
def get (table : Table) (id : Value) : Except Fault Value :=
  if id.isHashable then
    match table.row? id with
    | some (.other .null) => .ok .null
    | some row => row.toRecord.map .map
    | none => .ok .null
  else .error .wrongType

/-- Makes sure that a column can be indexed. -/
def checkIndexable (schema : Schema) (column : Value) : Except Fault Unit :=
  match schema.column? column with
  | none => .error (.violation (.noSuchColumn column.label))
  | some c =>
    if c.kind.isIndexable then .ok ()
    else .error (.violation (.notIndexable column.label c.kind))

/-- Builds an index on a column from the rows. -/
def buildIndex (table : Table) (column : Value) : Except Fault (Table × Notice) := do
  checkIndexable table.schema column
  let index ← Index.ofRows column table.rows
  return ({ table with indexes := Entries.put column index table.indexes },
    .indexBuilt column.label index.size)

/-- Builds indexes on columns one after the other. -/
def buildIndexes (table : Table) : List Value → Except Fault (Table × List Notice)
  | [] => .ok (table, [])
  | column :: rest => do
    let (table, notice) ← table.buildIndex column
    let (table, notices) ← table.buildIndexes rest
    return (table, notice :: notices)

/-- Builds the indexes on unique columns that are not there. -/
def ensureKeyIndexes (table : Table) : Except Fault (Table × List Notice) :=
  table.buildIndexes
    (table.schema.uniqueNames.filter fun column => !Entries.has column table.indexes)

/-- Changes indexes one after the other, up to the first fault. -/
def changeIndexes (change : Index → Except Fault Index) :
    List (Value × Index) → List (Value × Index) × Option Fault
  | [] => ([], none)
  | (column, index) :: rest =>
    match change index with
    | .ok index =>
      let (rest, fault) := changeIndexes change rest
      ((column, index) :: rest, fault)
    | .error fault => ((column, index) :: rest, some fault)

/-- Enters a row into the indexes. -/
def indexRow (table : Table) (id : RowId) (row : Row) : Table × Option Fault :=
  let (indexes, fault) := changeIndexes (fun index => index.addRow id row) table.indexes
  ({ table with indexes }, fault)

/-- Takes a row out of the indexes. -/
def unindexRow (table : Table) (id : RowId) (row : Row) : Table × Option Fault :=
  let (indexes, fault) := changeIndexes (fun index => index.removeRow id row) table.indexes
  ({ table with indexes }, fault)

/-! ## Making and dropping tables -/

/-- Makes an empty table and writes its files, the schema first. -/
def create (name : String) (source : SchemaSource) (directory : String) :
    Except Fault (Table × List Effect) := do
  let schema ← Schema.ofSource source
  let (table, notices) ← (empty name schema directory).ensureKeyIndexes
  return (table, notices.map .note ++ table.saveSchema :: table.saveAll)

/-- Removes the files of a table, the schema last, and empties it. Files that cannot be removed are
reported. -/
def drop (table : Table) (world : World) : Table × World :=
  let (world, first) := world.removeFile (dataPath table.directory table.name)
  let (world, second) := world.removeFile (indexPath table.directory table.name)
  let (world, third) := world.removeFile (schemaPath table.directory table.name)
  let world := if first && second && third then world else world.note (.filesRemain table.name)
  ({ table with rows := [], indexes := [] }, world)

end Table

end RecordStore
