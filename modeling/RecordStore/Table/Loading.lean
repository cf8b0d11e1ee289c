import RecordStore.Table.Basic

/-!
# Loading tables

A table is rebuilt from its snapshot files. The rows may also be a plain list of records, which are
numbered from one. The next row gets an id above all that are there, and not below the one that was
written. The index file only says which columns are indexed; what the indexes hold is worked out
from the rows, so an index file that is older or newer than the rows does no harm, and one that
cannot be read is reported and left out.
-/

namespace RecordStore.Table

/-- The rows of a mapping from ids, written as text, to rows. -/
def rowsOfEntries (rows : List (Int × Row)) :
    List (Value × Value) → Except Fault (List (Int × Row))
  | [] => .ok rows
  | (key, v) :: rest =>
    match key.text?.bind Number.integerOfText? with
    | some id => rowsOfEntries (Entries.put id (.ofValue v) rows) rest
    | none => .error .badNumeral

/-- The rows of a list of records, numbered from the given id on. -/
def rowsOfList (id : Int) : List Value → List (Int × Row)
  | [] => []
  | v :: rest => (id, .ofValue v) :: rowsOfList (id + 1) rest

/-- The greatest id of some rows, or zero if there are none. -/
def lastId : List (Int × Row) → Int
  | [] => 0
  | (id, _) :: rest => rest.foldl (fun last entry => max last entry.1) id

/-- The rows that a snapshot of rows holds, and the id of the next one. -/
def rowsOfValue (data : Value) : Except Fault (List (Int × Row) × Number) :=
  if data.isTruthy then
    match data with
    | .list items =>
      let rows := rowsOfList 1 items
      .ok (rows, .whole (max 1 (lastId rows + 1)))
    | .map entries =>
      match (Value.lookup? "rows" entries).getD (.map []) with
      | .map rowEntries => do
        let rows ← rowsOfEntries [] rowEntries
        match ((Value.lookup? "next_row_id" entries).getD (.int 1)).number? with
        | some stored => return (rows, stored.larger (.whole (lastId rows + 1)))
        | none => throw .wrongType
      | _ => .error .wrongShape
    | _ => .error .wrongShape
  else .ok ([], .whole 1)

/-- The columns that a snapshot of indexes names. -/
def indexedColumns (v : Value) : Except Fault (List Value) :=
  if v.isTruthy then
    match v.items? with
    | some columns => .ok columns
    | none => .error .wrongType
  else .ok []

/-- Builds the indexes that a snapshot names, and reports those on columns that are not there. -/
def restoreIndexes (table : Table) (notices : List Notice) :
    List Value → List Notice × Except Fault Table
  | [] => (notices, .ok table)
  | column :: rest =>
    if !column.isHashable then (notices, .error .wrongType)
    else if table.schema.has column then
      match table.buildIndex column with
      | .ok (table, notice) => table.restoreIndexes (notices ++ [notice]) rest
      | .error fault => (notices, .error fault)
    else table.restoreIndexes (notices ++ [.indexIgnored table.name column.label]) rest

/-- Rebuilds the indexes of a table from the rows and the index file. -/
def loadIndexes (table : Table) (disk : Disk) : List Notice × Except Fault Table :=
  let restored :=
    match disk.readSnapshot (indexPath table.directory table.name) with
    | .ok v =>
      match indexedColumns v with
      | .ok columns => table.restoreIndexes [] columns
      | .error fault => ([], .error fault)
    | .error fault =>
      match fault with
      | .unreadable _ => ([.indexUnreadable table.name fault.message], .ok table)
      | fault => ([], .error fault)
  match restored with
  | (notices, .ok table) =>
    match table.ensureKeyIndexes with
    | .ok (table, more) => (notices ++ more, .ok table)
    | .error fault => (notices, .error fault)
  | (notices, .error fault) => (notices, .error fault)

/-- The schema and the rows that the files of a table hold. -/
def loadRows (name directory : String) (disk : Disk) : Except Fault Table := do
  let schemaData ← disk.readSnapshot (schemaPath directory name)
  if schemaData.isNull then throw (.noTable name)
  let schema ← Schema.ofValue schemaData
  let (rows, next) ← rowsOfValue (← disk.readSnapshot (dataPath directory name))
  let rows := rows.map fun (id, row) => (Value.int id, row)
  return { empty name schema directory with rows, nextRowId := next }

/-- Loads a table from its files; gives also what there is to report. -/
def load (name directory : String) (disk : Disk) : List Notice × Except Fault Table :=
  match loadRows name directory disk with
  | .ok table => table.loadIndexes disk
  | .error fault => ([], .error fault)

end RecordStore.Table
