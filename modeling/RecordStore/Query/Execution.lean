import RecordStore.Database
import RecordStore.Query.Reading
import RecordStore.Query.Result
import RecordStore.Query.Script
import RecordStore.Query.Shaping

/-!
# Executing queries

A query is read and carried out on the tables of a database, and its outcome becomes a result. A
refusal of the store becomes the error of the result; any other fault ends the execution.
-/

namespace RecordStore.Query

/-- The conditions that a command states, as tables take them. -/
def conditionsOf (condition : Option Condition) : Value :=
  condition.elim .null Condition.toValue

/-- The message about an inserted record with a given primary key. -/
def insertMessage (key : Value) : Except Fault String :=
  if key.isNull then .ok "Record inserted"
  else key.display.map ("Record inserted with ID: " ++ ·)

/-- Inserts a record and tells the primary key under which it is found. -/
def runInsert (table : String) (given : Fields) : Work Site Result := do
  let stored ← Site.onTable table (·.insert (.ofFields given))
  let key := ((← Site.table table).schema.primaryKey.map stored.value).getD .null
  let message ← Work.ofExcept (insertMessage key)
  return .found message (.map stored)

/-- Shapes the records found by a selection. -/
def Selection.shape (selection : Selection) (found : List Record) : List Record :=
  let found :=
    if selection.isWhole then found else found.map (project (selection.columns.map .text))
  let found := selection.orderBy.elim found fun column =>
    Query.orderBy (.text column) selection.descending found
  selection.limit.elim found fun limit => found.take limit

/-- Finds the selected records. -/
def runSelect (selection : Selection) : Work Site Result := do
  let table ← Site.table selection.table
  let found ← Work.ofExcept (table.find (conditionsOf selection.condition))
  let shaped := selection.shape found
  return .found ("Found " ++ toString shaped.length ++ " record(s)") (.list (shaped.map .map))

/-- Carries out a command. -/
def run : Command → Work Site Result
  | .select selection => runSelect selection
  | .insert table columns values => runInsert table (Command.recordOf columns values)
  | .update table assignments condition => do
    let n ← Site.onTable table fun t =>
      t.update (conditionsOf condition) (.ofFields assignments)
    return .done ("Updated " ++ toString n ++ " record(s)")
  | .delete table condition => do
    let n ← Site.onTable table (·.delete (conditionsOf condition))
    return .done ("Deleted " ++ toString n ++ " record(s)")
  | .createTable table columns => do
    let sources := columns.map fun (name, declared) =>
      (Value.text name, ColumnSource.described (.ofFields declared))
    let _ ← Site.createTable (.text table) (.columns sources)
    return .done ("Table " ++ table ++ " created")
  | .createIndex table column _ => do
    Site.onTable table (·.createIndex (.text column))
    return .done ("Index created on " ++ table ++ "." ++ column)
  | .dropTable table => do
    Site.dropTable table
    return .done ("Table " ++ table ++ " dropped")
  | .use database => return .done ("Using database " ++ database)

/-- Carries out what a query was read as; refusals become results. The query itself is only part of
the notice about a failure. -/
def executeCommand (read : Except Fault Command) (query : String) : Work Site Result :=
  tryCatch
    (do
      let command ← Work.ofExcept read
      run command)
    fun fault => do
      if fault.isRefusal then
        modify fun site =>
          { site with world := site.world.note (.queryFailed fault.message query) }
        return .failure fault.message
      else throw fault

/-- Reads and carries out a query; refusals become results. -/
def execute (text : String) : Work Site Result :=
  executeCommand (Command.ofText text) text

/-- Executes the statements of a script one after the other. -/
def executeAll (script : String) : Work Site (List Result) :=
  (Script.statements script).mapM execute

end RecordStore.Query
