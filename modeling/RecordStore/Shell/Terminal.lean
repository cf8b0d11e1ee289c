import RecordStore.Query.Execution
import RecordStore.Registry
import RecordStore.Shell.Description
import RecordStore.Shell.Statement
import RecordStore.Shell.Wording

/-!
# The terminal

A terminal works on the databases of a registry, of which one is the current one. Every line of
input is a command of the terminal or a part of a statement, and what the terminal says about it is
kept with its state, also if the line ends with a fault.
-/

namespace RecordStore

/-- A terminal in a world: its databases, the name of the current one, the lines of the statement
that has been begun, whether it is still running, and what it has said. -/
structure Terminal where
  registry : Registry
  world : World
  current : String
  pending : List String
  running : Bool
  output : String

namespace Terminal

/-- A terminal on a database of a registry, which is opened. -/
def start (registry : Registry) (database : Value) (world : World) :
    Except Fault Terminal × World :=
  let (result, registry, world) := Hub.run (Hub.get database true) registry world
  (result.map fun opened => ⟨registry, world, opened.name, [], true, ""⟩, world)

/-- A terminal on a database under a root directory. Both are made if they are not there. -/
def «open» (root : String) (database : Value) (world : World) : Except Fault Terminal × World :=
  match Registry.open root world with
  | (.ok registry, world) => start registry database world
  | (.error fault, world) => (.error fault, world)

/-- Says a line. -/
def say (s : String) : Work Terminal Unit :=
  modify fun terminal => { terminal with output := terminal.output ++ Shell.line s }

/-- Shows a text of several lines. -/
def display (text : String) : Work Terminal Unit :=
  modify fun terminal => { terminal with output := terminal.output ++ text }

/-- Does some work on the registry. -/
def onHub {α : Type} (work : Work Hub α) : Work Terminal α :=
  Work.ofStep fun terminal =>
    let (result, registry, world) := Hub.run work terminal.registry terminal.world
    (result, { terminal with registry, world })

/-- The current database. After the registry has been closed it is closed too. -/
def database (terminal : Terminal) : Database :=
  (terminal.registry.databases.lookup terminal.current).getD
    (terminal.registry.closedDatabase terminal.current)

/-- The current database as it is now. -/
def askDatabase : Work Terminal Database := do
  return (← get).database

/-- Does some work on the current database. -/
def onDatabase {α : Type} (work : Work Site α) : Work Terminal α :=
  Work.ofStep fun terminal =>
    let (result, database, world) := Site.run work terminal.database terminal.world
    (result, { terminal with registry := terminal.registry.replace database, world })

/-- Says the message of a fault if it is a refusal; any other fault stays. -/
def sayRefusal (work : Work Terminal Unit) : Work Terminal Unit :=
  tryCatch work fun fault =>
    if fault.isRefusal then say ("Error: " ++ fault.message) else throw fault

/-! ## Commands -/

/-- Closes all databases and stops. -/
def quit : Work Terminal Unit := do
  say Shell.farewell
  modify fun terminal => { terminal with running := false }
  onHub Hub.close

/-- Lists the databases and marks the current one. -/
def showDatabases : Work Terminal Unit := do
  let terminal ← get
  let names ← Work.ofExcept (terminal.registry.names terminal.world.disk)
  names.forM fun name => say ((if name = terminal.current then "* " else "  ") ++ name)

/-- Lists the tables of the current database with their numbers of rows. -/
def showTables : Work Terminal Unit := do
  let database ← askDatabase
  let names ← Work.ofExcept database.listTables
  if names.isEmpty then say "No tables found."
  else
    say ("\nTables in " ++ database.name ++ ":")
    names.forM fun name => do
      let n ← Work.ofExcept (database.count name)
      say ("  " ++ name ++ " (" ++ toString n ++ " rows)")
    say ""

/-- Describes the columns of a table. -/
def showSchema (name : String) : Work Terminal Unit := do
  let database ← askDatabase
  match database.table name with
  | .error fault => say ("Error: " ++ fault.message)
  | .ok table =>
    display (Shell.descriptionHead table.name)
    table.schema.columns.forM fun column => do
      display (← Work.ofExcept (Shell.columnLine column))
    say ""

/-- Says the number of rows of a table. -/
def showCount (name : String) : Work Terminal Unit :=
  sayRefusal do
    let n ← Work.ofExcept ((← askDatabase).count name)
    say (name ++ ": " ++ toString n ++ " rows")

/-- Lists the indexed columns of a table. -/
def showIndexes (name : String) : Work Terminal Unit :=
  sayRefusal do
    let table ← Work.ofExcept ((← askDatabase).table name)
    let columns := Entries.keys table.indexes
    if columns.isEmpty then say ("No indexes on " ++ name)
    else
      say ("\nIndexes on " ++ name ++ ":")
      columns.forM fun column => say ("  INDEX on " ++ column.label)
      say ""

/-- Does something with the table that a command names. -/
def withArgument (command argument : String) (action : String → Work Terminal Unit) :
    Work Terminal Unit :=
  if argument.isEmpty then say ("Usage: " ++ command ++ " <table_name>") else action argument

/-- A command without blanks around it: its first word in lower case, and the rest. -/
def splitCommand (text : String) : String × String :=
  let cs := text.toList
  (Text.lower (String.ofList (cs.takeWhile fun c => !Text.isBlank c)),
    Text.strip (String.ofList (cs.dropWhile fun c => !Text.isBlank c)))

/-- Carries out a command of the terminal. -/
def runCommand (text : String) : Work Terminal Unit :=
  let (command, argument) := splitCommand text
  match command with
  | ".quit" => quit
  | ".exit" => quit
  | ".q" => quit
  | ".help" => say Shell.help
  | ".databases" => showDatabases
  | ".tables" => showTables
  | ".schema" => withArgument command argument showSchema
  | ".count" => withArgument command argument showCount
  | ".indexes" => withArgument command argument showIndexes
  | _ => do
    say ("Unknown command: " ++ command)
    say "Type .help for available commands."

/-! ## Statements -/

/-- Shows the result of a query. -/
def showResult (result : Query.Result) : Work Terminal Unit := do
  display (← Work.ofExcept (Shell.resultText result))

/-- Makes a database the current one; it is opened if it is not yet. -/
def switch (name : String) : Work Terminal Unit := do
  let opened ← onHub (Hub.get (.text name) true)
  modify fun terminal => { terminal with current := opened.name }

/-- Carries out a statement. It is read first, so that a change of the current database happens
before it is executed there. -/
def runStatement (text : String) : Work Terminal Unit :=
  sayRefusal do
    match ← Work.ofExcept (Query.Command.ofText text) with
    | .use name => switch name
    | _ => pure ()
    showResult (← onDatabase (Query.execute text))

/-! ## Input -/

/-- Takes one line of input. -/
def processLine (line : String) : Work Terminal Unit := do
  let (input, pending) := Shell.readLine (← get).pending line
  modify fun terminal => { terminal with pending }
  match input with
  | .nothing => pure ()
  | .continued => pure ()
  | .command text => runCommand text
  | .statement text => runStatement text

/-- The prompt for the next line. -/
def prompt (terminal : Terminal) : String :=
  if terminal.pending.isEmpty then Shell.firstPrompt else Shell.nextPrompt

/-- What happens when the input ends. -/
def finish : Work Terminal Unit := do
  say ""
  quit

/-- Takes lines with a prompt before each until the terminal is left or the input ends. -/
def interact : List String → Work Terminal Unit
  | [] => do
    if (← get).running then
      display (← get).prompt
      finish
  | line :: rest => do
    if (← get).running then
      display (← get).prompt
      processLine line
      interact rest

/-- Greets and takes all lines of the input. -/
def converse (lines : List String) : Work Terminal Unit := do
  say Shell.banner
  interact lines

/-- Does some work on a terminal: how it ends, and the terminal after it. -/
def run {α : Type} (work : Work Terminal α) (terminal : Terminal) : Except Fault α × Terminal :=
  work.perform terminal

end Terminal

end RecordStore
