import RecordStore.Table.Change
import RecordStore.Table.Loading

/-!
# Databases

A database is a catalog of tables whose files are in one directory. It is opened from the files
that are there: every schema file stands for a table, and a table that cannot be loaded is reported
and left out. After it has been closed it has no tables and refuses every operation.

Operations work on a site, the database together with the world, and keep what they have changed
even if they end with a fault.
-/

namespace RecordStore

/-- Steps that work on a state and may end with a fault; the state is kept. -/
abbrev Work (σ : Type) := ExceptT Fault (StateM σ)

namespace Work

/-- The result of some work, and the state after it. -/
def perform {σ α : Type} (work : Work σ α) (state : σ) : Except Fault α × σ :=
  (ExceptT.run work).run state

/-- Work that has been worked out. -/
def ofStep {σ α : Type} (step : σ → Except Fault α × σ) : Work σ α :=
  ExceptT.mk step

/-- Work that only depends on a result. -/
def ofExcept {σ α : Type} (result : Except Fault α) : Work σ α :=
  ExceptT.mk (pure result)

end Work

/-- Letters, digits and underscores that do not begin with a digit, in ASCII. -/
def isIdentifier : List Char → Bool
  | [] => false
  | c :: rest => (c.isAlpha || c == '_') && rest.all fun c => c.isAlphanum || c == '_'

/-- Makes sure that a value is a name that files can have. One line break at its end is let
through. -/
def checkName (role : NameRole) (v : Value) : Except Fault String :=
  match v with
  | .text s =>
    if isIdentifier (Numeral.dropFinalBreak s.toList) then .ok s
    else .error (.violation (.badName role s))
  | v => v.display.bind fun shown => .error (.violation (.badName role shown))

/-- A catalog of tables in one directory. -/
structure Database where
  name : String
  directory : String
  tables : List (String × Table)
  closed : Bool

/-- A database and the world it works in. -/
structure Site where
  database : Database
  world : World

namespace Database

/-! ## Opening -/

/-- The names of the tables that have a schema file in a directory, in the order of the files. -/
def tableNames (disk : Disk) (directory : String) : List String :=
  if disk.hasDirectory directory then
    (disk.namesIn (Path.ofText directory)).filterMap fun entry =>
      if entry.endsWith Table.schemaEnding then some (entry.dropEnd Table.schemaEnding.length).copy
      else none
  else []

/-- Loads tables one after the other; those that are refused are reported and left out. -/
def loadTables (database : Database) (world : World) :
    List String → Except Fault Database × World
  | [] => (.ok database, world)
  | name :: rest =>
    let (notices, loaded) := Table.load name database.directory world.disk
    let world := world.noteAll notices
    match loaded with
    | .ok table =>
      { database with tables := Entries.put name table database.tables }.loadTables world rest
    | .error fault =>
      if fault.isRefusal then
        database.loadTables (world.note (.tableSkipped name database.name fault.message)) rest
      else (.error fault, world)

/-- Opens the database of a name under a root directory, which is made if it is not there. -/
def «open» (root : String) (name : Value) (world : World) : Except Fault Database × World :=
  match checkName .database name with
  | .error fault => (.error fault, world)
  | .ok name =>
    let directory := Path.join root name
    let (made, disk) := world.disk.makeDirectories directory
    let world := { world with disk }
    match made with
    | .error fault => (.error fault, world)
    | .ok () =>
      match loadTables ⟨name, directory, [], false⟩ world (tableNames disk directory) with
      | (.ok database, world) =>
        (.ok database, world.note (.databaseOpened name database.tables.length))
      | (.error fault, world) => (.error fault, world)

/-! ## The catalog -/

/-- Makes sure that a database is open. -/
def checkOpen (database : Database) : Except Fault Unit :=
  if database.closed then .error (.closed database.name) else .ok ()

/-- The table of a name in an open database. -/
def table (database : Database) (name : String) : Except Fault Table := do
  database.checkOpen
  match database.tables.lookup name with
  | some table => return table
  | none => throw (.noTable name)

/-- Whether a database has a table of a name. -/
def hasTable (database : Database) (name : String) : Bool :=
  Entries.has name database.tables

/-- The names of the tables of an open database. -/
def listTables (database : Database) : Except Fault (List String) := do
  database.checkOpen
  return Entries.keys database.tables

/-- The schema of a table, its primary key and its indexed columns. -/
def describe (database : Database) (name : String) : Except Fault Fields := do
  let table ← database.table name
  return [("name", .text table.name), ("columns", table.schema.toValue),
    ("primaryKey", .ofOption table.schema.primaryKey),
    ("indexes", .list (Entries.keys table.indexes))]

/-- The number of rows of a table. -/
def count (database : Database) (name : String) : Except Fault Nat :=
  (database.table name).map (·.count)

/-- Closes a database; closing it again does nothing. -/
def close (database : Database) (world : World) : Database × World :=
  if database.closed then (database, world)
  else ({ database with tables := [], closed := true }, world.note (.databaseClosed database.name))

/-- Puts a table in the place of the one of its name. -/
def withTable (database : Database) (name : String) (table : Table) : Database :=
  { database with tables := Entries.put name table database.tables }

end Database

namespace Site

/-- The database as it is now. -/
def askDatabase : Work Site Database := do
  return (← get).database

/-- The table of a name. -/
def table (name : String) : Work Site Table := do
  Work.ofExcept ((← askDatabase).table name)

/-- Does an operation on a table: the table and the world change as the reply says. -/
def onTable {α : Type} (name : String) (operation : Table → Reply α) : Work Site α := do
  let reply := operation (← table name)
  modify fun site =>
    ⟨site.database.withTable name reply.table, site.world.performAll reply.effects⟩
  Work.ofExcept reply.result

/-- Makes a new table. -/
def createTable (name : Value) (source : SchemaSource) : Work Site Table := do
  let database ← askDatabase
  Work.ofExcept database.checkOpen
  let name ← Work.ofExcept (checkName .table name)
  if database.hasTable name then throw (.violation (.tableExists name))
  let (table, effects) ← Work.ofExcept (Table.create name source database.directory)
  modify fun site =>
    ⟨site.database.withTable name table,
      (site.world.performAll effects).note (.tableCreated database.name name)⟩
  return table

/-- Drops a table with its files. -/
def dropTable (name : String) : Work Site Unit := do
  let table ← table name
  modify fun site =>
    let (_, world) := table.drop site.world
    ⟨{ site.database with tables := Entries.drop name site.database.tables },
      world.note (.tableDropped site.database.name name)⟩

/-- Does some work on a database in a world. -/
def run {α : Type} (work : Work Site α) (database : Database) (world : World) :
    Except Fault α × Database × World :=
  let (result, site) := work.perform ⟨database, world⟩
  (result, site.database, site.world)

end Site

end RecordStore
