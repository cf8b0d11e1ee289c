import RecordStore.Number.Basic

/-!
# Notices

What the store reports about its work besides the results of its operations: a record of everything
that it does, for those who follow its progress, and of everything that goes wrong without ending
an operation.
-/

namespace RecordStore

/-- How important a notice is. -/
inductive Level where
  | debug
  | info
  | warning
  | error
  deriving DecidableEq

/-- The name of a level. -/
def Level.name : Level → String
  | .debug => "DEBUG"
  | .info => "INFO"
  | .warning => "WARNING"
  | .error => "ERROR"

/-- Whether a level is for the attention of everyone. -/
def Level.isAlarming : Level → Bool
  | .warning => true
  | .error => true
  | _ => false

/-- Something worth reporting. -/
inductive Notice where
  | saved (path : String)
  | saveFailed (path : String)
  | removalFailed (path : String)
  | indexBuilt (column : String) (keys : Nat)
  | indexUnreadable (table reason : String)
  | indexIgnored (table column : String)
  | rowInserted (row : Number) (table : String)
  | rowsUpdated (count : Nat) (table : String)
  | rowsDeleted (count : Nat) (table : String)
  | indexCreated (table column : String)
  | filesRemain (table : String)
  | tableSkipped (table database reason : String)
  | databaseOpened (database : String) (tables : Nat)
  | databaseClosed (database : String)
  | tableCreated (database table : String)
  | tableDropped (database table : String)
  | queryFailed (reason query : String)
  | databaseSkipped (database reason : String)
  | reloaded (count : Nat) (root : String)
  | databaseExists (database : String)
  deriving DecidableEq

namespace Notice

/-- The level of a notice. -/
def level : Notice → Level
  | .saved _ => .debug
  | .saveFailed _ => .error
  | .removalFailed _ => .error
  | .indexBuilt .. => .debug
  | .indexUnreadable .. => .warning
  | .indexIgnored .. => .warning
  | .rowInserted .. => .debug
  | .rowsUpdated .. => .debug
  | .rowsDeleted .. => .debug
  | .indexCreated .. => .info
  | .filesRemain _ => .error
  | .tableSkipped .. => .warning
  | .databaseOpened .. => .info
  | .databaseClosed _ => .info
  | .tableCreated .. => .info
  | .tableDropped .. => .info
  | .queryFailed .. => .debug
  | .databaseSkipped .. => .warning
  | .reloaded .. => .info
  | .databaseExists _ => .info

/-- The name under which the part of the store that reports is known. -/
def source : Notice → String
  | .saved _ => "alphadb.storage.engine"
  | .saveFailed _ => "alphadb.storage.engine"
  | .removalFailed _ => "alphadb.storage.engine"
  | .indexBuilt .. => "alphadb.indexing.hash_index"
  | .indexUnreadable .. => "alphadb.core.table"
  | .indexIgnored .. => "alphadb.core.table"
  | .rowInserted .. => "alphadb.core.table"
  | .rowsUpdated .. => "alphadb.core.table"
  | .rowsDeleted .. => "alphadb.core.table"
  | .indexCreated .. => "alphadb.core.table"
  | .filesRemain _ => "alphadb.core.table"
  | .tableSkipped .. => "alphadb.core.database"
  | .databaseOpened .. => "alphadb.core.database"
  | .databaseClosed _ => "alphadb.core.database"
  | .tableCreated .. => "alphadb.core.database"
  | .tableDropped .. => "alphadb.core.database"
  | .queryFailed .. => "alphadb.core.executor"
  | .databaseSkipped .. => "alphadb.core.registry"
  | .reloaded .. => "alphadb.core.registry"
  | .databaseExists _ => "alphadb.web.app"

/-- The number of a row as an integer, cut towards zero. -/
def rowText : Number → String
  | .flag b => if b then "1" else "0"
  | .whole i => toString i
  | .binary x => (x.value?.map fun q => toString (q.num.tdiv q.den)).getD ""

/-- The wording of a notice. -/
def message : Notice → String
  | .saved path => "Saved " ++ path
  | .saveFailed path => "Error saving " ++ path
  | .removalFailed path => "Error removing " ++ path
  | .indexBuilt column keys => "Built index on " ++ column ++ " (" ++ toString keys ++ " keys)"
  | .indexUnreadable table reason =>
    "Unreadable index file for " ++ table ++ ", keeping key indexes only: " ++ reason
  | .indexIgnored table column => "Ignoring index on unknown column " ++ table ++ "." ++ column
  | .rowInserted row table => "Inserted row " ++ rowText row ++ " into " ++ table
  | .rowsUpdated count table => "Updated " ++ toString count ++ " row(s) in " ++ table
  | .rowsDeleted count table => "Deleted " ++ toString count ++ " row(s) from " ++ table
  | .indexCreated table column => "Created index on " ++ table ++ "." ++ column
  | .filesRemain table => "Table " ++ table ++ " was dropped but some files remain"
  | .tableSkipped table database reason =>
    "Skipping table " ++ table ++ " in " ++ database ++ ": " ++ reason
  | .databaseOpened database tables =>
    "Opened database " ++ database ++ " (" ++ toString tables ++ " tables)"
  | .databaseClosed database => "Closed database " ++ database
  | .tableCreated database table => "Created table " ++ database ++ "." ++ table
  | .tableDropped database table => "Dropped table " ++ database ++ "." ++ table
  | .queryFailed reason query => "Query failed: " ++ reason ++ " (" ++ query ++ ")"
  | .databaseSkipped database reason => "Skipping database " ++ database ++ ": " ++ reason
  | .reloaded count root => "Reloaded " ++ toString count ++ " database(s) from " ++ root
  | .databaseExists database => "Database " ++ database ++ " already exists on disk"

end Notice

end RecordStore
