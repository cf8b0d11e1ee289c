import RecordStore.Kind
import RecordStore.Query.Problem
import RecordStore.Text.Quoted

/-!
# Faults

Everything that can go wrong, by cause. Most faults are refusals of the store: a query, a record or
a declaration that breaks a rule. The others arise below the rules: a value of the wrong shape, a
number out of range, a path that is in the way. Only refusals become the error of a query result.

The wording of every fault is in `Fault.message` and in `Violation.message`, and nowhere else.
-/

namespace RecordStore

/-- What a name is for. -/
inductive NameRole where
  | table
  | database
  deriving DecidableEq

/-- The word for what a name is for. -/
def NameRole.word : NameRole → String
  | .table => "table"
  | .database => "database"

/-- A rule of a declaration or of a record that is broken. Values that are part of a message are
given by their text. -/
inductive Violation where
  | unknownKind (shown : String)
  | badSize (column shown : String)
  | badDefault (column reason : String)
  | neverUnique (column : String) (kind : Kind)
  | autoNotNumber (column : String)
  | columnExists (column : String)
  | secondKey
  | noColumns
  | missing (column : String)
  | wrongKind (column : String) (kind : Kind)
  | tooLong (column size : String)
  | duplicate (column : String)
  | unknownColumn (shown : String)
  | noSuchColumn (column : String)
  | notIndexable (column : String) (kind : Kind)
  | noIndex (column : String)
  | tableExists (table : String)
  | badName (role : NameRole) (shown : String)
  | unknownOperator (operator : String)
  deriving DecidableEq

/-- The wording of a violation. -/
def Violation.message : Violation → String
  | .unknownKind shown => "Unknown column type: " ++ shown
  | .badSize column shown => "Invalid size for '" ++ column ++ "': " ++ shown
  | .badDefault column reason => "Invalid default for '" ++ column ++ "': " ++ reason
  | .neverUnique column kind =>
    "Column '" ++ column ++ "' of type " ++ kind.name ++ " cannot be unique"
  | .autoNotNumber column => "AUTO_INCREMENT column '" ++ column ++ "' must be a number"
  | .columnExists column => "Column '" ++ column ++ "' already exists"
  | .secondKey => "Table already has a primary key"
  | .noColumns => "A table needs at least one column"
  | .missing column => "Required column '" ++ column ++ "' is missing"
  | .wrongKind column kind => "Invalid type for '" ++ column ++ "': expected " ++ kind.name
  | .tooLong column size => "Value for '" ++ column ++ "' exceeds " ++ size ++ " characters"
  | .duplicate column => "Duplicate value for unique column '" ++ column ++ "'"
  | .unknownColumn shown => "Unknown column '" ++ shown ++ "'"
  | .noSuchColumn column => "Column '" ++ column ++ "' does not exist"
  | .notIndexable column kind => "Cannot index column '" ++ column ++ "' of type " ++ kind.name
  | .noIndex column => "No index on column '" ++ column ++ "'"
  | .tableExists table => "Table '" ++ table ++ "' already exists"
  | .badName role shown => "Invalid " ++ role.word ++ " name: '" ++ shown ++ "'"
  | .unknownOperator operator => "Unknown operator: " ++ operator

/-- A cause for which an operation ends without its result. -/
inductive Fault where
  /-- Rules are broken; there is at least one violation. -/
  | violations (all : List Violation)
  | noTable (table : String)
  | noDatabase (database : String)
  /-- A write would give two rows the same primary key. -/
  | duplicateKey
  /-- An index that enforces a key cannot be dropped. -/
  | keyIndex (column : String)
  | badQuery (problem : Query.Problem)
  /-- A snapshot file cannot be read. -/
  | unreadable (path : String)
  | closed (database : String)
  /-- A value of a type that is never a date. -/
  | neverDate (typeName : String)
  | badDate (text : String)
  /-- A default does not fit the kind of its column. -/
  | expectedKind (kind : Kind)
  | notNumber (text : String)
  /-- A numeral with more digits than are read. -/
  | longNumeral (digits : Nat)
  /-- An integer with more digits than are written. -/
  | longInteger
  /-- A numeral with characters that are no decimal digits. -/
  | badNumeral
  /-- A list that is no list of pairs. -/
  | notPairs
  /-- A value of a type that has no such operation. -/
  | wrongType
  /-- A value without the parts that a mapping has. -/
  | wrongShape
  /-- A row that is not there, though an index gives its id. -/
  | missingRow
  /-- A position beyond the ends of a list. -/
  | outOfRange
  /-- An integer too large for a floating-point number. -/
  | overflow
  /-- A path with a null character. -/
  | badPath
  /-- An address that does not have the form of one. -/
  | badAddress
  /-- A host whose labels are empty or too long. -/
  | badHost
  /-- A line break where a single line is needed. -/
  | brokenLine
  | pathExists (path : String)
  | notDirectory (path : String)
  | isDirectory (path : String)
  | noFile (path : String)
  | nameTooLong (path : String)
  | notText
  deriving DecidableEq

namespace Fault

/-- A fault of one broken rule. -/
def violation (v : Violation) : Fault :=
  .violations [v]

/-- Whether a fault is a refusal of the store, to be reported in a result. -/
def isRefusal : Fault → Bool
  | .violations _ => true
  | .noTable _ => true
  | .noDatabase _ => true
  | .duplicateKey => true
  | .keyIndex _ => true
  | .badQuery _ => true
  | .unreadable _ => true
  | .closed _ => true
  | _ => false

/-- Whether a fault is about what was asked for not being there. -/
def isNotFound : Fault → Bool
  | .noTable _ => true
  | .noDatabase _ => true
  | _ => false

/-- Whether a fault is a failure of the file system. -/
def isFileFault : Fault → Bool
  | .pathExists _ => true
  | .notDirectory _ => true
  | .isDirectory _ => true
  | .noFile _ => true
  | .nameTooLong _ => true
  | _ => false

/-- The hint that ends the message about an integer of too many digits. -/
def digitHint : String :=
  "use sys.set_int_max_str_digits() to increase the limit"

/-- The wording of a fault. -/
def message : Fault → String
  | .violations all => ", ".intercalate (all.map (·.message))
  | .noTable table => "Table '" ++ table ++ "' does not exist"
  | .noDatabase database => "Database '" ++ database ++ "' does not exist"
  | .duplicateKey => "Duplicate primary key value"
  | .keyIndex column =>
    "Index on '" ++ column ++ "' enforces a key constraint and cannot be dropped"
  | .badQuery problem => problem.message
  | .unreadable path => "Cannot read '" ++ path ++ "'"
  | .closed database => "Database '" ++ database ++ "' is closed"
  | .neverDate typeName => "Cannot convert " ++ typeName ++ " to date"
  | .badDate text => "Invalid date: '" ++ text ++ "'"
  | .expectedKind kind => "expected " ++ kind.name
  | .notNumber text => "'" ++ text ++ "' is not a number"
  | .longNumeral digits =>
    "Exceeds the limit (4300 digits) for integer string conversion: value has " ++
      toString digits ++ " digits; " ++ digitHint
  | .longInteger =>
    "Exceeds the limit (4300 digits) for integer string conversion; " ++ digitHint
  | .badNumeral => "Not an integer"
  | .notPairs => "Not a list of pairs"
  | .wrongType => "Not a value of the right type"
  | .wrongShape => "Not a value of the right shape"
  | .missingRow => "No row of this id"
  | .outOfRange => "Position out of range"
  | .overflow => "Integer out of the range of numbers"
  | .badPath => "Path with a null character"
  | .badAddress => "Not an address"
  | .badHost => "Not the name of a host"
  | .brokenLine => "Line break in a header"
  | .pathExists path => "[Errno 17] File exists: " ++ Text.quoted path
  | .notDirectory path => "[Errno 20] Not a directory: " ++ Text.quoted path
  | .isDirectory path => "[Errno 21] Is a directory: " ++ Text.quoted path
  | .noFile path => "[Errno 2] No such file or directory: " ++ Text.quoted path
  | .nameTooLong path => "[Errno 36] File name too long: " ++ Text.quoted path
  | .notText => "File does not hold text"

end Fault

end RecordStore
