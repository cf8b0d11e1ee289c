/-!
# Problems in queries

Why a query cannot be read, by cause. The wording is in `Problem.message`; the things that were
expected and the tokens that were found are named by their text.
-/

namespace RecordStore.Query

/-- A reason why a text is no query. -/
inductive Problem where
  /-- A quoted text that opens at a position is never closed. -/
  | unterminated (position : Nat)
  /-- An exclamation mark at a position is no part of an operator. -/
  | strayMark (position : Nat)
  | empty
  | unknownCommand (word : String)
  /-- Something was expected where another token stands. -/
  | expectedInstead (what found : String)
  /-- Something was expected. -/
  | expected (what : String)
  | unexpectedToken (found : String)
  | unexpectedInColumn (found column : String)
  | duplicateColumn (column : String)
  | badSize (column size : String)
  | badLimit (found : String)
  | uniqueIndex
  | missingColumnList
  | countMismatch
  deriving DecidableEq

/-- The wording of a problem. -/
def Problem.message : Problem → String
  | .unterminated position => "Unterminated string starting at position " ++ toString position
  | .strayMark position => "Unexpected character '!' at position " ++ toString position
  | .empty => "Empty query"
  | .unknownCommand word => "Unknown command: " ++ word
  | .expectedInstead what found => "Expected " ++ what ++ ", got " ++ found
  | .expected what => "Expected " ++ what
  | .unexpectedToken found => "Unexpected token " ++ found
  | .unexpectedInColumn found column =>
    "Unexpected token " ++ found ++ " in definition of column '" ++ column ++ "'"
  | .duplicateColumn column => "Duplicate column '" ++ column ++ "'"
  | .badSize column size => "Invalid size for column '" ++ column ++ "': " ++ size
  | .badLimit found => "LIMIT expects a non-negative integer, got " ++ found
  | .uniqueIndex => "CREATE UNIQUE INDEX is not supported; declare the column UNIQUE"
  | .missingColumnList => "INSERT requires a column list"
  | .countMismatch => "Column count doesn't match value count"

end RecordStore.Query
