import RecordStore.Fault
import RecordStore.Query.Command
import RecordStore.Query.Token

/-!
# Reading commands

The grammar of the query language, read from left to right without going back. Keywords are matched
in any case, and the first one also when it is quoted. A literal in quotes is text; a word is a
number if it looks like one, then a truth value or nothing if it says so, and otherwise text.
-/

namespace RecordStore.Query

/-- A reader takes tokens off the front of a list, or ends with a fault. -/
abbrev Reader := StateT (List Token) (Except Fault)

namespace Reader

/-- Ends with a problem of the query. -/
def problem {α : Type} (p : Problem) : Reader α :=
  throw (.badQuery p)

/-- The next token, left in place; after the last one comes the end. -/
def peek : Reader Token := do
  return (← get).head?.getD ⟨.finish, "", 0⟩

/-- Takes the next token; the end stays. -/
def next : Reader Token := do
  let token ← peek
  if token.kind != .finish then modify (·.drop 1)
  return token

/-- A token as messages name it. -/
def describe (token : Token) : String :=
  if token.kind = .finish then "end of query" else "'" ++ token.text ++ "'"

/-- Takes the next token if it is of a kind, and tells whether it was. -/
def takes (kind : TokenKind) : Reader Bool := do
  if (← peek).kind = kind then
    let _ ← next
    return true
  else return false

/-- Takes the next token if it is one of some keywords, and tells whether it was. -/
def takesWord (words : List String) : Reader Bool := do
  if (← peek).isKeyword words then
    let _ ← next
    return true
  else return false

/-- Takes a token of a kind. -/
def expect (kind : TokenKind) (what : String) : Reader Unit := do
  unless ← takes kind do problem (.expected what)

/-- Takes a keyword. -/
def expectWord (word what : String) : Reader Unit := do
  unless ← takesWord [word] do problem (.expected what)

/-- Takes a word as a name. -/
def name (what : String) : Reader String := do
  let token ← peek
  if token.kind = .word then
    let _ ← next
    return token.text
  else problem (.expectedInstead what (describe token))

/-- Makes sure that the query ends here. -/
def finish : Reader Unit := do
  let token ← peek
  if token.kind ≠ .finish then problem (.unexpectedToken (describe token))

/-- The value of a word that stands for a literal. -/
def wordValue (text : String) : Except Fault Value :=
  match Numeral.parse? text.toList with
  | some numeral =>
    match numeral.number? with
    | some n => .ok (.ofNumber n)
    | none => .error (.longNumeral numeral.whole.length)
  | none =>
    let word := Text.upper text
    .ok <|
      if word = "TRUE" then .bool true
      else if word = "FALSE" then .bool false
      else if word = "NULL" then .null
      else .text text

/-- Takes a literal. -/
def literal : Reader Value := do
  let token ← peek
  if token.kind = .text then
    let _ ← next
    return .text token.text
  else if token.kind = .word then
    let _ ← next
    wordValue token.text
  else problem (.expectedInstead "value" (describe token))

/-- The number that a run of digits denotes as a size or a limit. -/
def count (text : String) : Except Fault Nat :=
  let digits := text.toList
  match Text.naturalOfDigits? digits with
  | none => .error .badNumeral
  | some n =>
    if digits.length ≤ Number.digitLimit then .ok n else .error (.longNumeral digits.length)

/-- Takes items separated by commas, each added to what has been read so far; there are at most
`fuel` commas. -/
def commaFoldWithin {σ : Type} (item : σ → Reader σ) : Nat → σ → Reader σ
  | 0, state => item state
  | fuel + 1, state => do
    let state ← item state
    if ← takes .comma then commaFoldWithin item fuel state else return state

/-- Takes items separated by commas, each added to what has been read so far. -/
def commaFold {σ : Type} (item : σ → Reader σ) (state : σ) : Reader σ := do
  commaFoldWithin item (← get).length state

/-! ## Conditions -/

/-- Takes a comparison of a column with a literal. -/
def condition : Reader Condition := do
  let column ← name "column name in WHERE"
  let token ← peek
  let operator ←
    if token.kind = .operator then do
      let _ ← next
      pure (if token.text = "<>" then "!=" else token.text)
    else if ← takesWord ["LIKE"] then pure "LIKE"
    else problem (.expectedInstead "comparison operator" (describe token))
  return ⟨column, operator, ← literal⟩

/-- Takes an optional condition. -/
def whereClause : Reader (Option Condition) := do
  if ← takesWord ["WHERE"] then return some (← condition) else return none

/-! ## Declarations -/

/-- Takes the column that a reference names, if it names one. -/
def reference : Reader Value := do
  let table ← name "referenced table"
  if ← takes .openParen then
    let column ← name "referenced column"
    expect .closeParen ") after referenced column"
    return Value.ofFields [("table", .text table), ("column", .text column)]
  else return Value.ofFields [("table", .text table)]

/-- Takes one property of a column and adds it to those declared. -/
def property (column : String) (declared : Fields) : Reader Fields := do
  if ← takesWord ["PRIMARY"] then
    expectWord "KEY" "KEY after PRIMARY"
    return Entries.put "primaryKey" (.bool true) declared
  else if ← takesWord ["UNIQUE"] then
    return Entries.put "unique" (.bool true) declared
  else if ← takesWord ["AUTO_INCREMENT", "AUTOINCREMENT"] then
    return Entries.put "autoIncrement" (.bool true) declared
  else if ← takesWord ["NOT"] then
    expectWord "NULL" "NULL after NOT"
    return Entries.put "required" (.bool true) declared
  else if ← takesWord ["NULL"] then
    return declared
  else if ← takesWord ["DEFAULT"] then
    return Entries.put "defaultValue" (← literal) declared
  else if ← takesWord ["REFERENCES"] then
    return Entries.put "foreignKey" (← reference) declared
  else problem (.unexpectedInColumn (describe (← peek)) column)

/-- Whether a token ends the declaration of a column. -/
def endsColumn (token : Token) : Bool :=
  token.kind = .comma || token.kind = .closeParen || token.kind = .finish

/-- Takes the properties of a column, at most `fuel` of them. -/
def propertiesWithin (column : String) : Nat → Fields → Reader Fields
  | 0, declared => return declared
  | fuel + 1, declared => do
    if endsColumn (← peek) then return declared
    else propertiesWithin column fuel (← property column declared)

/-- Takes the size of a column, if one is given. -/
def sizeOf (column : String) (declared : Fields) : Reader Fields := do
  if ← takes .openParen then
    let size ← name ("size for column '" ++ column ++ "'")
    unless Text.isDigitRun size do problem (.badSize column size)
    let n ← count size
    expect .closeParen (") after size of column '" ++ column ++ "'")
    return Entries.put "size" (.int n) declared
  else return declared

/-- Takes the declaration of a column: name, type, size and properties. -/
def column : Reader (String × Fields) := do
  let column ← name "column name"
  let type ← name ("type for column '" ++ column ++ "'")
  let declared ← sizeOf column [("type", .text type)]
  return (column, ← propertiesWithin column (← get).length declared)

/-- Takes one more column of a new table. -/
def anotherColumn (columns : List (String × Fields)) : Reader (List (String × Fields)) := do
  let (column, declared) ← column
  if Entries.has column columns then problem (.duplicateColumn column)
  return columns ++ [(column, declared)]

/-- Reads the declaration of a table. -/
def createTable : Reader Command := do
  let table ← name "table name"
  expect .openParen ("( after table name '" ++ table ++ "'")
  let columns ← commaFold anotherColumn []
  expect .closeParen ") after column definitions"
  finish
  return .createTable table columns

/-- Reads the declaration of an index. The word `ON` right after `INDEX` is never its name. -/
def createIndex : Reader Command := do
  let name' ← if (← peek).isKeyword ["ON"] then pure none else some <$> name "index name"
  expectWord "ON" "ON in CREATE INDEX"
  let table ← name "table name"
  expect .openParen "( before indexed column"
  let column ← name "column name"
  expect .closeParen ") after indexed column"
  finish
  return .createIndex table column name'

/-- Reads a declaration. -/
def create : Reader Command := do
  if ← takesWord ["TABLE"] then createTable
  else if ← takesWord ["INDEX"] then createIndex
  else if (← peek).isKeyword ["UNIQUE"] then problem .uniqueIndex
  else problem (.expected "TABLE or INDEX after CREATE")

/-! ## Statements on records -/

/-- Takes one more column of an insertion. -/
def anotherName (columns : List String) : Reader (List String) := do
  let column ← name "column name"
  if columns.contains column then problem (.duplicateColumn column)
  return columns ++ [column]

/-- Takes one more value of an insertion. -/
def anotherValue (values : List Value) : Reader (List Value) := do
  return values ++ [← literal]

/-- Reads an insertion. -/
def insert : Reader Command := do
  expectWord "INTO" "INTO after INSERT"
  let table ← name "table name"
  unless ← takes .openParen do problem .missingColumnList
  let columns ← commaFold anotherName []
  expect .closeParen ") after column list"
  expectWord "VALUES" "VALUES"
  expect .openParen "( after VALUES"
  let values ← commaFold anotherValue []
  expect .closeParen ") after values"
  finish
  if columns.length ≠ values.length then problem .countMismatch
  return .insert table columns values

/-- Takes one more column of a selection, or a star. -/
def anotherSelected (columns : List String) : Reader (List String) := do
  if ← takes .star then return columns ++ ["*"]
  else return columns ++ [← name "column name"]

/-- Takes the column to order by, if there is one, and whether the order is descending. -/
def orderClause : Reader (Option String × Bool) := do
  if ← takesWord ["ORDER"] then
    expectWord "BY" "BY after ORDER"
    let column ← name "column name in ORDER BY"
    if ← takesWord ["DESC"] then return (some column, true)
    else
      let _ ← takesWord ["ASC"]
      return (some column, false)
  else return (none, false)

/-- Takes the greatest number of records to select, if there is one. -/
def limitClause : Reader (Option Nat) := do
  if ← takesWord ["LIMIT"] then
    let token ← peek
    unless token.kind = .word && Text.isDigitRun token.text do problem (.badLimit (describe token))
    let _ ← next
    return some (← count token.text)
  else return none

/-- Reads a selection. -/
def select : Reader Command := do
  let columns ← commaFold anotherSelected []
  expectWord "FROM" "FROM in SELECT"
  let table ← name "table name"
  let condition ← whereClause
  let (orderBy, descending) ← orderClause
  let limit ← limitClause
  finish
  return .select ⟨table, columns, condition, orderBy, descending, limit⟩

/-- Takes one more assignment of an update. -/
def anotherAssignment (assignments : Fields) : Reader Fields := do
  let column ← name "column name"
  let token ← peek
  unless token.kind = .operator && token.text = "=" do problem (.expected "= after column name")
  let _ ← next
  return Entries.put column (← literal) assignments

/-- Reads an update. -/
def update : Reader Command := do
  let table ← name "table name"
  expectWord "SET" "SET after table name"
  let assignments ← commaFold anotherAssignment []
  let condition ← whereClause
  finish
  return .update table assignments condition

/-- Reads a deletion. -/
def delete : Reader Command := do
  expectWord "FROM" "FROM after DELETE"
  let table ← name "table name"
  let condition ← whereClause
  finish
  return .delete table condition

/-- Reads the removal of a table. -/
def dropTable : Reader Command := do
  expectWord "TABLE" "TABLE after DROP"
  let table ← name "table name"
  finish
  return .dropTable table

/-- Reads the choice of a database. -/
def useDatabase : Reader Command := do
  let database ← name "database name"
  finish
  return .use database

/-- Reads a statement. -/
def command : Reader Command := do
  let first ← next
  if first.kind = .finish then problem .empty
  let word := Text.upper first.text
  if word = "CREATE" then create
  else if word = "INSERT" then insert
  else if word = "SELECT" then select
  else if word = "UPDATE" then update
  else if word = "DELETE" then delete
  else if word = "DROP" then dropTable
  else if word = "USE" then useDatabase
  else problem (.unknownCommand word)

end Reader

/-- The command that a list of tokens denotes. -/
def Command.ofTokens (tokens : List Token) : Except Fault Command :=
  (Reader.command.run tokens).map (·.1)

/-- The command that a query denotes. -/
def Command.ofText (text : String) : Except Fault Command :=
  match Token.ofText text with
  | .ok tokens => Command.ofTokens tokens
  | .error p => .error (.badQuery p)

end RecordStore.Query
