import RecordStore.Shell.Listing
import RecordStore.Table.Basic

/-!
# Descriptions of tables

The columns of a table as text for a terminal: one line for each column, with its name, its type and
what is declared of it.
-/

namespace RecordStore.Shell

/-- What a column refers to, as a declaration says it. -/
def referenceText (reference : Value) : Except Fault String :=
  match reference with
  | .map entries => do
    let table ← (Value.entry "table" entries).display
    let column ← ((Value.lookup? "column" entries).getD (.text "")).display
    return "REFERENCES " ++ table ++ "(" ++ column ++ ")"
  | _ => .error .wrongShape

/-- What is declared of a column besides its type. -/
def declarations (column : Column) : Except Fault (List String) := do
  let flags :=
    (if column.isPrimaryKey then ["PRIMARY KEY"] else []) ++
    (if column.isUnique && !column.isPrimaryKey then ["UNIQUE"] else []) ++
    (if column.isRequired && !column.isPrimaryKey then ["NOT NULL"] else []) ++
    (if column.isNumbered then ["AUTO_INCREMENT"] else [])
  let default ←
    match column.defaultValue with
    | some v => do pure ["DEFAULT " ++ (← v.display)]
    | none => pure []
  let reference ←
    if column.foreignKey.isTruthy then do pure [← referenceText column.foreignKey] else pure []
  return flags ++ default ++ reference

/-- The type of a column, with its size if it has one. -/
def typeText (column : Column) : Except Fault String := do
  if column.size.isTruthy then return column.kind.name ++ "(" ++ (← column.size.display) ++ ")"
  else return column.kind.name

/-- The line about a column. -/
def columnLine (column : Column) : Except Fault String := do
  let declared ← declarations column
  let type ← typeText column
  let parts := [fill 20 column.label, fill 15 type, " ".intercalate declared]
  return line ("  " ++ " ".intercalate parts)

/-- The head of a description. -/
def descriptionHead (table : String) : String :=
  line ("\nTable: " ++ table) ++ line ("".pushn '-' 60)

end RecordStore.Shell
