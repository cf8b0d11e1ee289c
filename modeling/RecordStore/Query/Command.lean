import RecordStore.Value.Equality

/-!
# Commands

What a query asks for. Every kind of statement has its own form, and these are all there are.
-/

namespace RecordStore.Query

/-- A comparison of a column with a value, as a query states it. -/
structure Condition where
  column : String
  operator : String
  value : Value

/-- A condition as the mapping that tables take: the column to the operator to the value. -/
def Condition.toValue (condition : Condition) : Value :=
  Value.ofFields [(condition.column, Value.ofFields [(condition.operator, condition.value)])]

/-- What to select from a table. -/
structure Selection where
  table : String
  columns : List String
  condition : Option Condition
  orderBy : Option String
  descending : Bool
  limit : Option Nat

/-- Whether a selection asks for whole records. -/
def Selection.isWhole (selection : Selection) : Bool :=
  selection.columns.contains "*"

/-- A statement of the query language. -/
inductive Command where
  /-- Declares a table; every column has a name and its declared properties in order. -/
  | createTable (table : String) (columns : List (String × Fields))
  /-- Asks for an index; its name has no further meaning. -/
  | createIndex (table column : String) (name : Option String)
  | insert (table : String) (columns : List String) (values : List Value)
  | select (selection : Selection)
  | update (table : String) (assignments : Fields) (condition : Option Condition)
  | delete (table : String) (condition : Option Condition)
  | dropTable (table : String)
  /-- Turns to another database. -/
  | use (database : String)

/-- The record that an insertion denotes. -/
def Command.recordOf (columns : List String) (values : List Value) : Fields :=
  Entries.ofPairs (columns.zip values)

end RecordStore.Query
