import RecordStore.Filter.Wildcard
import RecordStore.Kind.Conversion
import RecordStore.Value.Order

/-!
# Comparison operators

What a condition on a column may ask. An absent value is equal to nothing but itself and satisfies
no other comparison, and values that do not compare satisfy none either. A wildcard pattern is
matched with the text of a value, whatever its kind.

A condition is a value: a mapping all of whose keys are operators states several comparisons at
once, and any other value is to be equal to the column.
-/

namespace RecordStore

/-- A comparison operator. There are two spellings of inequality. -/
inductive Operator where
  | equal
  | unequal
  | lessOrGreater
  | greater
  | less
  | atLeast
  | atMost
  | like
  deriving DecidableEq

namespace Operator

/-- The spelling of an operator. -/
def text : Operator → String
  | .equal => "="
  | .unequal => "!="
  | .lessOrGreater => "<>"
  | .greater => ">"
  | .less => "<"
  | .atLeast => ">="
  | .atMost => "<="
  | .like => "LIKE"

/-- All operators. -/
def all : List Operator :=
  [.equal, .unequal, .greater, .less, .atLeast, .atMost, .like, .lessOrGreater]

/-- The operator of a spelling. -/
def ofText? (s : String) : Option Operator :=
  all.find? (·.text == s)

theorem mem_all (operator : Operator) : operator ∈ all := by
  cases operator <;> simp [all]

/-- Whether a comparison has one of some outcomes. -/
def inOrder (value operand : Value) (outcomes : List Ordering) : Bool :=
  match value.compare operand with
  | .ordered o => outcomes.contains o
  | _ => false

/-- Whether the text of a value matches a pattern. -/
def isLike (value operand : Value) : Except Fault Bool := do
  let pattern ← operand.display
  let shown ← value.display
  return Wildcard.isMatch pattern shown

/-- Whether a value satisfies a comparison with an operand. -/
def holds (operator : Operator) (value operand : Value) : Except Fault Bool :=
  match operator with
  | .equal => .ok (value.equals operand)
  | .unequal => .ok (!value.equals operand)
  | .lessOrGreater => .ok (!value.equals operand)
  | operator =>
    if value.isNull || operand.isNull then .ok false
    else
      match operator with
      | .greater => .ok (inOrder value operand [.gt])
      | .less => .ok (inOrder value operand [.lt])
      | .atLeast => .ok (inOrder value operand [.gt, .eq])
      | .atMost => .ok (inOrder value operand [.lt, .eq])
      | _ => isLike value operand

/-- Whether a value satisfies a comparison whose operator is given by its spelling. An unknown one
is noticed only where both values are present. -/
def holdsBy (operator : String) (value operand : Value) : Except Fault Bool :=
  match ofText? operator with
  | some operator => operator.holds value operand
  | none =>
    if value.isNull || operand.isNull then .ok false
    else .error (.violation (.unknownOperator operator))

/-- The operator that a key of a condition spells, in any case. -/
def ofKey? (key : Value) : Option Operator :=
  key.text?.bind fun s => ofText? (Text.upper s)

/-- The comparison that an entry of a condition states, if its key is an operator. -/
def ofEntry? (entry : Value × Value) : Option (Operator × Value) :=
  (ofKey? entry.1).map fun operator => (operator, entry.2)

/-- The comparisons that a condition states. -/
def comparisons (condition : Value) : List (Operator × Value) :=
  match condition with
  | .map entries =>
    match entries.mapM ofEntry? with
    | some stated => if stated.isEmpty then [(.equal, condition)] else stated
    | none => [(.equal, condition)]
  | condition => [(.equal, condition)]

end Operator

end RecordStore
