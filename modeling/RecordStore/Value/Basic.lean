import RecordStore.Calendar.Moment
import RecordStore.Entries
import RecordStore.Number.Numeral

/-!
# Values

What a record may hold: nothing, truth values, integers, floating-point numbers, text, dates,
timestamps, and lists, tuples and mappings of values. A mapping keeps the order of its entries and
may have any hashable values as keys. A record is the entries of a mapping, by column.
-/

namespace RecordStore

/-- A value. -/
inductive Value where
  | null
  | bool (b : Bool)
  | int (i : Int)
  | float (x : Binary64)
  | text (s : String)
  | date (d : Date)
  | timestamp (t : Timestamp)
  | list (items : List Value)
  | tuple (items : List Value)
  | map (entries : List (Value × Value))
  deriving Inhabited

/-- Values by name. -/
abbrev Fields := List (String × Value)

/-- A record: values by column. A column is known by a value, which is a text as a rule. -/
abbrev Record := List (Value × Value)

namespace Value

/-- The name of the type of a value. -/
def typeName : Value → String
  | .null => "NoneType"
  | .bool _ => "bool"
  | .int _ => "int"
  | .float _ => "float"
  | .text _ => "str"
  | .date _ => "date"
  | .timestamp _ => "datetime"
  | .list _ => "list"
  | .tuple _ => "tuple"
  | .map _ => "dict"

/-- Whether a value is absent. -/
def isNull : Value → Bool
  | .null => true
  | _ => false

/-- Whether a value counts as true: all but nothing, zeros and what is empty. -/
def isTruthy : Value → Bool
  | .null => false
  | .bool b => b
  | .int i => i != 0
  | .float x => !x.isZero
  | .text s => !s.isEmpty
  | .date _ => true
  | .timestamp _ => true
  | .list items => !items.isEmpty
  | .tuple items => !items.isEmpty
  | .map entries => !entries.isEmpty

/-- A value as a number, if it is one. -/
def number? : Value → Option Number
  | .bool b => some (.flag b)
  | .int i => some (.whole i)
  | .float x => some (.binary x)
  | _ => none

/-- A number as a value. -/
def ofNumber : Number → Value
  | .flag b => .bool b
  | .whole i => .int i
  | .binary x => .float x

/-- A date or timestamp as a value. -/
def ofMoment : Moment → Value
  | .date d => .date d
  | .timestamp t => .timestamp t

/-- A value that may be missing. -/
def ofOption : Option Value → Value
  | some v => v
  | none => .null

/-- A value, unless it is absent. -/
def present? (v : Value) : Option Value :=
  if v.isNull then none else some v

/-- Values by name as a mapping. -/
def ofFields (fields : Fields) : Value :=
  .map (fields.map fun (name, v) => (.text name, v))

/-- What a value consists of: the items of a list or a tuple, the characters of a text, and the keys
of a mapping. Other values have no parts. -/
def items? : Value → Option (List Value)
  | .list items => some items
  | .tuple items => some items
  | .text s => some (s.toList.map fun c => .text (String.ofList [c]))
  | .map entries => some (entries.map (·.1))
  | _ => none

/-- The text of a value that is text. -/
def text? : Value → Option String
  | .text s => some s
  | _ => none

/-- The value under a text key of a list of entries. -/
def lookup? (key : String) (entries : List (Value × Value)) : Option Value :=
  (entries.find? fun entry => entry.1.text? == some key).map (·.2)

/-- The value under a text key of a list of entries, nothing standing for its absence. -/
def entry (key : String) (entries : List (Value × Value)) : Value :=
  ofOption (lookup? key entries)

/-- Whether a value can be a key: lists and mappings cannot, nor can tuples that hold them. -/
def isHashable : Value → Bool
  | .list _ => false
  | .map _ => false
  | .tuple items => hashableAll items
  | _ => true
where
  hashableAll : List Value → Bool
    | [] => true
    | v :: rest => isHashable v && hashableAll rest

end Value

end RecordStore
