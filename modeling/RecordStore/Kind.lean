/-!
# Kinds of columns

The closed set of kinds that a column can declare.
-/

namespace RecordStore

/-- The kind of the values of a column. -/
inductive Kind where
  | string
  | number
  | boolean
  | date
  | object
  | array
  deriving DecidableEq

namespace Kind

/-- The canonical name of a kind. -/
def name : Kind → String
  | .string => "string"
  | .number => "number"
  | .boolean => "boolean"
  | .date => "date"
  | .object => "object"
  | .array => "array"

/-- All kinds. -/
def all : List Kind :=
  [.string, .number, .boolean, .date, .object, .array]

/-- Whether the values of a kind can be keys of an index; objects and arrays cannot. -/
def isIndexable : Kind → Bool
  | .object => false
  | .array => false
  | _ => true

/-- The spellings of the kinds in table declarations, in upper case. -/
def spellings : List (String × Kind) :=
  [("STRING", .string), ("TEXT", .string), ("VARCHAR", .string), ("CHAR", .string),
    ("NUMBER", .number), ("INT", .number), ("INTEGER", .number), ("FLOAT", .number),
    ("REAL", .number), ("DOUBLE", .number), ("DECIMAL", .number),
    ("BOOLEAN", .boolean), ("BOOL", .boolean),
    ("DATE", .date), ("DATETIME", .date), ("TIMESTAMP", .date),
    ("OBJECT", .object), ("JSON", .object),
    ("ARRAY", .array), ("LIST", .array)]

theorem mem_all (kind : Kind) : kind ∈ all := by
  cases kind <;> simp [all]

/-- The name of a kind, in upper case, is one of its spellings. -/
theorem spellings_name (kind : Kind) : ∃ word, (word, kind) ∈ spellings := by
  cases kind
  · exact ⟨"STRING", by simp [spellings]⟩
  · exact ⟨"NUMBER", by simp [spellings]⟩
  · exact ⟨"BOOLEAN", by simp [spellings]⟩
  · exact ⟨"DATE", by simp [spellings]⟩
  · exact ⟨"OBJECT", by simp [spellings]⟩
  · exact ⟨"ARRAY", by simp [spellings]⟩

end Kind

end RecordStore
