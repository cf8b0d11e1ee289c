import RecordStore.Kind.Conversion

/-!
# Columns

The declaration of one column. A primary key is always required and unique. A column is described
by a mapping of properties, of which only some need to be given; `Column.toFields` gives all of
them in canonical order.

A column that is declared outright may have any value for its name, its size and its flags. A flag
is set if its value counts as true, and the description gives it back as it was declared. Columns
that are made from a description have truth values for flags.
-/

namespace RecordStore

/-- A declared column. -/
structure Column where
  name : Value
  kind : Kind
  required : Value
  primaryKey : Value
  unique : Value
  autoIncrement : Value
  defaultValue : Option Value
  /-- The table and column that this column refers to, if any; kept and not enforced. -/
  foreignKey : Value
  /-- The greatest number of characters of a text, if there is a limit. -/
  size : Value
  primary_declared :
    primaryKey.isTruthy = true → required.isTruthy = true ∧ unique.isTruthy = true

namespace Column

/-- A column with the given properties; a primary key becomes required and unique. -/
def make (name : Value) (kind : Kind) (required primaryKey unique autoIncrement : Value)
    (defaultValue : Option Value) (foreignKey size : Value) : Column :=
  ⟨name, kind, if primaryKey.isTruthy then .bool true else required, primaryKey,
    if primaryKey.isTruthy then .bool true else unique, autoIncrement, defaultValue, foreignKey,
    size, fun h => by simp only [h, if_true]; exact ⟨rfl, rfl⟩⟩

/-- Whether a value must be there. -/
def isRequired (column : Column) : Bool :=
  column.required.isTruthy

/-- Whether a column is the primary key. -/
def isPrimaryKey (column : Column) : Bool :=
  column.primaryKey.isTruthy

/-- Whether no two rows may hold the same value. -/
def isUnique (column : Column) : Bool :=
  column.unique.isTruthy

/-- Whether a column numbers its rows. -/
def isNumbered (column : Column) : Bool :=
  column.autoIncrement.isTruthy

/-- The name of a column as messages show it. -/
def label (column : Column) : String :=
  column.name.label

/-- The properties of a column in canonical order. A default and a size appear only if there are
any. -/
def toFields (column : Column) : Fields :=
  [("type", .text column.kind.name),
    ("required", column.required),
    ("primaryKey", column.primaryKey),
    ("unique", column.unique),
    ("autoIncrement", column.autoIncrement),
    ("foreignKey", column.foreignKey)] ++
  (column.defaultValue.elim [] fun v => [("defaultValue", v)]) ++
  (column.size.present?.elim [] fun v => [("size", v)])

/-- The size that a column is described with: a positive integer. -/
def sizeOf (name : String) (v : Value) : Except Fault Value :=
  match v with
  | .null => .ok .null
  | .bool true => .ok v
  | .int i =>
    if 1 ≤ i then .ok v
    else v.display.bind fun shown => .error (.violation (.badSize name shown))
  | v => v.display.bind fun shown => .error (.violation (.badSize name shown))

/-- The reason for which a default is refused, if the fault is about the default. -/
def refusal? (fault : Fault) : Option String :=
  match fault with
  | .notNumber _ => some fault.message
  | .expectedKind _ => some fault.message
  | .longNumeral _ => some fault.message
  | .longInteger => some fault.message
  | _ => none

/-- The default that a column is described with, in canonical form. -/
def defaultOf (name : String) (kind : Kind) (v : Value) : Except Fault (Option Value) :=
  if v.isNull then .ok none
  else
    match kind.coerceDefault v with
    | .ok v => .ok (some v)
    | .error fault =>
      match refusal? fault with
      | some reason => .error (.violation (.badDefault name reason))
      | none => .error fault

/-- The column that a mapping of properties describes. -/
def ofEntries (name : Value) (entries : List (Value × Value)) : Except Fault Column := do
  let kind ← Kind.ofName ((Value.lookup? "type" entries).getD (.text "string"))
  let flag (key : String) : Value := .bool (Value.entry key entries).isTruthy
  let reference := Value.entry "foreignKey" entries
  let size ← sizeOf name.label (Value.entry "size" entries)
  let defaultValue ← defaultOf name.label kind (Value.entry "defaultValue" entries)
  let column :=
    make name kind (flag "required") (flag "primaryKey") (flag "unique") (flag "autoIncrement")
      defaultValue (if reference.isTruthy then reference else .null) size
  if column.isUnique && !kind.isIndexable then throw (.violation (.neverUnique name.label kind))
  if column.isNumbered && kind ≠ .number then throw (.violation (.autoNotNumber name.label))
  return column

/-- The column that a value describes; whatever counts as false describes a plain text column. -/
def ofValue (name v : Value) : Except Fault Column :=
  if v.isTruthy then
    match v with
    | .map entries => ofEntries name entries
    | _ => .error .wrongShape
  else ofEntries name []

end Column

end RecordStore
