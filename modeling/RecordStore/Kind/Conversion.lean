import RecordStore.Fault
import RecordStore.Text.Case
import RecordStore.Value.Display

/-!
# What a kind accepts

Every kind has a strict test for the values that a record supplies and a canonical form in which
they are stored. Defaults are converted more freely, because they often come as the raw text of a
query: text may denote a number or a truth value, and any plain value has a text.
-/

namespace RecordStore

namespace Value

/-- A value as a date: dates stand for themselves, and text is read. -/
def toDate (v : Value) : Except Fault Value :=
  match v with
  | .date d => .ok (.date d)
  | .timestamp t => .ok (.timestamp t)
  | .text s =>
    match Moment.parse? s with
    | some moment => .ok (.ofMoment moment)
    | none => .error (.badDate s)
  | v => .error (.neverDate v.typeName)

/-- The text of a value, or the fault that it has none. -/
def display (v : Value) : Except Fault String :=
  match v.display? with
  | some shown => .ok shown
  | none => .error .longInteger

/-- The text of a value in a message; a value without a text is left out. -/
def label (v : Value) : String :=
  v.display?.getD ""

/-- The number that a text denotes, if it is a numeral. -/
def ofNumeral (numeral : Numeral) : Except Fault Value :=
  match numeral.number? with
  | some n => .ok (.ofNumber n)
  | none => .error (.longNumeral numeral.whole.length)

end Value

namespace Kind

/-- Whether a kind accepts a value. Numbers must be finite as floating-point numbers, and it is a
fault to ask that of an integer that is out of their range. -/
def accepts (kind : Kind) (v : Value) : Except Fault Bool :=
  match kind, v with
  | .string, .text _ => .ok true
  | .number, .int i => if (Binary64.ofInt i).isFinite then .ok true else .error .overflow
  | .number, .float x => .ok x.isFinite
  | .boolean, .bool _ => .ok true
  | .date, v => .ok v.toDate.toOption.isSome
  | .object, .map _ => .ok true
  | .array, .list _ => .ok true
  | .array, .tuple _ => .ok true
  | _, _ => .ok false

/-- The canonical form of a value that a kind accepts. -/
def coerce (kind : Kind) (v : Value) : Value :=
  match kind, v with
  | .date, .text s => ((Moment.parse? s).map .ofMoment).getD v
  | .array, .tuple items => .list items
  | _, v => v

/-- A declared default before it is tested: text that stands for a number or a truth value is
read, and a column of text takes the text of any plain value. -/
def convertDefault (kind : Kind) (v : Value) : Except Fault Value :=
  match kind, v with
  | .number, .text s =>
    match Numeral.parse? (Text.stripChars s.toList) with
    | some numeral => Value.ofNumeral numeral
    | none => .error (.notNumber s)
  | .boolean, .text s =>
    let word := Text.upper s
    if ["TRUE", "1", "YES"].contains word then .ok (.bool true)
    else if ["FALSE", "0", "NO"].contains word then .ok (.bool false)
    else .ok v
  | .string, .map _ => .ok v
  | .string, .list _ => .ok v
  | .string, .tuple _ => .ok v
  | .string, v => v.display.map .text
  | _, v => .ok v

/-- The canonical form of a declared default. -/
def coerceDefault (kind : Kind) (v : Value) : Except Fault Value := do
  let v ← kind.convertDefault v
  if ← kind.accepts v then return kind.coerce v else throw (.expectedKind kind)

/-- The kind that a name declares, in any case and with blanks around it. -/
def ofName (v : Value) : Except Fault Kind := do
  let shown ← v.display
  match spellings.lookup (Text.upper (Text.strip shown)) with
  | some kind => return kind
  | none => throw (.violation (.unknownKind shown))

end Kind

end RecordStore
