import RecordStore.Value.Basic
import RecordStore.Text.Quoted

/-!
# Values as text

The text of a value, as tables, messages and wildcard matching see it. Text stands for itself, and
dates and timestamps are in the standard order; inside lists, tuples and mappings, text is quoted
and dates are spelled out by their parts. Integers of too many digits have no text, and neither has
a value that holds one.
-/

namespace RecordStore

namespace Value

/-- Puts a separator between texts. -/
def join (separator : String) (parts : List String) : String :=
  separator.intercalate parts

/-- A duration in microseconds, spelled out as days, seconds and microseconds; only the first part
may be negative. -/
def durationText (micros : Int) : String :=
  let days := micros.fdiv microsPerDay
  let rest := (micros.fmod microsPerDay).toNat
  let parts : List (String × Int) :=
    [("days", days), ("seconds", rest / microsPerSecond), ("microseconds", rest % microsPerSecond)]
  let shown := (parts.filter (·.2 != 0)).map fun (name, n) => name ++ "=" ++ toString n
  "datetime.timedelta(" ++ (if shown.isEmpty then "0" else join ", " shown) ++ ")"

/-- An offset from universal time, spelled out. -/
def zoneText (shift : Int) : String :=
  if shift = 0 then "datetime.timezone.utc"
  else "datetime.timezone(" ++ durationText shift ++ ")"

/-- A date, spelled out by its parts. -/
def dateParts (d : Date) : String :=
  "datetime.date(" ++ join ", " ([d.year, d.month, d.day].map toString) ++ ")"

/-- A timestamp, spelled out by its parts; seconds and microseconds only where needed. -/
def timestampParts (t : Timestamp) : String :=
  let clock :=
    if t.microsecond ≠ 0 then [t.hour, t.minute, t.second, t.microsecond]
    else if t.second ≠ 0 then [t.hour, t.minute, t.second]
    else [t.hour, t.minute]
  let parts := ([t.date.year, t.date.month, t.date.day] ++ clock).map toString
  let zone := t.offset.elim [] fun shift => ["tzinfo=" ++ zoneText shift]
  "datetime.datetime(" ++ join ", " (parts ++ zone) ++ ")"

/-- The items of a tuple between parentheses; a single item is followed by a comma. -/
def tupleText (items : List String) : String :=
  match items with
  | [item] => "(" ++ item ++ ",)"
  | items => "(" ++ join ", " items ++ ")"

mutual

/-- The text of a value inside another value. -/
def innerText? : Value → Option String
  | .null => some "None"
  | .bool b => some (if b then "True" else "False")
  | .int i => Number.integerText? i
  | .float x => some x.text
  | .text s => some (Text.quoted s)
  | .date d => some (dateParts d)
  | .timestamp t => some (timestampParts t)
  | .list items => (innerTexts? items).map fun texts => "[" ++ join ", " texts ++ "]"
  | .tuple items => (innerTexts? items).map tupleText
  | .map entries => (entryTexts? entries).map fun texts => "\x7b" ++ join ", " texts ++ "\x7d"
termination_by structural v => v

/-- The texts of the items of a list. -/
def innerTexts? : List Value → Option (List String)
  | [] => some []
  | v :: rest =>
    (innerText? v).bind fun text => (innerTexts? rest).map fun texts => text :: texts
termination_by structural items => items

/-- The texts of the entries of a mapping. -/
def entryTexts? : List (Value × Value) → Option (List String)
  | [] => some []
  | entry :: rest =>
    (entryText? entry).bind fun text => (entryTexts? rest).map fun texts => text :: texts
termination_by structural entries => entries

/-- The text of an entry of a mapping. -/
def entryText? : Value × Value → Option String
  | (key, v) =>
    (innerText? key).bind fun keyText => (innerText? v).map fun text => keyText ++ ": " ++ text
termination_by structural entry => entry

end

/-- The text of a value. -/
def display? : Value → Option String
  | .text s => some s
  | .date d => some d.text
  | .timestamp t => some t.text
  | v => innerText? v

end Value

end RecordStore
