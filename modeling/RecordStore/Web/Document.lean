import RecordStore.Snapshot.Json
import RecordStore.Snapshot.Writer
import RecordStore.Sorting
import RecordStore.Text.Case
import RecordStore.Text.Units
import RecordStore.Text.Utf8
import RecordStore.Value.Order

/-!
# Documents

The bodies of requests and answers. An answer is a value written as compact JSON, with the entries
of every mapping in the order of their keys, dates and timestamps by their standard text, and a line
feed at the end. Keys that are no texts are written as texts. A request is read as JSON if it is
declared as JSON, and stands for an empty mapping if it is not, if it cannot be read, or if its
value counts as false.
-/

namespace RecordStore.Web

/-- Joins the texts of items with commas. -/
def commaJoin (items : List (List Char)) : List Char :=
  [','].intercalate items

/-- An entry of a mapping with the text of its key and of its value. -/
structure WrittenEntry where
  key : Value
  name : String
  text : List Char

/-- An entry as it stands in an object. -/
def WrittenEntry.chars (entry : WrittenEntry) : List Char :=
  Snapshot.quote entry.name ++ ':' :: entry.text

/-- Whether keys can be put in order: there is one at most, or they are all texts or all numbers. -/
def areSortable (keys : List Value) : Bool :=
  keys.length ≤ 1 || keys.all (·.text?.isSome) || keys.all (·.number?.isSome)

/-- Entries in the order of their keys, if there is one. -/
def sortEntries? (entries : List WrittenEntry) : Option (List WrittenEntry) :=
  if areSortable (entries.map (·.key)) then
    some (Sorting.sort (fun a b => a.key.compare b.key = .ordered .lt) entries)
  else none

mutual

/-- Writes a value. An integer of too many digits, a key of a kind that has no text, and a mapping
whose keys have no order cannot be written. -/
def write? : Value → Option (List Char)
  | .null => some "null".toList
  | .bool b => some (if b then "true" else "false").toList
  | .int i => (Number.integerText? i).map (·.toList)
  | .float x => some (Snapshot.floatText x)
  | .text s => some (Snapshot.quote s)
  | .date d => some (Snapshot.quote d.text)
  | .timestamp t => some (Snapshot.quote t.standardText)
  | .list items => (writeAll? items).map fun items => '[' :: commaJoin items ++ [']']
  | .tuple items => (writeAll? items).map fun items => '[' :: commaJoin items ++ [']']
  | .map entries =>
    ((writeEntries? entries).bind sortEntries?).map fun entries =>
      '\x7b' :: commaJoin (entries.map (·.chars)) ++ ['\x7d']
termination_by structural v => v

/-- Writes values. -/
def writeAll? : List Value → Option (List (List Char))
  | [] => some []
  | v :: rest => do
    let text ← write? v
    let texts ← writeAll? rest
    return text :: texts
termination_by structural items => items

/-- Writes the values of entries. -/
def writeEntries? : List (Value × Value) → Option (List WrittenEntry)
  | [] => some []
  | entry :: rest => do
    let first ← writeEntry? entry
    let others ← writeEntries? rest
    return first :: others
termination_by structural entries => entries

/-- Writes the value of an entry. -/
def writeEntry? : Value × Value → Option WrittenEntry
  | (key, v) => do
    let name ← Snapshot.keyText? key
    let text ← write? v
    return ⟨key, name, text⟩
termination_by structural entry => entry

end

/-- The text of an answer. -/
def answerText? (v : Value) : Option String :=
  (write? v).map fun cs => String.ofList (cs ++ ['\n'])

/-- Whether a character is a blank or a tab. -/
def isGap (c : Char) : Bool :=
  c == ' ' || c == '\t'

/-- The kind of a declared type of content, without what is declared besides and the gaps around
it. -/
def contentKind (contentType : String) : String :=
  let kind := (contentType.toList.takeWhile (· != ';')).dropWhile isGap
  Text.lower (String.ofList (kind.reverse.dropWhile isGap).reverse)

/-- Whether a declared type of content is JSON. -/
def isJson (contentType : String) : Bool :=
  let kind := contentKind contentType
  kind == "application/json" || (kind.startsWith "application/" && kind.endsWith "+json")

/-- Drops a byte order mark. -/
def dropMark : List Char → List Char
  | '\uFEFF' :: rest => rest
  | cs => cs

/-- The text of a body, whose bytes may turn out to be wide units. -/
def bodyText? (body : String) : Option (List Char) :=
  let bytes := Text.encodeBytes body
  match Text.Encoding.ofBytes bytes with
  | .utf8 => some (dropMark body.toList)
  | encoding => encoding.decode? bytes

/-- The value that the body of a request stands for. -/
def bodyValue (contentType : Option String) (body : String) : Value :=
  if contentType.any isJson then
    match (bodyText? body).map (Json.read Json.plainObject) with
    | some (.ok v) => if v.isTruthy then v else .map []
    | _ => .map []
  else .map []

end RecordStore.Web
