import RecordStore.Snapshot.Escape
import RecordStore.Value.Basic

/-!
# Writing snapshots

A snapshot is a value written as indented JSON. Lists and tuples become arrays and mappings become
objects, with numbers, truth values and nothing as keys turned into text. A date is written as an
object whose one key marks it as a date, by year, month and day, and a timestamp likewise by date
and time to the second.

Not everything can be written: an integer of too many digits and a key of another kind stop the
writer. Text is produced from left to right, so a draft that is not complete holds what came before
the point where the writer stopped.
-/

namespace RecordStore.Snapshot

/-- The text written so far, and whether nothing stopped the writer. -/
structure Draft where
  chars : List Char
  complete : Bool

namespace Draft

/-- A complete draft. -/
def whole (chars : List Char) : Draft :=
  ⟨chars, true⟩

/-- A draft that stops before its first character. -/
def stopped : Draft :=
  ⟨[], false⟩

/-- One draft after another; nothing follows a draft that is not complete. -/
def andThen (first second : Draft) : Draft :=
  if first.complete then ⟨first.chars ++ second.chars, second.complete⟩ else first

/-- Characters before a draft. -/
def after (chars : List Char) (draft : Draft) : Draft :=
  ⟨chars ++ draft.chars, draft.complete⟩

/-- A draft of characters that may be impossible to write. -/
def ofOption (chars : Option (List Char)) : Draft :=
  chars.elim stopped whole

end Draft

/-- The key that marks a date. -/
def dateMark : String := "__date__"

/-- The key that marks a timestamp. -/
def timestampMark : String := "__datetime__"

/-- A date by year, month and day; the year is not padded. -/
def dateText (d : Date) : List Char :=
  Nat.toDigits 10 d.year ++ '-' :: Text.padded 2 d.month ++ '-' :: Text.padded 2 d.day

/-- A timestamp to the second, without its offset. -/
def timestampText (t : Timestamp) : List Char :=
  dateText t.date ++ ' ' :: Text.padded 2 t.hour ++ ':' :: Text.padded 2 t.minute ++
    ':' :: Text.padded 2 t.second

/-- The integers that can be written. -/
def integerText? (i : Int) : Option (List Char) :=
  (Number.integerText? i).map (·.toList)

/-- A line break followed by the indentation of a level. -/
def lineBreak (level : Nat) : List Char :=
  '\n' :: List.replicate (2 * level) ' '

/-- An object with one entry of text, on a level. -/
def marked (level : Nat) (mark : String) (text : List Char) : List Char :=
  '\x7b' :: lineBreak (level + 1) ++ quote mark ++ [':', ' '] ++ quote (String.ofList text) ++
    lineBreak level ++ ['\x7d']

/-- The text of a key. -/
def keyText? : Value → Option String
  | .text s => some s
  | .float x => some (String.ofList (floatText x))
  | .bool b => some (if b then "true" else "false")
  | .null => some "null"
  | .int i => Number.integerText? i
  | _ => none

/-- Whether a value is written in one piece together with what separates it from the item before.
The others open with a bracket. -/
def isAtomic : Value → Bool
  | .null => true
  | .bool _ => true
  | .int _ => true
  | .float _ => true
  | .text _ => true
  | _ => false

/-- An item of an array after what separates it from the item before. An atomic item that cannot be
written takes the separator with it. -/
def itemAfter (separator : List Char) (v : Value) (draft : Draft) : Draft :=
  if isAtomic v && !draft.complete then .stopped else .after separator draft

mutual

/-- Writes a value on a level of indentation. -/
def write (level : Nat) : Value → Draft
  | .null => .whole ['n', 'u', 'l', 'l']
  | .bool b => .whole (if b then ['t', 'r', 'u', 'e'] else ['f', 'a', 'l', 's', 'e'])
  | .int i => .ofOption (integerText? i)
  | .float x => .whole (floatText x)
  | .text s => .whole (quote s)
  | .date d => .whole (marked level dateMark (dateText d))
  | .timestamp t => .whole (marked level timestampMark (timestampText t))
  | .list items => writeArray level items
  | .tuple items => writeArray level items
  | .map entries => writeObject level entries
termination_by structural v => v

/-- Writes an array on a level of indentation. -/
def writeArray (level : Nat) : List Value → Draft
  | [] => .whole ['[', ']']
  | v :: rest =>
    (itemAfter ('[' :: lineBreak (level + 1)) v (write (level + 1) v)).andThen
      (writeItems level rest)
termination_by structural items => items

/-- Writes the items of an array after the first one. -/
def writeItems (level : Nat) : List Value → Draft
  | [] => .whole (lineBreak level ++ [']'])
  | v :: rest =>
    (itemAfter (',' :: lineBreak (level + 1)) v (write (level + 1) v)).andThen
      (writeItems level rest)
termination_by structural items => items

/-- Writes an object on a level of indentation. -/
def writeObject (level : Nat) : List (Value × Value) → Draft
  | [] => .whole ['\x7b', '\x7d']
  | entry :: rest =>
    .after ('\x7b' :: lineBreak (level + 1))
      ((writeEntry level [] entry).andThen (writeEntries level rest))
termination_by structural entries => entries

/-- Writes the entries of an object after the first one. -/
def writeEntries (level : Nat) : List (Value × Value) → Draft
  | [] => .whole (lineBreak level ++ ['\x7d'])
  | entry :: rest =>
    (writeEntry level (',' :: lineBreak (level + 1)) entry).andThen (writeEntries level rest)
termination_by structural entries => entries

/-- Writes an entry of an object after what separates it from the entry before. -/
def writeEntry (level : Nat) (separator : List Char) : Value × Value → Draft
  | (key, v) =>
    match keyText? key with
    | some text => .after (separator ++ quote text ++ [':', ' ']) (write (level + 1) v)
    | none => .stopped
termination_by structural entry => entry

end

/-- Writes a value as a snapshot. -/
def draft (v : Value) : Draft :=
  write 0 v

end RecordStore.Snapshot
