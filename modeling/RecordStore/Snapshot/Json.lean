import RecordStore.Fault
import RecordStore.Text.Units
import RecordStore.Value.Equality

/-!
# Reading JSON

The reader of JSON text. Besides the standard forms it takes `NaN`, `Infinity` and `-Infinity`. An
integer may have any sign and size up to the digit limit, and every other number is read as the
nearest floating-point number. Of several entries with one key the last one counts, in the place of
the first. Every object goes through a function as soon as it is complete, which may turn it into
another value.

Nested values are read with fuel; the length of the text is always enough.
-/

namespace RecordStore.Json

/-- Why a text cannot be read. -/
inductive ReadError where
  /-- The text is not in the format. -/
  | malformed
  /-- An object could not be turned into a value. -/
  | fault (fault : Fault)

/-- What becomes of an object. -/
abbrev ObjectReader := List (Value × Value) → Except ReadError Value

/-- Objects stay mappings. -/
def plainObject : ObjectReader :=
  fun entries => .ok (.map entries)

/-- White space between the parts of a value. -/
def isSpace (c : Char) : Bool :=
  c == ' ' || c == '\t' || c == '\n' || c == '\r'

/-- Drops white space. -/
def skipSpace (cs : List Char) : List Char :=
  cs.dropWhile isSpace

/-- Drops the given characters off the front. -/
def drop? : List Char → List Char → Option (List Char)
  | [], cs => some cs
  | _ :: _, [] => none
  | w :: word, c :: rest => if w = c then drop? word rest else none

/-! ## Strings -/

/-- The value of a hexadecimal digit. -/
def hexValue? (c : Char) : Option Nat :=
  if '0' ≤ c ∧ c ≤ '9' then some (c.toNat - '0'.toNat)
  else if 'a' ≤ c ∧ c ≤ 'f' then some (c.toNat - 'a'.toNat + 10)
  else if 'A' ≤ c ∧ c ≤ 'F' then some (c.toNat - 'A'.toNat + 10)
  else none

/-- Reads a UTF-16 unit of four hexadecimal digits. -/
def readUnit? : List Char → Option (Nat × List Char)
  | a :: b :: c :: d :: rest => do
    let a ← hexValue? a
    let b ← hexValue? b
    let c ← hexValue? c
    let d ← hexValue? d
    return (((a * 16 + b) * 16 + c) * 16 + d, rest)
  | _ => none

/-- The character of a short escape. -/
def shortEscape? (c : Char) : Option Char :=
  [('"', '"'), ('\\', '\\'), ('/', '/'), ('b', '\x08'), ('f', '\x0C'), ('n', '\n'), ('r', '\r'),
    ('t', '\t')].lookup c

/-- The unit of an escape that follows the first unit of a pair, if it completes the pair. -/
def readLowUnit? : List Char → Option (Nat × List Char)
  | '\\' :: 'u' :: rest => (readUnit? rest).filter fun (unit, _) => Text.isLowUnit unit
  | _ => none

/-- Reads one character of a string other than the closing quote. -/
def readChar? : List Char → Option (Char × List Char)
  | '\\' :: 'u' :: rest =>
    (readUnit? rest).map fun (unit, rest) =>
      if Text.isHighUnit unit then
        match readLowUnit? rest with
        | some (low, rest) => (Text.charOfPair unit low, rest)
        | none => (Text.charOfUnit unit, rest)
      else (Text.charOfUnit unit, rest)
  | '\\' :: c :: rest => (shortEscape? c).map fun c => (c, rest)
  | c :: rest => if c = '\\' ∨ c.toNat < 0x20 then none else some (c, rest)
  | [] => none

/-- Reads the rest of a string after its opening quote. -/
def readString (fuel : Nat) (cs : List Char) : Except ReadError (List Char × List Char) :=
  match fuel, cs with
  | _, '"' :: rest => .ok ([], rest)
  | 0, _ => .error .malformed
  | fuel + 1, cs =>
    match readChar? cs with
    | some (c, rest) => (readString fuel rest).map fun (chars, rest) => (c :: chars, rest)
    | none => .error .malformed

/-! ## Numbers -/

/-- Whether a character is an ASCII digit. -/
def isDigit (c : Char) : Bool :=
  '0' ≤ c && c ≤ '9'

/-- Takes the digits before the point: a zero alone, or a run that does not begin with one. -/
def takeWhole? : List Char → Option (List Char × List Char)
  | '0' :: rest => some (['0'], rest)
  | c :: rest =>
    if isDigit c then some (c :: rest.takeWhile isDigit, rest.dropWhile isDigit) else none
  | [] => none

/-- Takes a point and the digits after it, if there are any. -/
def takeFraction : List Char → Option (List Char) × List Char
  | '.' :: rest =>
    let digits := rest.takeWhile isDigit
    if digits.isEmpty then (none, '.' :: rest) else (some digits, rest.dropWhile isDigit)
  | cs => (none, cs)

/-- Takes a power of ten, if there is one. -/
def takePower : List Char → Option (Bool × List Char) × List Char
  | c :: rest =>
    if c = 'e' ∨ c = 'E' then
      let (negative, body) := Numeral.splitSign rest
      let digits := body.takeWhile isDigit
      if digits.isEmpty then (none, c :: rest)
      else (some (negative, digits), body.dropWhile isDigit)
    else (none, c :: rest)
  | [] => (none, [])

/-- Reads a number. -/
def readNumber (cs : List Char) : Except ReadError (Value × List Char) :=
  let (negative, body) :=
    match cs with
    | '-' :: rest => (true, rest)
    | cs => (false, cs)
  match takeWhole? body with
  | none => .error .malformed
  | some (whole, rest) =>
    let (fraction, rest) := takeFraction rest
    let (power, rest) := takePower rest
    match (Numeral.mk negative whole fraction power).number? with
    | some n => .ok (.ofNumber n, rest)
    | none => .error .malformed

/-! ## Values -/

/-- The words that stand for a value. -/
def words : List (List Char × Value) :=
  [("null".toList, .null), ("true".toList, .bool true), ("false".toList, .bool false),
    ("NaN".toList, .float (.notNumber 0)), ("Infinity".toList, .float (.infinite false)),
    ("-Infinity".toList, .float (.infinite true))]

/-- Reads a value that has no parts. -/
def readAtom (cs : List Char) : Except ReadError (Value × List Char) :=
  match words.findSome? fun (word, v) => (drop? word cs).map fun rest => (v, rest) with
  | some result => .ok result
  | none => readNumber cs

mutual

/-- Reads a value. -/
def readValue (object : ObjectReader) : Nat → List Char → Except ReadError (Value × List Char)
  | 0, _ => .error .malformed
  | fuel + 1, cs =>
    match cs with
    | '"' :: rest =>
      (readString fuel rest).map fun (chars, rest) => (.text (String.ofList chars), rest)
    | '[' :: rest =>
      match skipSpace rest with
      | ']' :: rest => .ok (.list [], rest)
      | rest => (readItems object fuel rest).map fun (items, rest) => (.list items, rest)
    | '\x7b' :: rest =>
      match skipSpace rest with
      | '\x7d' :: rest => (object []).map fun v => (v, rest)
      | rest => do
        let (entries, rest) ← readEntries object fuel rest
        let v ← object (Entries.ofPairs entries)
        return (v, rest)
    | cs => readAtom cs

/-- Reads the items of an array and its closing bracket. -/
def readItems (object : ObjectReader) : Nat → List Char → Except ReadError (List Value × List Char)
  | 0, _ => .error .malformed
  | fuel + 1, cs => do
    let (v, rest) ← readValue object fuel cs
    match skipSpace rest with
    | ']' :: rest => return ([v], rest)
    | ',' :: rest => do
      let (items, rest) ← readItems object fuel (skipSpace rest)
      return (v :: items, rest)
    | _ => throw .malformed

/-- Reads the entries of an object and its closing bracket. -/
def readEntries (object : ObjectReader) :
    Nat → List Char → Except ReadError (List (Value × Value) × List Char)
  | 0, _ => .error .malformed
  | fuel + 1, cs =>
    match cs with
    | '"' :: rest => do
      let (key, rest) ← readString fuel rest
      match skipSpace rest with
      | ':' :: rest => do
        let (v, rest) ← readValue object fuel (skipSpace rest)
        let entry : Value × Value := (.text (String.ofList key), v)
        match skipSpace rest with
        | '\x7d' :: rest => return ([entry], rest)
        | ',' :: rest => do
          let (entries, rest) ← readEntries object fuel (skipSpace rest)
          return (entry :: entries, rest)
        | _ => throw .malformed
      | _ => throw .malformed
    | _ => throw .malformed

end

/-- Reads a whole text as one value with white space around it. -/
def read (object : ObjectReader) (cs : List Char) : Except ReadError Value := do
  let (v, rest) ← readValue object (cs.length + 1) (skipSpace cs)
  if (skipSpace rest).isEmpty then return v else throw .malformed

end RecordStore.Json
