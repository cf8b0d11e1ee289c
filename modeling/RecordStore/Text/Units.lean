/-!
# Text in wide units

Text as units of two or four bytes. A character beyond the first 65536 takes two units of two bytes,
a high and a low one; a unit of such a pair that stands alone is no character and is replaced. Where
nothing tells the width of the units and the order of their bytes, the null bytes at the start of a
text do, because texts of a format such as JSON begin with ASCII.
-/

namespace RecordStore.Text

/-- Whether a unit of two bytes is the first of a pair. -/
def isHighUnit (unit : Nat) : Bool :=
  0xD800 ≤ unit && unit ≤ 0xDBFF

/-- Whether a unit of two bytes is the second of a pair. -/
def isLowUnit (unit : Nat) : Bool :=
  0xDC00 ≤ unit && unit ≤ 0xDFFF

/-- The character of a unit; half a pair stands for the replacement character. -/
def charOfUnit (unit : Nat) : Char :=
  if isHighUnit unit || isLowUnit unit then '\uFFFD' else Char.ofNat unit

/-- The character of a pair of units. -/
def charOfPair (high low : Nat) : Char :=
  Char.ofNat (0x10000 + (high - 0xD800) * 0x400 + (low - 0xDC00))

/-- The characters of units of two bytes. `high` is the first unit of a pair that has been begun. -/
def charsOfUnits (high : Option Nat) : List Nat → List Char
  | [] => (high.map charOfUnit).toList
  | unit :: rest =>
    match high with
    | some first =>
      if isLowUnit unit then charOfPair first unit :: charsOfUnits none rest
      else if isHighUnit unit then charOfUnit first :: charsOfUnits (some unit) rest
      else charOfUnit first :: charOfUnit unit :: charsOfUnits none rest
    | none =>
      if isHighUnit unit then charsOfUnits (some unit) rest
      else charOfUnit unit :: charsOfUnits none rest

/-- How a text is written in bytes. -/
inductive Encoding where
  | utf8
  /-- Units of two bytes, with the higher byte first or last. -/
  | utf16 (highFirst : Bool)
  /-- Units of four bytes, with the highest byte first or last. -/
  | utf32 (highFirst : Bool)
  deriving DecidableEq

namespace Encoding

/-- The encoding that the null bytes at the start of a text show. -/
def ofBytes : List Nat → Encoding
  | a :: b :: c :: d :: _ =>
    if a = 0 then (if b = 0 then .utf32 true else .utf16 true)
    else if b = 0 then (if c = 0 ∧ d = 0 then .utf32 false else .utf16 false)
    else .utf8
  | [a, b] => if a = 0 then .utf16 true else if b = 0 then .utf16 false else .utf8
  | _ => .utf8

/-- The number of a unit of two bytes. -/
def unit (highFirst : Bool) (a b : Nat) : Nat :=
  if highFirst then a * 0x100 + b else b * 0x100 + a

/-- The units of two bytes; nothing if a byte is left over. -/
def units? (highFirst : Bool) : List Nat → Option (List Nat)
  | [] => some []
  | a :: b :: rest => (units? highFirst rest).map (unit highFirst a b :: ·)
  | [_] => none

/-- The numbers of pairs of units; nothing if a unit is left over. -/
def wideUnits? (highFirst : Bool) : List Nat → Option (List Nat)
  | [] => some []
  | a :: b :: rest =>
    let code := if highFirst then a * 0x10000 + b else b * 0x10000 + a
    (wideUnits? highFirst rest).map (code :: ·)
  | [_] => none

/-- The characters of units of four bytes; nothing if one of them is beyond the last character. -/
def charsOfCodes? (codes : List Nat) : Option (List Char) :=
  if codes.all (· < 0x110000) then some (codes.map charOfUnit) else none

/-- The text of bytes in wide units; nothing if they are none, or in another encoding. -/
def decode? (encoding : Encoding) (bytes : List Nat) : Option (List Char) :=
  match encoding with
  | .utf8 => none
  | .utf16 highFirst => (units? highFirst bytes).map (charsOfUnits none)
  | .utf32 highFirst =>
    ((units? highFirst bytes).bind (wideUnits? highFirst)).bind charsOfCodes?

end Encoding

end RecordStore.Text
