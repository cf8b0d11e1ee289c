/-!
# Reading UTF-8

Bytes as text, whatever the bytes are. Bytes that form no character are replaced: every longest
beginning of a character that is not completed, and every byte that begins none, stands for one
replacement character.
-/

namespace RecordStore.Text

/-- The character that stands for bytes that form none. -/
def replacement : Char := '\uFFFD'

/-- What a byte begins: the number of bytes that follow in the same character, the bounds of the
first of them, and the bits that the byte contributes. -/
structure Lead where
  more : Nat
  low : Nat
  high : Nat
  bits : Nat

/-- What a byte begins, if it begins a character. -/
def lead? (byte : Nat) : Option Lead :=
  if byte < 0x80 then some ⟨0, 0x80, 0xBF, byte⟩
  else if byte < 0xC2 then none
  else if byte < 0xE0 then some ⟨1, 0x80, 0xBF, byte - 0xC0⟩
  else if byte < 0xF0 then
    some ⟨2, if byte = 0xE0 then 0xA0 else 0x80, if byte = 0xED then 0x9F else 0xBF, byte - 0xE0⟩
  else if byte < 0xF5 then
    some ⟨3, if byte = 0xF0 then 0x90 else 0x80, if byte = 0xF4 then 0x8F else 0xBF, byte - 0xF0⟩
  else none

/-- Reads bytes as text. `pending` is the character that has been begun: how its next byte must be,
and the bits so far. -/
def decodeFrom (pending : Option Lead) : List Nat → List Char
  | [] => if pending.isSome then [replacement] else []
  | byte :: rest =>
    let fresh (before : List Char) : List Char :=
      match lead? byte with
      | none => before ++ replacement :: decodeFrom none rest
      | some lead =>
        if lead.more = 0 then before ++ Char.ofNat lead.bits :: decodeFrom none rest
        else before ++ decodeFrom (some lead) rest
    match pending with
    | none => fresh []
    | some lead =>
      if lead.low ≤ byte ∧ byte ≤ lead.high then
        let bits := lead.bits * 64 + (byte - 0x80)
        if lead.more ≤ 1 then Char.ofNat bits :: decodeFrom none rest
        else decodeFrom (some ⟨lead.more - 1, 0x80, 0xBF, bits⟩) rest
      else fresh [replacement]

/-- Reads bytes as text. -/
def decodeBytes (bytes : List Nat) : List Char :=
  decodeFrom none bytes

/-- The bytes of a text. -/
def encodeBytes (s : String) : List Nat :=
  s.toUTF8.toList.map (·.toNat)

end RecordStore.Text
