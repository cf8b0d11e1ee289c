import RecordStore.Number.Basic
import RecordStore.Text.Quoted

/-!
# Escaped text in JSON

Strings are written in printable ASCII: quotes, backslashes and a few control characters have short
escapes, and every other character outside the printable ASCII range is written by its UTF-16 units
in hexadecimal.
-/

namespace RecordStore.Snapshot

/-- The escape of one UTF-16 unit. -/
def escapeUnit (unit : Nat) : List Char :=
  '\\' :: 'u' :: Text.hexDigits 4 unit

/-- The escape of a character by its UTF-16 units. -/
def escapeCode (code : Nat) : List Char :=
  if code < 0x10000 then escapeUnit code
  else
    let rest := code - 0x10000
    escapeUnit (0xD800 + rest / 0x400) ++ escapeUnit (0xDC00 + rest % 0x400)

/-- One character of a string. -/
def escapeChar (c : Char) : List Char :=
  if c == '"' then ['\\', '"']
  else if c == '\\' then ['\\', '\\']
  else if c == '\n' then ['\\', 'n']
  else if c == '\r' then ['\\', 'r']
  else if c == '\t' then ['\\', 't']
  else if c == '\x0C' then ['\\', 'f']
  else if c == '\x08' then ['\\', 'b']
  else if 0x20 ≤ c.toNat ∧ c.toNat ≤ 0x7E then [c]
  else escapeCode c.toNat

/-- A string between quotes. -/
def quote (s : String) : List Char :=
  '"' :: s.toList.flatMap escapeChar ++ ['"']

/-- The text of a floating-point number, as files write it. -/
def floatText (x : Binary64) : List Char :=
  (x.textWith ⟨"Infinity", "NaN"⟩).toList

end RecordStore.Snapshot
