/-!
# Blank characters

The characters that separate words: the Unicode white space, together with the four information
separators U+001C to U+001F. `strip` removes them from both ends of a text.
-/

namespace RecordStore.Text

/-- The blank characters, as ranges of code points in ascending order. -/
def blankRanges : List (Nat × Nat) :=
  [
  (0x0009, 0x000D), (0x001C, 0x0020), (0x0085, 0x0085), (0x00A0, 0x00A0), (0x1680, 0x1680),
  (0x2000, 0x200A), (0x2028, 0x2029), (0x202F, 0x202F), (0x205F, 0x205F), (0x3000, 0x3000)
  ]

/-- Whether a code point lies in one of a list of ranges, both ends included. -/
def inRanges (ranges : List (Nat × Nat)) (code : Nat) : Bool :=
  ranges.any fun range => range.1 ≤ code && code ≤ range.2

/-- Whether a character is blank. -/
def isBlank (c : Char) : Bool :=
  inRanges blankRanges c.toNat

/-- Drops the blanks at the end of a list of characters. -/
def dropBlankEnd (cs : List Char) : List Char :=
  (cs.reverse.dropWhile isBlank).reverse

/-- Drops the blanks at both ends of a list of characters. -/
def stripChars (cs : List Char) : List Char :=
  dropBlankEnd (cs.dropWhile isBlank)

/-- Drops the blanks at both ends of a text. -/
def strip (s : String) : String :=
  String.ofList (stripChars s.toList)

end RecordStore.Text
