import RecordStore.Calendar.Timestamp
import RecordStore.Text.Blank

/-!
# Dates and times by pattern

Dates and times written after a fixed pattern of fields and separators, where months, days and the
parts of the time may have one digit. A field takes the first of its spellings that lets the rest of
the pattern match, and a blank in the pattern stands for any run of blanks.
-/

namespace RecordStore

/-- The parts of a pattern. -/
inductive Pattern.Piece where
  /-- A field, as its spellings in order of preference; each says what every character may be. -/
  | field (spellings : List (List (Char → Bool)))
  /-- A separator; letters match in either case. -/
  | mark (c : Char)
  /-- One or more blanks. -/
  | blanks

namespace Pattern

/-- The digits in a range. -/
def between (low high : Char) (c : Char) : Bool :=
  low ≤ c && c ≤ high

/-- One given character. -/
def only (expected : Char) (c : Char) : Bool :=
  c == expected

/-- A year of four digits. -/
def year : Piece :=
  .field [[Text.isDecimal, Text.isDecimal, Text.isDecimal, Text.isDecimal]]

/-- A month. -/
def month : Piece :=
  .field [[only '1', between '0' '2'], [only '0', between '1' '9'], [between '1' '9']]

/-- A day of the month. -/
def day : Piece :=
  .field [[only '3', between '0' '1'], [between '1' '2', Text.isDecimal],
    [only '0', between '1' '9'], [between '1' '9'], [only ' ', between '1' '9']]

/-- An hour of the day. -/
def hour : Piece :=
  .field [[only '2', between '0' '3'], [between '0' '1', Text.isDecimal], [Text.isDecimal]]

/-- A minute. -/
def minute : Piece :=
  .field [[between '0' '5', Text.isDecimal], [Text.isDecimal]]

/-- A second; leap seconds match here and are refused later. -/
def second : Piece :=
  .field [[only '6', between '0' '1'], [between '0' '5', Text.isDecimal], [Text.isDecimal]]

/-- Takes the characters of one spelling off the front. -/
def takeSpelling? : List (Char → Bool) → List Char → Option (List Char × List Char)
  | [], cs => some ([], cs)
  | _ :: _, [] => none
  | class' :: classes, c :: rest =>
    if class' c then (takeSpelling? classes rest).map fun (taken, rest) => (c :: taken, rest)
    else none

/-- The number that the characters of a field denote; a leading blank does not count. -/
def fieldValue (cs : List Char) : Nat :=
  cs.foldl (fun n c => 10 * n + (Text.digitValue? c).getD 0) 0

/-- The rests after a nonempty run of blanks, the shortest rest first. -/
def afterBlanks : List Char → List (List Char)
  | [] => []
  | c :: rest => if Text.isBlank c then afterBlanks rest ++ [rest] else []

/-- All ways to match the pieces at the start of a text, in order of preference: the values of the
fields and what follows. -/
def allMatches : List Piece → List Char → List (List Nat × List Char)
  | [], cs => [([], cs)]
  | .field spellings :: pieces, cs =>
    (spellings.filterMap (takeSpelling? · cs)).flatMap fun (taken, rest) =>
      (allMatches pieces rest).map fun (values, rest) => (fieldValue taken :: values, rest)
  | .mark expected :: pieces, cs =>
    match cs with
    | [] => []
    | c :: rest => if c.toUpper == expected then allMatches pieces rest else []
  | .blanks :: pieces, cs => (afterBlanks cs).flatMap (allMatches pieces)

/-- The values of the fields, if the preferred match reaches the end of the text. -/
def values? (pieces : List Piece) (cs : List Char) : Option (List Nat) :=
  match (allMatches pieces cs).head? with
  | some (values, []) => some values
  | _ => none

/-- The fields of a date. -/
def datePieces : List Piece :=
  [year, .mark '-', month, .mark '-', day]

/-- The fields of a date and a time of day, with a given piece between them. -/
def momentPieces (separator : Piece) : List Piece :=
  datePieces ++ [separator, hour, .mark ':', minute, .mark ':', second]

/-- Reads a date with dashes. -/
def readDate? (cs : List Char) : Option Date :=
  (values? datePieces cs).bind fun
    | [year, month, day] => Date.make? year month day
    | _ => none

/-- Reads a date and a time of day, with a given piece between them. -/
def readMoment? (separator : Piece) (cs : List Char) : Option Timestamp :=
  (values? (momentPieces separator) cs).bind fun
    | [year, month, day, hour, minute, second] =>
      (Date.make? year month day).bind fun date => Timestamp.make? date hour minute second 0 none
    | _ => none

end Pattern

end RecordStore
