import RecordStore.Calendar.Standard
import RecordStore.Calendar.Pattern

/-!
# Dates as users write them

A text is a date if, without the blanks around it, it is in the standard form or matches one of the
patterns with short fields. Text of at most ten characters denotes a plain date, and longer text a
timestamp.
-/

namespace RecordStore

/-- A date, or a date with a time of day. -/
inductive Moment where
  | date (d : Date)
  | timestamp (t : Timestamp)
  deriving DecidableEq

namespace Moment

/-- The start of a day. -/
def startOfDay (d : Date) : Timestamp :=
  ⟨d, 0, 0, 0, 0, none, by decide⟩

/-- Reads the characters of a date, without blanks around them, as a timestamp. -/
def timestampOf? (cs : List Char) : Option Timestamp :=
  (Standard.read? cs).or <|
    ((Pattern.readDate? cs).map startOfDay).or <|
      (Pattern.readMoment? .blanks cs).or (Pattern.readMoment? (.mark 'T') cs)

/-- Reads a text as a date or a timestamp. -/
def parse? (s : String) : Option Moment :=
  let cs := Text.stripChars s.toList
  (timestampOf? cs).map fun t => if cs.length ≤ 10 then .date t.date else .timestamp t

end Moment

end RecordStore
