import RecordStore.Text.Blank

/-!
# Lines of input

A terminal reads lines. A line that begins with a point is a command of the terminal, unless a
statement has been begun. All other lines are put together, separated by single blanks, until one
ends with a semicolon: then the statement is complete.
-/

namespace RecordStore.Shell

/-- What a line of input amounts to. -/
inductive Input where
  /-- A blank line. -/
  | nothing
  /-- A command of the terminal. -/
  | command (text : String)
  /-- A part of a statement that goes on. -/
  | continued
  /-- The last line of a statement; the text is the whole statement. -/
  | statement (text : String)
  deriving DecidableEq

/-- Whether a line, without blanks around it, ends a statement. -/
def endsStatement (line : String) : Bool :=
  line.toList.getLast? == some ';'

/-- Reads a line while the given lines of a statement are pending: what it amounts to, and the
lines that are pending after it. -/
def readLine (pending : List String) (line : String) : Input × List String :=
  let line := Text.strip line
  if line.isEmpty then (.nothing, pending)
  else if pending.isEmpty && line.startsWith "." then (.command line, pending)
  else
    let lines := pending ++ [line]
    if endsStatement line then (.statement (" ".intercalate lines), []) else (.continued, lines)

/-- Reads lines one after the other: what each of them amounts to, and the lines that are pending
after the last one. -/
def readLines (pending : List String) : List String → List Input × List String
  | [] => ([], pending)
  | line :: rest =>
    let (input, pending) := readLine pending line
    let (inputs, pending) := readLines pending rest
    (input :: inputs, pending)

end RecordStore.Shell
