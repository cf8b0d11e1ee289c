import RecordStore.Calendar.Timestamp

/-!
# Dates and times in the standard form

The reader of the date and time formats of ISO 8601: dates as year, month and day or as year, week
and weekday, with dashes or without, then any one character, then a time of day with colons or
without, a fraction of a second and an offset. Only the first six digits of a fraction count.

Where a week is followed by more digits the text is ambiguous, and `separatorIndex` decides where
its date ends. One ASCII character between a time of day and its offset is not looked at.
-/

namespace RecordStore.Standard

/-- The character at an index; beyond the end there is a null character. -/
def charAt (cs : List Char) (i : Nat) : Char :=
  cs.getD i '\x00'

/-- The value of an ASCII digit. -/
def digit? (c : Char) : Option Nat :=
  if '0' ≤ c ∧ c ≤ '9' then some (c.toNat - '0'.toNat) else none

/-- Reads a number of exactly `count` digits, and gives the rest. -/
def takeDigits? : Nat → Nat → List Char → Option (Nat × List Char)
  | 0, n, cs => some (n, cs)
  | _ + 1, _, [] => none
  | count + 1, n, c :: rest => (digit? c).bind fun d => takeDigits? count (10 * n + d) rest

/-- Where the date ends and the separator stands. -/
def separatorIndex (cs : List Char) : Nat :=
  if cs.length = 7 then 7
  else if charAt cs 4 = '-' then
    if charAt cs 5 = 'W' then
      if charAt cs 8 = '-' then
        if (digit? (charAt cs 10)).isSome then 8 else 10
      else 8
    else 10
  else if charAt cs 4 = 'W' then
    let stop := 7 + ((cs.drop 7).takeWhile fun c => (digit? c).isSome).length
    if stop < 9 then stop else if stop % 2 = 0 then 7 else 8
  else 8

/-- Reads the weekday that may follow a week, after a dash if the date is written with dashes. -/
def readWeekday? (dashed : Bool) : List Char → Option Nat
  | [] => some 1
  | c :: rest =>
    if dashed then
      if c = '-' then (takeDigits? 1 0 rest).map (·.1) else none
    else (takeDigits? 1 0 (c :: rest)).map (·.1)

/-- Reads the date that stands at the start of a text, up to where the separator stands. -/
def readDate? (cs : List Char) (stop : Nat) : Option Date :=
  (takeDigits? 4 0 cs).bind fun (year, rest) =>
    let dashed := rest.head? = some '-'
    let rest := if dashed then rest.drop 1 else rest
    match rest with
    | 'W' :: rest =>
      (takeDigits? 2 0 rest).bind fun (week, _) =>
        (readWeekday? dashed ((cs.take stop).drop (if dashed then 8 else 7))).bind fun weekday =>
          Date.ofWeek? year week weekday
    | rest =>
      (takeDigits? 2 0 rest).bind fun (month, rest) =>
        let rest := if dashed then (if rest.head? = some '-' then some (rest.drop 1) else none)
          else some rest
        rest.bind fun rest =>
          (takeDigits? 2 0 rest).bind fun (day, _) => Date.make? year month day

/-- The parts of a time of day, not yet checked for their ranges. -/
structure Clock where
  hour : Nat
  minute : Nat
  second : Nat
  microsecond : Nat

/-- Whether a rest of characters counts as more text. -/
def isMore (cs : List Char) : Bool :=
  charAt cs 0 != '\x00'

/-- Reads a fraction of a second: its microseconds, and whether more text follows. -/
def readFraction? (cs : List Char) : Option (Nat × Bool) :=
  let count := min 6 cs.length
  (takeDigits? count 0 cs).map fun (n, rest) =>
    (n * Nat.pow 10 (6 - count), isMore (rest.dropWhile fun c => (digit? c).isSome))

/-- Reads the parts of a time of day from the one of index `parts.length` on, three parts at most.
Gives the parts, the microseconds and whether more text follows. -/
def readParts? (colons : Bool) (remaining : Nat) (parts : List Nat) (cs : List Char) :
    Option (List Nat × Nat × Bool) :=
  match remaining with
  | 0 => (readFraction? cs).map fun (micros, more) => (parts, micros, more)
  | remaining + 1 =>
    (takeDigits? 2 0 cs).bind fun (n, rest) =>
      let parts := parts ++ [n]
      match rest with
      | [] => some (parts, 0, false)
      | c :: rest =>
        let colons := if parts.length = 1 then c = ':' else colons
        if rest.isEmpty && c.toNat < 0x80 then some (parts, 0, c != '\x00')
        else if colons ∧ c = ':' then readParts? colons remaining parts rest
        else if c = '.' ∨ c = ',' then
          (readFraction? rest).map fun (micros, more) => (parts, micros, more)
        else if colons then none
        else readParts? colons remaining parts (c :: rest)

/-- Reads a time of day without an offset, and tells whether more text follows. -/
def readClock? (cs : List Char) : Option (Clock × Bool) :=
  (readParts? false 3 [] cs).map fun (parts, micros, more) =>
    (⟨parts.getD 0 0, parts.getD 1 0, parts.getD 2 0, micros⟩, more)

/-- Whether a character starts an offset. -/
def startsOffset (c : Char) : Bool :=
  c = '+' || c = '-' || c = 'Z'

/-- Reads an offset in microseconds. One of less than a second is none at all. -/
def readOffset? : List Char → Option Int
  | 'Z' :: rest => if isMore rest then none else some 0
  | sign :: rest =>
    (readClock? rest).bind fun (clock, more) =>
      if more then none
      else
        let seconds := (clock.hour * 60 + clock.minute) * 60 + clock.second
        let micros : Int :=
          if seconds = 0 then 0 else (seconds * microsPerSecond + clock.microsecond : Nat)
        some (if sign = '-' then -micros else micros)
  | [] => none

/-- Reads a time of day with an optional offset, on a date. -/
def readTime? (date : Date) (cs : List Char) : Option Timestamp :=
  (readClock? (cs.takeWhile fun c => !startsOffset c)).bind fun (clock, more) =>
    let make (offset : Option Int) :=
      Timestamp.make? date clock.hour clock.minute clock.second clock.microsecond offset
    match cs.dropWhile fun c => !startsOffset c with
    | [] => if more then none else make none
    | rest => (readOffset? rest).bind fun shift => make (some shift)

/-- Reads a text in the standard form. A date without a time is the start of its day. -/
def read? (cs : List Char) : Option Timestamp :=
  let stop := separatorIndex cs
  (readDate? cs stop).bind fun date =>
    match cs.drop stop with
    | [] => Timestamp.make? date 0 0 0 0 none
    | _ :: time => readTime? date time

end RecordStore.Standard
