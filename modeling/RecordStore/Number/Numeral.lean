import RecordStore.Number.Basic
import RecordStore.Text.Digit

/-!
# Numerals

A numeral is a number as written in a query: an optional sign, digits with an optional point among
them, and an optional power of ten. It denotes an integer if it has neither point nor power, and
otherwise the nearest floating-point number. Digits of any script may be used, and one line break
at the end is ignored.
-/

namespace RecordStore

/-- The parts of a numeral. -/
structure Numeral where
  negative : Bool
  whole : List Char
  fraction : Option (List Char)
  power : Option (Bool × List Char)

namespace Numeral

/-- Takes a sign off the front: whether it is a minus, and what follows. -/
def splitSign : List Char → Bool × List Char
  | '-' :: rest => (true, rest)
  | '+' :: rest => (false, rest)
  | cs => (false, cs)

/-- Drops one line break at the end. -/
def dropFinalBreak (cs : List Char) : List Char :=
  if cs.getLast? = some '\n' then cs.dropLast else cs

/-- Reads the power of ten that may end a numeral. -/
def parsePower? : List Char → Option (Option (Bool × List Char))
  | [] => some none
  | c :: rest =>
    if c == 'e' || c == 'E' then
      let (negative, digits) := splitSign rest
      if !digits.isEmpty && digits.all Text.isDecimal then some (some (negative, digits)) else none
    else none

/-- Reads a text as a numeral. -/
def parse? (cs : List Char) : Option Numeral :=
  let (negative, body) := splitSign (dropFinalBreak cs)
  let whole := body.takeWhile Text.isDecimal
  match body.dropWhile Text.isDecimal with
  | '.' :: tail =>
    let fraction := tail.takeWhile Text.isDecimal
    if whole.isEmpty && fraction.isEmpty then none
    else
      (parsePower? (tail.dropWhile Text.isDecimal)).map fun power =>
        ⟨negative, whole, some fraction, power⟩
  | tail =>
    if whole.isEmpty then none
    else (parsePower? tail).map fun power => ⟨negative, whole, none, power⟩

/-- The number that decimal digits denote. -/
def naturalOf (digits : List Char) : Nat :=
  digits.foldl (fun n c => 10 * n + (Text.digitValue? c).getD 0) 0

/-- A natural number with a sign. -/
def signed (negative : Bool) (n : Nat) : Int :=
  if negative then -(n : Int) else n

/-- The number that a numeral denotes, unless it is an integer of too many digits. -/
def number? (numeral : Numeral) : Option Number :=
  match numeral.fraction, numeral.power with
  | none, none =>
    if numeral.whole.length ≤ Number.digitLimit then
      some (.whole (signed numeral.negative (naturalOf numeral.whole)))
    else none
  | fraction, power =>
    let fractionDigits := fraction.getD []
    let shift : Int := power.elim 0 fun (negative, digits) => signed negative (naturalOf digits)
    some (.binary (Binary64.ofDecimal numeral.negative
      (naturalOf (numeral.whole ++ fractionDigits)) (shift - fractionDigits.length)))

/-- Whether a text is a numeral. -/
def isNumeral (s : String) : Bool :=
  (parse? s.toList).isSome

end Numeral

namespace Number

/-- The digits of an integer in which single underscores may stand between digits. -/
def digitsBetweenUnderscores? : List Char → Option (List Char)
  | [] => none
  | [c] => if Text.isDecimal c then some [c] else none
  | c :: '_' :: rest =>
    if Text.isDecimal c then (digitsBetweenUnderscores? rest).map (c :: ·) else none
  | c :: rest =>
    if Text.isDecimal c then (digitsBetweenUnderscores? rest).map (c :: ·) else none

/-- Whether a character may stand around an integer: the information separators may not, although
they are blank. -/
def isMargin (c : Char) : Bool :=
  Text.isBlank c && !(0x1C ≤ c.toNat && c.toNat ≤ 0x1F)

/-- Reads a whole text as an integer: blanks around it, a sign and underscores between digits are
allowed. -/
def integerOfText? (s : String) : Option Int :=
  let stripped := ((s.toList.dropWhile isMargin).reverse.dropWhile isMargin).reverse
  let (negative, body) := Numeral.splitSign stripped
  (digitsBetweenUnderscores? body).bind fun digits =>
    if digits.length ≤ digitLimit then
      some (Numeral.signed negative (Numeral.naturalOf digits))
    else none

end Number

end RecordStore
