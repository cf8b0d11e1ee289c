import RecordStore.Number.Binary64

/-!
# Shortest decimal text of a floating-point number

A number is written with the fewest digits that read back as the same number; of several such
decimals the nearest to the exact value is taken, and the even one of two equally near. For each
count of digits only the two neighbours of the value on that decimal grid need to be tried.

The text is positional for decimal exponents from -4 to 15, always with a point, and otherwise in
the form `1.5e+16`, with at least two digits in the exponent.
-/

namespace RecordStore

namespace Binary64

/-- The count of decimal digits of a natural number. -/
def digitCount (n : Nat) : Nat :=
  (Nat.toDigits 10 n).length

/-- The decimal order of a positive quotient: the `k` with `10 ^ (k - 1) ≤ num / den < 10 ^ k`. -/
def decimalOrder (num den : Nat) : Int :=
  if den ≤ num then digitCount (num / den)
  else 1 - (digitCount ((den + num - 1) / num - 1) : Int)

/-- Of the two neighbours of `num / den` on the grid of multiples of `10 ^ unit`, those that read
back as the number, the nearer one first. -/
def neighbours (num den : Nat) (unit : Int) : List Nat :=
  let scaledNum := num * Nat.pow 10 (-unit).toNat
  let scaledDen := den * Nat.pow 10 unit.toNat
  let below := scaledNum / scaledDen
  let rest := 2 * (scaledNum % scaledDen)
  if rest < scaledDen || (rest == scaledDen && below % 2 == 0) then [below, below + 1]
  else [below + 1, below]

/-- The first decimal found on the grids of the given counts of digits that reads back as the
positive number `significand · 2 ^ exponent`. -/
def shortestAmong (significand : Nat) (exponent : Int) (counts : List Nat) : Option (Nat × Int) :=
  let num := significand * Nat.pow 2 exponent.toNat
  let den := Nat.pow 2 (-exponent).toNat
  let order := decimalOrder num den
  let target := ofParts false significand exponent
  counts.findSome? fun (count : Nat) =>
    let unit := order - count
    ((neighbours num den unit).find? fun digits => ofDecimal false digits unit = target).map
      fun digits => (digits, unit)

/-- The shortest decimal of a positive finite number, as digits and a power of ten. Seventeen
digits always suffice; the exact decimal stands in where no grid is tried. -/
def shortest (significand : Nat) (exponent : Int) : Nat × Int :=
  (shortestAmong significand exponent ((List.range 17).map (· + 1))).getD
    (significand * Nat.pow 2 exponent.toNat * Nat.pow 5 (-exponent).toNat, min exponent 0)

/-- Drops the zeros at the end of the digits of a number. -/
def trimZeros (digits : List Char) : List Char :=
  (digits.reverse.dropWhile (· == '0')).reverse

/-- Lays out the digits of a decimal whose value is `0.digits · 10 ^ point`. -/
def layOut (digits : List Char) (point : Int) : List Char :=
  if -3 ≤ point && point ≤ 16 then
    if point ≤ 0 then
      '0' :: '.' :: (List.replicate (-point).toNat '0' ++ digits)
    else
      let whole := digits.take point.toNat
      let fraction := digits.drop point.toNat
      whole ++ List.replicate (point.toNat - whole.length) '0' ++
        '.' :: (if fraction.isEmpty then ['0'] else fraction)
  else
    let power := point - 1
    let powerDigits := Nat.toDigits 10 power.natAbs
    let fraction := digits.drop 1
    digits.take 1 ++ (if fraction.isEmpty then [] else '.' :: fraction) ++
      'e' :: (if power < 0 then '-' else '+') ::
        (List.replicate (2 - powerDigits.length) '0' ++ powerDigits)

/-- The characters of a finite number without its sign. -/
def unsignedText (significand : Nat) (exponent : Int) : List Char :=
  if significand = 0 then ['0', '.', '0']
  else
    let (digits, unit) := shortest significand exponent
    let all := Nat.toDigits 10 digits
    layOut (trimZeros all) (all.length + unit)

/-- The spellings of the values that have no digits. -/
structure SpecialNames where
  infinity : String
  notNumber : String

/-- The text of a number, with the given names for infinities and for what is not a number. -/
def textWith (names : SpecialNames) : Binary64 → String
  | .finite negative significand exponent _ =>
    String.ofList ((if negative then ['-'] else []) ++ unsignedText significand exponent)
  | .infinite negative => (if negative then "-" else "") ++ names.infinity
  | .notNumber _ => names.notNumber

/-- The text of a number as queries and tables show it. -/
def text : Binary64 → String :=
  textWith ⟨"inf", "nan"⟩

end Binary64

end RecordStore
