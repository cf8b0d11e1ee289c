/-!
# Binary floating point

The numbers of 64-bit binary floating point, as exact values: a finite number is a sign and a
significand of 53 bits times a power of two, in canonical form, so that two finite numbers other
than the zeros are equal exactly if they are the same value. Rounding goes to the nearest
representable number, ties to the even significand, and everything is computed in exact integers.

A value that is not a number carries a payload. It equals no number, and as a key it is told apart
from others by the payload.
-/

namespace RecordStore

/-- A significand has at most 53 bits, and uses all of them unless the exponent is the least. -/
def Binary64.Canonical (significand : Nat) (exponent : Int) : Prop :=
  significand < Nat.pow 2 53 ∧ -1074 ≤ exponent ∧ exponent ≤ 971 ∧
    (Nat.pow 2 52 ≤ significand ∨ exponent = -1074)

instance (significand : Nat) (exponent : Int) :
    Decidable (Binary64.Canonical significand exponent) := by
  unfold Binary64.Canonical
  infer_instance

/-- A number of 64-bit binary floating point. -/
inductive Binary64 where
  /-- The value `significand · 2 ^ exponent`, negated if `negative`. -/
  | finite (negative : Bool) (significand : Nat) (exponent : Int)
      (canonical : Binary64.Canonical significand exponent)
  | infinite (negative : Bool)
  | notNumber (payload : Nat)
  deriving DecidableEq

namespace Binary64

/-- The zero of a sign. -/
def zero (negative : Bool) : Binary64 :=
  .finite negative 0 (-1074) (by decide)

/-- The number with these parts; parts that are out of range stand for an overflow. -/
def ofParts (negative : Bool) (significand : Nat) (exponent : Int) : Binary64 :=
  if h : Canonical significand exponent then .finite negative significand exponent h
  else .infinite negative

/-- A quotient rounded to the nearest natural number, ties to the even one. -/
def roundQuotient (num den : Nat) : Nat :=
  let quotient := num / den
  let rest := 2 * (num % den)
  if rest < den then quotient
  else if rest > den then quotient + 1
  else quotient + quotient % 2

/-- The power of two at or just below a positive quotient: the greatest `k` with
`2 ^ k ≤ num / den`. -/
def binaryOrder (num den : Nat) : Int :=
  let guess : Int := (num.log2 : Int) - den.log2
  if den * Nat.pow 2 guess.toNat ≤ num * Nat.pow 2 (-guess).toNat then guess else guess - 1

/-- The number nearest to a quotient, ties to the even significand. -/
def ofRatio (negative : Bool) (num den : Nat) : Binary64 :=
  if num = 0 then zero negative
  else
    let exponent := max (-1074) (binaryOrder num den - 52)
    let significand :=
      roundQuotient (num * Nat.pow 2 (-exponent).toNat) (den * Nat.pow 2 exponent.toNat)
    if significand = Nat.pow 2 53 then ofParts negative (Nat.pow 2 52) (exponent + 1)
    else ofParts negative significand exponent

/-- The number nearest to `digits · 10 ^ exponent`. Exponents far outside the range of the format
give an infinity or a zero at once. -/
def ofDecimal (negative : Bool) (digits : Nat) (exponent : Int) : Binary64 :=
  if digits = 0 then zero negative
  else if exponent > 400 then .infinite negative
  else if exponent < -(400 + digits.log2 : Int) then zero negative
  else ofRatio negative (digits * Nat.pow 10 exponent.toNat) (Nat.pow 10 (-exponent).toNat)

/-- The number nearest to an integer; an infinity if it is out of range. -/
def ofInt (i : Int) : Binary64 :=
  ofRatio (i < 0) i.natAbs 1

/-- The number nearest to a rational number. -/
def ofRat (q : Rat) : Binary64 :=
  ofRatio (q < 0) q.num.natAbs q.den

/-- The exact value of a significand and an exponent. -/
def scaled (significand : Nat) (exponent : Int) : Rat :=
  mkRat (significand * Nat.pow 2 exponent.toNat) (Nat.pow 2 (-exponent).toNat)

/-- The exact value of a finite number. -/
def value? : Binary64 → Option Rat
  | .finite negative significand exponent _ =>
    let magnitude := scaled significand exponent
    some (if negative then -magnitude else magnitude)
  | _ => none

/-- Whether a number is neither infinite nor undefined. -/
def isFinite : Binary64 → Bool
  | .finite .. => true
  | _ => false

/-- Whether a number is a zero of either sign. -/
def isZero : Binary64 → Bool
  | .finite _ significand _ _ => significand == 0
  | _ => false

/-- The sum of a number and one, rounded. What is not a number stays so, under a payload of its
own. -/
def successor (x : Binary64) : Binary64 :=
  match x, x.value? with
  | _, some q => ofRat (q + 1)
  | .notNumber payload, none => .notNumber (payload + 1)
  | x, none => x

end Binary64

end RecordStore
