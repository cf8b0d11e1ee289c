import Mathlib.Data.List.TakeWhile
import RecordStore.Proofs.Number.Decimal
import RecordStore.Proofs.Number.Digits

/-!
# The shortest decimal reads back

The digits that a floating-point number is written with are read back as the same number: either
they have been found by reading them, or they are the exact value.  They are laid out with a point
or with a power of ten, after zeros at the end have been dropped; the numeral that is laid out
denotes the same value, so it is read back as the same number too.
-/

namespace RecordStore

namespace Binary64

/-! ## Signs -/

/-- A number with its sign replaced. -/
def withSign (negative : Bool) : Binary64 → Binary64
  | .finite _ significand exponent canonical => .finite negative significand exponent canonical
  | .infinite _ => .infinite negative
  | .notNumber payload => .notNumber payload

/-- Parts make the same number up to the sign. -/
lemma withSign_ofParts (negative : Bool) (m : Nat) (e : Int) :
    (ofParts false m e).withSign negative = ofParts negative m e := by
  unfold ofParts
  split <;> rfl

/-- Digits and a power of ten are read as the same number up to the sign. -/
lemma withSign_ofDecimal (negative : Bool) (digits : Nat) (e : Int) :
    (ofDecimal false digits e).withSign negative = ofDecimal negative digits e := by
  rw [ofDecimal_eq_ofRatio, ofDecimal_eq_ofRatio, ofRatio, ofRatio]
  split
  · rfl
  · dsimp only
    split <;> exact withSign_ofParts negative _ _

/-! ## The shortest decimal -/

/-- Digits that are found on some grid have been read back. -/
lemma ofDecimal_of_shortestAmong {m : Nat} {e : Int} {counts : List Nat} {digits : Nat}
    {unit : Int} (h : shortestAmong m e counts = some (digits, unit)) :
    ofDecimal false digits unit = ofParts false m e := by
  obtain ⟨count, -, hcount⟩ := List.exists_of_findSome?_eq_some h
  obtain ⟨found, hfound, hpair⟩ := Option.map_eq_some_iff.mp hcount
  obtain ⟨rfl, rfl⟩ := Prod.mk.inj hpair
  have hreads := List.find?_some hfound
  exact of_decide_eq_true hreads

/-- The exact decimal has the value of the number. -/
lemma exactDecimal_eq (m : Nat) (e : Int) :
    ((m * 2 ^ e.toNat * 5 ^ (-e).toNat : Nat) : Rat) * 10 ^ min e 0 = m * 2 ^ e := by
  rcases Int.le_total 0 e with he | he
  · obtain ⟨n, rfl⟩ := Int.eq_ofNat_of_zero_le he
    have hmin : min (n : Int) 0 = 0 := min_eq_right he
    rw [hmin]
    simp
  · obtain ⟨n, hn⟩ := Int.eq_ofNat_of_zero_le (Int.neg_nonneg.mpr he)
    obtain rfl : e = -(n : Int) := by rw [← hn, neg_neg]
    have hmin : min (-(n : Int)) 0 = -(n : Int) := min_eq_left he
    have hten : (10 : Rat) ^ n = 5 ^ n * 2 ^ n := by rw [← mul_pow]; norm_num
    have hfive : (5 : Rat) ^ n ≠ 0 := by positivity
    rw [hmin]
    simp only [neg_neg, Int.toNat_natCast, Int.toNat_neg_natCast, pow_zero, mul_one, zpow_neg,
      zpow_natCast, hten]
    push_cast
    field_simp

/-- The shortest decimal of a number is read back as the number. -/
theorem ofDecimal_shortest (negative : Bool) {m : Nat} {e : Int} (hm : m ≠ 0)
    (hcanonical : Canonical m e) :
    ofDecimal negative (shortest m e).1 (shortest m e).2 = ofParts negative m e := by
  have hfalse : ofDecimal false (shortest m e).1 (shortest m e).2 = ofParts false m e := by
    unfold shortest
    cases hfound : shortestAmong m e ((List.range 17).map (· + 1)) with
    | some pair => exact ofDecimal_of_shortestAmong hfound
    | none =>
      refine ofDecimal_exact false hm hcanonical ?_
      simp only [Option.getD_none, Nat.pow_eq]
      exact exactDecimal_eq m e
  rw [← withSign_ofDecimal, hfalse, withSign_ofParts]

/-- The shortest decimal of a number other than a zero has digits. -/
lemma shortest_ne_zero {m : Nat} {e : Int} (hm : m ≠ 0) (hcanonical : Canonical m e) :
    (shortest m e).1 ≠ 0 := by
  intro hzero
  have hreads := ofDecimal_shortest false hm hcanonical
  rw [hzero, ofDecimal, if_pos rfl, ofParts, dif_pos hcanonical, zero] at hreads
  exact hm (Binary64.finite.inj hreads).2.1.symm

end Binary64

/-! ## Laying out digits -/

namespace Numeral

/-- The digits of a decimal without its final zeros, and the number of these zeros. -/
lemma exists_trimZeros_append (digits : List Char) :
    ∃ count, Binary64.trimZeros digits ++ List.replicate count '0' = digits := by
  refine ⟨(digits.reverse.takeWhile (· == '0')).length, ?_⟩
  have hzeros : digits.reverse.takeWhile (· == '0') =
      List.replicate (digits.reverse.takeWhile (· == '0')).length '0' :=
    List.eq_replicate_of_mem fun c hc => by simpa using List.mem_takeWhile_imp hc
  have hsplit := List.takeWhile_append_dropWhile (p := (· == '0')) (l := digits.reverse)
  rw [Binary64.trimZeros, ← List.reverse_replicate, ← List.reverse_append, ← hzeros, hsplit,
    List.reverse_reverse]

/-- The numeral by which digits are laid out that denote a number below one, moved by a count of
places. -/
def laidOut (negative : Bool) (digits : List Char) (point : Int) : Numeral :=
  if -3 ≤ point ∧ point ≤ 16 then
    if point ≤ 0 then
      ⟨negative, ['0'], some (List.replicate (-point).toNat '0' ++ digits), none⟩
    else
      ⟨negative, digits.take point.toNat ++
          List.replicate (point.toNat - (digits.take point.toNat).length) '0',
        some (if (digits.drop point.toNat).isEmpty then ['0'] else digits.drop point.toNat), none⟩
  else
    let powerDigits := Nat.toDigits 10 (point - 1).natAbs
    ⟨negative, digits.take 1,
      if (digits.drop 1).isEmpty then none else some (digits.drop 1),
      some (decide (point - 1 < 0),
        List.replicate (2 - powerDigits.length) '0' ++ powerDigits)⟩

/-- The power of ten that a numeral ends with. -/
def shift (numeral : Numeral) : Int :=
  numeral.power.elim 0 fun (negative, digits) => signed negative (naturalOf digits)

/-- The value that a numeral denotes, without its sign. -/
def magnitude (numeral : Numeral) : Rat :=
  naturalOf (numeral.whole ++ numeral.fraction.getD []) *
    10 ^ (numeral.shift - (numeral.fraction.getD []).length)

/-- The power of ten of a numeral that is laid out with one. -/
lemma signed_powerDigits (point : Int) (count : Nat) :
    signed (decide (point - 1 < 0))
      (naturalOf (List.replicate count '0' ++ Nat.toDigits 10 (point - 1).natAbs)) = point - 1 := by
  rw [naturalOf_zeros_append, naturalOf_toDigits, Number.signed_natAbs]

/-- A numeral that is laid out denotes the value of its digits. -/
theorem magnitude_laidOut (negative : Bool) {digits : List Char} (hdigits : digits ≠ [])
    (point : Int) :
    (laidOut negative digits point).magnitude = naturalOf digits * 10 ^ (point - digits.length) := by
  rw [laidOut]
  split
  · split
    · -- All digits are behind the point, after zeros.
      rename_i hpoint
      have hwhole : naturalOf ('0' :: (List.replicate (-point).toNat '0' ++ digits)) =
          naturalOf digits := naturalOf_zeros_append ((-point).toNat + 1) digits
      simp only [magnitude, shift, Option.elim_none, Option.getD_some, List.singleton_append,
        hwhole, List.length_append, List.length_replicate]
      congr 2
      omega
    · rename_i hpoint
      by_cases hless : digits.length ≤ point.toNat
      · -- All digits are before the point; a zero stands behind it.
        have htake : digits.take point.toNat = digits := List.take_of_length_le hless
        have hdrop : digits.drop point.toNat = [] := List.drop_of_length_le hless
        have hvalue : naturalOf (digits ++ List.replicate (point.toNat - digits.length) '0' ++
            ['0']) = naturalOf digits * 10 ^ (point.toNat - digits.length + 1) := by
          rw [List.append_assoc, show ['0'] = List.replicate 1 '0' from rfl,
            List.replicate_append_replicate, naturalOf_append_zeros]
        have hplaces : (10 : Rat) ^ (point.toNat - digits.length + 1) * 10 ^ (-1 : Int) =
            10 ^ (point - digits.length) := by
          rw [← zpow_natCast, ← zpow_add₀ (by norm_num)]
          congr 1
          omega
        simp only [magnitude, shift, Option.elim_none, Option.getD_some, htake, hdrop,
          List.isEmpty_nil, if_true, hvalue, List.length_singleton]
        push_cast
        rw [mul_assoc, hplaces]
      · -- The digits stand on both sides of the point.
        have hlength : (digits.take point.toNat).length = point.toNat := by
          rw [List.length_take]
          omega
        have hmore : (digits.drop point.toNat).isEmpty = false := by
          rw [List.isEmpty_eq_false_iff, ne_eq, List.drop_eq_nil_iff]
          omega
        simp only [magnitude, shift, Option.elim_none, Option.getD_some, hlength, hmore,
          Nat.sub_self, List.replicate_zero, List.append_nil, Bool.false_eq_true, if_false,
          List.take_append_drop, List.length_drop]
        congr 2
        omega
  · -- One digit stands before the point, and a power of ten follows.
    have hlength : 1 ≤ digits.length := List.length_pos_iff.mpr hdigits
    have hparts : digits.take 1 ++
        (if (digits.drop 1).isEmpty then none else some (digits.drop 1)).getD [] = digits ∧
        ((if (digits.drop 1).isEmpty then none else some (digits.drop 1)).getD []).length =
          digits.length - 1 := by
      cases hmore : (digits.drop 1).isEmpty with
      | true =>
        have hnil : digits.drop 1 = [] := List.isEmpty_iff.mp hmore
        have hall := List.take_append_drop 1 digits
        rw [hnil] at hall
        refine ⟨by simpa using hall, ?_⟩
        have hshort := List.drop_eq_nil_iff.mp hnil
        simp
        omega
      | false => exact ⟨List.take_append_drop 1 digits, List.length_drop⟩
    simp only [magnitude, shift, Option.elim_some, signed_powerDigits, hparts.1, hparts.2]
    congr 2
    omega

/-- A numeral with a fraction or a power of ten denotes the nearest floating-point number. -/
lemma number?_eq_binary {numeral : Numeral}
    (h : numeral.fraction.isSome || numeral.power.isSome) :
    numeral.number? = some (.binary (Binary64.ofDecimal numeral.negative
      (naturalOf (numeral.whole ++ numeral.fraction.getD []))
      (numeral.shift - (numeral.fraction.getD []).length))) := by
  obtain ⟨negative, whole, fraction, power⟩ := numeral
  cases fraction with
  | some digits => rfl
  | none =>
    cases power with
    | some power => rfl
    | none => cases h

/-- A numeral that is laid out has a fraction or a power of ten. -/
lemma isSome_laidOut (negative : Bool) (digits : List Char) (point : Int) :
    (laidOut negative digits point).fraction.isSome ||
      (laidOut negative digits point).power.isSome := by
  rw [laidOut]
  split
  · split <;> rfl
  · simp

/-- The numeral by which a finite number is written. -/
def ofFinite (negative : Bool) (m : Nat) (e : Int) : Numeral :=
  if m = 0 then ⟨negative, ['0'], some ['0'], none⟩
  else
    let all := Nat.toDigits 10 (Binary64.shortest m e).1
    laidOut negative (Binary64.trimZeros all) (all.length + (Binary64.shortest m e).2)

/-- The digits of a number other than zero remain when zeros at the end are dropped. -/
lemma trimZeros_toDigits_ne_nil {n : Nat} (hn : n ≠ 0) :
    Binary64.trimZeros (Nat.toDigits 10 n) ≠ [] := by
  intro hnil
  obtain ⟨count, heq⟩ := exists_trimZeros_append (Nat.toDigits 10 n)
  rw [hnil, List.nil_append] at heq
  have hvalue := naturalOf_toDigits n
  rw [← heq, naturalOf_zeros] at hvalue
  exact hn hvalue.symm

/-- The numeral of a finite number denotes the number. -/
theorem number?_ofFinite (negative : Bool) {m : Nat} {e : Int}
    (hcanonical : Binary64.Canonical m e) :
    (ofFinite negative m e).number? = some (.binary (.finite negative m e hcanonical)) := by
  rw [ofFinite]
  split
  · rename_i hm
    subst hm
    obtain rfl : e = -1074 := hcanonical.2.2.2.resolve_left (by decide)
    have hzero : naturalOf ['0', '0'] = 0 := naturalOf_zeros 2
    rw [number?_eq_binary (by rfl)]
    simp only [Option.getD_some, List.singleton_append, hzero, Binary64.ofDecimal, if_true]
    rfl
  · rename_i hm
    have hdigits := Binary64.shortest_ne_zero hm hcanonical
    have hreads := Binary64.ofDecimal_shortest negative hm hcanonical
    rw [Binary64.ofParts, dif_pos hcanonical] at hreads
    generalize Binary64.shortest m e = pair at hdigits hreads ⊢
    obtain ⟨digits, unit⟩ := pair
    dsimp only at hdigits hreads ⊢
    have hne := trimZeros_toDigits_ne_nil hdigits
    obtain ⟨count, heq⟩ := exists_trimZeros_append (Nat.toDigits 10 digits)
    have hlength : (Nat.toDigits 10 digits).length =
        (Binary64.trimZeros (Nat.toDigits 10 digits)).length + count := by
      conv_lhs => rw [← heq]
      rw [List.length_append, List.length_replicate]
    have hvalue : digits =
        naturalOf (Binary64.trimZeros (Nat.toDigits 10 digits)) * 10 ^ count := by
      rw [← naturalOf_append_zeros, heq, naturalOf_toDigits]
    have hmagnitude := magnitude_laidOut negative hne ((Nat.toDigits 10 digits).length + unit)
    rw [number?_eq_binary (isSome_laidOut negative _ _), ← hreads]
    have hnegative : (laidOut negative (Binary64.trimZeros (Nat.toDigits 10 digits))
        ((Nat.toDigits 10 digits).length + unit)).negative = negative := by
      rw [laidOut]
      split
      · split <;> rfl
      · rfl
    rw [hnegative]
    congr 2
    refine Binary64.ofDecimal_congr negative ?_
    rw [magnitude] at hmagnitude
    rw [hmagnitude, hlength]
    conv_rhs => rw [hvalue]
    push_cast
    rw [mul_assoc, ← zpow_natCast, ← zpow_add₀ (by norm_num)]
    congr 2
    omega

end Numeral

end RecordStore
