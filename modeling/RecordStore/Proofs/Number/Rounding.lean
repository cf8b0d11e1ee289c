import Mathlib.Algebra.Order.Field.Power
import Mathlib.Data.Rat.Cast.Order
import Mathlib.Tactic.FieldSimp
import Mathlib.Tactic.Linarith
import Mathlib.Tactic.NormNum
import Mathlib.Tactic.Positivity
import RecordStore.Number.Basic

/-!
# Rounding stays in range

A quotient is rounded to a finite number unless it lies beyond the greatest one.  The significand
that rounding gives has 53 bits because the exponent is chosen by the order of the quotient, and the
exponent is in range as long as the quotient is.  Adding one never leaves the range: the greatest
finite number absorbs it.
-/

namespace RecordStore.Binary64

/-! ## Powers of two -/

/-- A power of two as the quotient that exact arithmetic works with. -/
lemma two_zpow_eq (k : Int) : (2 : Rat) ^ k = 2 ^ k.toNat / 2 ^ (-k).toNat := by
  rcases Int.le_total 0 k with hk | hk
  · obtain ⟨n, rfl⟩ := Int.eq_ofNat_of_zero_le hk
    simp
  · obtain ⟨n, hn⟩ := Int.eq_ofNat_of_zero_le (Int.neg_nonneg.mpr hk)
    obtain rfl : k = -(n : Int) := by rw [← hn, neg_neg]
    simp

/-- A natural number lies between the powers of two that its bits tell. -/
lemma zpow_log2_le {n : Nat} (hn : n ≠ 0) :
    (2 : Rat) ^ (n.log2 : Int) ≤ n ∧ (n : Rat) < 2 ^ ((n.log2 : Int) + 1) := by
  have hlower : ((2 ^ n.log2 : Nat) : Rat) ≤ n := Nat.cast_le.mpr (Nat.log2_self_le hn)
  have hupper : (n : Rat) < ((2 ^ (n.log2 + 1) : Nat) : Rat) := Nat.cast_lt.mpr Nat.lt_log2_self
  refine ⟨by simpa using hlower, ?_⟩
  rw [show ((n.log2 : Int) + 1) = ((n.log2 + 1 : Nat) : Int) by simp, zpow_natCast]
  simpa using hupper

/-- A quotient lies between the powers of two that its order tells. -/
theorem binaryOrder_bounds {num den : Nat} (hnum : num ≠ 0) (hden : den ≠ 0) :
    (2 : Rat) ^ binaryOrder num den ≤ num / den ∧
      (num : Rat) / den < 2 ^ (binaryOrder num den + 1) := by
  obtain ⟨hnl, hnu⟩ := zpow_log2_le hnum
  obtain ⟨hdl, hdu⟩ := zpow_log2_le hden
  have hpos : (0 : Rat) < den := Nat.cast_pos.mpr (Nat.pos_of_ne_zero hden)
  have htwo : (2 : Rat) ≠ 0 := two_ne_zero
  have hguess : den * 2 ^ ((num.log2 : Int) - den.log2).toNat ≤
        num * 2 ^ (-((num.log2 : Int) - den.log2)).toNat ↔
      (2 : Rat) ^ ((num.log2 : Int) - den.log2) ≤ num / den := by
    rw [two_zpow_eq, div_le_div_iff₀ (by positivity) hpos, ← Nat.cast_le (α := Rat)]
    simp only [Nat.cast_mul, Nat.cast_pow, Nat.cast_ofNat]
    rw [mul_comm (den : Rat)]
  rw [binaryOrder]
  split
  · rename_i h
    refine ⟨hguess.mp h, ?_⟩
    rw [div_lt_iff₀ hpos]
    calc (num : Rat) < 2 ^ ((num.log2 : Int) + 1) := hnu
      _ = 2 ^ ((num.log2 : Int) - den.log2 + 1) * 2 ^ (den.log2 : Int) := by
        rw [← zpow_add₀ htwo]
        congr 1
        omega
      _ ≤ 2 ^ ((num.log2 : Int) - den.log2 + 1) * den :=
        mul_le_mul_of_nonneg_left hdl (by positivity)
  · rename_i h
    rw [sub_add_cancel]
    refine ⟨?_, not_le.mp (mt hguess.mpr h)⟩
    rw [le_div_iff₀ hpos]
    calc (2 : Rat) ^ ((num.log2 : Int) - den.log2 - 1) * den
        ≤ 2 ^ ((num.log2 : Int) - den.log2 - 1) * 2 ^ ((den.log2 : Int) + 1) :=
          mul_le_mul_of_nonneg_left hdu.le (by positivity)
      _ = 2 ^ (num.log2 : Int) := by
        rw [← zpow_add₀ htwo]
        congr 1
        omega
      _ ≤ num := hnl

/-! ## Rounding -/

/-- A natural number that is not above a quotient is not above its rounding. -/
lemma le_roundQuotient {num den m : Nat} (hden : 0 < den) (h : m * den ≤ num) :
    m ≤ roundQuotient num den := by
  have hdiv : m ≤ num / den := (Nat.le_div_iff_mul_le hden).mpr h
  simp only [roundQuotient]
  split
  · exact hdiv
  · split <;> omega

/-- The rounding of a quotient is not above a natural number that is less than a half below it. -/
lemma roundQuotient_le {num den m : Nat} (h : 2 * num < (2 * m + 1) * den) :
    roundQuotient num den ≤ m := by
  have hden : 0 < den := Nat.pos_of_ne_zero fun h0 => by simp [h0] at h
  have hdiv : num / den ≤ m := by
    rw [← Nat.lt_succ_iff, Nat.div_lt_iff_lt_mul hden]
    calc num ≤ 2 * num - num := by omega
      _ < (m + 1) * den := by
        rw [Nat.add_mul, one_mul] at h ⊢
        rw [Nat.mul_assoc] at h
        omega
  have hsplit := Nat.div_add_mod num den
  rcases hdiv.lt_or_eq with hlt | heq
  · simp only [roundQuotient]
    split
    · exact hdiv
    · split <;> omega
  · have hrest : 2 * (num % den) < den := by
      rw [heq, Nat.mul_comm] at hsplit
      rw [Nat.add_mul, one_mul, Nat.mul_assoc] at h
      omega
    simp only [roundQuotient, hrest, if_true]
    exact hdiv

/-- The exponent of the number nearest to a quotient. -/
def exponentOf (num den : Nat) : Int :=
  max (-1074) (binaryOrder num den - 52)

/-- The significand of the number nearest to a quotient, before a carry. -/
def significandOf (num den : Nat) : Nat :=
  roundQuotient (num * 2 ^ (-exponentOf num den).toNat) (den * 2 ^ (exponentOf num den).toNat)

/-- What is rounded to a significand, as a value. -/
lemma scaledQuotient_eq (num den : Nat) (e : Int) :
    ((num * 2 ^ (-e).toNat : Nat) : Rat) / ((den * 2 ^ e.toNat : Nat) : Rat) =
      num / den / 2 ^ e := by
  rw [two_zpow_eq]
  simp only [Nat.cast_mul, Nat.cast_pow, Nat.cast_ofNat]
  rw [div_div_eq_mul_div, div_mul_eq_mul_div, div_div]

/-- A significand has at most 53 bits, or is the one that carries. -/
lemma significandOf_le {num den : Nat} (hnum : num ≠ 0) (hden : den ≠ 0) :
    significandOf num den ≤ 2 ^ 53 := by
  rw [significandOf]
  have hexponent : binaryOrder num den + 1 ≤ 53 + exponentOf num den := by
    rw [exponentOf]
    omega
  generalize exponentOf num den = e at hexponent ⊢
  have hq := scaledQuotient_eq num den e
  have hD : (0 : Rat) < ((den * 2 ^ e.toNat : Nat) : Rat) := by positivity
  have hN : ((num * 2 ^ (-e).toNat : Nat) : Rat) < 2 ^ 53 * ((den * 2 ^ e.toNat : Nat) : Rat) := by
    rw [← div_lt_iff₀ hD, hq, div_lt_iff₀ (by positivity)]
    calc (num : Rat) / den < 2 ^ (binaryOrder num den + 1) := (binaryOrder_bounds hnum hden).2
      _ ≤ 2 ^ (53 + e) := zpow_le_zpow_right₀ one_le_two hexponent
      _ = 2 ^ 53 * 2 ^ e := zpow_add₀ two_ne_zero 53 e
  have hNat : num * 2 ^ (-e).toNat < 2 ^ 53 * (den * 2 ^ e.toNat) := by exact_mod_cast hN
  refine roundQuotient_le ?_
  rw [Nat.add_mul, Nat.mul_assoc, one_mul]
  omega

/-- A significand uses all of its bits unless the exponent is the least one. -/
lemma le_significandOf {num den : Nat} (hnum : num ≠ 0) (hden : den ≠ 0) :
    2 ^ 52 ≤ significandOf num den ∨ exponentOf num den = -1074 := by
  rcases Int.lt_or_le (binaryOrder num den - 52) (-1074) with hlt | hge
  · refine Or.inr ?_
    rw [exponentOf]
    omega
  · have hexponent : 52 + exponentOf num den ≤ binaryOrder num den := by
      rw [exponentOf]
      omega
    rw [significandOf]
    generalize exponentOf num den = e at hexponent ⊢
    have hq := scaledQuotient_eq num den e
    have hD : (0 : Rat) < ((den * 2 ^ e.toNat : Nat) : Rat) := by positivity
    refine Or.inl (le_roundQuotient (by positivity) ?_)
    have hN : (2 : Rat) ^ 52 * ((den * 2 ^ e.toNat : Nat) : Rat) ≤
        ((num * 2 ^ (-e).toNat : Nat) : Rat) := by
      rw [← le_div_iff₀ hD, hq, le_div_iff₀ (by positivity)]
      calc (2 : Rat) ^ 52 * 2 ^ e = 2 ^ (52 + e) := (zpow_add₀ two_ne_zero 52 e).symm
        _ ≤ 2 ^ binaryOrder num den := zpow_le_zpow_right₀ one_le_two hexponent
        _ ≤ num / den := (binaryOrder_bounds hnum hden).1
    exact_mod_cast hN

/-! ## The range -/

/-- The greatest finite number. -/
def greatestFinite : Rat :=
  (2 ^ 53 - 1) * 2 ^ 971

/-- Two is well below the last place of the greatest finite number. -/
lemma two_lt_two_pow : (2 : Rat) < 2 ^ 971 :=
  calc (2 : Rat) = 2 ^ 1 := (pow_one 2).symm
    _ < 2 ^ 971 := pow_lt_pow_right₀ one_lt_two (by norm_num)

/-- The exponent of a quotient that is not much above the greatest finite number is in range. -/
lemma exponentOf_le {num den : Nat} (hnum : num ≠ 0) (hden : den ≠ 0)
    (h : (num : Rat) / den ≤ greatestFinite + 1) : exponentOf num den ≤ 971 := by
  have hbound : greatestFinite + 1 < 2 ^ (1024 : Int) := by
    have htwo := two_lt_two_pow
    have hpow : (2 : Rat) ^ (1024 : Int) = 2 ^ 53 * 2 ^ 971 :=
      (zpow_natCast 2 (53 + 971)).trans (pow_add 2 53 971)
    rw [hpow, greatestFinite]
    generalize (2 : Rat) ^ 971 = place at htwo ⊢
    linarith
  have hlower := (binaryOrder_bounds hnum hden).1
  have horder : binaryOrder num den < 1024 :=
    (zpow_lt_zpow_iff_right₀ one_lt_two).mp (hlower.trans_lt (h.trans_lt hbound))
  rw [exponentOf]
  omega

/-- Under the greatest exponent the significand of such a quotient does not carry. -/
lemma significandOf_ne {num den : Nat} (hden : den ≠ 0)
    (h : (num : Rat) / den ≤ greatestFinite + 1) (hexponent : exponentOf num den = 971) :
    significandOf num den ≠ 2 ^ 53 := by
  rw [significandOf, hexponent]
  have hq := scaledQuotient_eq num den 971
  have hD : (0 : Rat) < ((den * 2 ^ (971 : Int).toNat : Nat) : Rat) := by positivity
  generalize num * 2 ^ (-971 : Int).toNat = N at hq ⊢
  generalize den * 2 ^ (971 : Int).toNat = D at hq hD ⊢
  have hhalf : (N : Rat) / D < (2 ^ 53 - 1) + 1 / 2 := by
    have hscale : (0 : Rat) < 2 ^ (971 : Int) := by positivity
    rw [hq, div_lt_iff₀ hscale]
    calc (num : Rat) / den ≤ greatestFinite + 1 := h
      _ < ((2 ^ 53 - 1) + 1 / 2) * 2 ^ 971 := by
        have htwo := two_lt_two_pow
        rw [greatestFinite]
        generalize (2 : Rat) ^ 971 = place at htwo ⊢
        linarith
  have hN : 2 * (N : Rat) + D < 2 * 2 ^ 53 * D := by
    have hhalf' := (div_lt_iff₀ hD).mp hhalf
    linarith
  have hNat : 2 * N + D < 2 * 2 ^ 53 * D := by exact_mod_cast hN
  have hless : roundQuotient N D ≤ 2 ^ 53 - 1 := by
    refine roundQuotient_le ?_
    omega
  omega

/-- Parts that are in range are a finite number. -/
lemma isFinite_ofParts {negative : Bool} {significand : Nat} {exponent : Int}
    (h : Canonical significand exponent) :
    (ofParts negative significand exponent).isFinite = true := by
  rw [ofParts, dif_pos h]
  rfl

/-- A quotient that is at most one above the greatest finite number is rounded to a finite
number. -/
theorem isFinite_ofRatio (negative : Bool) {num den : Nat} (hden : den ≠ 0)
    (h : (num : Rat) / den ≤ greatestFinite + 1) : (ofRatio negative num den).isFinite = true := by
  by_cases hnum : num = 0
  · rw [ofRatio, if_pos hnum]
    rfl
  · have hle := significandOf_le hnum hden
    have hbits := le_significandOf hnum hden
    have hleast : -1074 ≤ exponentOf num den := le_max_left _ _
    have hgreatest := exponentOf_le hnum hden h
    rw [ofRatio, if_neg hnum]
    change (if significandOf num den = 2 ^ 53 then
        ofParts negative (2 ^ 52) (exponentOf num den + 1)
      else ofParts negative (significandOf num den) (exponentOf num den)).isFinite = true
    split
    · rename_i hcarry
      have hne : exponentOf num den ≠ 971 := fun he => significandOf_ne hden h he hcarry
      exact isFinite_ofParts ⟨by norm_num, by omega, by omega, Or.inl le_rfl⟩
    · rename_i hnot
      exact isFinite_ofParts ⟨lt_of_le_of_ne hle hnot, hleast, hgreatest, hbits⟩

/-! ## Successors -/

/-- The exact value of a significand and an exponent. -/
lemma scaled_eq (significand : Nat) (exponent : Int) :
    scaled significand exponent = significand * 2 ^ exponent := by
  rw [scaled, Nat.pow_eq, Nat.pow_eq, Rat.mkRat_eq_div, two_zpow_eq]
  push_cast
  rw [mul_div_assoc]

/-- The quotient by which a rational number is rounded is its magnitude. -/
lemma natAbs_num_div_den (q : Rat) : (q.num.natAbs : Rat) / q.den = |q| := by
  rw [Nat.cast_natAbs, Int.cast_abs, ← abs_of_nonneg (Nat.cast_nonneg' (α := Rat) q.den), ← abs_div,
    Rat.num_div_den]

/-- No finite number is above the greatest one. -/
lemma scaled_le_greatestFinite {significand : Nat} {exponent : Int}
    (h : Canonical significand exponent) : scaled significand exponent ≤ greatestFinite := by
  obtain ⟨hbits, -, hexponent, -⟩ := h
  have hsignificand : (significand : Rat) ≤ 2 ^ 53 - 1 := by
    have hnat : ((significand + 1 : Nat) : Rat) ≤ ((2 ^ 53 : Nat) : Rat) :=
      Nat.cast_le.mpr hbits
    push_cast at hnat
    linarith
  rw [scaled_eq, greatestFinite]
  refine mul_le_mul hsignificand ?_ (by positivity) (by norm_num)
  exact_mod_cast zpow_le_zpow_right₀ (one_le_two (α := Rat)) hexponent

/-- The greatest finite number bounds the value of every finite number from both sides. -/
lemma abs_value_le {x : Binary64} {q : Rat} (h : x.value? = some q) : |q| ≤ greatestFinite := by
  cases x with
  | finite negative significand exponent canonical =>
    have hle := scaled_le_greatestFinite canonical
    have hnonneg : 0 ≤ scaled significand exponent := by
      rw [scaled, Rat.mkRat_eq_div]
      positivity
    simp only [value?, Option.some.injEq] at h
    subst h
    split
    · rwa [abs_neg, abs_of_nonneg hnonneg]
    · rwa [abs_of_nonneg hnonneg]
  | infinite negative => simp [value?] at h
  | notNumber payload => simp [value?] at h

/-- The successor of a finite number is finite. -/
theorem isFinite_successor {x : Binary64} (h : x.isFinite = true) :
    x.successor.isFinite = true := by
  cases x with
  | finite negative significand exponent canonical =>
    obtain ⟨q, hq⟩ : ∃ q, (finite negative significand exponent canonical).value? = some q :=
      ⟨_, rfl⟩
    have habs := abs_value_le hq
    have hsuccessor : (finite negative significand exponent canonical).successor =
        ofRat (q + 1) := by
      simp only [successor, hq]
    rw [hsuccessor, ofRat]
    refine isFinite_ofRatio _ (Rat.den_nz _) ?_
    rw [natAbs_num_div_den]
    calc |q + 1| ≤ |q| + |1| := abs_add_le q 1
      _ ≤ greatestFinite + 1 := by
        rw [abs_one]
        linarith
  | infinite negative => simp [isFinite] at h
  | notNumber payload => simp [isFinite] at h

end RecordStore.Binary64
