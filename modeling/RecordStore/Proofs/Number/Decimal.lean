import RecordStore.Proofs.Number.Rounding

/-!
# Decimals are read by their value

The nearest floating-point number depends on a quotient only through its value, and a value that has
a significand and an exponent of its own is not rounded at all.  Decimals far out of range are read
at once, without computing their quotient; this is no more than a shortcut, because rounding gives
the same infinity or zero.  So digits and a power of ten are read by the value that they denote,
however it is spelled.
-/

namespace RecordStore.Binary64

variable {num den num' den' : Nat}

/-! ## Rounding a quotient -/

/-- A natural number is its own rounding. -/
lemma roundQuotient_mul_self (m : Nat) (hden : 0 < den) : roundQuotient (m * den) den = m := by
  have hquotient : m * den / den = m := Nat.mul_div_cancel m hden
  have hrest : 2 * (m * den % den) < den := by
    rw [Nat.mul_mod_left]
    omega
  simp only [roundQuotient, hrest, if_true]
  exact hquotient

/-- A quotient may be expanded before it is rounded. -/
lemma roundQuotient_expand {k : Nat} (hk : 0 < k) (num den : Nat) :
    roundQuotient (num * k) (den * k) = roundQuotient num den := by
  have hquotient : num * k / (den * k) = num / den := Nat.mul_div_mul_right num den hk
  have hrest : 2 * (num * k % (den * k)) = 2 * (num % den) * k := by
    rw [Nat.mul_mod_mul_right, Nat.mul_assoc]
  simp only [roundQuotient, hquotient, hrest, Nat.mul_lt_mul_right hk, gt_iff_lt]

/-- Quotients of the same value are rounded alike. -/
lemma roundQuotient_congr (hden : 0 < den) (hden' : 0 < den') (h : num * den' = num' * den) :
    roundQuotient num den = roundQuotient num' den' := by
  rw [← roundQuotient_expand hden' num den, h, Nat.mul_comm den den', roundQuotient_expand hden]

/-! ## The order of a quotient -/

/-- The order of a quotient is the power of two at or just below it. -/
lemma binaryOrder_eq (hnum : num ≠ 0) (hden : den ≠ 0) {k : Int}
    (hlower : (2 : Rat) ^ k ≤ num / den) (hupper : (num : Rat) / den < 2 ^ (k + 1)) :
    binaryOrder num den = k := by
  obtain ⟨hl, hu⟩ := binaryOrder_bounds hnum hden
  have hle : k < binaryOrder num den + 1 :=
    (zpow_lt_zpow_iff_right₀ one_lt_two).mp (hlower.trans_lt hu)
  have hge : binaryOrder num den < k + 1 :=
    (zpow_lt_zpow_iff_right₀ one_lt_two).mp (hl.trans_lt hupper)
  omega

/-- Quotients of the same value have the same order. -/
lemma binaryOrder_congr (hnum : num ≠ 0) (hden : den ≠ 0) (hnum' : num' ≠ 0) (hden' : den' ≠ 0)
    (h : (num : Rat) / den = num' / den') : binaryOrder num den = binaryOrder num' den' := by
  obtain ⟨hl, hu⟩ := binaryOrder_bounds hnum' hden'
  exact binaryOrder_eq hnum hden (h ▸ hl) (h ▸ hu)

/-! ## The nearest number -/

/-- The number nearest to a quotient by its significand and its exponent. -/
lemma ofRatio_eq_ofParts (negative : Bool) (hnum : num ≠ 0) (den : Nat) :
    ofRatio negative num den =
      if significandOf num den = 2 ^ 53 then ofParts negative (2 ^ 52) (exponentOf num den + 1)
      else ofParts negative (significandOf num den) (exponentOf num den) := by
  rw [ofRatio, if_neg hnum]
  rfl

/-- Equal quotients have equal cross products. -/
lemma cross_mul_eq (hden : den ≠ 0) (hden' : den' ≠ 0) (h : (num : Rat) / den = num' / den') :
    num * den' = num' * den := by
  have hd : (den : Rat) ≠ 0 := Nat.cast_ne_zero.mpr hden
  have hd' : (den' : Rat) ≠ 0 := Nat.cast_ne_zero.mpr hden'
  have hcross := (div_eq_div_iff hd hd').mp h
  exact_mod_cast hcross

/-- The nearest number depends on a quotient only through its value. -/
theorem ofRatio_congr (negative : Bool) (hden : den ≠ 0) (hden' : den' ≠ 0)
    (h : (num : Rat) / den = num' / den') :
    ofRatio negative num den = ofRatio negative num' den' := by
  have hcross := cross_mul_eq hden hden' h
  by_cases hnum : num = 0
  · have hnum' : num' = 0 := by
      rw [hnum, Nat.zero_mul] at hcross
      exact (Nat.mul_eq_zero.mp hcross.symm).resolve_right hden
    rw [hnum, hnum', ofRatio, ofRatio, if_pos rfl, if_pos rfl]
  · have hnum' : num' ≠ 0 := by
      intro h0
      rw [h0, Nat.zero_mul] at hcross
      exact (Nat.mul_eq_zero.mp hcross).elim hnum hden'
    have hexponent : exponentOf num den = exponentOf num' den' := by
      rw [exponentOf, exponentOf, binaryOrder_congr hnum hden hnum' hden' h]
    have hsignificand : significandOf num den = significandOf num' den' := by
      rw [significandOf, significandOf, hexponent]
      refine roundQuotient_congr (by positivity) (by positivity) ?_
      rw [Nat.mul_mul_mul_comm, hcross, Nat.mul_mul_mul_comm num']
    rw [ofRatio_eq_ofParts negative hnum, ofRatio_eq_ofParts negative hnum', hexponent,
      hsignificand]

/-- The exponent of a quotient that is a canonical significand times a power of two. -/
lemma exponentOf_eq {m : Nat} {e : Int} (hcanonical : Canonical m e)
    (hnum : num ≠ 0) (hden : den ≠ 0) (h : (num : Rat) / den = m * 2 ^ e) :
    exponentOf num den = e := by
  obtain ⟨hbits, hleast, -, hfull⟩ := hcanonical
  rw [Nat.pow_eq] at hbits hfull
  have hpos : (0 : Rat) < 2 ^ e := by positivity
  have hupper : (num : Rat) / den < 2 ^ (53 + e) := by
    rw [h, zpow_add₀ two_ne_zero]
    have hcast : (m : Rat) < 2 ^ (53 : Int) := by exact_mod_cast hbits
    exact mul_lt_mul_of_pos_right hcast hpos
  have hless : binaryOrder num den < 53 + e :=
    (zpow_lt_zpow_iff_right₀ one_lt_two).mp ((binaryOrder_bounds hnum hden).1.trans_lt hupper)
  rw [exponentOf]
  rcases hfull with hfull | rfl
  · have hlower : (2 : Rat) ^ (52 + e) ≤ num / den := by
      rw [h, zpow_add₀ two_ne_zero]
      have hcast : (2 : Rat) ^ (52 : Int) ≤ m := by exact_mod_cast hfull
      exact mul_le_mul_of_nonneg_right hcast hpos.le
    have horder : 52 + e < binaryOrder num den + 1 :=
      (zpow_lt_zpow_iff_right₀ one_lt_two).mp (hlower.trans_lt (binaryOrder_bounds hnum hden).2)
    omega
  · omega

/-- A value that has a canonical significand and exponent is the number with these parts. -/
theorem ofRatio_exact (negative : Bool) {m : Nat} {e : Int} (hm : m ≠ 0)
    (hcanonical : Canonical m e) (hden : den ≠ 0) (h : (num : Rat) / den = m * 2 ^ e) :
    ofRatio negative num den = ofParts negative m e := by
  have hnum : num ≠ 0 := by
    intro h0
    rw [h0, Nat.cast_zero, zero_div] at h
    exact (mul_ne_zero (Nat.cast_ne_zero.mpr hm) (zpow_ne_zero e two_ne_zero)) h.symm
  have hexponent := exponentOf_eq hcanonical hnum hden h
  have hsignificand : significandOf num den = m := by
    rw [significandOf, hexponent]
    have hpos : 0 < den * 2 ^ e.toNat := by positivity
    have hvalue : (num : Rat) / den / 2 ^ e = m := by
      rw [h, mul_div_assoc, div_self (zpow_ne_zero e two_ne_zero), mul_one]
    rw [← scaledQuotient_eq num den e, div_eq_iff (by positivity)] at hvalue
    have hscaled : num * 2 ^ (-e).toNat = m * (den * 2 ^ e.toNat) := by exact_mod_cast hvalue
    rw [hscaled, roundQuotient_mul_self m hpos]
  have hcarry : m ≠ 2 ^ 53 := by
    have hbits := hcanonical.1
    rw [Nat.pow_eq] at hbits
    omega
  rw [ofRatio_eq_ofParts negative hnum, hsignificand, hexponent, if_neg hcarry]

/-- Parts with an exponent beyond the greatest one stand for an infinity. -/
lemma ofParts_eq_infinite (negative : Bool) (m : Nat) {e : Int} (he : 971 < e) :
    ofParts negative m e = .infinite negative := by
  refine dif_neg ?_
  rintro ⟨-, -, hexponent, -⟩
  omega

/-- A quotient beyond all finite numbers is rounded to an infinity. -/
theorem ofRatio_eq_infinite (negative : Bool) (hden : den ≠ 0)
    (h : (2 : Rat) ^ (1024 : Int) ≤ num / den) : ofRatio negative num den = .infinite negative := by
  have hnum : num ≠ 0 := by
    intro h0
    rw [h0, Nat.cast_zero, zero_div] at h
    exact absurd h (not_le.mpr (by positivity))
  have horder : 1024 < binaryOrder num den + 1 :=
    (zpow_lt_zpow_iff_right₀ one_lt_two).mp (h.trans_lt (binaryOrder_bounds hnum hden).2)
  have hexponent : 971 < exponentOf num den := by
    rw [exponentOf]
    omega
  rw [ofRatio_eq_ofParts negative hnum, ofParts_eq_infinite _ _ hexponent,
    ofParts_eq_infinite _ _ (by omega), ite_self]

/-- A quotient far below all positive numbers is rounded to a zero. -/
theorem ofRatio_eq_zero (negative : Bool) (hden : den ≠ 0)
    (h : (num : Rat) / den < 2 ^ (-1075 : Int)) : ofRatio negative num den = zero negative := by
  by_cases hnum : num = 0
  · rw [ofRatio, if_pos hnum]
  · have horder : binaryOrder num den < -1075 :=
      (zpow_lt_zpow_iff_right₀ one_lt_two).mp ((binaryOrder_bounds hnum hden).1.trans_lt h)
    have hexponent : exponentOf num den = -1074 := by
      rw [exponentOf]
      omega
    have hsignificand : significandOf num den = 0 := by
      rw [significandOf, hexponent]
      have hscaled := scaledQuotient_eq num den (-1074)
      generalize num * 2 ^ (-(-1074 : Int)).toNat = N at hscaled ⊢
      have hpos : 0 < den * 2 ^ (-1074 : Int).toNat := by positivity
      generalize den * 2 ^ (-1074 : Int).toNat = D at hpos hscaled ⊢
      have hhalf : (N : Rat) / D < 1 / 2 := by
        rw [hscaled, div_lt_iff₀ (by positivity)]
        calc (num : Rat) / den < 2 ^ (-1075 : Int) := h
          _ = 2 ^ (-1 : Int) * 2 ^ (-1074 : Int) := by rw [← zpow_add₀ two_ne_zero]; rfl
          _ = 1 / 2 * 2 ^ (-1074 : Int) := by rw [zpow_neg_one, one_div]
      have hcast : (2 : Rat) * N < D := by
        rw [div_lt_iff₀ (Nat.cast_pos.mpr hpos)] at hhalf
        linarith
      have hless : 2 * N < D := by exact_mod_cast hcast
      exact Nat.le_zero.mp (roundQuotient_le (by omega))
    rw [ofRatio_eq_ofParts negative hnum, hsignificand, hexponent]
    rfl

/-! ## Decimals -/

/-- A power of ten as the quotient that exact arithmetic works with. -/
lemma ten_zpow_eq (k : Int) : (10 : Rat) ^ k = 10 ^ k.toNat / 10 ^ (-k).toNat := by
  rcases Int.le_total 0 k with hk | hk
  · obtain ⟨n, rfl⟩ := Int.eq_ofNat_of_zero_le hk
    simp
  · obtain ⟨n, hn⟩ := Int.eq_ofNat_of_zero_le (Int.neg_nonneg.mpr hk)
    obtain rfl : k = -(n : Int) := by rw [← hn, neg_neg]
    simp

/-- The value of digits and a power of ten as a quotient. -/
lemma decimalQuotient_eq (digits : Nat) (e : Int) :
    ((digits * 10 ^ e.toNat : Nat) : Rat) / ((10 ^ (-e).toNat : Nat) : Rat) = digits * 10 ^ e := by
  rw [ten_zpow_eq]
  push_cast
  rw [mul_div_assoc]

/-- A decimal with a power of ten beyond the range of the format is beyond all finite numbers. -/
lemma two_zpow_le_decimal {digits : Nat} (hdigits : digits ≠ 0) {e : Int} (he : 400 < e) :
    (2 : Rat) ^ (1024 : Int) ≤ digits * 10 ^ e := by
  have hone : (1 : Rat) ≤ digits := by exact_mod_cast Nat.one_le_iff_ne_zero.mpr hdigits
  have hten : (8 : Rat) ^ (400 : Int) ≤ 10 ^ (400 : Int) := by
    exact zpow_le_zpow_left₀ (by norm_num) (by norm_num) (by norm_num)
  calc (2 : Rat) ^ (1024 : Int) ≤ 2 ^ (1200 : Int) :=
        zpow_le_zpow_right₀ one_le_two (by norm_num)
    _ = (2 ^ (3 : Int)) ^ (400 : Int) := by rw [← zpow_mul]; norm_num
    _ = 8 ^ (400 : Int) := by norm_num
    _ ≤ 10 ^ (400 : Int) := hten
    _ ≤ 10 ^ e := zpow_le_zpow_right₀ (by norm_num) he.le
    _ ≤ digits * 10 ^ e := le_mul_of_one_le_left (by positivity) hone

/-- A decimal whose power of ten outweighs its digits is far below all positive numbers. -/
lemma decimal_lt_two_zpow {digits : Nat} (hdigits : digits ≠ 0) {e : Int}
    (he : e < -(400 + digits.log2 : Int)) : (digits : Rat) * 10 ^ e < 2 ^ (-1075 : Int) := by
  have hupper := (zpow_log2_le hdigits).2
  have hle : e + digits.log2 + 1 ≤ -400 := by omega
  have htwo : (2 : Rat) ^ ((digits.log2 : Int) + 1) ≤ 10 ^ ((digits.log2 : Int) + 1) :=
    zpow_le_zpow_left₀ (by omega) (by norm_num) (by norm_num)
  calc (digits : Rat) * 10 ^ e < 10 ^ ((digits.log2 : Int) + 1) * 10 ^ e :=
        mul_lt_mul_of_pos_right (hupper.trans_le htwo) (by positivity)
    _ = 10 ^ (e + digits.log2 + 1) := by
      rw [← zpow_add₀ (by norm_num)]
      congr 1
      omega
    _ ≤ 10 ^ (-400 : Int) := zpow_le_zpow_right₀ (by norm_num) hle
    _ = (10 ^ (400 : Int))⁻¹ := zpow_neg 10 400
    _ ≤ (8 ^ (400 : Int))⁻¹ :=
      inv_anti₀ (by positivity) (zpow_le_zpow_left₀ (by norm_num) (by norm_num) (by norm_num))
    _ = (2 ^ (1200 : Int))⁻¹ := by
      rw [show (8 : Rat) = 2 ^ (3 : Int) by norm_num, ← zpow_mul]
      norm_num
    _ = 2 ^ (-1200 : Int) := (zpow_neg 2 1200).symm
    _ ≤ 2 ^ (-1075 : Int) := zpow_le_zpow_right₀ one_le_two (by norm_num)

/-- Reading a decimal out of range at once is a shortcut: every decimal is rounded from its
quotient. -/
theorem ofDecimal_eq_ofRatio (negative : Bool) (digits : Nat) (e : Int) :
    ofDecimal negative digits e =
      ofRatio negative (digits * 10 ^ e.toNat) (10 ^ (-e).toNat) := by
  have hden : 10 ^ (-e).toNat ≠ 0 := by positivity
  have hvalue := decimalQuotient_eq digits e
  rw [ofDecimal]
  by_cases hdigits : digits = 0
  · rw [if_pos hdigits, hdigits, Nat.zero_mul, ofRatio, if_pos rfl]
  rw [if_neg hdigits]
  by_cases hhigh : e > 400
  · rw [if_pos hhigh, ofRatio_eq_infinite negative hden]
    rw [hvalue]
    exact two_zpow_le_decimal hdigits hhigh
  rw [if_neg hhigh]
  by_cases hlow : e < -(400 + digits.log2 : Int)
  · rw [if_pos hlow, ofRatio_eq_zero negative hden]
    rw [hvalue]
    exact decimal_lt_two_zpow hdigits hlow
  rw [if_neg hlow]
  rfl

/-- Decimals of the same value are read as the same number. -/
theorem ofDecimal_congr (negative : Bool) {digits digits' : Nat} {e e' : Int}
    (h : (digits : Rat) * 10 ^ e = digits' * 10 ^ e') :
    ofDecimal negative digits e = ofDecimal negative digits' e' := by
  rw [ofDecimal_eq_ofRatio, ofDecimal_eq_ofRatio]
  refine ofRatio_congr negative (by positivity) (by positivity) ?_
  rw [decimalQuotient_eq, decimalQuotient_eq, h]

/-- A decimal of the value of a canonical significand and exponent is read as the number with these
parts. -/
theorem ofDecimal_exact (negative : Bool) {m : Nat} {e : Int} (hm : m ≠ 0)
    (hcanonical : Canonical m e) {digits : Nat} {e' : Int}
    (h : (digits : Rat) * 10 ^ e' = m * 2 ^ e) :
    ofDecimal negative digits e' = ofParts negative m e := by
  rw [ofDecimal_eq_ofRatio]
  refine ofRatio_exact negative hm hcanonical (by positivity) ?_
  rw [decimalQuotient_eq, h]

end RecordStore.Binary64
