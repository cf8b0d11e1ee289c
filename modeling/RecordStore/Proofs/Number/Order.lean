import Mathlib.Tactic.Ring
import RecordStore.Proofs.Number.Decimal

/-!
# The order of numbers

Numbers are ordered by their exact values.  Rounding keeps this order as far as it can: a number that
can be represented and is not above a quotient is not above what the quotient is rounded to, and the
same holds from the other side.

So the successor of a floating-point number is greater than it as long as there are numbers in steps of
one at most, which is so below `2 ^ 53`.  Beyond that, one may be absorbed.
-/

namespace RecordStore

namespace Binary64

variable {num den : Nat}

/-! ## Rounding and order -/

/-- A significand in canonical form is less than a power of two. -/
lemma mul_two_zpow_lt {m : Nat} {k : Int} (h : Canonical m k) :
    (m : Rat) * 2 ^ k < 2 ^ (53 + k) := by
  have hbits : (m : Rat) < 2 ^ 53 := by exact_mod_cast h.1
  rw [zpow_add₀ two_ne_zero]
  exact mul_lt_mul_of_pos_right hbits (by positivity)

/-- A significand in canonical form that uses all of its bits is at least a power of two. -/
lemma two_zpow_le_mul {m : Nat} {k : Int} (h : 2 ^ 52 ≤ m) :
    (2 : Rat) ^ (52 + k) ≤ m * 2 ^ k := by
  have hbits : (2 : Rat) ^ 52 ≤ m := by exact_mod_cast h
  rw [zpow_add₀ two_ne_zero]
  exact mul_le_mul_of_nonneg_right hbits (by positivity)

/-- A number that can be represented and is not above a quotient is not above what the quotient is
rounded to. -/
theorem le_rounded {m : Nat} {k : Int} (hcanonical : Canonical m k) (hnum : num ≠ 0)
    (hden : den ≠ 0) (h : (m : Rat) * 2 ^ k ≤ num / den) :
    (m : Rat) * 2 ^ k ≤ significandOf num den * 2 ^ exponentOf num den := by
  have hupper := (binaryOrder_bounds hnum hden).2
  have hle : k ≤ exponentOf num den := by
    rw [exponentOf]
    rcases hcanonical.2.2.2 with hfull | hleast
    · have hlt : (2 : Rat) ^ (52 + k) < 2 ^ (binaryOrder num den + 1) :=
        (two_zpow_le_mul hfull).trans_lt (h.trans_lt hupper)
      have := (zpow_lt_zpow_iff_right₀ one_lt_two).mp hlt
      omega
    · omega
  rcases hle.eq_or_lt with heq | hlt
  · -- under the same exponent the quotient of the significands is rounded
    rw [← heq]
    refine mul_le_mul_of_nonneg_right (Nat.cast_le.mpr ?_) (by positivity)
    rw [significandOf, ← heq]
    have hD : (0 : Rat) < ((den * 2 ^ k.toNat : Nat) : Rat) := by positivity
    refine le_roundQuotient (by positivity) ?_
    have hN : (m : Rat) * ((den * 2 ^ k.toNat : Nat) : Rat) ≤
        ((num * 2 ^ (-k).toNat : Nat) : Rat) := by
      rw [← le_div_iff₀ hD, scaledQuotient_eq, le_div_iff₀ (by positivity)]
      exact h
    exact_mod_cast hN
  · -- under a greater exponent the significand uses all of its bits
    have hfull : 2 ^ 52 ≤ significandOf num den := by
      refine (le_significandOf hnum hden).resolve_right fun hleast => ?_
      have := hcanonical.2.1
      omega
    calc (m : Rat) * 2 ^ k ≤ 2 ^ (53 + k) := (mul_two_zpow_lt hcanonical).le
      _ ≤ 2 ^ (52 + exponentOf num den) := zpow_le_zpow_right₀ one_le_two (by omega)
      _ ≤ significandOf num den * 2 ^ exponentOf num den := two_zpow_le_mul hfull

/-- A number that can be represented and is not below a quotient is not below what the quotient is
rounded to. -/
theorem rounded_le {m : Nat} {k : Int} (hcanonical : Canonical m k) (hnum : num ≠ 0)
    (hden : den ≠ 0) (h : (num : Rat) / den ≤ m * 2 ^ k) :
    (significandOf num den : Rat) * 2 ^ exponentOf num den ≤ m * 2 ^ k := by
  have hlower := (binaryOrder_bounds hnum hden).1
  have hle : exponentOf num den ≤ k := by
    have hlt : (2 : Rat) ^ binaryOrder num den < 2 ^ (53 + k) :=
      hlower.trans_lt (h.trans_lt (mul_two_zpow_lt hcanonical))
    have := (zpow_lt_zpow_iff_right₀ one_lt_two).mp hlt
    have := hcanonical.2.1
    rw [exponentOf]
    omega
  obtain ⟨n, hn⟩ := Int.le.dest hle
  have hscale : (m : Rat) * 2 ^ k = ((m * 2 ^ n : Nat) : Rat) * 2 ^ exponentOf num den := by
    rw [← hn, zpow_add₀ two_ne_zero, zpow_natCast]
    push_cast
    ring
  rw [hscale] at h ⊢
  refine mul_le_mul_of_nonneg_right (Nat.cast_le.mpr ?_) (by positivity)
  rw [significandOf]
  generalize exponentOf num den = e at h ⊢
  have hD : (0 : Rat) < ((den * 2 ^ e.toNat : Nat) : Rat) := by positivity
  have hN : ((num * 2 ^ (-e).toNat : Nat) : Rat) ≤
      ((m * 2 ^ n : Nat) : Rat) * ((den * 2 ^ e.toNat : Nat) : Rat) := by
    rw [← div_le_iff₀ hD, scaledQuotient_eq, div_le_iff₀ (by positivity)]
    exact h
  have hNat : num * 2 ^ (-e).toNat ≤ m * 2 ^ n * (den * 2 ^ e.toNat) := by exact_mod_cast hN
  have hpos : 0 < den * 2 ^ e.toNat := Nat.mul_pos (Nat.pos_of_ne_zero hden) (by positivity)
  refine roundQuotient_le ?_
  rw [Nat.add_mul, one_mul, Nat.mul_assoc]
  omega

/-- Only finite numbers have a value. -/
lemma isFinite_of_value? {x : Binary64} {q : Rat} (h : x.value? = some q) : x.isFinite = true := by
  cases x <;> first | rfl | cases h

/-- Finite numbers have a value. -/
lemma exists_value? {x : Binary64} (h : x.isFinite = true) : ∃ q, x.value? = some q := by
  cases x <;> first | exact ⟨_, rfl⟩ | cases h

/-- The value of a quotient that is rounded to a finite number. -/
lemma value?_ofRatio {negative : Bool} (hnum : num ≠ 0)
    (hfinite : (ofRatio negative num den).isFinite = true) :
    (ofRatio negative num den).value? =
      some (if negative then -(significandOf num den * 2 ^ exponentOf num den : Rat)
        else significandOf num den * 2 ^ exponentOf num den) := by
  have hparts : ∀ {m : Nat} {e : Int}, (ofParts negative m e).isFinite = true →
      (ofParts negative m e).value? = some (if negative then -(m * 2 ^ e : Rat) else m * 2 ^ e) := by
    intro m e hm
    rw [ofParts] at hm ⊢
    split at hm
    · rename_i hcanonical
      rw [dif_pos hcanonical, value?, scaled_eq]
    · cases hm
  rw [ofRatio_eq_ofParts negative hnum] at hfinite ⊢
  split at hfinite
  · rename_i hcarry
    rw [if_pos hcarry, hparts hfinite, hcarry]
    have hcarried : ((2 ^ 52 : Nat) : Rat) * 2 ^ (exponentOf num den + 1) =
        ((2 ^ 53 : Nat) : Rat) * 2 ^ exponentOf num den := by
      rw [zpow_add₀ two_ne_zero, zpow_one]
      push_cast
      ring
    rw [hcarried]
  · rename_i hnot
    rw [if_neg hnot, hparts hfinite]

/-! ## Neighbours -/

/-- The number one step above a significand and an exponent can be represented. -/
lemma exists_canonical_above {m : Nat} {k : Int} (h : Canonical m k) (hk : k < 971) :
    ∃ (m' : Nat) (k' : Int), Canonical m' k' ∧ (m' : Rat) * 2 ^ k' = m * 2 ^ k + 2 ^ k := by
  obtain ⟨hbits, hleast, -, hfull⟩ := h
  rw [Nat.pow_eq] at hbits hfull
  by_cases hcarry : m + 1 < 2 ^ 53
  · refine ⟨m + 1, k, ⟨hcarry, hleast, hk.le, ?_⟩, ?_⟩
    · rw [Nat.pow_eq]
      omega
    · push_cast
      ring
  · obtain rfl : m = 2 ^ 53 - 1 := by omega
    refine ⟨2 ^ 52, k + 1, ⟨by decide, by omega, by omega, Or.inl le_rfl⟩, ?_⟩
    rw [zpow_add₀ two_ne_zero, zpow_one, Nat.cast_sub (by norm_num)]
    push_cast
    ring

/-- Below a significand and an exponent there is a number at most one step away that can be
represented. -/
lemma exists_canonical_below {m : Nat} {k : Int} (h : Canonical m k) (hm : m ≠ 0) :
    ∃ (m' : Nat) (k' : Int), Canonical m' k' ∧ (m : Rat) * 2 ^ k - 2 ^ k ≤ m' * 2 ^ k' ∧
      (m' : Rat) * 2 ^ k' < m * 2 ^ k := by
  obtain ⟨hbits, hleast, hgreatest, hfull⟩ := h
  rw [Nat.pow_eq] at hbits hfull
  have hpos : (0 : Rat) < 2 ^ k := by positivity
  by_cases hsame : 2 ^ 52 ≤ m - 1 ∨ k = -1074
  · refine ⟨m - 1, k, ⟨by rw [Nat.pow_eq]; omega, hleast, hgreatest, hsame⟩, ?_⟩
    rw [Nat.cast_sub (Nat.one_le_iff_ne_zero.mpr hm), Nat.cast_one, sub_mul, one_mul]
    exact ⟨le_rfl, by linarith⟩
  · -- the least significand that uses all bits is above half steps
    obtain rfl : m = 2 ^ 52 := by omega
    have hhalf : (2 : Rat) ^ k = 2 * 2 ^ (k - 1) := by
      rw [zpow_sub₀ two_ne_zero, zpow_one]
      ring
    refine ⟨2 ^ 53 - 1, k - 1, ⟨by decide, by omega, by omega, Or.inl (by decide)⟩, ?_⟩
    rw [hhalf, Nat.cast_sub (by norm_num)]
    have hstep : (0 : Rat) < 2 ^ (k - 1) := by positivity
    generalize (2 : Rat) ^ (k - 1) = step at hstep
    push_cast
    constructor <;> linarith

/-! ## Successors -/

/-- The successor of a finite number is its value and one, rounded. -/
lemma successor_eq {x : Binary64} {q : Rat} (h : x.value? = some q) : x.successor = ofRat (q + 1) := by
  cases x with
  | finite => simp only [successor, h]
  | infinite negative => cases h
  | notNumber payload => cases h

/-- Below `2 ^ 53` the steps between numbers are at most one. -/
lemma exponent_le_zero {m : Nat} {k : Int} (h : Canonical m k)
    (hsmall : (m : Rat) * 2 ^ k < 2 ^ 53) : k ≤ 0 := by
  by_contra hk
  have hfull : 2 ^ 52 ≤ m := h.2.2.2.resolve_right (by omega)
  have hbound : (2 : Rat) ^ (52 + k) < 2 ^ (53 : Int) :=
    (two_zpow_le_mul hfull).trans_lt (by exact_mod_cast hsmall)
  have := (zpow_lt_zpow_iff_right₀ one_lt_two).mp hbound
  omega

/-- The successor of a number below `2 ^ 53` is greater than the number. -/
theorem lt_successor {x : Binary64} {q r : Rat} (hq : x.value? = some q) (hsmall : |q| < 2 ^ 53)
    (hr : x.successor.value? = some r) : q < r := by
  obtain ⟨negative, m, k, hcanonical, rfl⟩ :
      ∃ negative m k, ∃ hcanonical : Canonical m k, x = .finite negative m k hcanonical := by
    cases x with
    | finite negative m k hcanonical => exact ⟨negative, m, k, hcanonical, rfl⟩
    | infinite negative => cases hq
    | notNumber payload => cases hq
  have hsigned : q = if negative then -((m : Rat) * 2 ^ k) else m * 2 ^ k := by
    rw [value?, scaled_eq] at hq
    exact (Option.some.inj hq).symm
  have hmagnitude : |q| = m * 2 ^ k := by
    have hnonneg : (0 : Rat) ≤ m * 2 ^ k := by positivity
    rw [hsigned]
    split
    · rw [abs_neg, abs_of_nonneg hnonneg]
    · rw [abs_of_nonneg hnonneg]
  have hk := exponent_le_zero hcanonical (hmagnitude ▸ hsmall)
  have hstep : (2 : Rat) ^ k ≤ 1 := by
    rw [← zpow_zero (2 : Rat)]
    exact zpow_le_zpow_right₀ one_le_two hk
  have hpos : (0 : Rat) < 2 ^ k := by positivity
  rw [successor_eq hq, ofRat] at hr
  have hden : (q + 1).den ≠ 0 := Rat.den_nz _
  have hquotient := natAbs_num_div_den (q + 1)
  by_cases hnum : (q + 1).num.natAbs = 0
  · have hzero : q + 1 = 0 := by simpa using hnum
    rw [ofRatio, if_pos hnum, zero, value?, scaled_eq] at hr
    obtain rfl : 0 = r := by simpa using hr
    linarith
  rw [value?_ofRatio hnum (isFinite_of_value? hr)] at hr
  have hr := Option.some.inj hr
  rcases lt_or_ge (q + 1) 0 with hneg | hnonneg
  · rw [if_pos (decide_eq_true hneg)] at hr
    have hm : m ≠ 0 := by
      rintro rfl
      rw [Nat.cast_zero, zero_mul, abs_eq_zero] at hmagnitude
      linarith
    obtain ⟨m', k', hcanonical', hbelow, hless⟩ := exists_canonical_below hcanonical hm
    have habs : |q| = -q := abs_of_neg (by linarith)
    have hle := rounded_le hcanonical' hnum hden (by
      rw [hquotient, abs_of_neg hneg]
      linarith)
    linarith
  · rw [if_neg (by simpa using hnonneg)] at hr
    have hround : 0 ≤ r := by
      rw [← hr]
      positivity
    rcases lt_or_ge q 0 with hq0 | hq0
    · linarith
    · obtain ⟨m', k', hcanonical', hvalue⟩ := exists_canonical_above hcanonical (by omega)
      have habs : |q| = q := abs_of_nonneg hq0
      have hle := le_rounded hcanonical' hnum hden (by
        rw [hquotient, abs_of_nonneg hnonneg]
        linarith)
      linarith

end Binary64

/-! ## Numbers of all representations -/

namespace Number

/-- The exact value of a number, unless it is infinite or not a number. -/
def value? : Number → Option Rat
  | .flag b => some (if b then 1 else 0)
  | .whole i => some i
  | .binary x => x.value?

variable {a b : Number} {p q : Rat}

/-- The place of a number with a value. -/
lemma position?_eq (h : a.value? = some q) : a.position? = some (.at q) := by
  cases a with
  | flag b => simpa [value?, position?] using h
  | whole i => simpa [value?, position?] using h
  | binary x =>
    cases x with
    | finite negative m k hcanonical =>
      rw [position?, Binary64.position?, ← value?, h]
      rfl
    | infinite negative => cases h
    | notNumber payload => cases h

/-- What a number with a value is as a key. -/
lemma identity_eq (h : a.value? = some q) : a.identity = .at (.at q) := by
  cases a with
  | flag b => simpa [value?, identity] using h
  | whole i => simpa [value?, identity] using h
  | binary x =>
    cases x with
    | finite negative m k hcanonical =>
      have hposition : (Binary64.finite negative m k hcanonical).position? = some (.at q) :=
        position?_eq h
      rw [identity, hposition]
      · rfl
      · exact nofun
    | infinite negative => cases h
    | notNumber payload => cases h

/-- Numbers with values are ordered as these are. -/
theorem less_iff (ha : a.value? = some p) (hb : b.value? = some q) : a.less b = true ↔ p < q := by
  rw [less, compare?, position?_eq ha, position?_eq hb]
  simp only [Position.compare]
  split
  · simp [*]
  · split <;> simp [*]

/-- The successor of a number with a value has a value. -/
lemma exists_value?_successor (h : a.value? = some q) : ∃ r, a.successor.value? = some r := by
  cases a with
  | flag b => exact ⟨_, rfl⟩
  | whole i => exact ⟨_, rfl⟩
  | binary x => exact Binary64.exists_value? (Binary64.isFinite_successor (Binary64.isFinite_of_value? h))

/-- The successor of a number is greater if the number is an integer or below `2 ^ 53`. -/
theorem less_successor (h : a.value? = some q)
    (hsmall : (∃ i, a = .whole i) ∨ |q| < 2 ^ 53) : a.less a.successor = true := by
  obtain ⟨r, hr⟩ := exists_value?_successor h
  rw [less_iff h hr]
  cases a with
  | flag b =>
    cases b <;> simp [value?, successor] at h hr <;> linarith
  | whole i =>
    obtain rfl : (i : Rat) = q := by simpa [value?] using h
    obtain rfl : ((i + 1 : Int) : Rat) = r := by simpa [value?, successor] using hr
    push_cast
    linarith
  | binary x => exact Binary64.lt_successor h (hsmall.resolve_left (by simp)) hr

/-- Integers are ordered as numbers the way they are ordered. -/
lemma less_whole (i j : Int) : (whole i).less (whole j) = decide (i < j) := by
  rw [Bool.eq_iff_iff, less_iff rfl rfl, decide_eq_true_iff, Int.cast_lt]

end Number

end RecordStore
