import Mathlib.Algebra.Ring.Nat
import Mathlib.Order.Nat
import Mathlib.Tactic.Lemma
import Mathlib.Tactic.Ring
import RecordStore.Number.Numeral
import RecordStore.Snapshot.Json

/-!
# Decimal digits

Numbers are written with ASCII digits and read with the digits of any script.  A run of digits
denotes a number place by place, and the digits of a number denote it again.  An integer of its own
text is found there, whatever may stand around integers or between their digits.
-/

namespace RecordStore

open Json (isDigit)

/-- Characters with a property are taken off the front of a text as far as they go. -/
lemma Text.span_append {p : Char → Bool} {cs rest : List Char} (hall : ∀ c ∈ cs, p c = true)
    (hends : ∀ c, rest.head? = some c → p c = false) :
    (cs ++ rest).takeWhile p = cs ∧ (cs ++ rest).dropWhile p = rest := by
  have hnone : rest.takeWhile p = [] ∧ rest.dropWhile p = rest := by
    cases rest with
    | nil => exact ⟨rfl, rfl⟩
    | cons c rest => simp [hends c rfl]
  rw [List.takeWhile_append_of_pos hall, List.dropWhile_append_of_pos hall, hnone.1, hnone.2,
    List.append_nil]
  exact ⟨rfl, rfl⟩

/-! ## Single digits -/

/-- An ASCII digit is a digit of a script, with the value that its place in ASCII tells. -/
lemma Text.digitValue?_of_isDigit {c : Char} (h : isDigit c = true) :
    Text.digitValue? c = some (c.toNat - 48) := by
  obtain ⟨hlow, hhigh⟩ : '0' ≤ c ∧ c ≤ '9' := by simpa [isDigit] using h
  have hfrom : 48 ≤ c.toNat := Char.le_def.mp hlow
  have hto : c.toNat ≤ 57 := Char.le_def.mp hhigh
  have hfind : Text.decimalRanges.find? (fun range => range.1 ≤ c.toNat && c.toNat ≤ range.2) =
      some (0x30, 0x39) := by
    rw [Text.decimalRanges, List.find?_cons_of_pos]
    simp [hfrom, hto]
  rw [Text.digitValue?, hfind, Option.map_some]
  congr 1
  omega

/-- An ASCII digit is a decimal digit of a script. -/
lemma Text.isDecimal_of_isDigit {c : Char} (h : isDigit c = true) : Text.isDecimal c = true := by
  obtain ⟨hlow, hhigh⟩ : '0' ≤ c ∧ c ≤ '9' := by simpa [isDigit] using h
  have hfrom : 48 ≤ c.toNat := Char.le_def.mp hlow
  have hto : c.toNat ≤ 57 := Char.le_def.mp hhigh
  simp [Text.isDecimal, Text.inRanges, Text.decimalRanges, hfrom, hto]

/-- No ASCII digit is blank. -/
lemma Text.isBlank_of_isDigit {c : Char} (h : isDigit c = true) : Text.isBlank c = false := by
  obtain ⟨hlow, hhigh⟩ : '0' ≤ c ∧ c ≤ '9' := by simpa [isDigit] using h
  have hfrom : 48 ≤ c.toNat := Char.le_def.mp hlow
  have hto : c.toNat ≤ 57 := Char.le_def.mp hhigh
  simp only [Text.isBlank, Text.inRanges, Text.blankRanges, List.any_cons, List.any_nil,
    Bool.or_false, Bool.or_eq_false_iff, Bool.and_eq_false_iff, decide_eq_false_iff_not]
  omega

/-- Characters are read as a natural number exactly if all of them are decimal digits, and it is the
number that they denote. -/
lemma Text.naturalOfDigits?_eq_some_iff {cs : List Char} {n : Nat} :
    naturalOfDigits? cs = some n ↔
      (∀ c ∈ cs, (digitValue? c).isSome = true) ∧ Numeral.naturalOf cs = n := by
  have hfold : ∀ (cs : List Char) (start : Nat),
      cs.foldlM (fun n c => (digitValue? c).map (10 * n + ·)) start = some n ↔
        (∀ c ∈ cs, (digitValue? c).isSome = true) ∧
          cs.foldl (fun n c => 10 * n + (digitValue? c).getD 0) start = n := by
    intro cs
    induction cs with
    | nil => simp
    | cons c rest ih =>
      intro start
      rw [List.foldlM_cons, List.foldl_cons, List.forall_mem_cons]
      cases hvalue : digitValue? c with
      | none => simp
      | some value =>
        rw [Option.isSome_some, eq_self, true_and]
        exact ih _
  exact hfold cs 0

/-- The characters of the digits of a number are ASCII digits. -/
lemma isDigit_of_mem_toDigits {n : Nat} {c : Char} (h : c ∈ Nat.toDigits 10 n) :
    isDigit c = true := by
  have hdigit : c.isDigit = true := Nat.isDigit_of_mem_toDigits (by decide) (Nat.le_refl 10) h
  simpa [isDigit, Char.isDigit, Char.le_def] using hdigit

/-- The digit of a number below ten is an ASCII digit. -/
lemma isDigit_digitChar {n : Nat} (h : n < 10) : isDigit n.digitChar = true :=
  isDigit_of_mem_toDigits (by rw [Nat.toDigits_of_lt_base h]; exact List.mem_singleton_self _)

namespace Numeral

/-! ## Runs of digits -/

/-- Reading digits goes on from the number that those before denote. -/
lemma foldl_digits (digits : List Char) (n : Nat) :
    digits.foldl (fun n c => 10 * n + (Text.digitValue? c).getD 0) n =
      n * 10 ^ digits.length + naturalOf digits := by
  induction digits generalizing n with
  | nil => simp [naturalOf]
  | cons c rest ih =>
    rw [naturalOf, List.foldl_cons, List.foldl_cons, ih, ih (10 * 0 + _), List.length_cons,
      Nat.pow_succ]
    ring

/-- A run of digits denotes the first part, moved by the places of the second, and the second. -/
lemma naturalOf_append (digits rest : List Char) :
    naturalOf (digits ++ rest) = naturalOf digits * 10 ^ rest.length + naturalOf rest := by
  rw [naturalOf, List.foldl_append, foldl_digits]
  rfl

/-- The digit of a number below ten denotes it. -/
lemma naturalOf_digitChar {n : Nat} (h : n < 10) : naturalOf [n.digitChar] = n := by
  have hvalue := Text.digitValue?_of_isDigit (isDigit_digitChar h)
  rw [Nat.toNat_digitChar_sub_48_of_lt_ten h] at hvalue
  simp [naturalOf, hvalue]

/-- The digits of a number denote it. -/
theorem naturalOf_toDigits (n : Nat) : naturalOf (Nat.toDigits 10 n) = n := by
  induction n using Nat.strongRecOn with
  | ind n ih =>
    by_cases hn : n < 10
    · rw [Nat.toDigits_of_lt_base hn, naturalOf_digitChar hn]
    · rw [Nat.toDigits_of_base_le (by decide) (Nat.le_of_not_lt hn), naturalOf_append,
        ih (n / 10) (by omega), naturalOf_digitChar (Nat.mod_lt n (by decide))]
      simp only [List.length_singleton, pow_one]
      omega

/-- Zeros denote zero. -/
lemma naturalOf_zeros (count : Nat) : naturalOf (List.replicate count '0') = 0 := by
  induction count with
  | zero => rfl
  | succ count ih =>
    rw [List.replicate_succ, ← List.singleton_append, naturalOf_append, ih]
    simp [naturalOf_digitChar (n := 0) (by decide), show ['0'] = [(0 : Nat).digitChar] from rfl]

/-- Zeros in front of digits do not count. -/
lemma naturalOf_zeros_append (count : Nat) (digits : List Char) :
    naturalOf (List.replicate count '0' ++ digits) = naturalOf digits := by
  rw [naturalOf_append, naturalOf_zeros, Nat.zero_mul, Nat.zero_add]

/-- Zeros after digits count as places. -/
lemma naturalOf_append_zeros (digits : List Char) (count : Nat) :
    naturalOf (digits ++ List.replicate count '0') = naturalOf digits * 10 ^ count := by
  rw [naturalOf_append, naturalOf_zeros, List.length_replicate, Nat.add_zero]

/-- The digits of a number other than zero do not begin with a zero. -/
lemma toDigits_eq_cons {n : Nat} (hn : n ≠ 0) :
    ∃ c rest, Nat.toDigits 10 n = c :: rest ∧ c ≠ '0' := by
  induction n using Nat.strongRecOn with
  | ind n ih =>
    by_cases hless : n < 10
    · refine ⟨n.digitChar, [], Nat.toDigits_of_lt_base hless, ?_⟩
      rwa [ne_eq, Nat.digitChar_eq_zero]
    · obtain ⟨c, rest, heq, hc⟩ := ih (n / 10) (by omega) (by omega)
      refine ⟨c, rest ++ [(n % 10).digitChar], ?_, hc⟩
      rw [Nat.toDigits_of_base_le (by decide) (Nat.le_of_not_lt hless), heq]
      rfl

/-- A padded number denotes the number. -/
lemma naturalOf_padded (width n : Nat) : naturalOf (Text.padded width n) = n := by
  rw [Text.padded, naturalOf_zeros_append, naturalOf_toDigits]

end Numeral

/-! ## Integers -/

namespace Number

/-- The characters of an integer: a minus if it is negative, and the digits. -/
def integerChars (i : Int) : List Char :=
  (if i < 0 then ['-'] else []) ++ Nat.toDigits 10 i.natAbs

/-- The text of an integer is made of its characters. -/
lemma toString_eq_integerChars (i : Int) : toString i = String.ofList (integerChars i) := by
  cases i with
  | ofNat n =>
    have hnot : ¬(Int.ofNat n < 0) := Int.not_lt.mpr (Int.natCast_nonneg n)
    rw [integerChars, if_neg hnot]
    exact Nat.toString_eq_ofList_toDigits
  | negSucc n =>
    have hneg : Int.negSucc n < 0 := Int.negSucc_lt_zero n
    rw [integerChars, if_pos hneg]
    change "-" ++ (Nat.succ n).repr = _
    rw [Nat.repr_eq_ofList_toDigits, String.ofList_append]
    rfl

/-- The integers within the limit of digits have a text, and it is made of their characters. -/
lemma integerText?_eq_some {i : Int} {s : String} :
    integerText? i = some s ↔
      i.natAbs < 10 ^ digitLimit ∧ s = String.ofList (integerChars i) := by
  rw [integerText?, Nat.pow_eq, toString_eq_integerChars]
  split
  · rename_i hless
    simp [hless, eq_comm]
  · rename_i hnot
    simp [hnot]

/-- Digits without underscores are read as they are. -/
lemma digitsBetweenUnderscores?_of_digits {digits : List Char} (hne : digits ≠ [])
    (h : ∀ c ∈ digits, isDigit c = true) : digitsBetweenUnderscores? digits = some digits := by
  induction digits with
  | nil => exact absurd rfl hne
  | cons c rest ih =>
    have hc := Text.isDecimal_of_isDigit (h c List.mem_cons_self)
    cases rest with
    | nil => simp [digitsBetweenUnderscores?, hc]
    | cons d rest =>
      have hd : d ≠ '_' := by
        rintro rfl
        exact absurd (h '_' (by simp)) (by decide)
      have hrest := ih (by simp) fun e he => h e (List.mem_cons_of_mem c he)
      rw [digitsBetweenUnderscores?, hc, hrest]
      · rfl
      · exact List.cons_ne_nil d rest
      · rintro rest' ⟨⟩
        exact hd rfl

/-- No character of an integer may be left out at its ends. -/
lemma isMargin_of_mem_integerChars {i : Int} {c : Char} (h : c ∈ integerChars i) :
    isMargin c = false := by
  have hcase : c = '-' ∨ c ∈ Nat.toDigits 10 i.natAbs := by
    rw [integerChars, List.mem_append] at h
    refine h.imp_left fun hsign => ?_
    split at hsign
    · exact List.mem_singleton.mp hsign
    · cases hsign
  rcases hcase with rfl | hdigit
  · decide
  · rw [isMargin, Text.isBlank_of_isDigit (isDigit_of_mem_toDigits hdigit), Bool.false_and]

/-- Nothing is dropped off the ends of a text without characters to drop. -/
lemma dropEnds_eq_self {p : Char → Bool} {cs : List Char} (h : ∀ c ∈ cs, p c = false) :
    ((cs.dropWhile p).reverse.dropWhile p).reverse = cs := by
  have hdrop : ∀ ds : List Char, (∀ c ∈ ds, p c = false) → ds.dropWhile p = ds := by
    intro ds hds
    cases ds with
    | nil => rfl
    | cons d rest => rw [List.dropWhile_cons, hds d List.mem_cons_self, if_neg Bool.false_ne_true]
  rw [hdrop cs h, hdrop cs.reverse fun c hc => h c (List.mem_reverse.mp hc), List.reverse_reverse]

/-- The sign and the digits of an integer are told apart. -/
lemma splitSign_integerChars (i : Int) :
    Numeral.splitSign (integerChars i) = (decide (i < 0), Nat.toDigits 10 i.natAbs) := by
  rw [integerChars]
  by_cases hi : i < 0
  · simp [hi, Numeral.splitSign]
  · rw [if_neg hi, List.nil_append, decide_eq_false hi]
    obtain ⟨c, rest, heq⟩ := List.exists_cons_of_ne_nil (Nat.toDigits_ne_nil (n := i.natAbs))
    have hc : isDigit c = true := isDigit_of_mem_toDigits (heq ▸ List.mem_cons_self)
    rw [heq]
    unfold Numeral.splitSign
    split
    · rename_i hminus
      obtain rfl : c = '-' := (List.cons.inj hminus).1
      exact absurd hc (by decide)
    · rename_i hplus
      obtain rfl : c = '+' := (List.cons.inj hplus).1
      exact absurd hc (by decide)
    · rfl

/-- A sign and the digits of the absolute value give an integer back. -/
lemma signed_natAbs (i : Int) : Numeral.signed (decide (i < 0)) i.natAbs = i := by
  rw [Numeral.signed]
  by_cases hi : i < 0
  · rw [decide_eq_true hi, if_pos rfl]
    omega
  · rw [decide_eq_false hi, if_neg Bool.false_ne_true]
    omega

/-- The digits of a number within the limit are not too many. -/
lemma length_toDigits_le {n : Nat} (h : n < 10 ^ digitLimit) :
    (Nat.toDigits 10 n).length ≤ digitLimit :=
  (Nat.length_toDigits_le_iff (by decide) (by decide)).mpr h

/-- An integer is read from its text. -/
theorem integerOfText?_integerText? {i : Int} {s : String} (h : integerText? i = some s) :
    integerOfText? s = some i := by
  obtain ⟨hless, rfl⟩ := integerText?_eq_some.mp h
  have hdigits : digitsBetweenUnderscores? (Nat.toDigits 10 i.natAbs) =
      some (Nat.toDigits 10 i.natAbs) :=
    digitsBetweenUnderscores?_of_digits Nat.toDigits_ne_nil fun c hc => isDigit_of_mem_toDigits hc
  rw [integerOfText?, String.toList_ofList,
    dropEnds_eq_self fun c hc => isMargin_of_mem_integerChars hc, splitSign_integerChars]
  simp only [hdigits, Option.bind_some, if_pos (length_toDigits_le hless),
    Numeral.naturalOf_toDigits, signed_natAbs]

end Number

end RecordStore
