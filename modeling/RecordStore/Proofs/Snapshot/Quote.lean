import Mathlib.Tactic.FinCases
import Mathlib.Tactic.Lemma
import Mathlib.Tactic.SplitIfs
import RecordStore.Snapshot.Json
import RecordStore.Snapshot.Escape

/-!
# Strings in files

A string is written character by character, and the reader takes back just the characters that a
written one stands for: a short escape, the character itself, or one or two units in hexadecimal.
Two units always form the pair of one character, because no character is half a pair itself.
-/

namespace RecordStore

namespace Text

/-! ## Hexadecimal digits -/

/-- One hexadecimal digit stands for a number below sixteen. -/
lemma hexDigits_one {n : Nat} (h : n < 16) : hexDigits 1 n = [n.digitChar] := by
  rw [hexDigits, Nat.toDigits_of_lt_base h]
  rfl

/-- The last hexadecimal digit is the rest modulo sixteen. -/
lemma hexDigits_succ {width : Nat} (hwidth : 0 < width) (n : Nat) :
    hexDigits (width + 1) n = hexDigits width (n / 16) ++ [(n % 16).digitChar] := by
  by_cases h : n < 16
  · obtain ⟨k, rfl⟩ : ∃ k, width = k + 1 := ⟨width - 1, by omega⟩
    have hquotient : n / 16 = 0 := Nat.div_eq_of_lt h
    rw [hexDigits, hexDigits, hquotient, Nat.toDigits_zero, Nat.toDigits_of_lt_base h,
      Nat.mod_eq_of_lt h]
    simp [List.replicate_succ']
  · have hdigits := Nat.toDigits_of_base_le (b := 16) (n := n) (by decide) (by omega)
    rw [hexDigits, hexDigits, hdigits]
    simp

/-- Four hexadecimal digits are those of the four places. -/
lemma hexDigits_four {n : Nat} (h : n < 0x10000) :
    hexDigits 4 n = [(n / 16 / 16 / 16).digitChar, (n / 16 / 16 % 16).digitChar,
      (n / 16 % 16).digitChar, (n % 16).digitChar] := by
  rw [hexDigits_succ (by decide), hexDigits_succ (by decide), hexDigits_succ (by decide),
    hexDigits_one (by omega)]
  rfl

end Text

namespace Json

open Snapshot (escapeUnit escapeCode escapeChar)

/-! ## Units -/

/-- A hexadecimal digit has its value. -/
lemma hexValue?_digitChar : ∀ n < 16, hexValue? n.digitChar = some n := by
  decide

/-- A unit is read from its four digits. -/
lemma readUnit?_hexDigits {unit : Nat} (h : unit < 0x10000) (rest : List Char) :
    readUnit? (Text.hexDigits 4 unit ++ rest) = some (unit, rest) := by
  have ha := hexValue?_digitChar (unit / 16 / 16 / 16) (by omega)
  have hb := hexValue?_digitChar (unit / 16 / 16 % 16) (by omega)
  have hc := hexValue?_digitChar (unit / 16 % 16) (by omega)
  have hd := hexValue?_digitChar (unit % 16) (by omega)
  have hunit : ((unit / 16 / 16 / 16 * 16 + unit / 16 / 16 % 16) * 16 + unit / 16 % 16) * 16 +
      unit % 16 = unit := by omega
  rw [Text.hexDigits_four h]
  simp [readUnit?, ha, hb, hc, hd, hunit]

/-- A code of one unit is read as its character. -/
lemma readChar?_escapeUnit {c : Char} (h : c.toNat < 0x10000) (rest : List Char) :
    readChar? (escapeUnit c.toNat ++ rest) = some (c, rest) := by
  have hvalid : c.toNat < 0xD800 ∨ 0xDFFF < c.toNat ∧ c.toNat < 0x110000 := c.valid
  have hhigh : Text.isHighUnit c.toNat = false := by
    simp only [Text.isHighUnit, Bool.and_eq_false_iff, decide_eq_false_iff_not]
    omega
  have hlow : Text.isLowUnit c.toNat = false := by
    simp only [Text.isLowUnit, Bool.and_eq_false_iff, decide_eq_false_iff_not]
    omega
  have hchar : Text.charOfUnit c.toNat = c := by
    rw [Text.charOfUnit, hhigh, hlow]
    exact Char.ofNat_toNat c
  have hread := readUnit?_hexDigits h rest
  rw [escapeUnit, List.cons_append, List.cons_append, readChar?, hread]
  simp [hhigh, hchar]

/-- A code of two units is read as its character. -/
lemma readChar?_escapePair {c : Char} (h : 0x10000 ≤ c.toNat) (rest : List Char) :
    readChar? (escapeUnit (0xD800 + (c.toNat - 0x10000) / 0x400) ++
      (escapeUnit (0xDC00 + (c.toNat - 0x10000) % 0x400) ++ rest)) = some (c, rest) := by
  have hvalid : c.toNat < 0xD800 ∨ 0xDFFF < c.toNat ∧ c.toNat < 0x110000 := c.valid
  obtain ⟨high, hhigh⟩ : ∃ high, high = 0xD800 + (c.toNat - 0x10000) / 0x400 := ⟨_, rfl⟩
  obtain ⟨low, hlow⟩ : ∃ low, low = 0xDC00 + (c.toNat - 0x10000) % 0x400 := ⟨_, rfl⟩
  rw [← hhigh, ← hlow]
  have hisHigh : Text.isHighUnit high = true := by
    simp only [Text.isHighUnit, Bool.and_eq_true, decide_eq_true_eq]
    omega
  have hisLow : Text.isLowUnit low = true := by
    simp only [Text.isLowUnit, Bool.and_eq_true, decide_eq_true_eq]
    omega
  have hchar : Text.charOfPair high low = c := by
    have hcode : 0x10000 + (high - 0xD800) * 0x400 + (low - 0xDC00) = c.toNat := by omega
    rw [Text.charOfPair, hcode]
    exact Char.ofNat_toNat c
  have hunit : high < 0x10000 := by omega
  have hreadHigh := readUnit?_hexDigits hunit (escapeUnit low ++ rest)
  have hreadLow : readLowUnit? (escapeUnit low ++ rest) = some (low, rest) := by
    rw [escapeUnit, List.cons_append, List.cons_append, readLowUnit?,
      readUnit?_hexDigits (by omega)]
    simp [hisLow]
  rw [escapeUnit, List.cons_append, List.cons_append, readChar?, hreadHigh]
  simp [hisHigh, hreadLow, hchar]

/-! ## Characters and strings -/

/-- A printable character that needs no escape is read as itself. -/
lemma readChar?_plain {c : Char} (hescape : c ≠ '\\') (hprintable : 0x20 ≤ c.toNat)
    (rest : List Char) : readChar? (c :: rest) = some (c, rest) := by
  have hnot : ¬(c = '\\' ∨ c.toNat < 0x20) := by
    rintro (hc | hless)
    · exact hescape hc
    · omega
  unfold readChar?
  split
  · rename_i heq
    exact absurd (List.cons.inj heq).1 hescape
  · rename_i heq
    exact absurd (List.cons.inj heq).1 hescape
  · rename_i heq
    obtain ⟨rfl, rfl⟩ := List.cons.inj heq
    rw [if_neg hnot]
  · rename_i heq
    cases heq

/-- What is written for a character is read as the character. -/
theorem readChar?_escapeChar (c : Char) (rest : List Char) :
    readChar? (escapeChar c ++ rest) = some (c, rest) := by
  by_cases hshort : c ∈ ['"', '\\', '\n', '\r', '\t', '\x0C', '\x08']
  · fin_cases hshort <;> rfl
  · simp only [List.mem_cons, List.not_mem_nil, or_false, not_or] at hshort
    obtain ⟨hquote, hslash, hn, hr, ht, hf, hb⟩ := hshort
    simp only [escapeChar, beq_iff_eq, hquote, hslash, hn, hr, ht, hf, hb, if_false]
    split
    · rename_i hprintable
      exact readChar?_plain hslash hprintable.1 rest
    · rw [escapeCode]
      split
      · rename_i hunit
        exact readChar?_escapeUnit hunit rest
      · rename_i hpair
        rw [List.append_assoc]
        exact readChar?_escapePair (Nat.le_of_not_lt hpair) rest

/-- What is written for a character does not begin like the end of a string. -/
lemma escapeChar_eq_cons (c : Char) : ∃ d rest, escapeChar c = d :: rest ∧ d ≠ '"' := by
  unfold escapeChar escapeCode escapeUnit
  by_cases hquote : c = '"'
  · exact ⟨'\\', ['"'], by simp [hquote], by decide⟩
  · simp only [beq_iff_eq, hquote, if_false]
    split_ifs
    all_goals first
      | exact ⟨_, _, rfl, by decide⟩
      | exact ⟨_, _, rfl, hquote⟩

/-- The characters of a string are read up to the closing quote. -/
lemma readString_flatMap {fuel : Nat} {cs : List Char} (hfuel : cs.length ≤ fuel)
    (rest : List Char) : readString fuel (cs.flatMap escapeChar ++ '"' :: rest) = .ok (cs, rest) := by
  induction cs generalizing fuel with
  | nil => cases fuel <;> rfl
  | cons c cs ih =>
    obtain ⟨fuel, rfl⟩ : ∃ k, fuel = k + 1 := Nat.exists_eq_succ_of_ne_zero (by
      rintro rfl
      simp at hfuel)
    obtain ⟨d, tail, hcons, hd⟩ := escapeChar_eq_cons c
    have hread := readChar?_escapeChar c (cs.flatMap escapeChar ++ '"' :: rest)
    have hlength : cs.length ≤ fuel := by simpa using hfuel
    have hrest := ih hlength
    rw [List.flatMap_cons, List.append_assoc]
    rw [hcons, List.cons_append] at hread ⊢
    rw [readString]
    · simp only [hread, hrest, Except.map]
    · intro rest' heq
      exact hd (List.cons.inj heq).1

/-- A string is no longer than what is written for it. -/
lemma length_le_flatMap (cs : List Char) : cs.length ≤ (cs.flatMap escapeChar).length := by
  induction cs with
  | nil => exact Nat.le_refl 0
  | cons c cs ih =>
    obtain ⟨d, tail, hcons, -⟩ := escapeChar_eq_cons c
    simp only [List.flatMap_cons, List.length_append, List.length_cons, hcons]
    omega

end Json

end RecordStore
