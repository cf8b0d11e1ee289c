import Mathlib.Data.List.Forall2
import Mathlib.Tactic.Common
import RecordStore.Filter.Wildcard

/-!
# What a pattern matches

A pattern matches a text if the text can be cut into consecutive pieces, one for each character of the
pattern, so that each character takes its piece: `%` takes any piece, `_` takes any one character, and
every other character takes itself.

The matcher keeps a row of truth values, one for each suffix of the text.  That the row of a pattern
tells which suffixes can be cut is kept from the end of the pattern to its beginning, one character after
the other; no way of cutting is ever tried.
-/

namespace RecordStore.Wildcard

/-! ## Cutting a text -/

/-- What a character of a pattern takes of a text. -/
inductive Takes : Char → List Char → Prop
  | any (piece : List Char) : Takes '%' piece
  | one (c : Char) : Takes '_' [c]
  | itself {c : Char} (hany : c ≠ '%') (hone : c ≠ '_') : Takes c [c]

/-- A text is cut into pieces, one for each character of a pattern, which takes it. -/
def Cuts (pattern text : List Char) : Prop :=
  ∃ pieces, List.Forall₂ Takes pattern pieces ∧ pieces.flatten = text

variable {p c : Char} {rest text piece : List Char} {row : List Bool} {P : List Char → Prop}

/-- Only the empty text is cut for an empty pattern. -/
lemma cuts_nil_iff : Cuts [] text ↔ text = [] := by
  simp [Cuts, eq_comm]

/-- The first character of a pattern takes the first piece, and what is left is cut for the others. -/
lemma cuts_cons_iff :
    Cuts (p :: rest) text ↔ ∃ piece left, Takes p piece ∧ text = piece ++ left ∧ Cuts rest left := by
  constructor
  · rintro ⟨pieces, htakes, rfl⟩
    obtain ⟨piece, others, hpiece, hothers, rfl⟩ := List.forall₂_cons_left_iff.mp htakes
    exact ⟨piece, others.flatten, hpiece, rfl, others, hothers, rfl⟩
  · rintro ⟨piece, left, hpiece, rfl, others, hothers, rfl⟩
    exact ⟨piece :: others, .cons hpiece hothers, rfl⟩

/-- Behind a `%` any suffix may be left. -/
lemma cuts_any_iff : Cuts ('%' :: rest) text ↔ ∃ left, left <:+ text ∧ Cuts rest left := by
  rw [cuts_cons_iff]
  constructor
  · rintro ⟨piece, left, -, rfl, hleft⟩
    exact ⟨left, List.suffix_append piece left, hleft⟩
  · rintro ⟨left, ⟨piece, rfl⟩, hleft⟩
    exact ⟨piece, left, .any piece, rfl, hleft⟩

/-- A character other than `%` takes one character, which is any for `_` and itself otherwise. -/
lemma takes_iff (h : p ≠ '%') : Takes p piece ↔ ∃ c, piece = [c] ∧ (p = '_' ∨ p = c) := by
  constructor
  · rintro (_ | c | _)
    · exact absurd rfl h
    · exact ⟨c, rfl, Or.inl rfl⟩
    · exact ⟨p, rfl, Or.inr rfl⟩
  · rintro ⟨c, rfl, rfl | rfl⟩
    · exact .one c
    · by_cases hone : p = '_'
      · rw [hone]
        exact .one '_'
      · exact .itself h hone

/-- Behind a character other than `%` all but the first character of the text is left. -/
lemma cuts_one_iff (h : p ≠ '%') :
    Cuts (p :: rest) text ↔ ∃ c left, text = c :: left ∧ (p = '_' ∨ p = c) ∧ Cuts rest left := by
  rw [cuts_cons_iff]
  constructor
  · rintro ⟨piece, left, hpiece, rfl, hleft⟩
    obtain ⟨c, rfl, hc⟩ := (takes_iff h).mp hpiece
    exact ⟨c, left, rfl, hc, hleft⟩
  · rintro ⟨c, left, rfl, hc, hleft⟩
    exact ⟨[c], left, (takes_iff h).mpr ⟨c, rfl, hc⟩, rfl, hleft⟩

/-! ## Rows -/

/-- A row tells of every suffix of a text whether it has a property. -/
def Tells (P : List Char → Prop) (row : List Bool) (text : List Char) : Prop :=
  List.Forall₂ (fun b suffix => b = true ↔ P suffix) row text.tails

/-- A row of a text that begins with a character tells of the text and, behind that, of what follows
the character. -/
lemma Tells.of_cons (h : Tells P row (c :: text)) :
    ∃ b others, row = b :: others ∧ (b = true ↔ P (c :: text)) ∧ Tells P others text := by
  obtain ⟨b, others, hb, hothers, rfl⟩ := List.forall₂_cons_right_iff.mp h
  exact ⟨b, others, rfl, hb, hothers⟩

/-- What is told of the suffixes of a text comes to be told of one more. -/
lemma Tells.cons {b : Bool} (hb : b = true ↔ P (c :: text)) (h : Tells P row text) :
    Tells P (b :: row) (c :: text) :=
  List.Forall₂.cons hb h

/-- The first value of a row tells of the whole text. -/
lemma Tells.exists_head (h : Tells P row text) :
    ∃ b others, row = b :: others ∧ (b = true ↔ P text) := by
  cases text with
  | nil =>
    obtain ⟨b, others, hb, -, rfl⟩ := List.forall₂_cons_right_iff.mp h
    exact ⟨b, others, rfl, hb⟩
  | cons c text =>
    obtain ⟨b, others, hrow, hb, -⟩ := h.of_cons
    exact ⟨b, others, hrow, hb⟩

/-- A row of the empty text has one value. -/
lemma tells_nil_iff : Tells P row [] ↔ ∃ b, row = [b] ∧ (b = true ↔ P []) := by
  simp [Tells, List.forall₂_cons_right_iff, and_comm]

/-- What is told in other words. -/
lemma Tells.congr {Q : List Char → Prop} (h : Tells P row text) (heq : ∀ suffix, P suffix ↔ Q suffix) :
    Tells Q row text :=
  h.imp fun _ suffix hb => hb.trans (heq suffix)

/-- The row that the empty pattern begins with. -/
lemma tells_emptyRow (text : List Char) : Tells (· = []) (emptyRow text) text := by
  induction text with
  | nil => exact tells_nil_iff.mpr ⟨true, rfl, by simp⟩
  | cons c text ih => exact .cons (by simp) ih

/-- A row holds a true value if some suffix has the property. -/
lemma Tells.any_iff (h : Tells P row text) : row.any id = true ↔ ∃ left, left <:+ text ∧ P left := by
  induction text generalizing row with
  | nil =>
    obtain ⟨b, rfl, hb⟩ := tells_nil_iff.mp h
    simp [hb]
  | cons c text ih =>
    obtain ⟨b, others, rfl, hb, hothers⟩ := h.of_cons
    simp only [List.any_cons, id_eq, Bool.or_eq_true, hb, ih hothers, List.suffix_cons_iff, or_and_right,
      exists_or, exists_eq_left]

/-- The row that tells whether a suffix with the property lies within a suffix. -/
lemma Tells.anyFrom (h : Tells P row text) :
    Tells (fun suffix => ∃ left, left <:+ suffix ∧ P left) (anyFrom row) text := by
  induction text generalizing row with
  | nil =>
    obtain ⟨b, rfl, hb⟩ := tells_nil_iff.mp h
    exact tells_nil_iff.mpr ⟨b, by simp [Wildcard.anyFrom], by simp [hb]⟩
  | cons c text ih =>
    have hany := h.any_iff
    obtain ⟨b, others, rfl, -, hothers⟩ := h.of_cons
    exact .cons hany (ih hothers)

/-- The row that tells whether a suffix begins with a character that is taken and goes on with one that
has the property. -/
lemma Tells.one (h : Tells P row text) (p : Char) :
    Tells (fun suffix => ∃ c left, suffix = c :: left ∧ (p = '_' ∨ p = c) ∧ P left)
      (List.zipWith (fun c matched => (p = '_' || p = c) && matched) text row.tail ++ [false])
      text := by
  induction text generalizing row with
  | nil => exact tells_nil_iff.mpr ⟨false, rfl, by simp⟩
  | cons c text ih =>
    obtain ⟨b, others, rfl, -, hothers⟩ := h.of_cons
    obtain ⟨next, behind, rfl, hnext⟩ := hothers.exists_head
    refine .cons ?_ (ih hothers)
    simp [hnext, and_assoc]

/-- One more character of the pattern: the row goes on telling which suffixes are cut. -/
lemma Tells.extend (h : Tells (Cuts rest) row text) (p : Char) :
    Tells (Cuts (p :: rest)) (extend text p row) text := by
  rw [Wildcard.extend]
  split
  · rename_i hany
    rw [hany]
    exact h.anyFrom.congr fun suffix => cuts_any_iff.symm
  · rename_i hone
    exact (h.one p).congr fun suffix => (cuts_one_iff hone).symm

/-- The row of a pattern tells which suffixes of the text are cut for it. -/
theorem tells_row (pattern text : List Char) : Tells (Cuts pattern) (Wildcard.row pattern text) text := by
  induction pattern with
  | nil => exact (tells_emptyRow text).congr fun suffix => cuts_nil_iff.symm
  | cons p rest ih => exact ih.extend p

/-- The first value in the row of a pattern tells whether the whole text is cut for it. -/
lemma headD_row_iff (pattern text : List Char) :
    (Wildcard.row pattern text).headD false = true ↔ Cuts pattern text := by
  obtain ⟨b, others, hrow, hb⟩ := (tells_row pattern text).exists_head
  rw [hrow, List.headD_cons, hb]

/-- Whether a text is cut for a pattern is decided by the row of the pattern. -/
instance (pattern text : List Char) : Decidable (Cuts pattern text) :=
  decidable_of_iff _ (headD_row_iff pattern text)

/-- A pattern matches a text exactly if the text is cut into consecutive pieces, one for each character of
the pattern, where `%` takes any piece, `_` any one character, and every other character itself. -/
theorem isMatch_iff_cuts (pattern text : String) :
    isMatch pattern text = true ↔
      ∃ pieces, List.Forall₂ Takes pattern.toList pieces ∧ pieces.flatten = text.toList :=
  headD_row_iff pattern.toList text.toList

/-- A line break is one character, and a point stands for itself. -/
example : isMatch "_.%" "\n.x" = true ∧ isMatch "_.%" "abx" = false := by decide +kernel

end RecordStore.Wildcard
