import Mathlib.Data.List.DropRight
import Mathlib.Tactic.Lemma
import RecordStore.Text.Blank

/-!
# Blanks at the ends of texts

Stripping some characters takes nothing but blanks from their ends, and leaves no blank there.  So characters
that neither begin nor end with a blank stay as they are, and no character that is not blank gets lost.  When
several pieces of a text are stripped, those of which nothing is left are dropped.
-/

namespace RecordStore.Text

variable {cs piece : List Char} {c : Char} {pieces : List (List Char)}

/-! ## Single pieces -/

/-- Some characters neither begin nor end with a blank. -/
structure Trimmed (cs : List Char) : Prop where
  head : ∀ c ∈ cs.head?, isBlank c = false
  last : ∀ c ∈ cs.getLast?, isBlank c = false

/-- The blanks in front are dropped first, and then those at the end. -/
lemma stripChars_eq_rdropWhile (cs : List Char) :
    stripChars cs = (cs.dropWhile isBlank).rdropWhile isBlank := rfl

/-- What is taken from the ends of some characters are blanks. -/
lemma exists_stripChars (cs : List Char) :
    ∃ front back, cs = front ++ (stripChars cs ++ back) ∧ (∀ c ∈ front, isBlank c = true) ∧
      ∀ c ∈ back, isBlank c = true := by
  refine ⟨cs.takeWhile isBlank, (cs.dropWhile isBlank).rtakeWhile isBlank, ?_,
    fun c => List.mem_takeWhile_imp, fun c => List.mem_rtakeWhile_imp⟩
  rw [stripChars_eq_rdropWhile, List.rdropWhile_append_rtakeWhile, List.takeWhile_append_dropWhile]

/-- No blank is left at the ends. -/
lemma trimmed_stripChars (cs : List Char) : Trimmed (stripChars cs) := by
  rw [stripChars_eq_rdropWhile]
  constructor
  · intro c hc
    obtain ⟨rest, hrest⟩ := List.head?_eq_some_iff.mp hc
    obtain ⟨back, hback⟩ := List.rdropWhile_prefix isBlank (cs.dropWhile isBlank)
    have hhead := List.head?_dropWhile_not isBlank cs
    rw [← hback, hrest] at hhead
    exact hhead
  · intro c hc
    obtain ⟨hne, rfl⟩ := List.mem_getLast?_eq_getLast hc
    exact Bool.eq_false_iff.mpr (List.rdropWhile_last_not isBlank _ hne)

/-- Nothing is taken from characters without blanks at their ends. -/
lemma Trimmed.stripChars_eq (h : Trimmed cs) : stripChars cs = cs := by
  cases cs with
  | nil => rfl
  | cons c cs =>
    have hc : ¬isBlank c = true := by simp [h.head c rfl]
    rw [stripChars, List.dropWhile_cons_of_neg hc]
    refine List.rdropWhile_eq_self_iff.mpr fun hne => ?_
    rw [h.last _ (List.getLast?_eq_some_getLast hne)]
    exact Bool.false_ne_true

/-- The last character that is not blank becomes the last one. -/
lemma getLast?_stripChars_eq_some_iff (hc : isBlank c = false) :
    (stripChars cs).getLast? = some c ↔
      ∃ front back, cs = front ++ c :: back ∧ ∀ d ∈ back, isBlank d = true := by
  constructor
  · intro h
    obtain ⟨before, hbefore⟩ := List.getLast?_eq_some_iff.mp h
    obtain ⟨front, back, hcs, -, hback⟩ := exists_stripChars cs
    exact ⟨front ++ before, back, by rw [hcs, hbefore]; simp, hback⟩
  · rintro ⟨front, back, rfl, hback⟩
    obtain ⟨before, hbefore⟩ : ∃ before, (front ++ c :: back).dropWhile isBlank = before ++ c :: back := by
      rw [List.dropWhile_append]
      split
      · exact ⟨[], List.dropWhile_cons_of_neg (by simp [hc])⟩
      · exact ⟨_, rfl⟩
    rw [stripChars, dropBlankEnd, hbefore, List.getLast?_reverse, List.reverse_append, List.reverse_cons,
      List.append_assoc, List.dropWhile_append_of_pos fun d hd => hback d (List.mem_reverse.mp hd),
      List.singleton_append, List.dropWhile_cons_of_neg (by simp [hc])]
    rfl

/-- A character that is not blank stays as often as it was there. -/
lemma count_stripChars (hc : isBlank c = false) (cs : List Char) :
    (stripChars cs).count c = cs.count c := by
  obtain ⟨front, back, hcs, hfront, hback⟩ := exists_stripChars cs
  have hnot : ∀ blanks : List Char, (∀ d ∈ blanks, isBlank d = true) → blanks.count c = 0 := by
    intro blanks hblanks
    refine List.count_eq_zero.mpr fun hmem => ?_
    rw [hblanks c hmem] at hc
    cases hc
  conv_rhs => rw [hcs, List.count_append, List.count_append, hnot front hfront, hnot back hback]
  omega

/-! ## Several pieces -/

/-- What is left of pieces without the blanks around them, the empty ones left out. -/
def stripped (pieces : List (List Char)) : List (List Char) :=
  (pieces.map stripChars).filter fun piece => !piece.isEmpty

lemma stripped_append (pieces others : List (List Char)) :
    stripped (pieces ++ others) = stripped pieces ++ stripped others := by
  rw [stripped, List.map_append, List.filter_append]
  rfl

/-- A piece in which there are only blanks is dropped. -/
lemma stripped_cons_of_eq_nil (h : stripChars piece = []) (pieces : List (List Char)) :
    stripped (piece :: pieces) = stripped pieces := by
  rw [stripped, List.map_cons, h]
  rfl

/-- A piece in which there is more than blanks is kept. -/
lemma stripped_cons_of_ne_nil (h : stripChars piece ≠ []) (pieces : List (List Char)) :
    stripped (piece :: pieces) = stripChars piece :: stripped pieces := by
  rw [stripped, List.map_cons, List.filter_cons_of_pos (by simpa using h)]
  rfl

lemma mem_stripped_iff :
    piece ∈ stripped pieces ↔ piece ≠ [] ∧ ∃ whole ∈ pieces, stripChars whole = piece := by
  simp [stripped, and_comm]

/-- Pieces without blanks at their ends, none of them empty, stay as they are. -/
lemma stripped_eq_self (h : ∀ piece ∈ pieces, piece ≠ [] ∧ Trimmed piece) : stripped pieces = pieces := by
  induction pieces with
  | nil => rfl
  | cons piece pieces ih =>
    obtain ⟨⟨hne, htrimmed⟩, hpieces⟩ := List.forall_mem_cons.mp h
    have hpiece := htrimmed.stripChars_eq
    rw [stripped_cons_of_ne_nil (hpiece.symm ▸ hne), hpiece, ih hpieces]

end RecordStore.Text
