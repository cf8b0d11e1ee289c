import RecordStore.Proofs.Query.Breaking
import RecordStore.Proofs.Text.Blank
import RecordStore.Query.Execution

/-!
# Scripts joined with semicolons

A script that ends outside quotes, as the cutting of scripts counts them, can be followed by a semicolon and
another script: what the two make up together has the statements of the first and then those of the second, and
has them exactly then.  So carrying out the joined script is carrying out one script after the other.  A
statement is cut no more, and the statements of a script, with semicolons between them, have themselves as
statements.

How a script is cut behind a place depends on the piece that has been begun there, since the quote that is open
at the place is the one that this piece has left open.  All pieces but the last one leave no quote open, and no
piece has a semicolon outside quotes.  Blanks around a piece change nothing about that.
-/

namespace RecordStore.Query.Script

variable {cs piece source : List Char} {c quote : Char} {pieces : List (List Char)}

/-! ## Open quotes -/

/-- The quote that is open behind a character, if the given one is open in front of it. -/
def openBehind (quote : Option Char) (c : Char) : Option Char :=
  match quote with
  | some open' => if c = open' then none else quote
  | none => if isQuote c then some c else none

/-- The quote that some characters leave open, if any; a quote is closed by the next one of its kind. -/
def openQuote (cs : List Char) : Option Char :=
  cs.foldl openBehind none

/-- A script leaves no quote open. -/
def EndsOutside (script : String) : Prop :=
  openQuote script.toList = none

instance (script : String) : Decidable (EndsOutside script) :=
  inferInstanceAs (Decidable (openQuote script.toList = none))

lemma openQuote_append (cs rest : List Char) :
    openQuote (cs ++ rest) = rest.foldl openBehind (openQuote cs) :=
  List.foldl_append

lemma openQuote_concat (cs : List Char) (c : Char) :
    openQuote (cs ++ [c]) = openBehind (openQuote cs) c :=
  openQuote_append cs [c]

/-- Behind characters that leave no quote open everything begins anew. -/
lemma openQuote_append_of_none (h : openQuote cs = none) (rest : List Char) :
    openQuote (cs ++ rest) = openQuote rest := by
  rw [openQuote_append, h, openQuote]

/-- What is left open is a quote. -/
lemma isQuote_of_openQuote (h : openQuote cs = some quote) : isQuote quote = true := by
  induction cs using List.reverseRecOn with
  | nil => cases h
  | append_singleton cs c ih =>
    rw [openQuote_concat] at h
    cases hopen : openQuote cs with
    | none =>
      rw [hopen, openBehind] at h
      split at h
      · rename_i hc
        rwa [Option.some.inj h] at hc
      · cases h
    | some open' =>
      rw [hopen, openBehind] at h
      split at h
      · cases h
      · exact ih (hopen.trans h)

/-- A character that is no quote neither opens nor closes one. -/
lemma openQuote_concat_of_not_isQuote (hc : isQuote c = false) (cs : List Char) :
    openQuote (cs ++ [c]) = openQuote cs := by
  rw [openQuote_concat]
  cases hopen : openQuote cs with
  | none => simp [openBehind, hc]
  | some open' =>
    have hne : c ≠ open' := by
      rintro rfl
      rw [isQuote_of_openQuote hopen] at hc
      cases hc
    exact if_neg hne

/-- Characters among which there are no quotes neither open nor close one. -/
lemma openQuote_append_of_forall (h : ∀ c ∈ source, isQuote c = false) (cs : List Char) :
    openQuote (cs ++ source) = openQuote cs := by
  induction source generalizing cs with
  | nil => rw [List.append_nil]
  | cons c source ih =>
    obtain ⟨hc, hsource⟩ := List.forall_mem_cons.mp h
    rw [List.append_cons, ih hsource, openQuote_concat_of_not_isQuote hc]

/-- Characters among which there are no quotes do not matter in front of others either. -/
lemma openQuote_append_left (h : ∀ c ∈ source, isQuote c = false) (cs : List Char) :
    openQuote (source ++ cs) = openQuote cs :=
  openQuote_append_of_none (openQuote_append_of_forall h []) cs

/-- Blanks around some characters do not matter for the quote that they leave open. -/
lemma openQuote_stripChars (cs : List Char) : openQuote (Text.stripChars cs) = openQuote cs := by
  obtain ⟨front, back, hcs, hfront, hback⟩ := Text.exists_stripChars cs
  conv_rhs =>
    rw [hcs, openQuote_append_left fun c hc => isQuote_of_isBlank (hfront c hc),
      openQuote_append_of_forall fun c hc => isQuote_of_isBlank (hback c hc)]

/-! ## Pieces -/

/-- Some characters have no semicolon outside quotes. -/
def Uncut (cs : List Char) : Prop :=
  ∀ before after, cs = before ++ ';' :: after → openQuote before ≠ none

/-- How some characters are cut, if a piece has been begun in front of them. -/
def piecesBehind (piece cs : List Char) : List (List Char) :=
  piecesFrom (openQuote piece) piece.reverse cs

lemma piecesBehind_nil (piece : List Char) : piecesBehind piece [] = [piece] := by
  rw [piecesBehind, piecesFrom, List.reverse_reverse]

/-- A piece ends at a semicolon outside quotes, and goes on with any other character. -/
lemma piecesBehind_cons (piece : List Char) (c : Char) (cs : List Char) :
    piecesBehind piece (c :: cs) =
      if c = ';' ∧ openQuote piece = none then piece :: piecesBehind [] cs
      else piecesBehind (piece ++ [c]) cs := by
  have hsemicolon : isQuote ';' = false := by decide
  rw [piecesBehind, piecesBehind, piecesBehind, openQuote_concat, List.reverse_concat]
  cases openQuote piece with
  | some open' => simp [piecesFrom, openBehind]
  | none =>
    by_cases hc : c = ';'
    · subst hc
      simp [piecesFrom, hsemicolon, openQuote]
    · by_cases hquote : isQuote c = true <;> simp [piecesFrom, openBehind, hc, hquote]

lemma piecesBehind_cut (h : openQuote piece = none) (cs : List Char) :
    piecesBehind piece (';' :: cs) = piece :: piecesBehind [] cs := by
  rw [piecesBehind_cons, if_pos ⟨rfl, h⟩]

lemma piecesBehind_more (h : c = ';' → openQuote piece ≠ none) (cs : List Char) :
    piecesBehind piece (c :: cs) = piecesBehind (piece ++ [c]) cs := by
  rw [piecesBehind_cons, if_neg fun hcut => h hcut.1 hcut.2]

/-- The first piece begins with what has been begun. -/
lemma exists_piecesBehind_eq_cons (piece cs : List Char) :
    ∃ more others, piecesBehind piece cs = (piece ++ more) :: others := by
  induction cs generalizing piece with
  | nil => exact ⟨[], [], by rw [piecesBehind_nil, List.append_nil]⟩
  | cons c cs ih =>
    rw [piecesBehind_cons]
    split
    · exact ⟨[], _, by rw [List.append_nil]⟩
    · obtain ⟨more, others, hpieces⟩ := ih (piece ++ [c])
      exact ⟨c :: more, others, by rw [hpieces, List.append_assoc, List.singleton_append]⟩

/-- The last piece of some characters leaves open the quote that they leave open, and what follows is cut as
what goes on with this piece. -/
lemma exists_piecesBehind_append (piece cs : List Char) :
    ∃ firsts last, piecesBehind piece cs = firsts ++ [last] ∧ openQuote last = openQuote (piece ++ cs) ∧
      ∀ rest, piecesBehind piece (cs ++ rest) = firsts ++ piecesBehind last rest := by
  -- every character either ends the piece that has been begun or becomes a part of it
  induction cs generalizing piece with
  | nil => exact ⟨[], piece, piecesBehind_nil piece, by rw [List.append_nil], fun rest => rfl⟩
  | cons c cs ih =>
    by_cases hcut : c = ';' ∧ openQuote piece = none
    · obtain ⟨rfl, hpiece⟩ := hcut
      obtain ⟨firsts, last, hpieces, hlast, hrest⟩ := ih []
      refine ⟨piece :: firsts, last, ?_, ?_, fun rest => ?_⟩
      · rw [piecesBehind_cut hpiece, hpieces, List.cons_append]
      · have hsemicolon : ∀ c ∈ [';'], isQuote c = false := List.forall_mem_singleton.mpr (by decide)
        rw [openQuote_append_of_none hpiece, hlast, List.nil_append]
        exact (openQuote_append_left hsemicolon cs).symm
      · rw [List.cons_append, piecesBehind_cut hpiece, hrest, List.cons_append]
    · have hmore : c = ';' → openQuote piece ≠ none := fun hc hpiece => hcut ⟨hc, hpiece⟩
      obtain ⟨firsts, last, hpieces, hlast, hrest⟩ := ih (piece ++ [c])
      refine ⟨firsts, last, ?_, ?_, fun rest => ?_⟩
      · rw [piecesBehind_more hmore, hpieces]
      · rw [hlast, List.append_assoc, List.singleton_append]
      · rw [List.cons_append, piecesBehind_more hmore, hrest]

/-- A semicolon behind characters that leave no quote open separates their pieces from those that follow. -/
lemma piecesBehind_append_cut (h : openQuote cs = none) (rest : List Char) :
    piecesBehind [] (cs ++ ';' :: rest) = piecesBehind [] cs ++ piecesBehind [] rest := by
  obtain ⟨firsts, last, hpieces, hlast, hrest⟩ := exists_piecesBehind_append [] cs
  rw [hrest, piecesBehind_cut (hlast.trans h), hpieces, List.append_assoc, List.singleton_append]

/-! ## Separate pieces -/

namespace Uncut

lemma nil : Uncut [] :=
  fun _ _ h => absurd h (by simp)

/-- A character behind some others cuts only if it is a semicolon outside quotes. -/
lemma concat (h : Uncut cs) (hc : c = ';' → openQuote cs ≠ none) : Uncut (cs ++ [c]) := by
  intro before after hcs
  rcases List.eq_nil_or_concat after with rfl | ⟨after, d, rfl⟩
  · obtain ⟨rfl, hlast⟩ := List.append_inj' hcs rfl
    exact hc (List.head_eq_of_cons_eq hlast)
  · rw [List.concat_eq_append, ← List.cons_append, ← List.append_assoc] at hcs
    exact h before after (List.append_inj_left' hcs rfl)

/-- Blanks around some characters do not matter. -/
lemma stripChars (h : Uncut cs) : Uncut (Text.stripChars cs) := by
  intro before after hstrip
  obtain ⟨front, back, hcs, hfront, -⟩ := Text.exists_stripChars cs
  rw [← openQuote_append_left fun c hc => isQuote_of_isBlank (hfront c hc)]
  refine h (front ++ before) (after ++ back) ?_
  rw [hcs, hstrip]
  simp

/-- Without a semicolon outside quotes the piece that has been begun is the only one. -/
lemma piecesBehind_append (h : Uncut (piece ++ cs)) : piecesBehind piece cs = [piece ++ cs] := by
  induction cs generalizing piece with
  | nil => rw [piecesBehind_nil, List.append_nil]
  | cons c cs ih =>
    have hmore : c = ';' → openQuote piece ≠ none := by
      rintro rfl
      exact h piece cs rfl
    rw [List.append_cons] at h ⊢
    rw [piecesBehind_more hmore, ih h]

lemma piecesBehind_eq (h : Uncut cs) : piecesBehind [] cs = [cs] :=
  piecesBehind_append h

end Uncut

/-- Pieces that stay apart when semicolons are put between them: none has a semicolon outside quotes, and each
one that another follows leaves no quote open. -/
structure Separate (pieces : List (List Char)) : Prop where
  uncut : ∀ piece ∈ pieces, Uncut piece
  outside : pieces.Pairwise fun piece _ => openQuote piece = none

/-- A script is cut into separate pieces. -/
lemma separate_piecesBehind (h : Uncut piece) (cs : List Char) : Separate (piecesBehind piece cs) := by
  induction cs generalizing piece with
  | nil =>
    rw [piecesBehind_nil]
    exact ⟨List.forall_mem_singleton.mpr h, List.pairwise_singleton _ _⟩
  | cons c cs ih =>
    by_cases hcut : c = ';' ∧ openQuote piece = none
    · rw [piecesBehind_cons, if_pos hcut]
      have hothers := ih Uncut.nil
      exact ⟨List.forall_mem_cons.mpr ⟨h, hothers.uncut⟩,
        List.pairwise_cons.mpr ⟨fun _ _ => hcut.2, hothers.outside⟩⟩
    · have hmore : c = ';' → openQuote piece ≠ none := fun hc hpiece => hcut ⟨hc, hpiece⟩
      rw [piecesBehind_more hmore]
      exact ih (h.concat hmore)

/-- Separate pieces with semicolons between them are cut at these semicolons. -/
lemma Separate.piecesBehind_intercalate (h : Separate pieces) (hne : pieces ≠ []) :
    piecesBehind [] ([';'].intercalate pieces) = pieces := by
  induction pieces with
  | nil => exact absurd rfl hne
  | cons piece pieces ih =>
    obtain ⟨hpiece, hpieces⟩ := List.forall_mem_cons.mp h.uncut
    obtain ⟨houtside, hothers⟩ := List.pairwise_cons.mp h.outside
    cases pieces with
    | nil => rw [List.intercalate_singleton, hpiece.piecesBehind_eq]
    | cons next pieces =>
      rw [List.intercalate_cons_cons, List.append_assoc, List.singleton_append,
        piecesBehind_append_cut (houtside next List.mem_cons_self), hpiece.piecesBehind_eq,
        ih ⟨hpieces, hothers⟩ (List.cons_ne_nil _ _), List.singleton_append]

/-! ## Statements -/

lemma statementsOf_eq_stripped (cs : List Char) :
    statementsOf cs = Text.stripped (piecesBehind [] cs) := rfl

/-- Separate pieces stay so without the blanks around them. -/
lemma Separate.stripped (h : Separate pieces) : Separate (Text.stripped pieces) := by
  constructor
  · intro piece hpiece
    obtain ⟨-, whole, hwhole, rfl⟩ := Text.mem_stripped_iff.mp hpiece
    exact (h.uncut whole hwhole).stripChars
  · refine List.Pairwise.filter _ (h.outside.map _ fun piece _ hpiece => ?_)
    rwa [openQuote_stripChars]

/-- The statements of a script are separate, none is empty, and none begins or ends with a blank. -/
lemma separate_statementsOf (cs : List Char) :
    Separate (statementsOf cs) ∧ ∀ piece ∈ statementsOf cs, piece ≠ [] ∧ Text.Trimmed piece := by
  rw [statementsOf_eq_stripped]
  refine ⟨(separate_piecesBehind Uncut.nil cs).stripped, fun piece hpiece => ?_⟩
  obtain ⟨hne, whole, -, rfl⟩ := Text.mem_stripped_iff.mp hpiece
  exact ⟨hne, Text.trimmed_stripChars whole⟩

/-- Separate pieces that are neither empty nor have blanks at their ends are the statements of what they make
up with semicolons between them. -/
lemma Separate.statementsOf_intercalate (h : Separate pieces)
    (hpieces : ∀ piece ∈ pieces, piece ≠ [] ∧ Text.Trimmed piece) :
    statementsOf ([';'].intercalate pieces) = pieces := by
  by_cases hne : pieces = []
  · subst hne
    rfl
  · rw [statementsOf_eq_stripped, h.piecesBehind_intercalate hne, Text.stripped_eq_self hpieces]

/-- Two scripts with a semicolon between them have the statements of both if the first one ends outside
quotes. -/
lemma statementsOf_append (h : openQuote cs = none) (rest : List Char) :
    statementsOf (cs ++ ';' :: rest) = statementsOf cs ++ statementsOf rest := by
  rw [statementsOf_eq_stripped, piecesBehind_append_cut h, Text.stripped_append]
  rfl

/-- Otherwise a statement of the joined script has a semicolon more than the one that has been begun. -/
lemma statementsOf_append_ne (h : openQuote cs ≠ none) (rest : List Char) :
    statementsOf (cs ++ ';' :: rest) ≠ statementsOf cs ++ statementsOf rest := by
  have hblank : Text.isBlank ';' = false := by decide +kernel
  obtain ⟨firsts, last, hpieces, hlast, hrest⟩ := exists_piecesBehind_append [] cs
  rw [List.nil_append] at hlast
  obtain ⟨more, others, hmore⟩ := exists_piecesBehind_eq_cons (last ++ [';']) rest
  -- the piece that the first script leaves open is not blank, as there is a quote in it
  have hbegun : Text.stripChars last ≠ [] := by
    intro hnone
    rw [← hlast, ← openQuote_stripChars, hnone] at h
    exact h rfl
  have hcount : (Text.stripChars (last ++ [';'] ++ more)).count ';' =
      (Text.stripChars last).count ';' + 1 + more.count ';' := by
    rw [Text.count_stripChars hblank, Text.count_stripChars hblank, List.count_append, List.count_append,
      List.count_singleton_self]
  have hlonger : Text.stripChars (last ++ [';'] ++ more) ≠ [] := by
    intro hnone
    rw [hnone, List.count_nil] at hcount
    omega
  have hbefore : statementsOf cs = Text.stripped firsts ++ [Text.stripChars last] := by
    rw [statementsOf_eq_stripped, hpieces, Text.stripped_append, Text.stripped_cons_of_ne_nil hbegun]
    rfl
  have hjoined : statementsOf (cs ++ ';' :: rest) =
      Text.stripped firsts ++ Text.stripChars (last ++ [';'] ++ more) :: Text.stripped others := by
    rw [statementsOf_eq_stripped, hrest, piecesBehind_more fun _ => hlast ▸ h, hmore, Text.stripped_append,
      Text.stripped_cons_of_ne_nil hlonger]
  intro hsame
  -- behind the finished pieces the lists would go on with the same statement
  rw [hjoined, hbefore, List.append_assoc (Text.stripped firsts)] at hsame
  have hhead := List.head_eq_of_cons_eq (List.append_cancel_left hsame)
  rw [hhead] at hcount
  omega

/-- A text that is a single statement: there is something in it, it neither begins nor ends with a blank, and
a script that consists of it has no other statement. -/
structure IsStatement (s : String) : Prop where
  ne_empty : s ≠ ""
  trimmed : Text.Trimmed s.toList
  statements_eq : statements s = [s]

lemma toList_statements (script : String) :
    (statements script).map String.toList = statementsOf script.toList := by
  simp [statements, Function.comp_def]

/-- A script has nothing but statements. -/
lemma isStatement_of_mem {s script : String} (h : s ∈ statements script) : IsStatement s := by
  obtain ⟨hseparate, hpieces⟩ := separate_statementsOf script.toList
  have hmem : s.toList ∈ statementsOf script.toList := toList_statements script ▸ List.mem_map_of_mem h
  obtain ⟨hne, htrimmed⟩ := hpieces _ hmem
  refine ⟨by simpa using hne, htrimmed, ?_⟩
  rw [statements, statementsOf_eq_stripped, (hseparate.uncut _ hmem).piecesBehind_eq,
    Text.stripped_eq_self (List.forall_mem_singleton.mpr ⟨hne, htrimmed⟩), List.map_singleton,
    String.ofList_toList]

/-- The statements of a script with semicolons between them. -/
lemma statements_intercalate (script : String) :
    statements (";".intercalate (statements script)) = statements script := by
  obtain ⟨hseparate, hpieces⟩ := separate_statementsOf script.toList
  have hsemicolon : ";".toList = [';'] := by decide
  rw [statements, String.toList_intercalate, toList_statements, hsemicolon,
    hseparate.statementsOf_intercalate hpieces]
  rfl

lemma toList_join (script other : String) :
    (script ++ ";" ++ other).toList = script.toList ++ ';' :: other.toList := by
  simp

/-- Two scripts with a semicolon between them are cut into the statements of the first and then those of the
second exactly if the first one ends outside quotes.  Then carrying them out is the same work as carrying out
one after the other: it gives the results of both, and leaves the same database in the same world, also if a
fault ends it.  The statements of a script are cut no more, neither by themselves nor with semicolons between
them. -/
theorem statements_join_iff (script other : String) :
    (statements (script ++ ";" ++ other) = statements script ++ statements other ↔ EndsOutside script) ∧
      (EndsOutside script → executeAll (script ++ ";" ++ other) = do
        return (← executeAll script) ++ (← executeAll other)) ∧
      (∀ s ∈ statements script, IsStatement s) ∧
      statements (";".intercalate (statements script)) = statements script := by
  have hjoined : EndsOutside script →
      statements (script ++ ";" ++ other) = statements script ++ statements other := by
    intro h
    rw [statements, toList_join, statementsOf_append h, List.map_append]
    rfl
  refine ⟨⟨fun hsame => ?_, hjoined⟩, fun h => ?_, fun s => isStatement_of_mem,
    statements_intercalate script⟩
  · by_contra h
    refine statementsOf_append_ne h other.toList ?_
    rw [← toList_join, ← toList_statements, hsame, List.map_append, toList_statements, toList_statements]
  · rw [executeAll, hjoined h, List.mapM_append]
    rfl

/-- A first script with a semicolon in a text and an empty statement, and a second one that leaves a quote
open. -/
theorem statements_join_iff_openText :
    EndsOutside "USE 'a;b' ; ;USE c" ∧
      statements ("USE 'a;b' ; ;USE c" ++ ";" ++ " USE \"d; ") = ["USE 'a;b'", "USE c", "USE \"d;"] ∧
      executeAll ("USE 'a;b' ; ;USE c" ++ ";" ++ " USE \"d; ") = (do
        return (← executeAll "USE 'a;b' ; ;USE c") ++ (← executeAll " USE \"d; ")) ∧
      (∀ s ∈ ["USE 'a;b'", "USE c"], IsStatement s) ∧
      statements "USE 'a;b';USE c" = ["USE 'a;b'", "USE c"] := by
  have houtside : EndsOutside "USE 'a;b' ; ;USE c" := by decide +kernel
  have hfirst : statements "USE 'a;b' ; ;USE c" = ["USE 'a;b'", "USE c"] := by decide +kernel
  have hsecond : statements " USE \"d; " = ["USE \"d;"] := by decide +kernel
  obtain ⟨hstatements, hexecute, hall, hagain⟩ :=
    statements_join_iff "USE 'a;b' ; ;USE c" " USE \"d; "
  rw [hfirst] at hall hagain
  refine ⟨houtside, ?_, hexecute houtside, hall, hagain⟩
  rw [hstatements.mpr houtside, hfirst, hsecond]
  rfl

/-- Behind an open quote the semicolon belongs to the text. -/
example : ¬EndsOutside "USE 'a" ∧ statements ("USE 'a" ++ ";" ++ "b'") = ["USE 'a;b'"] := by
  decide +kernel

end RecordStore.Query.Script
