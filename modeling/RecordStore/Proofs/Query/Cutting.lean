import Mathlib.Data.List.Induction
import RecordStore.Proofs.Query.Scanning
import RecordStore.Proofs.Text.Blank
import RecordStore.Query.Script

/-!
# Scripts cut into statements

A script is cut at semicolons, and by itself each statement is cut into tokens.  Both ways of cutting
know of quoted texts, but not in the same way: a quote behind a backslash closes the text for the first,
and belongs to it for the second.  The statements of a script can be cut into tokens exactly if no
semicolon at which the script is cut lies inside a quoted text.  Then their tokens, one statement after
the other, are those of the script.  This is so whenever no quoted text of the script hides a quote
behind a backslash.
-/

namespace RecordStore.Query

variable {cs before after gap source : List Char} {c quote : Char} {position : Nat} {l : Lexeme}
  {tokens : List Token}

/-! ## Texts cut at a gap -/

/-- A blank is a gap. -/
lemma isGap_of_isBlank (h : Text.isBlank c = true) : isGap c = true := by
  rw [isGap, h]
  rfl

namespace Token.Scans

/-- There is at least the end. -/
lemma ne_nil (h : Scans position cs tokens) : tokens ≠ [] := by
  induction h with
  | finish => exact List.cons_ne_nil _ _
  | gap _ _ ih => exact ih
  | token => exact List.cons_ne_nil _ _

/-- A text has its tokens wherever it stands. -/
lemma shift (h : Scans position cs tokens) (position' : Nat) :
    ∃ tokens', Scans position' cs tokens' ∧ tokens'.map lexeme = tokens.map lexeme := by
  induction h generalizing position' with
  | finish => exact ⟨_, .finish position', rfl⟩
  | gap hc _ ih =>
    obtain ⟨tokens', htokens', hsame⟩ := ih (position' + 1)
    exact ⟨tokens', .gap hc htokens', hsame⟩
  | @token _ l source after tokens hl _ ih =>
    obtain ⟨tokens', htokens', hsame⟩ := ih (position' + source.length)
    exact ⟨_, .token hl htokens', congrArg (l :: ·) hsame⟩

/-- A token stands where the text begins or behind. -/
lemma le_position (h : Scans position cs tokens) : ∀ t ∈ tokens, position ≤ t.position := by
  induction h with
  | finish => simp
  | gap _ _ ih => exact fun t ht => Nat.le_of_succ_le (ih t ht)
  | token _ _ ih =>
    refine List.forall_mem_cons.mpr ⟨Nat.le_refl _, fun t ht => ?_⟩
    exact (Nat.le_add_right _ _).trans (ih t ht)

/-- Two texts with a gap between them have the tokens of the first up to the end, and then those of the
second. -/
lemma append_gap {others : List Token} (h : Scans position before tokens) (hc : isGap c = true)
    (hafter : Scans (position + before.length + 1) after others) :
    Scans position (before ++ c :: after) (tokens.dropLast ++ others) := by
  induction h with
  | finish => exact .gap hc hafter
  | @gap position d cs tokens hd h ih =>
    refine .gap hd (ih ?_)
    rwa [List.length_cons, ← Nat.add_assoc, Nat.add_right_comm position] at hafter
  | @token position l source rest tokens hl h ih =>
    rw [List.length_append, ← Nat.add_assoc] at hafter
    rw [List.dropLast_cons_of_ne_nil h.ne_nil, List.append_assoc]
    refine .token (hl.congr fun d hd => ?_) (ih hafter)
    cases rest with
    | nil =>
      obtain rfl := Option.some.inj hd
      exact Or.inr hc
    | cons e rest => exact Or.inl hd

end Token.Scans

/-! ## Places inside quoted texts -/

/-- A token is a quoted text of a text, with the given quote and the given characters behind it, up to
the quote that closes. -/
def Token.IsQuotedBy (cs : List Char) (token : Token) (quote : Char) (source : List Char) : Prop :=
  token.kind = .text ∧ isQuote quote = true ∧ ∃ front inside after, cs = front ++ quote :: (source ++ after) ∧
    token.position = front.length ∧ readQuoted? quote (source ++ after) = some (inside, after)

/-- A place of a text lies inside a token: the token is a quoted text that begins before the place and
goes on up to it. -/
def Token.Encloses (cs : List Char) (token : Token) (place : Nat) : Prop :=
  ∃ quote source, token.IsQuotedBy cs quote source ∧ token.position < place ∧
    place ≤ token.position + source.length

/-- A quoted text hides a quote of its kind behind a backslash. -/
def Token.HidesQuote (cs : List Char) (token : Token) : Prop :=
  ∃ quote source, token.IsQuotedBy cs quote source ∧ ['\\', quote] <:+: source

namespace Token

/-- A quoted text begins and ends at certain places. -/
lemma IsQuotedBy.unique {token : Token} {quote' : Char} {source' : List Char}
    (h : token.IsQuotedBy cs quote source) (h' : token.IsQuotedBy cs quote' source') :
    quote' = quote ∧ source' = source := by
  obtain ⟨-, -, front, inside, after, rfl, hposition, hread⟩ := h
  obtain ⟨-, -, front', inside', after', hcs, hposition', hread'⟩ := h'
  obtain ⟨rfl, hrest⟩ := List.append_inj hcs (hposition.symm.trans hposition')
  obtain ⟨rfl, hsource⟩ := List.cons.inj hrest
  rw [← hsource, hread] at hread'
  obtain ⟨-, rfl⟩ := Prod.mk.inj (Option.some.inj hread')
  exact ⟨rfl, (List.append_cancel_right hsource).symm⟩

/-- The first token of a text, if it is quoted, is spelled by the characters that it stands for. -/
lemma isQuotedBy_of_spells {inside : List Char} (hquote : isQuote quote = true)
    (h : Spells quote source inside after) (front : List Char) :
    IsQuotedBy (front ++ quote :: (source ++ after)) ⟨.text, String.ofList inside, front.length⟩ quote
      source :=
  ⟨rfl, hquote, front, inside, after, rfl, rfl, h.readQuoted?_eq⟩

/-- Only a quoted text stands for gaps and quotes among other characters. -/
lemma exists_spells_or_forall (h : l.StandsFor source after) :
    (∃ quote cs inside, source = quote :: cs ∧ l = ⟨.text, String.ofList inside⟩ ∧
      isQuote quote = true ∧ Spells quote cs inside after) ∨
      ∀ c ∈ source, isGap c = false ∧ isQuote c = false := by
  cases h with
  | word h =>
    refine Or.inr fun c hc => ?_
    obtain ⟨hgap, hquote, -⟩ := isWordChar_iff.mp (h c hc)
    exact ⟨hgap, hquote⟩
  | text hquote h => exact Or.inl ⟨_, _, _, rfl, rfl, hquote, h⟩
  | punctuation h => exact Or.inr (List.forall_mem_singleton.mpr (isGap_of_punctuation? h))
  | longOperator h =>
    obtain ⟨hfirst, hsecond⟩ := isOperatorChar_of_mem h
    obtain ⟨hgap, hquote, -⟩ := isGap_of_isOperatorChar hfirst
    obtain ⟨hgap', hquote', -⟩ := isGap_of_isOperatorChar hsecond
    exact Or.inr (List.forall_mem_cons.mpr
      ⟨⟨hgap, hquote⟩, List.forall_mem_singleton.mpr ⟨hgap', hquote'⟩⟩)
  | operator h _ _ =>
    obtain ⟨hgap, hquote, -⟩ := isGap_of_isOperatorChar h
    exact Or.inr (List.forall_mem_singleton.mpr ⟨hgap, hquote⟩)

/-- A text without backslashes hides no quotes. -/
lemma not_hidesQuote_of_not_mem (h : '\\' ∉ cs) (token : Token) : ¬token.HidesQuote cs := by
  rintro ⟨quote, source, ⟨-, -, front, inside, after, rfl, -⟩, hhidden⟩
  have hmem : '\\' ∈ source := hhidden.subset List.mem_cons_self
  exact h (List.mem_append_right _ (List.mem_cons_of_mem _ (List.mem_append_left _ hmem)))

/-- A gap stands behind the characters of the first token or among them. -/
lemma append_eq_append_gap {rest : List Char} (h : source ++ rest = before ++ c :: after) :
    (∃ more, before = source ++ more ∧ rest = more ++ c :: after) ∨
      ∃ more, source = before ++ c :: more ∧ after = more ++ rest := by
  rcases List.append_eq_append_iff.mp h with ⟨more, hbefore, hrest⟩ | ⟨more, hsource, hmore⟩
  · exact Or.inl ⟨more, hbefore, hrest⟩
  · cases more with
    | nil =>
      rw [List.append_nil] at hsource
      exact Or.inl ⟨[], by rw [hsource, List.append_nil], hmore.symm⟩
    | cons d more =>
      obtain ⟨rfl, rfl⟩ := List.cons.inj hmore
      exact Or.inr ⟨more, hsource, rfl⟩

/-- The first token of a text encloses the place of a gap among the characters that it stands for. -/
lemma encloses_of_standsFor {front more : List Char} (h : l.StandsFor source after)
    (hsource : source = before ++ c :: more) (hc : isGap c = true) :
    Encloses (front ++ (source ++ after)) ⟨l.kind, l.text, front.length⟩
      (front.length + before.length) := by
  have hmem : c ∈ source := hsource ▸ List.mem_append_right _ List.mem_cons_self
  have hspelled := (exists_spells_or_forall h).resolve_right fun hnot => by
    rw [(hnot c hmem).1] at hc
    cases hc
  obtain ⟨quote, cs, inside, rfl, rfl, hquote, hspells⟩ := hspelled
  have hlength := congrArg List.length hsource
  simp only [List.length_cons, List.length_append] at hlength
  refine ⟨quote, cs, isQuotedBy_of_spells hquote hspells front, ?_, by dsimp only; omega⟩
  -- the quote that opens is no gap
  cases before with
  | nil =>
    obtain ⟨rfl, -⟩ := List.cons.inj hsource
    rw [(isGap_of_isQuote hquote).1] at hc
    cases hc
  | cons d before => exact Nat.lt_add_of_pos_right (Nat.succ_pos _)

/-- A text is cut at a gap that lies inside no token: what stands before it and what stands behind it
have tokens of their own. -/
lemma Scans.split_gap {text front : List Char} (h : Scans position cs tokens)
    (htext : text = front ++ cs) (hposition : position = front.length)
    (hcs : cs = before ++ c :: after) (hc : isGap c = true)
    (hplace : ∀ t ∈ tokens, ¬t.Encloses text (position + before.length)) :
    ∃ firsts others, Scans position before firsts ∧
      Scans (position + before.length + 1) after others ∧ tokens = firsts.dropLast ++ others := by
  induction h generalizing before front with
  | finish =>
    have hlength := congrArg List.length hcs
    simp at hlength
  | @gap position d cs tokens hd h ih =>
    cases before with
    | nil =>
      obtain ⟨rfl, rfl⟩ := List.cons.inj hcs
      exact ⟨_, tokens, .finish position, h, rfl⟩
    | cons e before =>
      obtain ⟨rfl, rfl⟩ := List.cons.inj hcs
      have hlength : position + 1 + before.length = position + (d :: before).length := by
        rw [List.length_cons]
        omega
      have htext' : text = (front ++ [d]) ++ (before ++ c :: after) := by simp [htext]
      obtain ⟨firsts, others, hfirsts, hothers, rfl⟩ :=
        ih htext' (by simp [hposition]) rfl (hlength ▸ hplace)
      exact ⟨firsts, others, .gap hd hfirsts, hlength ▸ hothers, rfl⟩
  | @token position l source rest tokens hl h ih =>
    rcases append_eq_append_gap hcs with ⟨more, rfl, rfl⟩ | ⟨more, hsource, -⟩
    · have hlength : position + source.length + more.length = position + (source ++ more).length := by
        rw [List.length_append]
        omega
      have htext' : text = (front ++ source) ++ (more ++ c :: after) := by simp [htext]
      obtain ⟨firsts, others, hfirsts, hothers, rfl⟩ :=
        ih htext' (by simp [hposition]) rfl (hlength ▸ (List.forall_mem_cons.mp hplace).2)
      refine ⟨_, others, .token (hl.congr fun d hd => Or.inl ?_) hfirsts, hlength ▸ hothers, ?_⟩
      · cases more with
        | nil => cases hd
        | cons e more => exact hd
      · rw [List.dropLast_cons_of_ne_nil hfirsts.ne_nil]
        rfl
    · refine absurd ?_ (hplace _ List.mem_cons_self)
      rw [htext, hposition]
      exact encloses_of_standsFor hl hsource hc

/-- The first token of a text encloses no place behind the characters that it stands for. -/
lemma not_encloses_of_standsFor {text front : List Char} {place : Nat}
    (h : l.StandsFor source after) (htext : text = front ++ (source ++ after))
    (hplace : front.length + source.length ≤ place) :
    ¬Encloses text ⟨l.kind, l.text, front.length⟩ place := by
  rintro ⟨quote', source', hquoted', -, hle⟩
  cases h with
  | text hquote h =>
    have hquoted := isQuotedBy_of_spells hquote h front
    rw [← List.cons_append, ← htext] at hquoted
    obtain ⟨-, rfl⟩ := hquoted.unique hquoted'
    rw [List.length_cons] at hplace
    dsimp only at hle
    omega
  | punctuation h =>
    have hmem := mem_of_punctuation? h
    have hkind := hquoted'.1
    dsimp only at hkind
    simp [hkind] at hmem
  | word => cases hquoted'.1
  | longOperator => cases hquoted'.1
  | operator => cases hquoted'.1

/-- The tokens of a text enclose no place behind it, if a gap stands there. -/
lemma Scans.not_encloses_of_append_gap {text front : List Char} {place : Nat}
    (h : Scans position before tokens) (htext : text = front ++ (before ++ c :: after))
    (hposition : position = front.length) (hc : isGap c = true)
    (hplace : position + before.length ≤ place) : ∀ t ∈ tokens, ¬t.Encloses text place := by
  induction h generalizing front with
  | finish =>
    rintro t ht ⟨_, _, ⟨hkind, -⟩, -⟩
    obtain rfl := List.mem_singleton.mp ht
    cases hkind
  | @gap position d cs tokens hd h ih =>
    have htext' : text = (front ++ [d]) ++ (cs ++ c :: after) := by simp [htext]
    refine ih htext' (by simp [hposition]) ?_
    rw [List.length_cons] at hplace
    omega
  | @token position l source rest tokens hl h ih =>
    rw [List.length_append] at hplace
    have htext' : text = (front ++ source) ++ (rest ++ c :: after) := by simp [htext]
    refine List.forall_mem_cons.mpr ⟨?_, ih htext' (by simp [hposition]) (by omega)⟩
    rw [hposition]
    have hl' : l.StandsFor source (rest ++ c :: after) := by
      refine hl.congr fun d hd => ?_
      cases rest with
      | nil =>
        obtain rfl := Option.some.inj hd
        exact Or.inr hc
      | cons e rest => exact Or.inl hd
    exact not_encloses_of_standsFor hl' (by simp [htext]) (by omega)

end Token

/-! ## Statements of a script -/

/-- The lexemes of some characters without the end, if they can be cut into tokens. -/
def Lexeme.ofChars? (cs : List Char) : Option (List Lexeme) :=
  match Token.scanFrom 0 cs with
  | .ok tokens => some (tokens.map Token.lexeme).dropLast
  | .error _ => none

/-- The lexemes of a text without the end, if it can be cut into tokens. -/
def Lexeme.ofText? (text : String) : Option (List Lexeme) :=
  ofChars? text.toList

namespace Lexeme

open Token (Scans)

/-- Characters that have tokens, wherever they stand, have the lexemes of these tokens. -/
lemma ofChars?_of_scans (h : Scans position cs tokens) :
    ofChars? cs = some (tokens.map Token.lexeme).dropLast := by
  obtain ⟨tokens', htokens', hsame⟩ := h.shift 0
  rw [ofChars?, htokens'.scanFrom_eq, ← hsame]

/-- Characters that have lexemes have tokens, wherever they stand. -/
lemma exists_scans_of_ofChars? {lexemes : List Lexeme} (h : ofChars? cs = some lexemes)
    (position : Nat) :
    ∃ tokens, Scans position cs tokens ∧ lexemes = (tokens.map Token.lexeme).dropLast := by
  unfold ofChars? at h
  split at h
  · rename_i tokens hscan
    obtain rfl := Option.some.inj h
    obtain ⟨tokens', htokens', hsame⟩ := (Token.scans_of_scanFrom hscan).shift position
    exact ⟨tokens', htokens', by rw [hsame]⟩
  · cases h

/-- A gap in front of some characters adds nothing to their lexemes. -/
lemma ofChars?_cons_gap (hc : isGap c = true) (cs : List Char) :
    ofChars? (c :: cs) = ofChars? cs := by
  cases h : ofChars? cs with
  | some lexemes =>
    obtain ⟨tokens, htokens, rfl⟩ := exists_scans_of_ofChars? h 1
    exact ofChars?_of_scans (.gap hc htokens)
  | none =>
    rw [Option.eq_none_iff_forall_not_mem]
    intro lexemes hlexemes
    obtain ⟨tokens, htokens, -⟩ := exists_scans_of_ofChars? hlexemes 0
    have hscan := htokens.scanFrom_eq
    rw [Token.scanFrom.eq_def] at hscan
    simp only [hc, if_true] at hscan
    rw [ofChars?_of_scans (Token.scans_of_scanFrom hscan)] at h
    cases h

/-- A gap behind some characters adds nothing to their lexemes. -/
lemma ofChars?_append_gap (hc : isGap c = true) (cs : List Char) :
    ofChars? (cs ++ [c]) = ofChars? cs := by
  cases h : ofChars? cs with
  | some lexemes =>
    obtain ⟨tokens, htokens, rfl⟩ := exists_scans_of_ofChars? h 0
    rw [ofChars?_of_scans (htokens.append_gap hc (.finish _)), List.map_append]
    simp
  | none =>
    rw [Option.eq_none_iff_forall_not_mem]
    intro lexemes hlexemes
    obtain ⟨tokens, htokens, -⟩ := exists_scans_of_ofChars? hlexemes 0
    -- A quoted text that goes up to the gap would have to go beyond it, as no gap closes it.
    have hplace : ∀ t ∈ tokens, ¬t.Encloses (cs ++ [c]) (0 + cs.length) := by
      rintro t - ⟨quote, source, ⟨-, hquote, front, inside, after, hcs, hposition, hread⟩, -, hplace⟩
      obtain ⟨source', hsource, hspells⟩ := exists_spells hread
      obtain rfl : source = source' := List.append_cancel_right hsource
      have hlength := congrArg List.length hcs
      simp only [List.length_append, List.length_cons, List.length_nil] at hlength
      obtain rfl : after = [] := List.eq_nil_of_length_eq_zero (by omega)
      have hlast := congrArg List.getLast? hcs
      obtain ⟨d, ds, rfl⟩ := hspells.exists_cons
      rw [List.append_nil, List.getLast?_concat, List.getLast?_append, List.getLast?_cons_cons,
        hspells.getLast?, Option.some_or] at hlast
      obtain rfl := Option.some.inj hlast
      rw [(isGap_of_isQuote hquote).1] at hc
      cases hc
    obtain ⟨firsts, -, hfirsts, -⟩ :=
      htokens.split_gap (List.nil_append _).symm rfl rfl hc hplace
    rw [ofChars?_of_scans hfirsts] at h
    cases h

/-- Gaps in front of some characters add nothing to their lexemes. -/
lemma ofChars?_append_left (hgap : ∀ c ∈ gap, isGap c = true) (cs : List Char) :
    ofChars? (gap ++ cs) = ofChars? cs := by
  induction gap with
  | nil => rfl
  | cons c gap ih =>
    obtain ⟨hc, hmore⟩ := List.forall_mem_cons.mp hgap
    rw [List.cons_append, ofChars?_cons_gap hc, ih hmore]

/-- Gaps behind some characters add nothing to their lexemes. -/
lemma ofChars?_append_right (hgap : ∀ c ∈ gap, isGap c = true) (cs : List Char) :
    ofChars? (cs ++ gap) = ofChars? cs := by
  induction gap generalizing cs with
  | nil => rw [List.append_nil]
  | cons c gap ih =>
    obtain ⟨hc, hmore⟩ := List.forall_mem_cons.mp hgap
    rw [List.append_cons, ih hmore, ofChars?_append_gap hc]

/-- Blanks around some characters add nothing to their lexemes. -/
lemma ofChars?_stripChars (cs : List Char) : ofChars? (Text.stripChars cs) = ofChars? cs := by
  obtain ⟨front, back, hcs, hfront, hback⟩ := Text.exists_stripChars cs
  conv_rhs =>
    rw [hcs, ofChars?_append_left fun c hc => isGap_of_isBlank (hfront c hc),
      ofChars?_append_right fun c hc => isGap_of_isBlank (hback c hc)]

/-- The lexemes of several pieces one after the other, if all of them can be cut into tokens. -/
def ofPieces? (pieces : List (List Char)) : Option (List Lexeme) :=
  (pieces.mapM ofChars?).map List.flatten

/-- The lexemes of the first piece stand before those of the others. -/
lemma ofPieces?_cons (piece : List Char) (pieces : List (List Char)) :
    ofPieces? (piece :: pieces) =
      (ofChars? piece).bind fun lexemes => (ofPieces? pieces).map (lexemes ++ ·) := by
  rw [ofPieces?, ofPieces?, List.mapM_cons]
  cases ofChars? piece <;> cases List.mapM ofChars? pieces <;> rfl

/-- Pieces have lexemes one after the other if each of them has lexemes. -/
lemma exists_ofPieces?_iff {pieces : List (List Char)} :
    (∃ lexemes, ofPieces? pieces = some lexemes) ↔
      ∀ piece ∈ pieces, ∃ lexemes, ofChars? piece = some lexemes := by
  induction pieces with
  | nil => exact ⟨fun _ => nofun, fun _ => ⟨[], rfl⟩⟩
  | cons piece pieces ih =>
    rw [List.forall_mem_cons, ← ih, ofPieces?_cons]
    cases ofChars? piece <;> cases ofPieces? pieces <;> simp

/-- Blanks around pieces, and blank pieces, add nothing to their lexemes. -/
lemma ofPieces?_stripped (pieces : List (List Char)) :
    ofPieces? (Text.stripped pieces) = ofPieces? pieces := by
  induction pieces with
  | nil => rfl
  | cons piece pieces ih =>
    rw [ofPieces?_cons piece, ← ofChars?_stripChars piece, ← ih]
    by_cases hpiece : Text.stripChars piece = []
    · rw [Text.stripped_cons_of_eq_nil hpiece, hpiece, ofChars?_of_scans (.finish 0)]
      simp
    · rw [Text.stripped_cons_of_ne_nil hpiece, ofPieces?_cons]

/-- Characters that can be cut into tokens have lexemes. -/
lemma exists_ofChars?_iff :
    (∃ lexemes, ofChars? cs = some lexemes) ↔ ∃ tokens, Token.scanFrom 0 cs = .ok tokens := by
  unfold ofChars?
  cases Token.scanFrom 0 cs <;> simp

end Lexeme

namespace Script

open Token (Scans)

/-- The places at which a script is cut into pieces, if the first of them begins at the given place. -/
def cuts (start : Nat) : List (List Char) → List Nat
  | [] => []
  | [_] => []
  | piece :: next :: rest => (start + piece.length) :: cuts (start + piece.length + 1) (next :: rest)

/-- No place at which a script is cut lies inside one of its tokens. -/
def SparesTexts (script : String) (tokens : List Token) : Prop :=
  ∀ place ∈ cuts 0 (piecesFrom none [] script.toList), ∀ t ∈ tokens, ¬t.Encloses script.toList place

/-- Nothing is cut before the first piece. -/
lemma le_of_mem_cuts {start place : Nat} {pieces : List (List Char)}
    (h : place ∈ cuts start pieces) : start ≤ place := by
  induction pieces generalizing start with
  | nil => cases h
  | cons piece pieces ih =>
    cases pieces with
    | nil => cases h
    | cons next rest =>
      rcases List.mem_cons.mp h with rfl | hrest
      · exact Nat.le_add_right _ _
      · have hle := ih hrest
        omega

/-- There is at least one piece. -/
lemma piecesFrom_ne_nil (open' : Option Char) (current cs : List Char) :
    piecesFrom open' current cs ≠ [] := by
  fun_induction piecesFrom open' current cs <;> simp_all

/-- The pieces of a script with semicolons between them are the script. -/
lemma intercalate_piecesFrom (open' : Option Char) (current cs : List Char) :
    [';'].intercalate (piecesFrom open' current cs) = current.reverse ++ cs := by
  fun_induction piecesFrom open' current cs with
  | case1 => simp
  | case2 current c rest open' ih => simpa using ih
  | case3 current c rest hquote ih => simpa using ih
  | case4 current rest hquote ih =>
    obtain ⟨first, others, hpieces⟩ := List.exists_cons_of_ne_nil (piecesFrom_ne_nil none [] rest)
    rw [hpieces] at ih ⊢
    rw [List.intercalate_cons_cons, ih]
    simp
  | case5 current c rest hquote hc ih => simpa using ih

variable {text front : List Char} {pieces : List (List Char)}

/-- If no place at which a text is cut lies inside a token, the lexemes of its pieces are those of the
text. -/
lemma ofPieces?_of_not_encloses (hne : pieces ≠ [])
    (h : Scans position ([';'].intercalate pieces) tokens)
    (htext : text = front ++ [';'].intercalate pieces) (hposition : position = front.length)
    (hcuts : ∀ place ∈ cuts position pieces, ∀ t ∈ tokens, ¬t.Encloses text place) :
    Lexeme.ofPieces? pieces = some (tokens.map Token.lexeme).dropLast := by
  induction pieces generalizing position tokens front with
  | nil => exact absurd rfl hne
  | cons piece pieces ih =>
    cases pieces with
    | nil =>
      rw [List.intercalate_singleton] at h
      simp [Lexeme.ofPieces?, Lexeme.ofChars?_of_scans h]
    | cons next rest =>
      rw [List.intercalate_cons_cons, List.append_assoc, List.singleton_append] at h htext
      obtain ⟨hfirst, hothers⟩ := List.forall_mem_cons.mp hcuts
      obtain ⟨firsts, others, hfirsts, hrest, rfl⟩ :=
        h.split_gap htext hposition rfl (by decide +kernel) hfirst
      have htext' : text = (front ++ piece ++ [';']) ++ [';'].intercalate (next :: rest) := by
        simp [htext]
      have hall := ih (by simp) hrest htext' (by simp [hposition, Nat.add_assoc]) fun place hplace t ht =>
        hothers place hplace t (List.mem_append_right _ ht)
      rw [Lexeme.ofPieces?_cons, Lexeme.ofChars?_of_scans hfirsts, hall, List.map_append,
        List.dropLast_append_of_ne_nil (by simpa using hrest.ne_nil), List.map_dropLast]
      rfl

/-- If the pieces of a text can be cut into tokens, so can the text, and no place at which it is cut lies
inside a token. -/
lemma exists_scans_of_pieces (hne : pieces ≠ [])
    (htext : text = front ++ [';'].intercalate pieces) (hposition : position = front.length)
    (h : ∀ piece ∈ pieces, ∃ lexemes, Lexeme.ofChars? piece = some lexemes) :
    ∃ tokens, Scans position ([';'].intercalate pieces) tokens ∧
      ∀ place ∈ cuts position pieces, ∀ t ∈ tokens, ¬t.Encloses text place := by
  induction pieces generalizing position front with
  | nil => exact absurd rfl hne
  | cons piece pieces ih =>
    obtain ⟨⟨lexemes, hlexemes⟩, hpieces⟩ := List.forall_mem_cons.mp h
    obtain ⟨firsts, hfirsts, -⟩ := Lexeme.exists_scans_of_ofChars? hlexemes position
    cases pieces with
    | nil => exact ⟨firsts, by rwa [List.intercalate_singleton], nofun⟩
    | cons next rest =>
      rw [List.intercalate_cons_cons, List.append_assoc, List.singleton_append] at htext ⊢
      have htext' : text = (front ++ piece ++ [';']) ++ [';'].intercalate (next :: rest) := by
        simp [htext]
      have hposition' : position + piece.length + 1 = (front ++ piece ++ [';']).length := by
        simp [hposition, Nat.add_assoc]
      obtain ⟨others, hothers, hcuts⟩ := ih (by simp) htext' hposition' hpieces
      have hgap : isGap ';' = true := by decide +kernel
      refine ⟨_, hfirsts.append_gap hgap hothers, fun place hplace t ht => ?_⟩
      have hbefore : ∀ t ∈ firsts, ¬t.Encloses text place := by
        refine hfirsts.not_encloses_of_append_gap htext hposition hgap ?_
        rcases List.mem_cons.mp hplace with rfl | hlater
        · exact Nat.le_refl _
        · have hle := le_of_mem_cuts hlater
          omega
      rcases List.mem_append.mp ht with hfirst | hother
      · exact hbefore t (List.dropLast_subset _ hfirst)
      rcases List.mem_cons.mp hplace with rfl | hlater
      · rintro ⟨-, -, -, hposition, -⟩
        have hle := hothers.le_position t hother
        omega
      · exact hcuts place hlater t hother

/-- A quoted text that hides no quote behind a backslash is passed over up to its end. -/
lemma piecesFrom_of_spells {inside : List Char} (hquote : isQuote quote = true)
    (h : Spells quote source inside after) (hplain : ¬['\\', quote] <:+: source)
    (current : List Char) :
    piecesFrom (some quote) current (source ++ after) =
      piecesFrom none (source.reverse ++ current) after := by
  induction h generalizing current with
  | close => simp [piecesFrom]
  | @escape c source inside after hc h ih =>
    obtain rfl : c = quote := by
      refine hc.resolve_left fun hbackslash => hplain ?_
      rw [hbackslash]
      exact ⟨[], source, rfl⟩
    rw [List.cons_append, List.cons_append, piecesFrom, if_pos rfl, piecesFrom, if_pos hquote,
      ih fun hhidden => hplain ((hhidden.trans (List.infix_cons (List.infix_cons List.infix_rfl))))]
    simp
  | @plain c source inside after hc hhidden h ih =>
    rw [List.cons_append, piecesFrom, if_neg hc, ih fun hhidden => hplain (List.infix_cons hhidden)]
    simp

/-- Characters that are neither quotes nor semicolons stay in the present piece. -/
lemma piecesFrom_of_forall (h : ∀ c ∈ source, isQuote c = false ∧ c ≠ ';')
    (current after : List Char) :
    piecesFrom none current (source ++ after) = piecesFrom none (source.reverse ++ current) after := by
  induction source generalizing current with
  | nil => rfl
  | cons c source ih =>
    obtain ⟨⟨hquote, hc⟩, hsource⟩ := List.forall_mem_cons.mp h
    rw [List.cons_append, piecesFrom, if_neg (by simp [hquote]), if_neg hc, ih hsource]
    simp

/-- A token that hides no quote is not cut. -/
lemma piecesFrom_of_standsFor (h : l.StandsFor source after)
    (hplain : ¬Token.HidesQuote (front ++ (source ++ after)) ⟨l.kind, l.text, front.length⟩)
    (current : List Char) :
    piecesFrom none current (source ++ after) = piecesFrom none (source.reverse ++ current) after := by
  rcases Token.exists_spells_or_forall h with
    ⟨quote, cs, inside, rfl, rfl, hquote, hspells⟩ | hnot
  · have hquoted := Token.isQuotedBy_of_spells hquote hspells front
    rw [List.cons_append, piecesFrom, if_pos hquote,
      piecesFrom_of_spells hquote hspells fun hhidden => hplain ⟨_, _, hquoted, hhidden⟩]
    simp
  · refine piecesFrom_of_forall (fun c hc => ⟨(hnot c hc).2, ?_⟩) current after
    rintro rfl
    exact absurd (hnot _ hc).1 (by decide +kernel)

/-- A script whose quoted texts hide no quotes is cut only behind the tokens before a place, and in no
token. -/
lemma not_encloses_of_mem_cuts (h : Scans position cs tokens) (htext : text = front ++ cs)
    (hposition : position = front.length) (hplain : ∀ t ∈ tokens, ¬t.HidesQuote text) {start : Nat}
    {current : List Char} (hstart : start + current.length = position) :
    ∀ place ∈ cuts start (piecesFrom none current cs),
      position ≤ place ∧ ∀ t ∈ tokens, ¬t.Encloses text place := by
  induction h generalizing front start current with
  | finish => nofun
  | @gap position c cs tokens hc h ih =>
    have htext' : text = (front ++ [c]) ++ cs := by simp [htext]
    have hposition' : position + 1 = (front ++ [c]).length := by simp [hposition]
    rw [piecesFrom, if_neg (by simp [(isWordChar_of_isGap hc).2.2])]
    by_cases hcut : c = ';'
    · rw [if_pos hcut]
      obtain ⟨first, others, hpieces⟩ := List.exists_cons_of_ne_nil (piecesFrom_ne_nil none [] cs)
      have hlater : ∀ place ∈ cuts (position + 1) (piecesFrom none [] cs),
          position + 1 ≤ place ∧ ∀ t ∈ tokens, ¬t.Encloses text place :=
        ih htext' hposition' hplain rfl
      rw [hpieces] at hlater ⊢
      rw [cuts, List.length_reverse, hstart]
      refine List.forall_mem_cons.mpr ⟨⟨Nat.le_refl _, fun t ht => ?_⟩, fun place hplace => ?_⟩
      · rintro ⟨-, -, -, hbefore, -⟩
        have hle := h.le_position t ht
        omega
      · obtain ⟨hle, hnot⟩ := hlater place hplace
        exact ⟨Nat.le_of_succ_le hle, hnot⟩
    · rw [if_neg hcut]
      intro place hplace
      obtain ⟨hle, hnot⟩ := ih htext' hposition' hplain
        (by rw [List.length_cons, ← hstart, Nat.add_assoc]) place hplace
      exact ⟨Nat.le_of_succ_le hle, hnot⟩
  | @token position l source rest tokens hl h ih =>
    obtain ⟨hfirst, hothers⟩ := List.forall_mem_cons.mp hplain
    subst hposition htext
    rw [piecesFrom_of_standsFor hl hfirst]
    intro place hplace
    obtain ⟨hle, hnot⟩ := ih (List.append_assoc _ _ _).symm (List.length_append).symm hothers
      (by rw [List.length_append, List.length_reverse]; omega) place hplace
    exact ⟨by omega, List.forall_mem_cons.mpr ⟨Token.not_encloses_of_standsFor hl rfl hle, hnot⟩⟩

/-- The lexemes of the statements are those of the pieces: blanks around a piece and empty pieces do not
matter. -/
lemma ofPieces?_statementsOf (cs : List Char) :
    Lexeme.ofPieces? (statementsOf cs) = Lexeme.ofPieces? (piecesFrom none [] cs) :=
  Lexeme.ofPieces?_stripped _

/-- The statements of a script can be cut into tokens if the pieces can. -/
lemma forall_ofText_statements_iff (script : String) :
    (∀ s ∈ statements script, ∃ tokens, Token.ofText s = .ok tokens) ↔
      ∀ piece ∈ piecesFrom none [] script.toList, ∃ lexemes, Lexeme.ofChars? piece = some lexemes := by
  rw [← Lexeme.exists_ofPieces?_iff, ← ofPieces?_statementsOf, Lexeme.exists_ofPieces?_iff, statements,
    List.forall_mem_map]
  refine forall₂_congr fun cs _ => ?_
  rw [Lexeme.exists_ofChars?_iff, Token.ofText, String.toList_ofList]

/-- If no quoted text of a script hides a quote behind a backslash, the script is not cut inside its
texts.  It is not exactly if its statements can be cut into tokens as well, and exactly if their tokens,
one statement after the other, are those of the script. -/
theorem sparesTexts_iff {script : String} (h : Token.ofText script = .ok tokens) :
    ((∀ t ∈ tokens, ¬t.HidesQuote script.toList) → SparesTexts script tokens) ∧
      (SparesTexts script tokens ↔
        ∀ s ∈ statements script, ∃ others, Token.ofText s = .ok others) ∧
      (SparesTexts script tokens ↔
        ((statements script).mapM Lexeme.ofText?).map List.flatten = Lexeme.ofText? script) := by
  have hscans : Scans 0 script.toList tokens := Token.scans_of_scanFrom h
  have hne := piecesFrom_ne_nil none [] script.toList
  have hjoined : script.toList = [] ++ [';'].intercalate (piecesFrom none [] script.toList) :=
    (intercalate_piecesFrom none [] script.toList).symm
  have hwhole : Lexeme.ofText? script = some (tokens.map Token.lexeme).dropLast :=
    Lexeme.ofChars?_of_scans hscans
  have hlexemes : SparesTexts script tokens →
      Lexeme.ofPieces? (piecesFrom none [] script.toList) = Lexeme.ofText? script := by
    intro hspares
    have hscans' := hscans
    rw [hjoined, List.nil_append] at hscans'
    exact (ofPieces?_of_not_encloses hne hscans' hjoined rfl hspares).trans hwhole.symm
  have hspares : (∀ piece ∈ piecesFrom none [] script.toList,
      ∃ lexemes, Lexeme.ofChars? piece = some lexemes) → SparesTexts script tokens := by
    intro hpieces
    obtain ⟨others, hothers, hnot⟩ := exists_scans_of_pieces hne hjoined rfl hpieces
    rw [← List.nil_append ([';'].intercalate _), ← hjoined] at hothers
    obtain rfl : tokens = others :=
      Except.ok.inj (hscans.scanFrom_eq.symm.trans hothers.scanFrom_eq)
    exact hnot
  refine ⟨fun hplain place hplace => ?_, ?_, ?_⟩
  · have hfront : script.toList = [] ++ script.toList := rfl
    exact (not_encloses_of_mem_cuts hscans hfront rfl hplain rfl place hplace).2
  · rw [forall_ofText_statements_iff]
    refine ⟨fun h => ?_, hspares⟩
    exact Lexeme.exists_ofPieces?_iff.mp ⟨_, (hlexemes h).trans hwhole⟩
  · have hstatements : ((statements script).mapM Lexeme.ofText?).map List.flatten =
        Lexeme.ofPieces? (piecesFrom none [] script.toList) := by
      have hofList : Lexeme.ofText? ∘ String.ofList = Lexeme.ofChars? :=
        funext fun cs => congrArg Lexeme.ofChars? (String.toList_ofList)
      rw [← ofPieces?_statementsOf, Lexeme.ofPieces?, statements, List.mapM_map, hofList]
    rw [hstatements]
    exact ⟨hlexemes, fun h => hspares (Lexeme.exists_ofPieces?_iff.mp ⟨_, h.trans hwhole⟩)⟩

/-- A script with a semicolon and a doubled quote in a text, and a semicolon between its statements. -/
theorem sparesTexts_iff_doubledQuote :
    SparesTexts "USE 'a;''b';USE c" [⟨.word, "USE", 0⟩, ⟨.text, "a;'b", 4⟩, ⟨.word, "USE", 12⟩,
        ⟨.word, "c", 16⟩, ⟨.finish, "", 17⟩] ∧
      (∀ s ∈ statements "USE 'a;''b';USE c", ∃ others, Token.ofText s = .ok others) ∧
      ((statements "USE 'a;''b';USE c").mapM Lexeme.ofText?).map List.flatten =
        Lexeme.ofText? "USE 'a;''b';USE c" := by
  have htokens : Token.ofText "USE 'a;''b';USE c" = .ok [⟨.word, "USE", 0⟩, ⟨.text, "a;'b", 4⟩,
    ⟨.word, "USE", 12⟩, ⟨.word, "c", 16⟩, ⟨.finish, "", 17⟩] := by decide +kernel
  obtain ⟨hplain, haccepted, hlexemes⟩ := sparesTexts_iff htokens
  have hspares := hplain fun t _ => Token.not_hidesQuote_of_not_mem (by decide) t
  exact ⟨hspares, haccepted.mp hspares, hlexemes.mp hspares⟩

/-- A quote behind a backslash closes a text for the one that cuts the script, so the semicolon behind it
cuts a text in two, and the first statement has no end of its text. -/
theorem statements_hiddenQuote :
    Token.ofText "INSERT INTO t (a) VALUES ('it\\'s; b')" = .ok [⟨.word, "INSERT", 0⟩,
        ⟨.word, "INTO", 7⟩, ⟨.word, "t", 12⟩, ⟨.openParen, "(", 14⟩, ⟨.word, "a", 15⟩,
        ⟨.closeParen, ")", 16⟩, ⟨.word, "VALUES", 18⟩, ⟨.openParen, "(", 25⟩,
        ⟨.text, "it's; b", 26⟩, ⟨.closeParen, ")", 36⟩, ⟨.finish, "", 37⟩] ∧
      statements "INSERT INTO t (a) VALUES ('it\\'s; b')" =
        ["INSERT INTO t (a) VALUES ('it\\'s", "b')"] ∧
      Token.ofText "INSERT INTO t (a) VALUES ('it\\'s" = .error (.unterminated 26) :=
  ⟨by decide +kernel, by decide +kernel, by decide +kernel⟩

end Script

end RecordStore.Query
