import RecordStore.Proofs.Query.Covering

/-!
# Texts broken into lines

A text is broken into lines at blanks outside its quoted texts.  Some of the blanks there may get lost, and
the lines may keep blanks at their ends.  No line has a part of a lexeme that another one has, so the lexemes
of the lines, one line after the other, are those of the text, and so are the lexemes of the lines when they
are put together with single blanks.

If a text has a single semicolon outside its quoted texts, and nothing but blanks behind it, then among the
lines that are not blank exactly the last one ends with a semicolon.  A line that ends with one has it outside
quoted texts, since the place where the line ends is outside of them.
-/

namespace RecordStore.Query

variable {cs before after front source line gap rest : List Char} {c : Char} {position : Nat}
  {tokens : List Token} {lexemes : List Lexeme} {lines : List (List Char)}

/-! ## Places outside quoted texts -/

/-- A blank is no quote. -/
lemma isQuote_of_isBlank (h : Text.isBlank c = true) : isQuote c = false :=
  (isWordChar_of_isGap (isGap_of_isBlank h)).2.2

/-- Characters none of which is a quote end outside quoted texts. -/
lemma outside_of_any (h : front.any isQuote = false) (rest : List Char) : Outside front rest :=
  outside_of_forall (fun c hc => Bool.eq_false_iff.mpr (List.any_eq_false.mp h c hc)) rest

/-- The place in front of a character that is no quote is outside quoted texts if the place behind it is. -/
lemma Outside.of_concat (hc : isQuote c = false) (h : Outside (front ++ [c]) rest) :
    Outside front (c :: rest) := by
  generalize hall : front ++ [c] = all at h
  induction h generalizing front with
  | start => simp at hall
  | @character d more rest hd h ih =>
    cases front with
    | nil => exact .start _
    | cons e front =>
      obtain ⟨rfl, hmore⟩ := List.cons.inj hall
      exact .character hd (ih hmore)
  | @quoted quote source inside more rest hquote hsource h ih =>
    -- the character is not the quote that closes, so it stands behind the quoted text
    obtain ⟨before, rfl⟩ : ∃ before, more = before ++ [c] := by
      rcases List.eq_nil_or_concat more with rfl | ⟨before, d, rfl⟩
      · obtain ⟨e, es, rfl⟩ := hsource.exists_cons
        have hlast := congrArg List.getLast? hall
        rw [List.getLast?_concat, List.append_nil, List.getLast?_cons_cons, hsource.getLast?] at hlast
        obtain rfl := Option.some.inj hlast
        rw [hquote] at hc
        cases hc
      · rw [List.concat_eq_append] at hall ⊢
        have hlast := congrArg List.getLast? hall
        rw [List.getLast?_concat, ← List.append_assoc, ← List.cons_append, List.getLast?_concat] at hlast
        obtain rfl := Option.some.inj hlast
        exact ⟨before, rfl⟩
    rw [← List.append_assoc, ← List.cons_append] at hall
    rw [List.append_cancel_right hall]
    rw [List.append_assoc, List.singleton_append] at hsource
    exact .quoted hquote hsource (ih rfl)

/-- The place in front of characters among which there are no quotes is outside quoted texts if the place
behind them is. -/
lemma Outside.of_append_right (hgap : ∀ c ∈ gap, isQuote c = false) (h : Outside (front ++ gap) rest) :
    Outside front (gap ++ rest) := by
  induction gap generalizing front with
  | nil => rwa [List.append_nil] at h
  | cons c gap ih =>
    obtain ⟨hc, hmore⟩ := List.forall_mem_cons.mp hgap
    rw [List.append_cons] at h
    exact (ih hmore h).of_concat hc

/-- Of two places outside quoted texts the second one is so from the first one on. -/
lemma Outside.of_append_left (hfront : Outside front (source ++ rest)) (h : Outside (front ++ source) rest) :
    Outside source rest := by
  generalize hall : source ++ rest = all at hfront
  induction hfront with
  | start => exact h
  | @character c front _ hc _ ih => exact ih (h.of_append (List.forall_mem_singleton.mpr hc)) hall
  | @quoted quote spelled inside front _ hquote hspelled _ ih =>
    rw [← hall] at hspelled
    have hcs : quote :: (spelled ++ (front ++ (source ++ rest))) =
        quote :: (spelled ++ front) ++ source ++ rest := by
      simp
    rcases h.of_quoted hquote hspelled hcs with hnil | ⟨more, hmore, houtside⟩
    · cases hnil
    · rw [← List.append_assoc] at hmore
      exact ih (List.append_cancel_right hmore ▸ houtside) hall

/-! ## Texts cut outside quoted texts -/

/-- A text is cut at a gap outside its quoted texts: what stands before it and what stands behind it have
tokens of their own. -/
lemma Token.Scans.split_outside (h : Scans position cs tokens) (hcs : cs = before ++ c :: after)
    (hc : isGap c = true) (houtside : Outside before (c :: after)) :
    ∃ firsts others, Scans position before firsts ∧ Scans (position + before.length + 1) after others ∧
      tokens = firsts.dropLast ++ others := by
  induction h generalizing before with
  | finish => simp at hcs
  | @gap position d cs tokens hd h ih =>
    cases before with
    | nil =>
      obtain ⟨rfl, rfl⟩ := List.cons.inj hcs
      exact ⟨_, tokens, .finish position, h, rfl⟩
    | cons e before =>
      obtain ⟨rfl, hrest⟩ := List.cons.inj hcs
      have hquotes : ∀ c ∈ [d], isQuote c = false :=
        List.forall_mem_singleton.mpr (isWordChar_of_isGap hd).2.2
      obtain ⟨firsts, others, hfirsts, hothers, rfl⟩ := ih hrest (Outside.of_append hquotes houtside)
      have hplace : position + 1 + before.length + 1 = position + (d :: before).length + 1 := by
        rw [List.length_cons]
        omega
      exact ⟨firsts, others, .gap hd hfirsts, hplace ▸ hothers, rfl⟩
  | @token position l source rest tokens hl _ ih =>
    -- the gap is not among the characters of the first lexeme, as these are a quoted text or have no gaps
    obtain ⟨more, rfl, rfl, hmore⟩ : ∃ more, before = source ++ more ∧ rest = more ++ c :: after ∧
        Outside more (c :: after) := by
      rcases exists_spells_or_forall hl with ⟨quote, spelled, inside, rfl, -, hquote, hspells⟩ | hnone
      · rcases houtside.of_quoted hquote hspells hcs with rfl | ⟨more, rfl, hmore⟩
        · obtain ⟨rfl, -⟩ := List.cons.inj hcs
          rw [(isGap_of_isQuote hquote).1] at hc
          cases hc
        · rw [← List.append_assoc] at hcs
          exact ⟨more, (List.append_cancel_right hcs).symm, rfl, hmore⟩
      · rcases append_eq_append_gap hcs with ⟨more, rfl, rfl⟩ | ⟨more, hsource, -⟩
        · exact ⟨more, rfl, rfl, Outside.of_append (fun d hd => (hnone d hd).2) houtside⟩
        · rw [(hnone c (hsource ▸ List.mem_append_right _ List.mem_cons_self)).1] at hc
          cases hc
    obtain ⟨firsts, others, hfirsts, hothers, rfl⟩ := ih rfl hmore
    rw [Nat.add_assoc position, ← List.length_append] at hothers
    have hl' : l.StandsFor source more := by
      refine hl.congr fun d hd => Or.inl ?_
      rw [List.head?_append, hd, Option.some_or]
    refine ⟨_, others, .token hl' hfirsts, hothers, ?_⟩
    rw [List.dropLast_cons_of_ne_nil hfirsts.ne_nil]
    rfl

namespace Lexeme

/-- The lexemes of a text that is cut at a gap outside its quoted texts are those of its two parts. -/
lemma ofChars?_cut (h : ofChars? (before ++ c :: after) = some lexemes) (hc : isGap c = true)
    (houtside : Outside before (c :: after)) :
    ∃ firsts others, ofChars? before = some firsts ∧ ofChars? after = some others ∧
      lexemes = firsts ++ others := by
  obtain ⟨tokens, htokens, rfl⟩ := exists_scans_of_ofChars? h 0
  obtain ⟨firsts, others, hfirsts, hothers, rfl⟩ := htokens.split_outside rfl hc houtside
  refine ⟨_, _, ofChars?_of_scans hfirsts, ofChars?_of_scans hothers, ?_⟩
  rw [List.map_append, List.dropLast_append_of_ne_nil (by simpa using hothers.ne_nil), List.map_dropLast]

/-- The lexemes of two texts with a gap between them are those of the first and those of the second. -/
lemma ofChars?_join {firsts others : List Lexeme} (hbefore : ofChars? before = some firsts)
    (hc : isGap c = true) (hafter : ofChars? after = some others) :
    ofChars? (before ++ c :: after) = some (firsts ++ others) := by
  obtain ⟨tokens, htokens, rfl⟩ := exists_scans_of_ofChars? hbefore 0
  obtain ⟨tokens', htokens', rfl⟩ := exists_scans_of_ofChars? hafter (0 + before.length + 1)
  rw [ofChars?_of_scans (htokens.append_gap hc htokens'), List.map_append,
    List.dropLast_append_of_ne_nil (by simpa using htokens'.ne_nil), List.map_dropLast]

/-- Pieces that are put together with single blanks have their lexemes. -/
lemma ofChars?_intercalate (h : ofPieces? lines = some lexemes) :
    ofChars? ([' '].intercalate lines) = some lexemes := by
  induction lines generalizing lexemes with
  | nil =>
    obtain rfl := Option.some.inj h
    decide +kernel
  | cons line lines ih =>
    rw [ofPieces?_cons] at h
    obtain ⟨firsts, hfirsts, hmore⟩ := Option.bind_eq_some_iff.mp h
    obtain ⟨others, hothers, rfl⟩ := Option.map_eq_some_iff.mp hmore
    cases lines with
    | nil =>
      obtain rfl : others = [] := (Option.some.inj hothers).symm
      rwa [List.intercalate_singleton, List.append_nil]
    | cons next lines =>
      rw [List.intercalate_cons_cons, List.append_assoc, List.singleton_append]
      exact ofChars?_join hfirsts (by decide +kernel) (ih hothers)

end Lexeme

/-! ## Lines of a text -/

/-- Characters are broken into lines, if the given ones stand in front: a line ends at a place outside quoted
texts where a blank stands before or behind, and blanks behind that place may be left out. -/
inductive Breaks : List Char → List Char → List (List Char) → Prop
  | last (front cs : List Char) : Breaks front cs [cs]
  | cut {front line gap rest : List Char} {lines : List (List Char)}
      (houtside : Outside (front ++ line) (gap ++ rest))
      (hblank : ∃ c, Text.isBlank c = true ∧ (line.getLast? = some c ∨ (gap ++ rest).head? = some c))
      (hgap : ∀ c ∈ gap, Text.isBlank c = true) (h : Breaks (front ++ (line ++ gap)) rest lines) :
      Breaks front (line ++ (gap ++ rest)) (line :: lines)

/-- A line that ends at a blank outside quoted texts has the lexemes that stand before the place. -/
lemma Lexeme.ofChars?_break (h : ofChars? (line ++ (gap ++ rest)) = some lexemes)
    (houtside : Outside line (gap ++ rest))
    (hblank : ∃ c, Text.isBlank c = true ∧ (line.getLast? = some c ∨ (gap ++ rest).head? = some c))
    (hgap : ∀ c ∈ gap, Text.isBlank c = true) :
    ∃ firsts others, ofChars? line = some firsts ∧ ofChars? rest = some others ∧
      lexemes = firsts ++ others := by
  have hrest : ofChars? (gap ++ rest) = ofChars? rest :=
    ofChars?_append_left (fun c hc => isGap_of_isBlank (hgap c hc)) rest
  obtain ⟨c, hc, hbefore | hbehind⟩ := hblank
  · obtain ⟨line, rfl⟩ := List.getLast?_eq_some_iff.mp hbefore
    rw [← List.append_cons] at h
    obtain ⟨firsts, others, hfirsts, hothers, rfl⟩ :=
      ofChars?_cut h (isGap_of_isBlank hc) (houtside.of_concat (isQuote_of_isBlank hc))
    exact ⟨firsts, others, (ofChars?_append_gap (isGap_of_isBlank hc) line).trans hfirsts,
      hrest.symm.trans hothers, rfl⟩
  · obtain ⟨after, hafter⟩ := List.head?_eq_some_iff.mp hbehind
    rw [hafter] at h houtside hrest
    obtain ⟨firsts, others, hfirsts, hothers, rfl⟩ := ofChars?_cut h (isGap_of_isBlank hc) houtside
    rw [ofChars?_cons_gap (isGap_of_isBlank hc)] at hrest
    exact ⟨firsts, others, hfirsts, hrest.symm.trans hothers, rfl⟩

/-- The lexemes of the lines of a text are those of the text. -/
theorem Breaks.ofPieces?_eq (h : Breaks front cs lines) (hfront : Outside front cs)
    (hcs : Lexeme.ofChars? cs = some lexemes) : Lexeme.ofPieces? lines = some lexemes := by
  induction h generalizing lexemes with
  | last => simp [Lexeme.ofPieces?, hcs]
  | @cut front line gap rest lines houtside hblank hgap _ ih =>
    obtain ⟨firsts, others, hfirsts, hothers, rfl⟩ :=
      Lexeme.ofChars?_break hcs (hfront.of_append_left houtside) hblank hgap
    have hquotes : ∀ c ∈ gap, isQuote c = false := fun c hc => isQuote_of_isBlank (hgap c hc)
    have hnext : Outside (front ++ (line ++ gap)) rest := by
      rw [← List.append_assoc]
      exact houtside.append (outside_of_forall hquotes rest)
    rw [Lexeme.ofPieces?_cons, hfirsts, ih hnext hothers]
    rfl

/-- The lines of a text that has tokens, put together with single blanks, have the same tokens wherever these
stand.  Neither the blanks around the lines matter nor the lines that are blank. -/
theorem Breaks.exists_tokens (h : Breaks [] cs lines) (hcs : Token.scanFrom 0 cs = .ok tokens) :
    ∃ others, Token.scanFrom 0 ([' '].intercalate (Text.stripped lines)) = .ok others ∧
      others.map Token.lexeme = tokens.map Token.lexeme := by
  have htokens := Token.scans_of_scanFrom hcs
  have hpieces := h.ofPieces?_eq (.start cs) (Lexeme.ofChars?_of_scans htokens)
  rw [← Lexeme.ofPieces?_stripped] at hpieces
  obtain ⟨others, hothers, hsame⟩ :=
    Lexeme.exists_scans_of_ofChars? (Lexeme.ofChars?_intercalate hpieces) 0
  refine ⟨others, hothers.scanFrom_eq, ?_⟩
  -- the end comes last in both
  obtain ⟨phrase, hphrase, -⟩ := htokens.exists_phrase
  obtain ⟨phrase', hphrase', -⟩ := hothers.exists_phrase
  rw [hphrase, hphrase', List.dropLast_concat, List.dropLast_concat] at hsame
  rw [hphrase, hphrase', hsame]

/-- Every character of a line is one of the text. -/
lemma Breaks.mem (h : Breaks front cs lines) (hline : line ∈ lines) (hc : c ∈ line) : c ∈ cs := by
  induction h with
  | last => exact List.mem_singleton.mp hline ▸ hc
  | cut _ _ _ _ ih =>
    rcases List.mem_cons.mp hline with rfl | hmore
    · exact List.mem_append_left _ hc
    · exact List.mem_append_right _ (List.mem_append_right _ (ih hmore))

/-! ## The last semicolon -/

/-- The last character that is not blank is a semicolon. -/
def EndsInSemicolon (cs : List Char) : Prop :=
  ∃ front rest, cs = front ++ ';' :: rest ∧ ∀ c ∈ rest, Text.isBlank c = true

/-- Exactly one semicolon of a text is outside its quoted texts, and only blanks stand behind it. -/
structure EndsOnce (cs : List Char) : Prop where
  ends : ∃ front rest, cs = front ++ ';' :: rest ∧ Outside front (';' :: rest) ∧
    ∀ c ∈ rest, Text.isBlank c = true
  only : ∀ front rest, cs = front ++ ';' :: rest → Outside front (';' :: rest) →
    ∀ c ∈ rest, Text.isBlank c = true

/-- Behind blanks, a text ends in a semicolon if what stands before them does. -/
lemma endsInSemicolon_append_of_blank (hrest : ∀ c ∈ rest, Text.isBlank c = true)
    (h : EndsInSemicolon (line ++ rest)) : EndsInSemicolon line := by
  obtain ⟨front, after, hcs, hafter⟩ := h
  rcases Token.append_eq_append_gap hcs with ⟨more, -, rfl⟩ | ⟨more, rfl, rfl⟩
  · exact absurd (hrest ';' (List.mem_append_right _ List.mem_cons_self)) (by decide +kernel)
  · exact ⟨front, more, rfl, fun c hc => hafter c (List.mem_append_left _ hc)⟩

/-- Where not all is blank, a text ends in a semicolon if the whole does. -/
lemma endsInSemicolon_of_append (hrest : ¬∀ c ∈ rest, Text.isBlank c = true)
    (h : EndsInSemicolon (line ++ rest)) : EndsInSemicolon rest := by
  obtain ⟨front, after, hcs, hafter⟩ := h
  rcases Token.append_eq_append_gap hcs with ⟨more, -, rfl⟩ | ⟨more, -, rfl⟩
  · exact ⟨more, after, rfl, hafter⟩
  · exact absurd (fun c hc => hafter c (List.mem_append_right _ hc)) hrest

/-- If a text has a single semicolon outside quoted texts, and only blanks behind it, then a line ends in a
semicolon exactly if there is nothing but blanks behind that line. -/
theorem Breaks.exists_last (h : Breaks front cs lines) (hends : EndsInSemicolon cs)
    (honly : ∀ before after, cs = before ++ ';' :: after → Outside (front ++ before) (';' :: after) →
      ∀ c ∈ after, Text.isBlank c = true) :
    ∃ firsts last blanks, lines = firsts ++ last :: blanks ∧ (∀ line ∈ firsts, ¬EndsInSemicolon line) ∧
      EndsInSemicolon last ∧ ∀ line ∈ blanks, ∀ c ∈ line, Text.isBlank c = true := by
  induction h with
  | last front cs => exact ⟨[], cs, [], rfl, nofun, hends, nofun⟩
  | @cut front line gap rest lines houtside _ hgap h ih =>
    by_cases hrest : ∀ c ∈ rest, Text.isBlank c = true
    · have hafter : ∀ c ∈ gap ++ rest, Text.isBlank c = true := fun c hc =>
        (List.mem_append.mp hc).elim (hgap c) (hrest c)
      exact ⟨[], line, lines, rfl, nofun, endsInSemicolon_append_of_blank hafter hends,
        fun other hother c hc => hrest c (h.mem hother hc)⟩
    · have hline : ¬EndsInSemicolon line := by
        rintro ⟨before, after, rfl, hafter⟩
        -- such a semicolon is outside quoted texts, since only blanks stand between it and the break
        have hquotes : ∀ c ∈ ';' :: after, isQuote c = false :=
          List.forall_mem_cons.mpr ⟨by decide, fun c hc => isQuote_of_isBlank (hafter c hc)⟩
        have hplace : Outside (front ++ before) (';' :: after ++ (gap ++ rest)) := by
          rw [← List.append_assoc] at houtside
          exact houtside.of_append_right hquotes
        have hcs : before ++ ';' :: after ++ (gap ++ rest) =
            before ++ ';' :: (after ++ (gap ++ rest)) := by
          simp
        exact hrest fun c hc => honly _ _ hcs hplace c
          (List.mem_append_right _ (List.mem_append_right _ hc))
      rw [← List.append_assoc] at hends
      have honly' : ∀ before after, rest = before ++ ';' :: after →
          Outside (front ++ (line ++ gap) ++ before) (';' :: after) →
            ∀ c ∈ after, Text.isBlank c = true := by
        rintro before after rfl hplace
        rw [List.append_assoc] at hplace
        exact honly (line ++ gap ++ before) after (by simp) hplace
      obtain ⟨firsts, last, blanks, rfl, hfirsts, hlast, hblanks⟩ :=
        ih (endsInSemicolon_of_append hrest hends) honly'
      exact ⟨line :: firsts, last, blanks, rfl, List.forall_mem_cons.mpr ⟨hline, hfirsts⟩, hlast, hblanks⟩

/-- A text with a semicolon behind characters among which there are no quotes and no semicolons, and with
blanks behind it, has a single semicolon. -/
lemma endsOnce_of_any (hquotes : front.any isQuote = false) (hfront : ';' ∉ front)
    (hrest : ∀ c ∈ rest, Text.isBlank c = true) : EndsOnce (front ++ ';' :: rest) := by
  refine ⟨⟨front, rest, rfl, outside_of_any hquotes _, hrest⟩, ?_⟩
  intro before after hcs _
  rcases Token.append_eq_append_gap hcs with ⟨more, -, hmore⟩ | ⟨more, rfl, -⟩
  · cases more with
    | nil =>
      obtain ⟨-, rfl⟩ := List.cons.inj hmore
      exact hrest
    | cons d more =>
      obtain ⟨rfl, rfl⟩ := List.cons.inj hmore
      exact absurd (hrest ';' (List.mem_append_right _ List.mem_cons_self)) (by decide +kernel)
  · exact absurd (List.mem_append_right _ List.mem_cons_self) hfront

end RecordStore.Query
