import RecordStore.Proofs.Query.Cutting

/-!
# What quoted texts can carry

A text is put between quotes with a mark in front of each quote inside, which is a backslash or another quote.
It is read back as it was, and as a single token, exactly if it does not end in a backslash, which would hide
the quote that closes, and, where quotes are doubled, if no backslash stands directly before a quote, which
would hide the first of the two.  No quoted text at all ends in a backslash.
-/

namespace RecordStore.Query

variable {mark quote : Char} {cs source inside after : List Char} {s : String}

/-- A text between quotes, with a mark in front of each quote inside. -/
def quotedWith (mark quote : Char) (s : String) : String :=
  String.ofList (quote :: (marked mark quote s.toList ++ [quote]))

/-- A text is read as a single quoted text and the end. -/
def Carries (text s : String) : Prop :=
  ∃ tokens, Token.ofText text = .ok tokens ∧ tokens.map Token.lexeme = [⟨.text, s⟩, Lexeme.finish]

/-- Characters that spell a text up to the end carry it behind a quote. -/
lemma carries_of_spells (hquote : isQuote quote = true) (h : Spells quote source s.toList []) :
    Carries (String.ofList (quote :: source)) s := by
  have hlexeme : Lexeme.StandsFor ⟨.text, s⟩ (quote :: source) [] := by
    have hspelled := Lexeme.StandsFor.text hquote h
    rwa [String.ofList_toList] at hspelled
  have hscans := Token.Scans.token hlexeme (.finish (0 + (quote :: source).length))
  rw [List.append_nil] at hscans
  have htokens : Token.ofText (String.ofList (quote :: source)) = Token.scanFrom 0 (quote :: source) := by
    rw [Token.ofText, String.toList_ofList]
  exact ⟨_, htokens.trans hscans.scanFrom_eq, rfl⟩

/-- What is carried behind a quote is spelled by the first of the characters there. -/
lemma exists_spells_of_carries (hquote : isQuote quote = true)
    (h : Carries (String.ofList (quote :: cs)) s) :
    ∃ source after, cs = source ++ after ∧ Spells quote source s.toList after := by
  obtain ⟨tokens, htokens, hlexemes⟩ := h
  rw [Token.ofText, String.toList_ofList] at htokens
  have hscans := Token.scans_of_scanFrom htokens
  generalize hall : quote :: cs = all at hscans
  cases hscans with
  | finish => cases hall
  | gap hc =>
    obtain ⟨rfl, -⟩ := List.cons.inj hall
    rw [(isGap_of_isQuote hquote).1] at hc
    cases hc
  | @token _ l source after others hl _ =>
    obtain ⟨hlexeme, -⟩ := List.cons.inj hlexemes
    rcases Token.exists_spells_or_forall hl with ⟨quote', source, inside, rfl, rfl, -, hspells⟩ | hnone
    · obtain ⟨rfl, rfl⟩ := List.cons.inj hall
      obtain rfl : String.ofList inside = s := congrArg Lexeme.text hlexeme
      rw [String.toList_ofList]
      exact ⟨source, after, rfl, hspells⟩
    · -- the first of the characters is a quote
      obtain ⟨d, more, rfl⟩ := List.exists_cons_of_ne_nil hl.ne_nil
      obtain ⟨rfl, -⟩ := List.cons.inj hall
      rw [(hnone quote List.mem_cons_self).2] at hquote
      cases hquote

/-- A text whose quotes are doubled is only read back if no backslash stands directly before a quote. -/
lemma not_infix_of_spells (hquote : quote ≠ '\\') (h : Spells quote source inside after)
    (hsource : source ++ after = marked quote quote inside ++ [quote]) : ¬['\\', quote] <:+: inside := by
  induction h with
  | close => simp
  | @escape c source inside after hc _ ih =>
    have hdoubled : marked quote quote (quote :: inside) ++ [quote] =
        quote :: quote :: (marked quote quote inside ++ [quote]) := by
      simp [marked]
    rw [hdoubled] at hsource
    obtain ⟨-, hrest⟩ := List.cons.inj hsource
    rw [List.infix_cons_iff, not_or]
    refine ⟨fun hstarts => hquote ?_, ih (List.cons.inj hrest).2⟩
    exact (List.cons_prefix_cons.mp hstarts).1.symm
  | @plain c source inside after hc hhidden h ih =>
    have hplain : marked quote quote (c :: inside) ++ [quote] =
        c :: (marked quote quote inside ++ [quote]) := by
      simp [marked, hc]
    rw [hplain] at hsource
    obtain ⟨-, hrest⟩ := List.cons.inj hsource
    rw [List.infix_cons_iff, not_or]
    refine ⟨fun hstarts => ?_, ih hrest⟩
    obtain ⟨rfl, hnext⟩ := List.cons_prefix_cons.mp hstarts
    -- the quote inside is doubled, so that its first half stands behind the backslash
    refine hhidden rfl ?_
    obtain ⟨more, rfl⟩ := hnext
    obtain ⟨d, cs, rfl⟩ := h.exists_cons
    have hfirst := congrArg List.head? hrest
    simpa [marked] using hfirst

/-- A text is carried between quotes with a mark in front of each quote inside, exactly if it does not end in a
backslash and, where the mark is the quote, has no backslash directly before a quote. -/
lemma carries_quotedWith_iff (hquote : isQuote quote = true) (hmark : mark = '\\' ∨ mark = quote)
    (s : String) : Carries (quotedWith mark quote s) s ↔
      s.toList.getLast? ≠ some '\\' ∧ (mark = quote → ¬['\\', quote] <:+: s.toList) := by
  have hplain := (isGap_of_isQuote hquote).2
  constructor
  · intro hcarries
    obtain ⟨source, after, hsource, hspells⟩ := exists_spells_of_carries hquote hcarries
    refine ⟨hspells.isQuotable hplain, ?_⟩
    rintro rfl
    exact not_infix_of_spells hplain hspells hsource.symm
  · rintro ⟨hlast, hhidden⟩
    exact carries_of_spells hquote (spells_marked hmark hlast hhidden nofun)

/-- With a backslash in front of each quote inside, exactly the texts that do not end in a backslash are read
back as they were.  With each quote doubled these are exactly the texts that, besides, have no backslash
directly before a quote.  No quoted text ends in a backslash. -/
theorem carries_quotedWith (s : String) (hquote : isQuote quote = true) :
    (Carries (quotedWith '\\' quote s) s ↔ s.toList.getLast? ≠ some '\\') ∧
    (Carries (quotedWith quote quote s) s ↔
      s.toList.getLast? ≠ some '\\' ∧ ¬['\\', quote] <:+: s.toList) ∧
    ∀ text tokens, Token.ofText text = .ok tokens →
      ∀ token ∈ tokens, token.kind = .text → token.text.toList.getLast? ≠ some '\\' := by
  have hplain := (isGap_of_isQuote hquote).2
  refine ⟨?_, ?_, fun text tokens htokens token htoken hkind => ?_⟩
  · rw [carries_quotedWith_iff hquote (Or.inl rfl) s, and_iff_left]
    exact fun heq => absurd heq.symm hplain
  · rw [carries_quotedWith_iff hquote (Or.inr rfl) s, imp_iff_right rfl]
  · obtain ⟨phrase, hphrase, hwritten⟩ := (Token.scans_of_scanFrom htokens).exists_phrase
    have hmem : token.lexeme ∈ phrase ++ [Lexeme.finish] := hphrase ▸ List.mem_map_of_mem htoken
    rcases List.mem_append.mp hmem with hmem | hmem
    · have hquotable := hwritten _ hmem
      rw [Lexeme.IsWritten, show token.lexeme.kind = .text from hkind] at hquotable
      exact hquotable
    · have hfinish := congrArg Lexeme.kind (List.mem_singleton.mp hmem)
      rw [show token.lexeme.kind = .text from hkind] at hfinish
      cases hfinish

/-- Of a text that has a backslash directly before a quote, only the first way of writing it is read back. -/
theorem carries_quotedWith_hiddenQuote : isQuote '\'' = true ∧
    Carries (quotedWith '\\' '\'' "it\\'s") "it\\'s" ∧ ¬Carries (quotedWith '\'' '\'' "it\\'s") "it\\'s" ∧
      ∃ tokens, Token.ofText (quotedWith '\\' '\'' "it\\'s") = .ok tokens ∧
        ∃ token ∈ tokens, token.kind = .text ∧ token.text.toList.getLast? ≠ some '\\' := by
  have hquote : isQuote '\'' = true := rfl
  obtain ⟨hbackslash, hdoubled, hlast⟩ := carries_quotedWith "it\\'s" hquote
  have hcarries := hbackslash.mpr (by decide)
  obtain ⟨tokens, htokens, hlexemes⟩ := hcarries
  obtain ⟨token, htoken, hlexeme⟩ : ∃ token ∈ tokens, token.lexeme = ⟨.text, "it\\'s"⟩ :=
    List.mem_map.mp (hlexemes ▸ List.mem_cons_self)
  have hkind : token.kind = .text := congrArg Lexeme.kind hlexeme
  exact ⟨hquote, ⟨tokens, htokens, hlexemes⟩, mt hdoubled.mp (by decide), tokens, htokens, token, htoken,
    hkind, hlast _ tokens htokens token htoken hkind⟩

end RecordStore.Query
