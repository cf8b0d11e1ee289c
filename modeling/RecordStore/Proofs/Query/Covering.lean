import RecordStore.Proofs.Query.Cutting

/-!
# Where the tokens of a text stand

Every token of a text takes up a span of its characters.  The spans begin at the positions of the tokens,
lie one behind the other, and leave nothing but gaps between them.  A word, an operator and a punctuation
mark are the characters of their spans, and a quoted text stands between two quotes of the same kind.  Words
go as far as they can on both sides, and of two operators the longer one is taken.

There is only one way in which a text may fail to have tokens: at a place outside its quoted texts, where a
quote is never closed, or where an exclamation mark is not followed by an equality sign.  The problem that is
found tells the place.  That nothing is lost is carried from the end of the text to its beginning, one token
or gap after the other; the only thing to be known of what stands before is whether it ends like a word.
-/

namespace RecordStore.Query

variable {cs text front source after rest : List Char} {c quote : Char} {position place : Nat}
  {l : Lexeme} {tokens : List Token} {problem : Problem}

/-! ## Places outside quoted texts -/

/-- Characters end outside the quoted texts that begin among them, if the given ones follow. -/
inductive Outside : List Char → List Char → Prop
  | start (rest : List Char) : Outside [] rest
  | character {c : Char} {front rest : List Char} (hc : isQuote c = false) (h : Outside front rest) :
      Outside (c :: front) rest
  | quoted {quote : Char} {source inside front rest : List Char} (hquote : isQuote quote = true)
      (hsource : Spells quote source inside (front ++ rest)) (h : Outside front rest) :
      Outside (quote :: (source ++ front)) rest

/-- Behind characters that end outside quoted texts others may follow that do so. -/
lemma Outside.append (h : Outside front (source ++ rest)) (hsource : Outside source rest) :
    Outside (front ++ source) rest := by
  generalize hall : source ++ rest = all at h
  induction h with
  | start => exact hsource
  | character hc _ ih => exact .character hc (ih hall)
  | @quoted quote spelled inside front all hquote hspelled _ ih =>
    have hspelled' : Spells quote spelled inside ((front ++ source) ++ rest) := by
      rwa [List.append_assoc, hall]
    rw [List.cons_append, List.append_assoc]
    exact .quoted hquote hspelled' (ih hall)

/-- Characters among which there are no quotes end outside quoted texts. -/
lemma outside_of_forall (h : ∀ c ∈ front, isQuote c = false) (rest : List Char) : Outside front rest := by
  induction front with
  | nil => exact .start rest
  | cons c front ih =>
    obtain ⟨hc, hfront⟩ := List.forall_mem_cons.mp h
    exact .character hc (ih hfront)

/-- Characters among which there are no quotes may be left out. -/
lemma Outside.of_append (hsource : ∀ c ∈ source, isQuote c = false) (h : Outside (source ++ front) rest) :
    Outside front rest := by
  induction source with
  | nil => exact h
  | cons c source ih =>
    obtain ⟨hc, hrest⟩ := List.forall_mem_cons.mp hsource
    generalize hall : c :: source ++ front = all at h
    cases h with
    | start => cases hall
    | character _ h =>
      obtain ⟨-, rfl⟩ := List.cons.inj hall
      exact ih hrest h
    | quoted hquote =>
      obtain ⟨rfl, -⟩ := List.cons.inj hall
      rw [hc] at hquote
      cases hquote

/-- The characters that a lexeme stands for end outside quoted texts. -/
lemma Lexeme.StandsFor.outside (h : l.StandsFor source after) : Outside source after := by
  rcases Token.exists_spells_or_forall h with ⟨quote, cs, inside, rfl, -, hquote, hspells⟩ | hnone
  · have hquoted : Outside (quote :: (cs ++ [])) after := .quoted hquote hspells (.start after)
    rwa [List.append_nil] at hquoted
  · exact outside_of_forall (fun c hc => (hnone c hc).2) after

/-! ## Flaws -/

/-- A quote is never closed by the characters behind it. -/
def StaysOpen (quote : Char) (rest : List Char) : Prop :=
  ∀ source inside after, rest = source ++ after → ¬Spells quote source inside after

/-- What is wrong with a text whose first character is at the given position. -/
inductive Flaw (position : Nat) : List Char → Problem → Prop
  | unterminated {quote : Char} {front rest : List Char} (h : Outside front (quote :: rest))
      (hquote : isQuote quote = true) (hopen : StaysOpen quote rest) :
      Flaw position (front ++ quote :: rest) (.unterminated (position + front.length))
  | strayMark {front rest : List Char} (h : Outside front ('!' :: rest)) (hmark : rest.head? ≠ some '=') :
      Flaw position (front ++ '!' :: rest) (.strayMark (position + front.length))

/-- A quoted text that cannot be read stays open. -/
lemma staysOpen_of_readQuoted? (h : readQuoted? quote rest = none) : StaysOpen quote rest := by
  rintro source inside after rfl hspells
  rw [hspells.readQuoted?_eq] at h
  cases h

/-- What is wrong with a text is wrong with it behind characters that end outside quoted texts, too. -/
lemma Flaw.append (hfront : Outside front cs) (h : Flaw (position + front.length) cs problem) :
    Flaw position (front ++ cs) problem := by
  cases h with
  | @unterminated quote before rest h hquote hopen =>
    have hflaw : Flaw position ((front ++ before) ++ quote :: rest)
        (.unterminated (position + (front ++ before).length)) :=
      .unterminated (hfront.append h) hquote hopen
    rwa [List.append_assoc, List.length_append, ← Nat.add_assoc] at hflaw
  | @strayMark before rest h hmark =>
    have hflaw : Flaw position ((front ++ before) ++ '!' :: rest)
        (.strayMark (position + (front ++ before).length)) :=
      .strayMark (hfront.append h) hmark
    rwa [List.append_assoc, List.length_append, ← Nat.add_assoc] at hflaw

/-- A problem that is found in a text is a flaw of it. -/
theorem flaw_of_scanFrom (h : Token.scanFrom position cs = .error problem) : Flaw position cs problem := by
  induction hn : cs.length using Nat.strong_induction_on generalizing position cs with
  | _ n ih =>
    subst hn
    match cs with
    | [] =>
      rw [Token.scanFrom.eq_def] at h
      cases h
    | c :: rest =>
      rcases Lexeme.exists_standsFor c rest with hgap | ⟨l, source, after, hcs, hl⟩ | ⟨hquote, hread⟩ |
        ⟨rfl, hmark⟩
      · rw [Token.scanFrom.eq_def] at h
        simp only [hgap, if_true] at h
        have houtside : Outside [c] rest := .character (isWordChar_of_isGap hgap).2.2 (.start rest)
        exact (ih _ (Nat.lt_succ_self _) h rfl).append houtside
      · rw [hcs, Token.scanFrom_append hl] at h
        rw [hcs]
        refine (ih after.length ?_ (Outcome.map_eq_error.mp h) rfl).append hl.outside
        rw [hcs, List.length_append]
        exact Nat.lt_add_of_pos_left (List.length_pos_iff.mpr hl.ne_nil)
      · rw [Token.scanFrom_of_unread hquote hread] at h
        obtain rfl := Except.error.inj h
        exact Flaw.unterminated (.start _) hquote (staysOpen_of_readQuoted? hread)
      · rw [Token.scanFrom_of_strayMark hmark] at h
        obtain rfl := Except.error.inj h
        exact Flaw.strayMark (.start _) hmark

/-! ## Texts that have tokens -/

/-- A quote that is never closed, or a mark that no equality sign follows. -/
def Spoils (d : Char) (rest : List Char) : Prop :=
  isQuote d = true ∧ StaysOpen d rest ∨ d = '!' ∧ rest.head? ≠ some '='

/-- A flaw stands at a place outside quoted texts. -/
lemma Flaw.exists_spoils (h : Flaw position cs problem) :
    ∃ front d rest, cs = front ++ d :: rest ∧ Outside front (d :: rest) ∧ Spoils d rest := by
  cases h with
  | unterminated h hquote hopen => exact ⟨_, _, _, rfl, h, Or.inl ⟨hquote, hopen⟩⟩
  | strayMark h hmark => exact ⟨_, _, _, rfl, h, Or.inr ⟨rfl, hmark⟩⟩

/-- A place outside quoted texts lies behind a quoted text, unless it is where that begins. -/
lemma Outside.of_quoted {inside : List Char} (h : Outside front rest) (hquote : isQuote quote = true)
    (hsource : Spells quote source inside after) (hcs : quote :: (source ++ after) = front ++ rest) :
    front = [] ∨ ∃ more, after = more ++ rest ∧ Outside more rest := by
  cases h with
  | start => exact Or.inl rfl
  | @character c front _ hc h =>
    obtain ⟨rfl, -⟩ := List.cons.inj hcs
    rw [hquote] at hc
    cases hc
  | @quoted quote' source' inside' more _ _ hsource' h =>
    right
    -- both quoted texts begin here, so they end at the same place
    obtain ⟨rfl, hsame⟩ : quote = quote' ∧ source ++ after = source' ++ (more ++ rest) := by
      simpa using hcs
    have hread := hsource.readQuoted?_eq
    rw [hsame, hsource'.readQuoted?_eq] at hread
    obtain ⟨-, hafter⟩ := Prod.mk.inj (Option.some.inj hread)
    exact ⟨more, hafter.symm, h⟩

/-- Nothing among the characters of a lexeme that is no quoted text spoils a text. -/
lemma Lexeme.StandsFor.not_spoils {d : Char} {more : List Char} (hl : l.StandsFor source after)
    (hsource : source = front ++ d :: more) (hquotes : ∀ c ∈ source, isQuote c = false) :
    ¬Spoils d (more ++ after) := by
  have hmem : d ∈ source := hsource ▸ List.mem_append_right _ List.mem_cons_self
  rintro (⟨hquote, -⟩ | ⟨rfl, hmark⟩)
  · rw [hquotes d hmem] at hquote
    cases hquote
  apply hmark
  cases hl with
  | word h => exact absurd (h '!' hmem) (by decide +kernel)
  | text hquote =>
    rw [hquotes _ List.mem_cons_self] at hquote
    cases hquote
  | punctuation h =>
    obtain rfl := List.mem_singleton.mp hmem
    cases h
  | operator _ hmark => exact absurd (List.mem_singleton.mp hmem).symm hmark
  | @longOperator c d _ h =>
    have hpair : c = '!' ∧ d = '=' ∨ '!' ∉ [c, d] :=
      (by decide : ∀ pair ∈ longOperators, pair.1 = '!' ∧ pair.2 = '=' ∨ '!' ∉ [pair.1, pair.2]) _ h
    obtain ⟨rfl, rfl⟩ := hpair.resolve_right (not_not_intro hmem)
    obtain rfl : more = ['='] := by
      match front, hsource with
      | [], hsource => exact (List.cons.inj hsource).2.symm
      | [_], hsource => simp at hsource
      | _ :: _ :: _, hsource => simp at hsource
    rfl

/-- Nothing outside quoted texts spoils a text that has tokens. -/
lemma Token.Scans.not_spoils {d : Char} (h : Token.Scans position cs tokens) (hcs : cs = front ++ d :: rest)
    (houtside : Outside front (d :: rest)) : ¬Spoils d rest := by
  induction h generalizing front with
  | finish => simp at hcs
  | @gap position c cs tokens hc _ ih =>
    cases front with
    | nil =>
      obtain ⟨rfl, -⟩ := List.cons.inj hcs
      obtain ⟨-, hoperator, hquote⟩ := isWordChar_of_isGap hc
      rintro (⟨hquote', -⟩ | ⟨rfl, -⟩)
      · rw [hquote] at hquote'
        cases hquote'
      · cases hoperator
    | cons e front =>
      obtain ⟨rfl, hrest⟩ := List.cons.inj hcs
      have hquotes : ∀ d ∈ [c], isQuote d = false :=
        List.forall_mem_singleton.mpr (isWordChar_of_isGap hc).2.2
      exact ih hrest (Outside.of_append hquotes houtside)
  | @token position l source after tokens hl _ ih =>
    rcases exists_spells_or_forall hl with ⟨quote, spelled, inside, rfl, -, hquote, hspells⟩ | hnone
    · rcases houtside.of_quoted hquote hspells hcs with rfl | ⟨more, hafter, hmore⟩
      · obtain ⟨rfl, rfl⟩ := List.cons.inj hcs
        rintro (⟨-, hopen⟩ | ⟨rfl, -⟩)
        · exact hopen _ _ _ rfl hspells
        · cases hquote
      · exact ih hafter hmore
    · have hquotes : ∀ c ∈ source, isQuote c = false := fun c hc => (hnone c hc).2
      rcases append_eq_append_gap hcs with ⟨more, rfl, hrest⟩ | ⟨more, hsource, rfl⟩
      · exact ih hrest (Outside.of_append hquotes houtside)
      · exact hl.not_spoils hsource hquotes

/-- A text that has tokens has no flaw. -/
theorem Token.Scans.not_flaw (h : Token.Scans position cs tokens) (problem : Problem) :
    ¬Flaw position cs problem := by
  intro hflaw
  obtain ⟨front, d, rest, hcs, houtside, hspoils⟩ := hflaw.exists_spoils
  exact h.not_spoils hcs houtside hspoils

/-! ## What tokens are made of -/

namespace Lexeme

/-- What a lexeme is made of: its own characters, if the given ones stand in front and behind.  A word goes as
far as it can on both sides, and no longer operator begins where an operator does. -/
def IsMadeOf (l : Lexeme) (front source after : List Char) : Prop :=
  match l.kind with
  | .word =>
    source = l.text.toList ∧ (∀ c ∈ source, isWordChar c = true) ∧
      (∀ c, front.getLast? = some c → isWordChar c = false) ∧
        ∀ c, after.head? = some c → isWordChar c = false
  | .text =>
    ∃ quote inner, isQuote quote = true ∧ source = quote :: (inner ++ [quote]) ∧
      Spells quote (inner ++ [quote]) l.text.toList after
  | .operator =>
    source = l.text.toList ∧ l.text ∈ operators ∧
      ∀ operator ∈ operators, operator.toList <+: source ++ after → operator.length ≤ source.length
  | kind => source = l.text.toList ∧ ∃ c, source = [c] ∧ punctuation? c = some kind

/-- An operator has one character, or it is one of those with two. -/
lemma length_of_mem_operators {operator : String} (h : operator ∈ operators) :
    operator.length = 1 ∨
      operator.length = 2 ∧ ∃ pair ∈ longOperators, operator.toList = [pair.1, pair.2] := by
  revert operator
  decide +kernel

namespace StandsFor

/-- A lexeme is made of the characters that it stands for, if it does not go on with those in front. -/
lemma isMadeOf (h : l.StandsFor source after)
    (hfront : ∀ c d, front.getLast? = some c → source.head? = some d →
      isWordChar c = false ∨ isWordChar d = false) : l.IsMadeOf front source after := by
  cases h with
  | @word c cs _ hword hends =>
    refine ⟨String.toList_ofList.symm, hword, fun d hd => ?_, hends⟩
    exact (hfront d c hd rfl).resolve_right (by simp [hword c List.mem_cons_self])
  | @text quote spelled inside _ hquote hspells =>
    obtain ⟨inner, rfl⟩ := List.getLast?_eq_some_iff.mp hspells.getLast?
    refine ⟨quote, inner, hquote, rfl, ?_⟩
    rwa [String.toList_ofList]
  | @punctuation c kind _ hkind =>
    have hmade : [c] = (String.ofList [c]).toList ∧ ∃ c', [c] = [c'] ∧ punctuation? c' = some kind :=
      ⟨String.toList_ofList.symm, c, rfl, hkind⟩
    have hmem := mem_of_punctuation? hkind
    simp only [List.mem_cons, Prod.mk.injEq, List.not_mem_nil, or_false] at hmem
    rcases hmem with ⟨-, rfl⟩ | ⟨-, rfl⟩ | ⟨-, rfl⟩ | ⟨-, rfl⟩ <;> exact hmade
  | @longOperator c d _ hlong =>
    have hstands : StandsFor ⟨.operator, String.ofList [c, d]⟩ [c, d] after := .longOperator hlong
    refine ⟨String.toList_ofList.symm, hstands.isWritten, ?_⟩
    rintro operator hmem -
    rcases length_of_mem_operators hmem with hlength | ⟨hlength, -⟩ <;> simp [hlength]
  | @operator c _ hoperator hmark hends =>
    refine ⟨String.toList_ofList.symm, (operator hoperator hmark hends).isWritten, ?_⟩
    intro operator hmem hstarts
    rcases length_of_mem_operators hmem with hlength | ⟨-, ⟨first, second⟩, hlong, hpair⟩
    · exact hlength.le
    · -- an operator of two characters begins here only if the second one follows
      rw [hpair] at hstarts
      obtain ⟨rest, hrest⟩ := hstarts
      obtain ⟨rfl, hafter⟩ := List.cons.inj hrest
      refine absurd hlong (hends second ?_)
      rw [show after = second :: rest from hafter.symm]
      rfl

/-- The last character that a lexeme stands for and the first one that follows do not both belong to
words. -/
lemma breaks {d : Char} (h : l.StandsFor source after) (hc : source.getLast? = some c)
    (hd : after.head? = some d) : isWordChar c = false ∨ isWordChar d = false := by
  have hnone : (punctuation? c).isSome = true ∨ isOperatorChar c = true → isWordChar c = false := by
    rintro (h | h) <;> simp [isWordChar, h]
  cases h with
  | word _ hends => exact Or.inr (hends d hd)
  | @text quote source _ _ hquote h =>
    left
    obtain ⟨e, cs, rfl⟩ := h.exists_cons
    rw [List.getLast?_cons_cons, h.getLast?] at hc
    obtain rfl := Option.some.inj hc
    simp [isWordChar, hquote]
  | punctuation h =>
    obtain rfl := Option.some.inj hc
    exact Or.inl (hnone (Or.inl (Option.isSome_of_eq_some h)))
  | longOperator h =>
    obtain rfl := Option.some.inj hc
    exact Or.inl (hnone (Or.inr (isOperatorChar_of_mem h).2))
  | operator h =>
    obtain rfl := Option.some.inj hc
    exact Or.inl (hnone (Or.inr h))

end StandsFor

end Lexeme

/-! ## Spans -/

/-- A token and the place behind its characters. -/
structure Span where
  token : Token
  stop : Nat

namespace Span

/-- The place where a span begins. -/
def start (span : Span) : Nat :=
  span.token.position

/-- The characters of a text that a span takes up. -/
def chars (text : List Char) (span : Span) : List Char :=
  (text.take span.stop).drop span.start

/-- The token of a span is made of the characters that it takes up. -/
def Fits (text : List Char) (span : Span) : Prop :=
  span.token.lexeme.IsMadeOf (text.take span.start) (span.chars text) (text.drop span.stop)

/-- The tokens of spans, and the end of a text of the given length. -/
def tokensOf (spans : List Span) (length : Nat) : List Token :=
  spans.map token ++ [⟨.finish, "", length⟩]

end Span

/-- Spans account for the characters of a text from a place on. -/
structure Accounts (text : List Char) (place : Nat) (spans : List Span) : Prop where
  within : ∀ span ∈ spans, place ≤ span.start ∧ span.start < span.stop ∧ span.stop ≤ text.length
  /-- Spans lie one behind the other. -/
  ordered : spans.Pairwise fun before after => before.stop ≤ after.start
  /-- What lies in no span is a gap. -/
  gaps : ∀ i c, place ≤ i → text[i]? = some c →
    isGap c = true ∨ ∃ span ∈ spans, span.start ≤ i ∧ i < span.stop
  fits : ∀ span ∈ spans, span.Fits text
  /-- No two words touch. -/
  apart : ∀ before ∈ spans, ∀ after ∈ spans, before.token.kind = .word → after.token.kind = .word →
    before.stop ≠ after.start

variable {span : Span} {spans : List Span}

/-- A span of characters that a lexeme stands for is one that its token fits. -/
lemma Lexeme.StandsFor.fits (h : l.StandsFor source after)
    (hfront : ∀ c d, front.getLast? = some c → source.head? = some d →
      isWordChar c = false ∨ isWordChar d = false) :
    Span.Fits (front ++ (source ++ after))
      ⟨⟨l.kind, l.text, front.length⟩, front.length + source.length⟩ := by
  have htake : (front ++ (source ++ after)).take front.length = front := List.take_left
  have hchars : ((front ++ (source ++ after)).take (front.length + source.length)).drop front.length =
      source := by
    simp [List.take_append]
  have hdrop : (front ++ (source ++ after)).drop (front.length + source.length) = after := by
    simp [List.drop_append]
  change Lexeme.IsMadeOf l _ _ _
  rw [Span.start, Span.chars, htake, hdrop, Span.start, hchars]
  exact h.isMadeOf hfront

/-- A word does not end where another one begins. -/
lemma Span.Fits.stop_ne_start {other : Span} (h : span.Fits text) (hother : other.Fits text)
    (hword : span.token.kind = .word) (hword' : other.token.kind = .word)
    (hspan : other.start < other.stop ∧ other.stop ≤ text.length) : span.stop ≠ other.start := by
  intro htouch
  simp only [Span.Fits, Lexeme.IsMadeOf, Token.lexeme, hword] at h
  simp only [Span.Fits, Lexeme.IsMadeOf, Token.lexeme, hword'] at hother
  obtain ⟨c, hc⟩ : ∃ c, text[other.start]? = some c :=
    ⟨_, List.getElem?_eq_getElem (hspan.1.trans_le hspan.2)⟩
  have hfirst : (other.chars text)[0]? = some c := by
    simp [Span.chars, hspan.1, hc]
  have hnext : (text.drop span.stop).head? = some c := by
    rw [List.head?_drop, htouch, hc]
  have hbelongs := hother.2.1 c (List.mem_of_getElem? hfirst)
  rw [h.2.2.2 c hnext] at hbelongs
  cases hbelongs

/-- Behind a text there is nothing to account for. -/
lemma accounts_nil (text : List Char) : Accounts text text.length [] := by
  refine ⟨nofun, List.Pairwise.nil, fun i c hi hc => ?_, nofun, nofun⟩
  rw [List.getElem?_eq_none hi] at hc
  cases hc

/-- A gap in front of what is accounted for belongs to no span. -/
lemma Accounts.gap (h : Accounts text (place + 1) spans) (hgap : text[place]? = some c)
    (hc : isGap c = true) : Accounts text place spans := by
  refine ⟨fun span hspan => ?_, h.ordered, fun i d hi hd => ?_, h.fits, h.apart⟩
  · obtain ⟨hstart, hrest⟩ := h.within span hspan
    exact ⟨Nat.le_of_succ_le hstart, hrest⟩
  · rcases hi.eq_or_lt with rfl | hlt
    · rw [hgap] at hd
      obtain rfl := Option.some.inj hd
      exact Or.inl hc
    · exact h.gaps i d hlt hd

/-- A span in front of what is accounted for accounts for its characters. -/
lemma Accounts.cons (h : Accounts text span.stop spans) (hfits : span.Fits text)
    (hspan : span.start < span.stop ∧ span.stop ≤ text.length) :
    Accounts text span.start (span :: spans) := by
  refine ⟨?_, ?_, fun i c hi hc => ?_, List.forall_mem_cons.mpr ⟨hfits, h.fits⟩, ?_⟩
  · refine List.forall_mem_cons.mpr ⟨⟨le_refl _, hspan⟩, fun other hother => ?_⟩
    obtain ⟨hstart, hrest⟩ := h.within other hother
    exact ⟨hspan.1.le.trans hstart, hrest⟩
  · exact List.pairwise_cons.mpr ⟨fun other hother => (h.within other hother).1, h.ordered⟩
  · by_cases hstop : i < span.stop
    · exact Or.inr ⟨span, List.mem_cons_self, hi, hstop⟩
    · refine (h.gaps i c (Nat.le_of_not_lt hstop) hc).imp_right ?_
      exact fun ⟨other, hother, hplace⟩ => ⟨other, List.mem_cons_of_mem _ hother, hplace⟩
  · have hwithin : ∀ other ∈ span :: spans, other.start < other.stop ∧ other.stop ≤ text.length :=
      List.forall_mem_cons.mpr ⟨hspan, fun other hother => (h.within other hother).2⟩
    have hfits' := List.forall_mem_cons.mpr ⟨hfits, h.fits⟩
    intro before hbefore after hafter hword hword'
    exact (hfits' before hbefore).stop_ne_start (hfits' after hafter) hword hword' (hwithin after hafter)

/-! ## The spans of a text -/

/-- The tokens of a text have spans that account for it, if the characters in front do not end like a word
that goes on. -/
theorem Token.Scans.exists_accounts (front : List Char) (h : Token.Scans position cs tokens)
    (hposition : position = front.length)
    (hfront : ∀ c d, front.getLast? = some c → cs.head? = some d →
      isWordChar c = false ∨ isWordChar d = false) :
    ∃ spans, tokens = Span.tokensOf spans (front ++ cs).length ∧ Accounts (front ++ cs) position spans := by
  induction h generalizing front with
  | finish =>
    subst hposition
    refine ⟨[], by simp [Span.tokensOf], ?_⟩
    rw [List.append_nil]
    exact accounts_nil front
  | @gap position c cs tokens hc _ ih =>
    subst hposition
    have hnext : ∀ d e, (front ++ [c]).getLast? = some d → cs.head? = some e →
        isWordChar d = false ∨ isWordChar e = false := by
      intro d e hd _
      rw [List.getLast?_concat] at hd
      obtain rfl := Option.some.inj hd
      exact Or.inl (isWordChar_of_isGap hc).1
    obtain ⟨spans, htokens, haccounts⟩ := ih (front ++ [c]) (by simp) hnext
    rw [List.append_assoc, List.singleton_append] at htokens haccounts
    exact ⟨spans, htokens, haccounts.gap (by simp) hc⟩
  | @token position l source after tokens hl _ ih =>
    subst hposition
    have hnext : ∀ c d, (front ++ source).getLast? = some c → after.head? = some d →
        isWordChar c = false ∨ isWordChar d = false := by
      intro c d hc hd
      have hlast := List.getLast?_eq_some_getLast hl.ne_nil
      rw [List.getLast?_append, hlast, Option.some_or, ← hlast] at hc
      exact hl.breaks hc hd
    obtain ⟨spans, htokens, haccounts⟩ := ih (front ++ source) (by simp) hnext
    rw [List.append_assoc] at htokens haccounts
    refine ⟨⟨⟨l.kind, l.text, front.length⟩, front.length + source.length⟩ :: spans, ?_, ?_⟩
    · rw [htokens]
      rfl
    · refine haccounts.cons (hl.fits fun c d hc hd => hfront c d hc ?_) ⟨?_, ?_⟩
      · rw [List.head?_append, hd]
        rfl
      · exact Nat.lt_add_of_pos_right (List.length_pos_iff.mpr hl.ne_nil)
      · simp

/-- The reading of a text either finds a flaw, and names its place, or there is none, and the tokens of the
text have spans that account for all its characters. -/
theorem Token.ofText_accounts (text : String) :
    match Token.ofText text with
    | .error problem => Flaw 0 text.toList problem
    | .ok tokens => (∀ problem, ¬Flaw 0 text.toList problem) ∧
        ∃ spans, tokens = Span.tokensOf spans text.length ∧ Accounts text.toList 0 spans := by
  cases htext : Token.ofText text with
  | error problem => exact flaw_of_scanFrom htext
  | ok tokens =>
    have hscans := scans_of_scanFrom htext
    exact ⟨hscans.not_flaw, hscans.exists_accounts [] rfl nofun⟩

end RecordStore.Query
