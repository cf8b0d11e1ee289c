import Mathlib.Data.List.TakeWhile
import RecordStore.Proofs.Number.Digits
import RecordStore.Proofs.Outcome
import RecordStore.Proofs.Query.Lexemes

/-!
# The tokens of a text

What a text is cut into.  A lexeme stands for some characters, depending on what follows them: a word
goes as far as it can, an operator of two characters comes before one of a single character, and a
quoted text ends with the first quote of its kind that is neither doubled nor hidden by a backslash.
Gaps stand for nothing.  The tokens of a text are the lexemes that its characters stand for one after
the other, each at the position where it begins, and the end.
-/

namespace RecordStore.Query

variable {c quote : Char} {source inside after after' : List Char}

/-! ## Quoted texts -/

/-- The characters behind a quote up to the quote that closes, and the text that they stand for, if the
given ones follow. -/
inductive Spells (quote : Char) : List Char → List Char → List Char → Prop
  | close {after : List Char} (h : after.head? ≠ some quote) : Spells quote [quote] [] after
  | escape {c : Char} {source inside after : List Char} (hc : c = '\\' ∨ c = quote)
      (h : Spells quote source inside after) :
      Spells quote (c :: quote :: source) (quote :: inside) after
  | plain {c : Char} {source inside after : List Char} (hc : c ≠ quote)
      (hhidden : c = '\\' → source.head? ≠ some quote) (h : Spells quote source inside after) :
      Spells quote (c :: source) (c :: inside) after

/-- At least the quote that closes stands behind a quote. -/
lemma Spells.exists_cons (h : Spells quote source inside after) : ∃ c cs, source = c :: cs := by
  cases h <;> exact ⟨_, _, rfl⟩

/-- The last of the characters is the quote that closes. -/
lemma Spells.getLast? (h : Spells quote source inside after) : source.getLast? = some quote := by
  induction h with
  | close => rfl
  | escape hc h ih =>
    obtain ⟨d, cs, rfl⟩ := h.exists_cons
    rw [List.getLast?_cons_cons, List.getLast?_cons_cons]
    exact ih
  | plain hc hhidden h ih =>
    obtain ⟨d, cs, rfl⟩ := h.exists_cons
    rw [List.getLast?_cons_cons]
    exact ih

/-- The quote that closes is not doubled. -/
lemma Spells.head? (h : Spells quote source inside after) : after.head? ≠ some quote := by
  induction h with
  | close h => exact h
  | escape _ _ ih => exact ih
  | plain _ _ _ ih => exact ih

/-- The text does not end in a backslash, since that would hide the quote that closes. -/
lemma Spells.isQuotable (hquote : quote ≠ '\\') (h : Spells quote source inside after) :
    inside.getLast? ≠ some '\\' := by
  induction h with
  | close => nofun
  | @escape c source inside after hc h ih =>
    cases inside with
    | nil => simpa using hquote
    | cons d inside => rwa [List.getLast?_cons_cons]
  | @plain c source inside after hc hhidden h ih =>
    cases inside with
    | nil =>
      cases h with
      | close => simpa using fun hbackslash => hhidden hbackslash rfl
    | cons d inside => rwa [List.getLast?_cons_cons]

/-- What follows only matters for a quote that would double the one that closes. -/
lemma Spells.congr (h : Spells quote source inside after) (hafter : after'.head? ≠ some quote) :
    Spells quote source inside after' := by
  induction h with
  | close => exact .close hafter
  | escape hc _ ih => exact .escape hc ih
  | plain hc hhidden _ ih => exact .plain hc hhidden ih

/-- A quoted text is read if its characters spell it. -/
lemma Spells.readQuoted?_eq (h : Spells quote source inside after) :
    readQuoted? quote (source ++ after) = some (inside, after) := by
  induction h with
  | @close after hafter =>
    cases after with
    | nil => simp [readQuoted?]
    | cons d after =>
      have hd : d ≠ quote := fun heq => hafter (by rw [heq]; rfl)
      rw [List.singleton_append, readQuoted?, if_neg (by simp [hd]), if_pos rfl]
  | escape hc _ ih =>
    rw [List.cons_append, List.cons_append, readQuoted?, if_pos ⟨hc, rfl⟩, ih]
    rfl
  | @plain c source inside after hc hhidden h ih =>
    obtain ⟨d, cs, rfl⟩ := h.exists_cons
    have hescape : ¬((c = '\\' ∨ c = quote) ∧ d = quote) := by
      rintro ⟨hbackslash | hsame, rfl⟩
      · exact hhidden hbackslash rfl
      · exact hc hsame
    rw [List.cons_append, List.cons_append, readQuoted?, if_neg hescape, if_neg hc,
      ← List.cons_append, ih]
    rfl

/-- A quoted text that is read is spelled by its characters. -/
lemma exists_spells {cs : List Char} (h : readQuoted? quote cs = some (inside, after)) :
    ∃ source, cs = source ++ after ∧ Spells quote source inside after := by
  fun_induction readQuoted? quote cs generalizing inside after with
  | case1 => cases h
  | case2 =>
    obtain ⟨rfl, rfl⟩ := Prod.mk.inj (Option.some.inj h)
    exact ⟨[quote], rfl, .close fun hd => by cases hd⟩
  | case3 => cases h
  | case4 c d rest hescape ih =>
    obtain ⟨⟨i, a⟩, hia, heq⟩ := Option.map_eq_some_iff.mp h
    obtain ⟨rfl, rfl⟩ := Prod.mk.inj heq
    obtain ⟨source, rfl, hsource⟩ := ih hia
    obtain ⟨hc, rfl⟩ := hescape
    exact ⟨c :: d :: source, rfl, .escape hc hsource⟩
  | case5 d rest hescape =>
    obtain ⟨rfl, rfl⟩ := Prod.mk.inj (Option.some.inj h)
    refine ⟨[quote], rfl, .close fun hd => hescape ⟨Or.inr rfl, ?_⟩⟩
    exact Option.some.inj hd
  | case6 c d rest hescape hclose ih =>
    obtain ⟨⟨i, a⟩, hia, heq⟩ := Option.map_eq_some_iff.mp h
    obtain ⟨rfl, rfl⟩ := Prod.mk.inj heq
    obtain ⟨source, hcs, hsource⟩ := ih hia
    obtain ⟨e, cs, rfl⟩ := hsource.exists_cons
    obtain ⟨rfl, -⟩ := List.cons.inj hcs
    refine ⟨c :: d :: cs, by rw [hcs]; rfl, .plain hclose (fun hbackslash hd => ?_) hsource⟩
    exact hescape ⟨Or.inl hbackslash, Option.some.inj hd⟩

/-- Characters with a mark in front of each quote. -/
def marked (mark quote : Char) (cs : List Char) : List Char :=
  cs.flatMap fun c => if c = quote then [mark, quote] else [c]

/-- With a mark in front of each quote, a backslash or the quote itself, characters spell themselves up to a
quote that closes, unless a backslash hides it, or hides a quote that is doubled. -/
lemma spells_marked {mark : Char} {cs : List Char} (hmark : mark = '\\' ∨ mark = quote)
    (hlast : cs.getLast? ≠ some '\\') (hhidden : mark = quote → ¬['\\', quote] <:+: cs)
    (hafter : after.head? ≠ some quote) : Spells quote (marked mark quote cs ++ [quote]) cs after := by
  induction cs with
  | nil => exact .close hafter
  | cons c cs ih =>
    have hlast' : cs.getLast? ≠ some '\\' := by
      cases cs with
      | nil => simp
      | cons d cs => rwa [List.getLast?_cons_cons] at hlast
    have hrest := ih hlast' fun hdoubled hinfix => hhidden hdoubled (List.infix_cons hinfix)
    by_cases hc : c = quote
    · subst hc
      have hescaped : marked mark c (c :: cs) ++ [c] = mark :: c :: (marked mark c cs ++ [c]) := by
        simp [marked]
      rw [hescaped]
      exact .escape hmark hrest
    · have hplain : marked mark quote (c :: cs) ++ [quote] = c :: (marked mark quote cs ++ [quote]) := by
        simp [marked, hc]
      rw [hplain]
      refine .plain hc (fun hbackslash hquote => ?_) hrest
      subst hbackslash
      cases cs with
      | nil => exact hlast rfl
      | cons d cs =>
        -- what stands behind the backslash is the next character, or the mark in front of it
        by_cases hd : d = quote
        · subst hd
          obtain rfl : mark = d := by simpa [marked] using hquote
          exact hhidden rfl ⟨[], cs, rfl⟩
        · simp [marked, hd] at hquote

/-! ## Single lexemes -/

/-- A lexeme stands for some characters, if the given ones follow them. -/
inductive Lexeme.StandsFor : Lexeme → List Char → List Char → Prop
  | word {c : Char} {cs after : List Char} (h : ∀ d ∈ c :: cs, isWordChar d = true)
      (hafter : ∀ d, after.head? = some d → isWordChar d = false) :
      StandsFor ⟨.word, String.ofList (c :: cs)⟩ (c :: cs) after
  | text {quote : Char} {source inside after : List Char} (hquote : isQuote quote = true)
      (h : Spells quote source inside after) :
      StandsFor ⟨.text, String.ofList inside⟩ (quote :: source) after
  | punctuation {c : Char} {kind : TokenKind} {after : List Char} (h : punctuation? c = some kind) :
      StandsFor ⟨kind, String.ofList [c]⟩ [c] after
  | longOperator {c d : Char} {after : List Char} (h : (c, d) ∈ longOperators) :
      StandsFor ⟨.operator, String.ofList [c, d]⟩ [c, d] after
  | operator {c : Char} {after : List Char} (h : isOperatorChar c = true) (hmark : c ≠ '!')
      (hafter : ∀ d, after.head? = some d → (c, d) ∉ longOperators) :
      StandsFor ⟨.operator, String.ofList [c]⟩ [c] after

variable {l : Lexeme}

/-- A character that belongs to words is no gap, opens no quoted text and is no punctuation. -/
lemma isWordChar_iff : isWordChar c = true ↔ isGap c = false ∧ isQuote c = false ∧
    punctuation? c = none ∧ isOperatorChar c = false := by
  simp [isWordChar, and_assoc]

/-- A quote separates nothing, hides nothing and belongs to no word. -/
lemma isGap_of_isQuote (h : isQuote c = true) : isGap c = false ∧ c ≠ '\\' := by
  have hchar : c = '\'' ∨ c = '"' := by simpa [isQuote] using h
  rcases hchar with rfl | rfl <;> decide +kernel

/-- A punctuation mark is one of four characters, and its kind tells which. -/
lemma mem_of_punctuation? {kind : TokenKind} (h : punctuation? c = some kind) :
    (c, kind) ∈ [('(', TokenKind.openParen), (')', .closeParen), (',', .comma), ('*', .star)] := by
  unfold punctuation? at h
  split_ifs at h <;> simp_all

/-- A punctuation mark separates nothing and opens no quoted text. -/
lemma isGap_of_punctuation? {kind : TokenKind} (h : punctuation? c = some kind) :
    isGap c = false ∧ isQuote c = false :=
  (by decide +kernel : ∀ mark ∈ [('(', TokenKind.openParen), (')', .closeParen), (',', .comma),
    ('*', .star)], isGap mark.1 = false ∧ isQuote mark.1 = false) (c, kind) (mem_of_punctuation? h)

/-- A character of operators separates nothing, opens no quoted text and is no punctuation. -/
lemma isGap_of_isOperatorChar (h : isOperatorChar c = true) :
    isGap c = false ∧ isQuote c = false ∧ punctuation? c = none := by
  have hchar : c = '=' ∨ c = '!' ∨ c = '<' ∨ c = '>' := by
    simpa [isOperatorChar, or_assoc] using h
  rcases hchar with rfl | rfl | rfl | rfl <;> decide +kernel

/-- Both characters of a long operator are characters of operators. -/
lemma isOperatorChar_of_mem {d : Char} (h : (c, d) ∈ longOperators) :
    isOperatorChar c = true ∧ isOperatorChar d = true :=
  (by decide : ∀ pair ∈ longOperators,
    isOperatorChar pair.1 = true ∧ isOperatorChar pair.2 = true) (c, d) h

/-- A gap belongs to no word and to no operator, and is no quote. -/
lemma isWordChar_of_isGap (h : isGap c = true) :
    isWordChar c = false ∧ isOperatorChar c = false ∧ isQuote c = false := by
  refine ⟨by simp [isWordChar, h], ?_, ?_⟩
  · rw [← Bool.not_eq_true]
    exact fun hoperator => absurd h (by simp [isGap_of_isOperatorChar hoperator])
  · rw [← Bool.not_eq_true]
    exact fun hquote => absurd h (by simp [isGap_of_isQuote hquote])

namespace Lexeme.StandsFor

/-- A lexeme can be written. -/
lemma isWritten (h : StandsFor l source after) : l.IsWritten := by
  cases h with
  | @word c cs _ h _ =>
    refine ⟨fun hempty => ?_, by rwa [String.toList_ofList]⟩
    simp at hempty
  | text hquote h =>
    change _ ≠ _
    rw [String.toList_ofList]
    exact h.isQuotable (isGap_of_isQuote hquote).2
  | punctuation h =>
    have hmem := mem_of_punctuation? h
    simp only [List.mem_cons, Prod.mk.injEq, List.not_mem_nil, or_false] at hmem
    rcases hmem with ⟨rfl, rfl⟩ | ⟨rfl, rfl⟩ | ⟨rfl, rfl⟩ | ⟨rfl, rfl⟩ <;> rfl
  | longOperator h =>
    exact (by decide : ∀ pair ∈ longOperators, String.ofList [pair.1, pair.2] ∈ operators) _ h
  | @operator c _ h hmark _ =>
    have hchar : c = '=' ∨ c = '<' ∨ c = '>' := by
      simpa [isOperatorChar, hmark, or_assoc] using h
    change String.ofList [c] ∈ operators
    rcases hchar with rfl | rfl | rfl <;> decide

/-- What follows only matters by its first character, and a gap there does no harm. -/
lemma congr (h : StandsFor l source after)
    (hafter : ∀ d, after'.head? = some d → after.head? = some d ∨ isGap d = true) :
    StandsFor l source after' := by
  cases h with
  | word h hends =>
    refine .word h fun d hd => ?_
    rcases hafter d hd with hsame | hgap
    · exact hends d hsame
    · exact (isWordChar_of_isGap hgap).1
  | @text quote source inside after hquote h =>
    refine .text hquote (h.congr fun hd => ?_)
    rcases hafter quote hd with hsame | hgap
    · exact h.head? hsame
    · rw [(isGap_of_isQuote hquote).1] at hgap
      cases hgap
  | punctuation h => exact .punctuation h
  | longOperator h => exact .longOperator h
  | operator h hmark hends =>
    refine .operator h hmark fun d hd hlong => ?_
    rcases hafter d hd with hsame | hgap
    · exact hends d hsame hlong
    · rw [(isGap_of_isOperatorChar (isOperatorChar_of_mem hlong).2).1] at hgap
      cases hgap

/-- A lexeme stands for at least one character. -/
lemma ne_nil (h : StandsFor l source after) : source ≠ [] := by
  cases h <;> exact List.cons_ne_nil _ _

end Lexeme.StandsFor

/-- Every text begins with a gap, with the characters of a lexeme, with a quoted text that cannot be read,
or with a mark that no equality sign follows. -/
lemma Lexeme.exists_standsFor (c : Char) (rest : List Char) :
    isGap c = true ∨ (∃ l source after, c :: rest = source ++ after ∧ StandsFor l source after) ∨
      (isQuote c = true ∧ readQuoted? c rest = none) ∨ c = '!' ∧ rest.head? ≠ some '=' := by
  by_cases hgap : isGap c = true
  · exact Or.inl hgap
  right
  by_cases hquote : isQuote c = true
  · cases hread : readQuoted? c rest with
    | none => exact Or.inr (Or.inl ⟨hquote, rfl⟩)
    | some found =>
      obtain ⟨source, hrest, hsource⟩ := exists_spells hread
      exact Or.inl ⟨_, c :: source, found.2, congrArg (c :: ·) hrest, .text hquote hsource⟩
  cases hpunctuation : punctuation? c with
  | some kind => exact Or.inl ⟨_, [c], rest, rfl, .punctuation hpunctuation⟩
  | none =>
    by_cases hoperator : isOperatorChar c = true
    · by_cases hlong : ∃ d, rest.head? = some d ∧ (c, d) ∈ longOperators
      · obtain ⟨d, hd, hmem⟩ := hlong
        obtain ⟨after, rfl⟩ := List.head?_eq_some_iff.mp hd
        exact Or.inl ⟨_, [c, d], after, rfl, .longOperator hmem⟩
      · by_cases hmark : c = '!'
        · subst hmark
          exact Or.inr (Or.inr ⟨rfl, fun hequal => hlong ⟨_, hequal, by decide⟩⟩)
        · refine Or.inl ⟨_, [c], rest, rfl, .operator hoperator hmark fun d hd hmem => ?_⟩
          exact hlong ⟨d, hd, hmem⟩
    · have hfirst : isWordChar c = true := isWordChar_iff.mpr
        ⟨eq_false_of_ne_true hgap, eq_false_of_ne_true hquote, hpunctuation,
          eq_false_of_ne_true hoperator⟩
      have hends : ∀ d, (rest.dropWhile isWordChar).head? = some d → isWordChar d = false := by
        intro d hd
        rw [← List.find?_not_eq_head?_dropWhile] at hd
        simpa using List.find?_some hd
      refine Or.inl ⟨_, c :: rest.takeWhile isWordChar, rest.dropWhile isWordChar, ?_, .word
        (List.forall_mem_cons.mpr ⟨hfirst, fun d hd => List.mem_takeWhile_imp hd⟩) hends⟩
      rw [List.cons_append, List.takeWhile_append_dropWhile]

/-! ## Texts -/

/-- The tokens of a text whose first character is at the given position. -/
inductive Token.Scans : Nat → List Char → List Token → Prop
  | finish (position : Nat) : Scans position [] [⟨.finish, "", position⟩]
  | gap {position : Nat} {c : Char} {cs : List Char} {tokens : List Token} (hc : isGap c = true)
      (h : Scans (position + 1) cs tokens) : Scans position (c :: cs) tokens
  | token {position : Nat} {l : Lexeme} {source after : List Char} {tokens : List Token}
      (hl : l.StandsFor source after) (h : Scans (position + source.length) after tokens) :
      Scans position (source ++ after) (⟨l.kind, l.text, position⟩ :: tokens)

namespace Token

variable {position : Nat} {cs : List Char} {tokens : List Token}

/-- The characters that a lexeme stands for are taken off the front of a text. -/
lemma scanFrom_append (h : l.StandsFor source after) (position : Nat) :
    scanFrom position (source ++ after) =
      (scanFrom (position + source.length) after).map (⟨l.kind, l.text, position⟩ :: ·) := by
  cases h with
  | @word c cs _ h hends =>
    obtain ⟨hgap, hquote, hpunctuation, hoperator⟩ := isWordChar_iff.mp (h c List.mem_cons_self)
    have hmore := Text.span_append (fun d hd => h d (List.mem_cons_of_mem c hd)) hends
    have hlength : position + 1 + cs.length = position + (c :: cs).length := by
      rw [List.length_cons]
      omega
    rw [List.cons_append, scanFrom.eq_def]
    simp only [hgap, hquote, hpunctuation, hoperator, Bool.false_eq_true, if_false, hmore.1, hmore.2,
      hlength]
  | @text quote source inside _ hquote h =>
    have hlength : position + 1 + ((source ++ after).length - after.length) =
        position + (quote :: source).length := by
      rw [List.length_append, List.length_cons]
      omega
    rw [List.cons_append, scanFrom.eq_def]
    simp only [(isGap_of_isQuote hquote).1, hquote, Bool.false_eq_true, if_false, if_true]
    split
    · rename_i hnone
      rw [h.readQuoted?_eq] at hnone
      cases hnone
    · rename_i hsome
      rw [h.readQuoted?_eq] at hsome
      obtain ⟨rfl, rfl⟩ := Prod.mk.inj (Option.some.inj hsome)
      rw [hlength]
  | @punctuation c kind _ h =>
    obtain ⟨hgap, hquote⟩ := isGap_of_punctuation? h
    rw [List.singleton_append, scanFrom.eq_def]
    simp only [hgap, hquote, h, Bool.false_eq_true, if_false]
    rfl
  | @longOperator c d _ h =>
    have hoperator := (isOperatorChar_of_mem h).1
    obtain ⟨hgap, hquote, hpunctuation⟩ := isGap_of_isOperatorChar hoperator
    rw [List.cons_append, List.singleton_append, scanFrom.eq_def]
    simp only [hgap, hquote, hpunctuation, hoperator, List.contains_iff_mem.mpr h,
      Bool.false_eq_true, if_false, if_true]
    rfl
  | @operator c _ hoperator hmark hends =>
    obtain ⟨hgap, hquote, hpunctuation⟩ := isGap_of_isOperatorChar hoperator
    rw [List.singleton_append, scanFrom.eq_def]
    simp only [hgap, hquote, hpunctuation, hoperator, hmark, Bool.false_eq_true, if_false, if_true]
    cases after with
    | nil => rfl
    | cons d after =>
      have hnot : longOperators.contains (c, d) = false := by
        rw [← Bool.not_eq_true, List.contains_iff_mem]
        exact hends d rfl
      simp only [hnot, Bool.false_eq_true, if_false]
      rfl

/-- A quoted text that cannot be read is a problem where it begins. -/
lemma scanFrom_of_unread (hquote : isQuote quote = true) (h : readQuoted? quote cs = none)
    (position : Nat) : scanFrom position (quote :: cs) = .error (.unterminated position) := by
  rw [scanFrom.eq_def]
  simp only [(isGap_of_isQuote hquote).1, hquote, Bool.false_eq_true, if_false, if_true]
  split
  · rfl
  · rename_i hsome
    rw [h] at hsome
    cases hsome

/-- A mark that no equality sign follows is a problem where it stands. -/
lemma scanFrom_of_strayMark (h : cs.head? ≠ some '=') (position : Nat) :
    scanFrom position ('!' :: cs) = .error (.strayMark position) := by
  have hmark : isGap '!' = false ∧ isQuote '!' = false ∧ punctuation? '!' = none :=
    isGap_of_isOperatorChar rfl
  rw [scanFrom.eq_def]
  simp only [hmark, Bool.false_eq_true, if_false]
  cases cs with
  | nil => rfl
  | cons d cs =>
    have hlong : longOperators.contains ('!', d) = false := by
      rw [← Bool.not_eq_true, List.contains_iff_mem]
      intro hmem
      refine h (congrArg some ?_)
      simpa [longOperators] using hmem
    simp only [hlong, Bool.false_eq_true, if_false]
    rfl

/-- The tokens that are found in a text are those that its characters stand for. -/
theorem scans_of_scanFrom (h : scanFrom position cs = .ok tokens) : Scans position cs tokens := by
  induction hn : cs.length using Nat.strong_induction_on generalizing position cs tokens with
  | _ n ih =>
    subst hn
    match cs with
    | [] =>
      rw [scanFrom.eq_def] at h
      obtain rfl := Except.ok.inj h
      exact .finish position
    | c :: rest =>
      rcases Lexeme.exists_standsFor c rest with hgap | ⟨l, source, after, hcs, hl⟩ | ⟨hquote, hread⟩ |
        ⟨rfl, hmark⟩
      · rw [scanFrom.eq_def] at h
        simp only [hgap, if_true] at h
        exact .gap hgap (ih _ (Nat.lt_succ_self _) h rfl)
      · have hlength := congrArg List.length hcs
        rw [List.length_append] at hlength
        rw [hcs, scanFrom_append hl] at h
        obtain ⟨others, hothers, rfl⟩ := Outcome.map_eq_ok.mp h
        rw [hcs]
        refine .token hl (ih _ ?_ hothers rfl)
        have hpositive := List.length_pos_iff.mpr hl.ne_nil
        omega
      · rw [scanFrom_of_unread hquote hread] at h
        cases h
      · rw [scanFrom_of_strayMark hmark] at h
        cases h

/-- The tokens that the characters of a text stand for are found in it. -/
theorem Scans.scanFrom_eq (h : Scans position cs tokens) : scanFrom position cs = .ok tokens := by
  induction h with
  | finish position => rw [scanFrom.eq_def]
  | gap hc _ ih =>
    rw [scanFrom.eq_def]
    simp only [hc, if_true]
    exact ih
  | token hl _ ih =>
    rw [scanFrom_append hl, ih]
    rfl

/-- All tokens of a text but the last can be written, and the last is the end. -/
lemma Scans.exists_phrase (h : Scans position cs tokens) :
    ∃ phrase, tokens.map lexeme = phrase ++ [Lexeme.finish] ∧ ∀ l ∈ phrase, l.IsWritten := by
  induction h with
  | finish position => exact ⟨[], rfl, nofun⟩
  | gap _ _ ih => exact ih
  | @token _ l _ _ _ hl _ ih =>
    obtain ⟨phrase, hphrase, hwritten⟩ := ih
    refine ⟨l :: phrase, ?_, List.forall_mem_cons.mpr ⟨hl.isWritten, hwritten⟩⟩
    rw [List.map_cons, hphrase]
    rfl

end Token

/-! ## Lines -/

namespace Lexeme

/-- What follows a lexeme neither continues a word or an operator nor is a quote. -/
def IsEnded (rest : List Char) : Prop :=
  ∀ c, rest.head? = some c → c = ' ' ∨ c = ')' ∨ c = ','

variable {rest : List Char}

/-- With a backslash in front of each quote, characters spell themselves up to a quote that closes, unless
the last of them is a backslash. -/
lemma spells_escapeQuotes {cs : List Char} (hcs : cs.getLast? ≠ some '\\')
    (hrest : rest.head? ≠ some '\'') : Spells '\'' (escapeQuotes cs ++ ['\'']) cs rest :=
  spells_marked (Or.inl rfl) hcs nofun hrest

/-- A lexeme that can be written stands for what it is written with, if it is an opening parenthesis or
what follows ends it. -/
lemma standsFor_chars {l : Lexeme} (h : l.IsWritten) (hrest : l.kind = .openParen ∨ IsEnded rest) :
    StandsFor l l.chars rest := by
  obtain ⟨kind, s⟩ := l
  cases kind with
  | word =>
    have hended := hrest.resolve_left nofun
    obtain ⟨hne, hword⟩ := h
    obtain ⟨c, cs, hcs⟩ := List.exists_cons_of_ne_nil (mt String.toList_eq_nil_iff.mp hne)
    obtain rfl : s = String.ofList (c :: cs) := by rw [← hcs, String.ofList_toList]
    rw [String.toList_ofList] at hword
    change StandsFor _ (String.ofList (c :: cs)).toList rest
    rw [String.toList_ofList]
    refine .word hword fun d hd => ?_
    rcases hended d hd with rfl | rfl | rfl <;> decide +kernel
  | text =>
    have hquote : rest.head? ≠ some '\'' := by
      intro heq
      rcases hrest.resolve_left nofun _ heq with h | h | h <;> cases h
    have htext := StandsFor.text rfl (spells_escapeQuotes h hquote)
    rwa [String.ofList_toList] at htext
  | operator =>
    have hended := hrest.resolve_left nofun
    have hnot : ∀ c d, rest.head? = some d → (c, d) ∉ longOperators := by
      intro c d hd
      rcases hended d hd with rfl | rfl | rfl <;> simp [longOperators]
    have hmem : s ∈ operators := h
    simp only [operators, List.mem_cons, List.not_mem_nil, or_false] at hmem
    rcases hmem with rfl | rfl | rfl | rfl | rfl | rfl | rfl
    · exact .operator rfl (by decide) (hnot '=')
    · exact .longOperator (by decide)
    · exact .operator rfl (by decide) (hnot '<')
    · exact .operator rfl (by decide) (hnot '>')
    · exact .longOperator (by decide)
    · exact .longOperator (by decide)
    · exact .longOperator (by decide)
  | openParen =>
    obtain rfl : s = "(" := h
    exact .punctuation rfl
  | closeParen =>
    obtain rfl : s = ")" := h
    exact .punctuation rfl
  | comma =>
    obtain rfl : s = "," := h
    exact .punctuation rfl
  | star =>
    obtain rfl : s = "*" := h
    exact .punctuation rfl
  | finish => exact h.elim

/-- What stands between a lexeme and the next one ends the first, unless it is a parenthesis that
opens. -/
lemma isEnded_gap {l next : Lexeme} (hnext : next.IsWritten) (more : List Char) :
    l.kind = .openParen ∨ IsEnded (gap l next ++ (next.chars ++ more)) := by
  by_cases hopen : l.kind = .openParen
  · exact Or.inl hopen
  right
  obtain ⟨kind, text⟩ := next
  by_cases hclose : kind = .closeParen
  · subst hclose
    obtain rfl : text = ")" := hnext
    rintro c hc
    simp only [gap, true_or, or_true, if_true] at hc
    exact Or.inr (Or.inl (Option.some.inj hc).symm)
  by_cases hcomma : kind = .comma
  · subst hcomma
    obtain rfl : text = "," := hnext
    rintro c hc
    simp only [gap, or_true, if_true] at hc
    exact Or.inr (Or.inr (Option.some.inj hc).symm)
  rintro c hc
  simp only [gap, hopen, hclose, hcomma, or_self, if_false] at hc
  exact Or.inl (Option.some.inj hc).symm

/-- The tokens of a line are the lexemes laid out on it, and the end. -/
theorem scanFrom_layOut {lexemes : List Lexeme} (h : ∀ l ∈ lexemes, l.IsWritten) (position : Nat) :
    ∃ tokens, Token.scanFrom position (layOut lexemes) = .ok tokens ∧
      tokens.map Token.lexeme = lexemes ++ [finish] := by
  suffices hscans : ∃ tokens, Token.Scans position (layOut lexemes) tokens ∧
      tokens.map Token.lexeme = lexemes ++ [finish] by
    obtain ⟨tokens, hscans, hlexemes⟩ := hscans
    exact ⟨tokens, hscans.scanFrom_eq, hlexemes⟩
  induction lexemes generalizing position with
  | nil => exact ⟨_, .finish position, rfl⟩
  | cons l rest ih =>
    obtain ⟨hl, hrest⟩ := List.forall_mem_cons.mp h
    cases rest with
    | nil =>
      have hlast := Token.Scans.token (standsFor_chars hl (Or.inr (nofun : IsEnded [])))
        (.finish (position + l.chars.length))
      rw [List.append_nil] at hlast
      exact ⟨_, hlast, rfl⟩
    | cons next rest =>
      obtain ⟨more, hmore⟩ : ∃ more, layOut (next :: rest) = next.chars ++ more := by
        cases rest with
        | nil => exact ⟨[], (List.append_nil _).symm⟩
        | cons _ _ => exact ⟨_, rfl⟩
      have hends := isEnded_gap (l := l) (hrest next List.mem_cons_self) more
      rw [← hmore] at hends
      have hskip : ∀ after tokens, Token.Scans (after + (gap l next).length)
          (layOut (next :: rest)) tokens →
            Token.Scans after (gap l next ++ layOut (next :: rest)) tokens := by
        intro after tokens htokens
        rw [gap] at htokens ⊢
        split
        · rename_i hnone
          rwa [if_pos hnone] at htokens
        · rename_i hblank
          rw [if_neg hblank] at htokens
          exact .gap (by decide +kernel) htokens
      obtain ⟨tokens, htokens, hlexemes⟩ :=
        ih hrest (position + l.chars.length + (gap l next).length)
      exact ⟨_, .token (standsFor_chars hl hends) (hskip _ _ htokens),
        congrArg (l :: ·) hlexemes⟩

end Lexeme

end RecordStore.Query
