import RecordStore.Proofs.Outcome
import RecordStore.Proofs.Query.Rereading

/-!
# What is read derives

Whatever a reader gives, it has taken a phrase of the grammar that denotes it, and left the lexemes
behind this phrase as they are.  A chain of readers has taken one phrase after the other.  This goes for
lexemes that can be written with the end behind them: a mark is then known by its kind, and no reader
goes beyond the end.
-/

namespace RecordStore.Query

open Lexeme (word sign openParen closeParen comma star)

/-- Lexemes that can be written, and the end behind them. -/
def IsClosed (given : List Lexeme) : Prop :=
  ∃ phrase, given = phrase ++ [Lexeme.finish] ∧ ∀ l ∈ phrase, l.IsWritten

variable {given rest : List Lexeme} {l m : Lexeme}

/-- At least the end is there. -/
lemma IsClosed.exists_cons (h : IsClosed given) : ∃ l more, given = l :: more := by
  obtain ⟨phrase, rfl, -⟩ := h
  exact List.exists_cons_of_ne_nil (List.append_ne_nil_of_right_ne_nil _ (List.cons_ne_nil _ _))

/-- A lexeme other than the end can be written, and the end is still behind it. -/
lemma IsClosed.tail (h : IsClosed (l :: rest)) (hl : l.kind ≠ .finish) :
    l.IsWritten ∧ IsClosed rest := by
  obtain ⟨phrase, hphrase, hwritten⟩ := h
  cases phrase with
  | nil =>
    obtain ⟨rfl, -⟩ := List.cons.inj hphrase
    exact absurd rfl hl
  | cons first phrase =>
    obtain ⟨rfl, rfl⟩ := List.cons.inj hphrase
    obtain ⟨hfirst, hphrase⟩ := List.forall_mem_cons.mp hwritten
    exact ⟨hfirst, phrase, rfl, hphrase⟩

/-- Nothing stands behind the end. -/
lemma IsClosed.eq_finish (h : IsClosed (l :: rest)) (hl : l.kind = .finish) :
    l :: rest = [Lexeme.finish] := by
  obtain ⟨phrase, hphrase, hwritten⟩ := h
  cases phrase with
  | nil => exact hphrase
  | cons first phrase =>
    obtain ⟨rfl, -⟩ := List.cons.inj hphrase
    have hfirst := hwritten l List.mem_cons_self
    rw [Lexeme.IsWritten, hl] at hfirst
    exact hfirst.elim

/-- The lexemes that are known by their kinds. -/
def Lexeme.marks : List Lexeme :=
  [openParen, closeParen, comma, star]

/-- A mark is known by its kind. -/
lemma Lexeme.IsWritten.eq_mark (h : l.IsWritten) (hm : m ∈ Lexeme.marks) (hkind : l.kind = m.kind) :
    l = m := by
  obtain ⟨kind, s⟩ := l
  obtain rfl : kind = m.kind := hkind
  simp only [Lexeme.marks, List.mem_cons, List.not_mem_nil, or_false] at hm
  rcases hm with rfl | rfl | rfl | rfl
  all_goals
    obtain rfl : s = _ := h
    rfl

namespace Reader

variable {α β : Type} {a : α} {b : β} {next : α → Reader β}

/-- From the given lexemes, which the end closes, a reader gives something and leaves the rest. -/
def Gives (reader : Reader α) (given rest : List Lexeme) (a : α) : Prop :=
  IsClosed given ∧ ∃ tokens left, tokens.map Token.lexeme = given ∧ left.map Token.lexeme = rest ∧
    reader.run tokens = .ok (a, left)

/-- Whatever a reader gives, it has taken a phrase that denotes it, and left the end. -/
def Derives (reader : Reader α) (Phrase : List Lexeme → α → Prop) : Prop :=
  ∀ given rest a, Gives reader given rest a →
    ∃ phrase, given = phrase ++ rest ∧ IsClosed rest ∧ Phrase phrase a

/-- What a reader takes may be said with less. -/
lemma Derives.mono {reader : Reader α} {Phrase Phrase' : List Lexeme → α → Prop}
    (h : Derives reader Phrase) (hphrase : ∀ phrase a, Phrase phrase a → Phrase' phrase a) :
    Derives reader Phrase' := by
  intro given rest a ha
  obtain ⟨phrase, hgiven, hclosed, htaken⟩ := h given rest a ha
  exact ⟨phrase, hgiven, hclosed, hphrase phrase a htaken⟩

/-! ## Steps of readers -/

/-- What a chain of readers has given is given by the second, if the first has left the end. -/
lemma Gives.of_bind {reader : Reader α} (h : Gives (reader >>= next) given rest b) :
    ∃ a more, Gives reader given more a ∧ (IsClosed more → Gives (next a) more rest b) := by
  obtain ⟨hclosed, tokens, left, htokens, hleft, hrun⟩ := h
  change (reader.run tokens >>= fun (a, left) => (next a).run left) = _ at hrun
  obtain ⟨⟨a, between⟩, hfirst, hsecond⟩ := Outcome.seq_eq_ok.mp hrun
  refine ⟨a, between.map Token.lexeme, ⟨hclosed, tokens, between, htokens, rfl, hfirst⟩, ?_⟩
  exact fun hmore => ⟨hmore, between, left, rfl, hleft, hsecond⟩

/-- What a chain of readers has given is given by the second, after a phrase that the first has
taken. -/
lemma Gives.step {reader : Reader α} {Phrase : List Lexeme → α → Prop}
    (h : Gives (reader >>= next) given rest b) (hreader : Derives reader Phrase) :
    ∃ phrase a more, given = phrase ++ more ∧ Phrase phrase a ∧ Gives (next a) more rest b := by
  obtain ⟨a, more, hfirst, hsecond⟩ := h.of_bind
  obtain ⟨phrase, hgiven, hmore, hphrase⟩ := hreader _ _ _ hfirst
  exact ⟨phrase, a, more, hgiven, hphrase, hsecond hmore⟩

/-- What is returned takes nothing. -/
lemma Gives.eq_of_pure {a' : α} (h : Gives (pure a) given rest a') : given = rest ∧ a' = a := by
  obtain ⟨-, tokens, left, rfl, rfl, hrun⟩ := h
  obtain ⟨rfl, rfl⟩ := Prod.mk.inj (Except.ok.inj hrun)
  exact ⟨rfl, rfl⟩

/-- A problem gives nothing. -/
lemma derives_problem (p : Problem) : Derives (problem p : Reader α) fun _ _ => False := by
  rintro given rest a ⟨-, tokens, left, -, -, hrun⟩
  cases hrun

/-- Nothing comes after a problem. -/
lemma not_gives_problem_bind {p : Problem} (h : Gives (problem p >>= next) given rest b) : False := by
  obtain ⟨_, _, _, -, hfalse, -⟩ := h.step (derives_problem p)
  exact hfalse

/-- Nothing comes of a problem. -/
lemma not_gives_problem {p : Problem} (h : Gives (problem p) given rest b) : False := by
  obtain ⟨_, -, -, hfalse⟩ := derives_problem p _ _ _ h
  exact hfalse

/-- A reader that looks at the next token sees the next lexeme. -/
lemma Gives.of_peek {next : Token → Reader β} (h : Gives (peek >>= next) given rest b) :
    ∃ token more, given = Token.lexeme token :: more ∧ Gives (next token) given rest b := by
  obtain ⟨hclosed, tokens, left, rfl, hleft, hrun⟩ := h
  obtain ⟨l, more, hl⟩ := hclosed.exists_cons
  obtain ⟨token, tokens, rfl, -, -⟩ := List.map_eq_cons_iff.mp hl
  exact ⟨token, _, rfl, hclosed, token :: tokens, left, rfl, hleft, hrun⟩

/-- A token that is taken is the next lexeme. -/
lemma Gives.of_next {next : Token → Reader β} (h : Gives (Reader.next >>= next) (l :: given) rest b)
    (hl : l.kind ≠ .finish) : ∃ token, Token.lexeme token = l ∧ Gives (next token) given rest b := by
  obtain ⟨hclosed, tokens, left, htokens, hleft, hrun⟩ := h
  obtain ⟨token, tokens, rfl, rfl, rfl⟩ := List.map_eq_cons_iff.mp htokens
  have hkind : (token.kind != .finish) = true := bne_iff_ne.mpr hl
  have hnext : Reader.next.run (token :: tokens) = .ok (token, tokens) := by
    change (if (token.kind != .finish) = true then _ else _ : Reader Token).run _ = _
    rw [if_pos hkind]
    rfl
  change (Reader.next.run (token :: tokens) >>= fun (a, left) => (next a).run left) = _ at hrun
  rw [hnext] at hrun
  exact ⟨token, rfl, (hclosed.tail hl).2, tokens, left, rfl, hleft, hrun⟩

/-- The end is seen, but not taken. -/
lemma Gives.of_next_finish {next : Token → Reader β}
    (h : Gives (Reader.next >>= next) (l :: given) rest b) (hl : l.kind = .finish) :
    ∃ token, Token.lexeme token = l ∧ Gives (next token) (l :: given) rest b := by
  obtain ⟨hclosed, tokens, left, htokens, hleft, hrun⟩ := h
  obtain ⟨token, tokens, rfl, rfl, rfl⟩ := List.map_eq_cons_iff.mp htokens
  have hkind : ¬(token.kind != .finish) = true := by
    rw [bne_iff_ne, not_not]
    exact hl
  have hnext : Reader.next.run (token :: tokens) = .ok (token, token :: tokens) := by
    change (if (token.kind != .finish) = true then _ else _ : Reader Token).run _ = _
    rw [if_neg hkind]
    rfl
  change (Reader.next.run (token :: tokens) >>= fun (a, left) => (next a).run left) = _ at hrun
  rw [hnext] at hrun
  exact ⟨token, rfl, hclosed, token :: tokens, left, htokens, hleft, hrun⟩

/-- A reader that counts the tokens goes on. -/
lemma Gives.of_get {next : List Token → Reader β}
    (h : Gives ((get : Reader (List Token)) >>= next) given rest b) :
    ∃ tokens, Gives (next tokens) given rest b := by
  obtain ⟨hclosed, tokens, left, htokens, hleft, hrun⟩ := h
  exact ⟨tokens, hclosed, tokens, left, htokens, hleft, hrun⟩

/-- A mark is taken, or nothing. -/
lemma derives_takes (hm : m ∈ Lexeme.marks) :
    Derives (takes m.kind) fun phrase taken =>
      taken = true ∧ phrase = [m] ∨ taken = false ∧ phrase = [] := by
  intro given rest taken h
  unfold takes at h
  obtain ⟨token, more, rfl, h⟩ := h.of_peek
  by_cases hkind : token.kind = m.kind
  · rw [if_pos hkind] at h
    have hfinish : (Token.lexeme token).kind ≠ .finish := by
      rw [show (Token.lexeme token).kind = m.kind from hkind]
      exact (by decide : ∀ m ∈ Lexeme.marks, m.kind ≠ .finish) m hm
    obtain ⟨hwritten, hclosed⟩ := h.1.tail hfinish
    obtain ⟨_, -, h⟩ := h.of_next hfinish
    obtain ⟨rfl, rfl⟩ := h.eq_of_pure
    exact ⟨[m], by rw [hwritten.eq_mark hm hkind]; rfl, hclosed, Or.inl ⟨rfl, rfl⟩⟩
  · rw [if_neg hkind] at h
    obtain ⟨rfl, rfl⟩ := h.eq_of_pure
    exact ⟨[], rfl, h.1, Or.inr ⟨rfl, rfl⟩⟩

/-- One of some keywords is taken, or nothing. -/
lemma derives_takesWord (words : List String) :
    Derives (takesWord words) fun phrase taken =>
      taken = true ∧ (∃ l, phrase = [l] ∧ l.isKeyword words = true) ∨
        taken = false ∧ phrase = [] := by
  intro given rest taken h
  unfold takesWord at h
  obtain ⟨token, more, rfl, h⟩ := h.of_peek
  by_cases hkeyword : token.isKeyword words = true
  · rw [if_pos hkeyword] at h
    have hkind : (Token.lexeme token).kind = .word := eq_of_beq (Bool.and_eq_true_iff.mp hkeyword).1
    have hfinish : (Token.lexeme token).kind ≠ .finish := by
      rw [hkind]
      decide
    obtain ⟨_, -, hrest⟩ := h.of_next hfinish
    obtain ⟨rfl, rfl⟩ := hrest.eq_of_pure
    exact ⟨[Token.lexeme token], rfl, hrest.1, Or.inl ⟨rfl, _, rfl, hkeyword⟩⟩
  · rw [if_neg hkeyword] at h
    obtain ⟨rfl, rfl⟩ := h.eq_of_pure
    exact ⟨[], rfl, h.1, Or.inr ⟨rfl, rfl⟩⟩

/-- A mark that is expected is taken. -/
lemma derives_expect (hm : m ∈ Lexeme.marks) (what : String) :
    Derives (expect m.kind what) fun phrase _ => phrase = [m] := by
  intro given rest a h
  unfold expect at h
  obtain ⟨_, _, more, rfl, hphrase, hrest⟩ := h.step (derives_takes hm)
  rcases hphrase with ⟨rfl, rfl⟩ | ⟨rfl, rfl⟩
  · obtain ⟨rfl, -⟩ := hrest.eq_of_pure
    exact ⟨[m], rfl, hrest.1, rfl⟩
  · exact (not_gives_problem hrest).elim

/-- A word that is one of some keywords spells one of them. -/
lemma keyword_of_isKeyword {keyword : String} (h : l.isKeyword [keyword] = true) :
    Grammar.Keyword keyword l := by
  obtain ⟨hkind, hmem⟩ := Bool.and_eq_true_iff.mp h
  exact ⟨eq_of_beq hkind, List.mem_singleton.mp (List.contains_iff_mem.mp hmem)⟩

/-- A keyword that is expected is taken. -/
lemma derives_expectWord (keyword what : String) :
    Derives (expectWord keyword what) fun phrase _ =>
      ∃ l, phrase = [l] ∧ Grammar.Keyword keyword l := by
  intro given rest a h
  unfold expectWord at h
  obtain ⟨_, _, more, rfl, hphrase, hrest⟩ := h.step (derives_takesWord [keyword])
  rcases hphrase with ⟨rfl, l, rfl, hl⟩ | ⟨rfl, rfl⟩
  · obtain ⟨rfl, -⟩ := hrest.eq_of_pure
    exact ⟨[l], rfl, hrest.1, l, rfl, keyword_of_isKeyword hl⟩
  · exact (not_gives_problem hrest).elim

/-- A reader goes the first way after one of some keywords, and else the second way. -/
lemma Gives.taken_or {words : List String} {yes no : Reader β}
    (h : Gives (do if ← takesWord words then yes else no) given rest b) :
    (∃ l more, given = l :: more ∧ l.isKeyword words = true ∧ Gives yes more rest b) ∨
      Gives no given rest b := by
  obtain ⟨_, _, more, rfl, hphrase, hrest⟩ := h.step (derives_takesWord words)
  rcases hphrase with ⟨rfl, l, rfl, hl⟩ | ⟨rfl, rfl⟩
  · exact Or.inl ⟨l, more, rfl, hl, hrest⟩
  · exact Or.inr hrest

/-- A name is a word. -/
lemma derives_name (what : String) : Derives (name what) Grammar.Name := by
  intro given rest s h
  unfold name at h
  obtain ⟨token, more, rfl, h⟩ := h.of_peek
  by_cases hkind : token.kind = .word
  · rw [if_pos hkind] at h
    have hfinish : (Token.lexeme token).kind ≠ .finish := by
      rw [show (Token.lexeme token).kind = .word from hkind]
      decide
    obtain ⟨_, -, hrest⟩ := h.of_next hfinish
    obtain ⟨rfl, rfl⟩ := hrest.eq_of_pure
    exact ⟨[Token.lexeme token], rfl, hrest.1, by rw [Grammar.Name, word, ← hkind]; rfl⟩
  · rw [if_neg hkind] at h
    exact (not_gives_problem h).elim

/-- Where the end is expected nothing else is left. -/
lemma Gives.of_finish {next : Unit → Reader β} (h : Gives (finish >>= next) given rest b) :
    given = [Lexeme.finish] ∧ Gives (next ()) given rest b := by
  obtain ⟨_, more, hfinish, hrest⟩ := h.of_bind
  unfold finish at hfinish
  obtain ⟨token, _, rfl, hend⟩ := hfinish.of_peek
  by_cases hkind : token.kind = .finish
  · rw [if_neg (not_not.mpr hkind)] at hend
    obtain ⟨rfl, -⟩ := hend.eq_of_pure
    exact ⟨h.1.eq_finish hkind, hrest h.1⟩
  · rw [if_pos hkind] at hend
    exact (not_gives_problem hend).elim

/-! ## Items between commas -/

/-- Items that are taken one by one, each knowing those before it, make a phrase with commas between
them, and all of them together have what every one of them keeps. -/
lemma derives_commaFold {σ ι : Type} {item : σ → Reader σ} {Item : List Lexeme → ι → Prop}
    {state : List ι → σ} {Keeps : List ι → Prop}
    (hitem : ∀ before, Keeps before → Derives (item (state before)) fun phrase s =>
      ∃ x, Item phrase x ∧ s = state (before ++ [x]) ∧ Keeps (before ++ [x])) (h : Keeps []) :
    Derives (commaFold item (state [])) fun phrase s =>
      ∃ items, Grammar.Separated Item phrase items ∧ s = state items ∧ Keeps items := by
  have hfold : ∀ (fuel : Nat) (before : List ι), Keeps before →
      Derives (commaFoldWithin item fuel (state before)) fun phrase s =>
        ∃ items, Grammar.Separated Item phrase items ∧ s = state (before ++ items) ∧
          Keeps (before ++ items) := by
    intro fuel
    induction fuel with
    | zero =>
      intro before hbefore given rest s hs
      obtain ⟨phrase, hgiven, hclosed, x, hx, hstate, hkeeps⟩ := hitem before hbefore _ _ _ hs
      exact ⟨phrase, hgiven, hclosed, [x], ⟨[phrase], by simp, rfl, .cons hx .nil⟩, hstate, hkeeps⟩
    | succ fuel ih =>
      intro before hbefore given rest s hs
      rw [commaFoldWithin] at hs
      obtain ⟨phrase, _, more, rfl, ⟨x, hx, rfl, hkeeps⟩, hcomma⟩ := hs.step (hitem before hbefore)
      obtain ⟨_, _, more, rfl, hphrase, hrest⟩ :=
        hcomma.step (derives_takes (by decide : comma ∈ Lexeme.marks))
      rcases hphrase with ⟨rfl, rfl⟩ | ⟨rfl, rfl⟩
      · obtain ⟨_, rfl, hclosed, items, ⟨phrases, hne, rfl, hitems⟩, rfl, hall⟩ :=
          ih _ hkeeps _ _ _ hrest
        rw [List.append_assoc] at hall ⊢
        refine ⟨phrase ++ comma :: commaSeparated phrases, by simp, hclosed, x :: items, ?_, rfl, hall⟩
        obtain ⟨first, phrases, rfl⟩ := List.exists_cons_of_ne_nil hne
        exact ⟨phrase :: first :: phrases, by simp, rfl, .cons hx hitems⟩
      · obtain ⟨rfl, rfl⟩ := hrest.eq_of_pure
        exact ⟨phrase, rfl, hrest.1, [x], ⟨[phrase], by simp, rfl, .cons hx .nil⟩, rfl, hkeeps⟩
  intro given rest s hs
  unfold commaFold at hs
  obtain ⟨tokens, hs⟩ := hs.of_get
  exact hfold _ [] h _ _ _ hs

/-! ## Literals -/

/-- A word that has a value denotes it as a literal. -/
lemma literal_of_wordValue {s : String} {v : Value} (h : wordValue s = .ok v) :
    Grammar.Literal (word s) v := by
  unfold wordValue at h
  split at h
  · rename_i numeral hparse
    split at h
    · rename_i n hn
      obtain rfl := Except.ok.inj h
      exact .number hparse hn
    · cases h
  · rename_i hparse
    obtain rfl := Except.ok.inj h
    split_ifs with htrue hfalse hnull
    · exact .true hparse htrue
    · exact .false hparse hfalse
    · exact .null hparse hnull
    · exact .bare hparse (by simp [htrue, hfalse, hnull])

/-- A step that takes nothing gives its result. -/
lemma Gives.of_lift {step : Except Fault α} (h : Gives (liftM step >>= next) given rest b) :
    ∃ a, step = .ok a ∧ Gives (next a) given rest b := by
  obtain ⟨hclosed, tokens, left, htokens, hleft, hrun⟩ := h
  cases step with
  | error fault => cases hrun
  | ok a => exact ⟨a, rfl, hclosed, tokens, left, htokens, hleft, hrun⟩

/-- A literal is a lexeme that denotes it. -/
lemma derives_literal : Derives literal Grammar.LiteralItem := by
  intro given rest v h
  unfold literal at h
  obtain ⟨token, more, rfl, h⟩ := h.of_peek
  by_cases htext : token.kind = .text
  · rw [if_pos htext] at h
    have hfinish : (Token.lexeme token).kind ≠ .finish := by
      rw [show (Token.lexeme token).kind = .text from htext]
      decide
    obtain ⟨_, -, hrest⟩ := h.of_next hfinish
    obtain ⟨rfl, rfl⟩ := hrest.eq_of_pure
    refine ⟨[Token.lexeme token], rfl, hrest.1, _, rfl, ?_⟩
    rw [Token.lexeme, htext]
    exact .quoted token.text
  rw [if_neg htext] at h
  by_cases hword : token.kind = .word
  · rw [if_pos hword] at h
    have hfinish : (Token.lexeme token).kind ≠ .finish := by
      rw [show (Token.lexeme token).kind = .word from hword]
      decide
    obtain ⟨_, -, hvalue⟩ := h.of_next hfinish
    rw [← bind_pure (liftM (wordValue token.text) : Reader Value)] at hvalue
    obtain ⟨v, hv, hrest⟩ := hvalue.of_lift
    obtain ⟨rfl, rfl⟩ := hrest.eq_of_pure
    refine ⟨[Token.lexeme token], rfl, hrest.1, _, rfl, ?_⟩
    rw [Token.lexeme, hword]
    exact literal_of_wordValue hv
  · rw [if_neg hword] at h
    exact (not_gives_problem h).elim

/-- A word of digits that has a number denotes it as a size or a limit. -/
lemma isCount_of_count {n : Nat} (hkind : l.kind = .word) (hdigits : Text.isDigitRun l.text = true)
    (h : count l.text = .ok n) : Grammar.Count l n := by
  unfold count at h
  dsimp only at h
  split at h
  · cases h
  · rename_i m hnatural
    split at h
    · rename_i hlimit
      obtain rfl := Except.ok.inj h
      exact ⟨hkind, hdigits, hnatural, hlimit⟩
    · cases h

/-! ## Clauses -/

/-- A sign that can be written is a comparison operator. -/
lemma comparison_sign {s : String} (h : (sign s).IsWritten) :
    Grammar.Comparison (sign s) (if s = "<>" then "!=" else s) := by
  by_cases hunequal : s = "<>"
  · rw [if_pos hunequal, hunequal]
    exact .unequal
  · rw [if_neg hunequal]
    have hothers : ∀ s ∈ Lexeme.operators, s ≠ "<>" → s ∈ ["=", "!=", "<", ">", "<=", ">="] := by
      decide
    exact .sign (hothers s h hunequal)

/-- What is taken for a condition is one. -/
lemma derives_condition : Derives condition Grammar.Condition := by
  intro given rest c h
  unfold condition at h
  obtain ⟨_, column, more, rfl, rfl, hpeek⟩ := h.step (derives_name _)
  obtain ⟨token, after, rfl, hlike⟩ := hpeek.of_peek
  obtain ⟨_, like, more, hmore, hphrase, hoperator⟩ := hlike.step (derives_takesWord ["LIKE"])
  by_cases hkind : token.kind = .operator
  · rw [if_pos hkind] at hoperator
    have hsign : Token.lexeme token = sign token.text := by rw [sign, ← hkind]; rfl
    rcases hphrase with ⟨rfl, l, rfl, hl⟩ | ⟨rfl, rfl⟩
    · obtain ⟨rfl, -⟩ := List.cons.inj hmore
      rw [hsign] at hl
      cases hl
    rw [List.nil_append] at hmore
    rw [← hmore] at hoperator
    have hfinish : (Token.lexeme token).kind ≠ .finish := by
      rw [hsign]
      nofun
    have hwritten := (hoperator.1.tail hfinish).1
    obtain ⟨_, -, hliteral⟩ := hoperator.of_next hfinish
    rw [pure_bind] at hliteral
    obtain ⟨_, v, more, rfl, ⟨m, rfl, hm⟩, hrest⟩ := hliteral.step derives_literal
    obtain ⟨rfl, rfl⟩ := hrest.eq_of_pure
    rw [hsign] at hwritten
    refine ⟨[word column, Token.lexeme token, m], rfl, hrest.1, ?_⟩
    rw [hsign]
    exact .intro (comparison_sign hwritten) hm
  · rw [if_neg hkind] at hoperator
    rcases hphrase with ⟨rfl, l, rfl, hl⟩ | ⟨rfl, rfl⟩
    · rw [if_pos rfl, pure_bind] at hoperator
      obtain ⟨_, v, more, rfl, ⟨m, rfl, hm⟩, hrest⟩ := hoperator.step derives_literal
      obtain ⟨rfl, rfl⟩ := hrest.eq_of_pure
      exact ⟨[word column, l, m], by rw [hmore]; rfl, hrest.1,
        .intro (.like (keyword_of_isKeyword hl)) hm⟩
    · exact (not_gives_problem_bind hoperator).elim

/-- What is taken for an optional condition is one. -/
lemma derives_whereClause : Derives whereClause Grammar.Where := by
  intro given rest c h
  unfold whereClause at h
  rcases h.taken_or with ⟨l, more, rfl, hl, hcondition⟩ | hnone
  · obtain ⟨phrase, c, more, rfl, hphrase, hrest⟩ := hcondition.step derives_condition
    obtain ⟨rfl, rfl⟩ := hrest.eq_of_pure
    exact ⟨l :: phrase, rfl, hrest.1, .present (keyword_of_isKeyword hl) hphrase⟩
  · obtain ⟨rfl, rfl⟩ := hnone.eq_of_pure
    exact ⟨[], rfl, hnone.1, .absent⟩

/-- What is taken for an order is one. -/
lemma derives_orderClause : Derives orderClause Grammar.Order := by
  intro given rest order h
  unfold orderClause at h
  rcases h.taken_or with ⟨l, more, rfl, hl, hby⟩ | hnone
  · have hl := keyword_of_isKeyword hl
    obtain ⟨_, _, more, rfl, ⟨m, rfl, hm⟩, hname⟩ := hby.step (derives_expectWord _ _)
    obtain ⟨_, column, more, rfl, rfl, hdirection⟩ := hname.step (derives_name _)
    rcases hdirection.taken_or with ⟨n, more, rfl, hn, hrest⟩ | hascending
    · obtain ⟨rfl, rfl⟩ := hrest.eq_of_pure
      exact ⟨[l, m, word column, n], rfl, hrest.1,
        .present hl hm (.descending (keyword_of_isKeyword hn))⟩
    · obtain ⟨_, _, more, rfl, hphrase, hrest⟩ := hascending.step (derives_takesWord ["ASC"])
      obtain ⟨rfl, rfl⟩ := hrest.eq_of_pure
      rcases hphrase with ⟨-, n, rfl, hn⟩ | ⟨-, rfl⟩
      · exact ⟨[l, m, word column, n], rfl, hrest.1,
          .present hl hm (.ascending (keyword_of_isKeyword hn))⟩
      · exact ⟨[l, m, word column], rfl, hrest.1, .present hl hm .absent⟩
  · obtain ⟨rfl, rfl⟩ := hnone.eq_of_pure
    exact ⟨[], rfl, hnone.1, .absent⟩

/-- What is taken for a limit is one. -/
lemma derives_limitClause : Derives limitClause Grammar.Limit := by
  intro given rest limit h
  unfold limitClause at h
  rcases h.taken_or with ⟨l, more, rfl, hl, hpeek⟩ | hnone
  · obtain ⟨token, after, rfl, hvalid⟩ := hpeek.of_peek
    by_cases hdigits : (token.kind = .word && Text.isDigitRun token.text) = true
    · rw [if_pos hdigits] at hvalid
      obtain ⟨hkind, hdigits⟩ := Bool.and_eq_true_iff.mp hdigits
      have hword : (Token.lexeme token).kind = .word := of_decide_eq_true hkind
      obtain ⟨_, -, hcount⟩ := hvalid.of_next (by rw [hword]; decide)
      obtain ⟨n, hn, hrest⟩ := hcount.of_lift
      obtain ⟨rfl, rfl⟩ := hrest.eq_of_pure
      exact ⟨[l, Token.lexeme token], rfl, hrest.1,
        .present (keyword_of_isKeyword hl) (isCount_of_count hword hdigits hn)⟩
    · rw [if_neg hdigits] at hvalid
      exact (not_gives_problem_bind hvalid).elim
  · obtain ⟨rfl, rfl⟩ := hnone.eq_of_pure
    exact ⟨[], rfl, hnone.1, .absent⟩

end Reader

end RecordStore.Query
