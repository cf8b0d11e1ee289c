import RecordStore.Proofs.Query.Grammar
import RecordStore.Query.Reading

/-!
# Readers and the lexemes that they are given

A reader that is given the lexemes of what it is to read, and others behind them, gives just this and
leaves the others.  A reader of several things goes on from what the one before has left, and items
between commas are read one after the other, each knowing those before it.  What may be left out is
found missing by the lexeme that comes next.
-/

namespace RecordStore.Query

open Lexeme (word sign openParen comma)

/-- A lexeme is one of some keywords, given in upper case. -/
def Lexeme.isKeyword (l : Lexeme) (words : List String) : Bool :=
  l.kind == .word && words.contains (Text.upper l.text)

/-- Whether a token is a keyword only depends on its lexeme. -/
lemma isKeyword_of_lexeme {token : Token} {l : Lexeme} (h : token.lexeme = l) (words : List String) :
    token.isKeyword words = l.isKeyword words := by
  rw [← h]
  rfl

/-- A word that spells a keyword is one of some keywords if these have it. -/
lemma Grammar.Keyword.isKeyword {keyword : String} {l : Lexeme} (h : Keyword keyword l)
    (words : List String) : l.isKeyword words = words.contains keyword := by
  rw [Lexeme.isKeyword, h.1, h.2]
  rfl

/-- A word that spells one of some keywords is one of them. -/
lemma Grammar.Keyword.isKeyword_of_mem {keyword : String} {l : Lexeme} (h : Keyword keyword l)
    {words : List String} (hmem : keyword ∈ words) : l.isKeyword words = true := by
  rw [h.isKeyword, List.contains_iff_mem]
  exact hmem

/-- A word that spells none of some keywords is none of them. -/
lemma Grammar.Keyword.isKeyword_of_not_mem {keyword : String} {l : Lexeme} (h : Keyword keyword l)
    {words : List String} (hmem : keyword ∉ words) : l.isKeyword words = false := by
  rw [h.isKeyword, ← Bool.not_eq_true, List.contains_iff_mem]
  exact hmem

namespace Reader

variable {α β : Type} {given rest : List Lexeme} {a : α} {b : β} {l : Lexeme}

/-- From the given lexemes a reader gives something, and leaves the rest. -/
def Reads (reader : Reader α) (given rest : List Lexeme) (a : α) : Prop :=
  ∀ tokens, tokens.map Token.lexeme = given →
    ∃ left, left.map Token.lexeme = rest ∧ reader.run tokens = .ok (a, left)

/-! ## Steps of readers -/

/-- What is returned takes no lexeme. -/
lemma Reads.pure : Reads (Pure.pure a) given given a :=
  fun tokens htokens => ⟨tokens, htokens, rfl⟩

/-- A reader goes on from what the one before has left. -/
lemma Reads.bind {reader : Reader α} {next : α → Reader β} {between : List Lexeme}
    (h : Reads reader given between a) (hnext : Reads (next a) between rest b) :
    Reads (reader >>= next) given rest b := by
  intro tokens htokens
  obtain ⟨left, hleft, hrun⟩ := h tokens htokens
  obtain ⟨last, hlast, hrest⟩ := hnext left hleft
  refine ⟨last, hlast, ?_⟩
  change (reader.run tokens >>= fun (a, left) => (next a).run left) = _
  rw [hrun]
  exact hrest

/-- A reader that looks at the next token sees the next lexeme. -/
lemma reads_peek {next : Token → Reader β}
    (h : ∀ token : Token, token.lexeme = l → Reads (next token) (l :: given) rest b) :
    Reads (peek >>= next) (l :: given) rest b := by
  intro tokens htokens
  obtain ⟨token, more, rfl, hl, -⟩ := List.map_eq_cons_iff.mp htokens
  exact h token hl _ htokens

/-- A token that is taken is the next lexeme. -/
lemma reads_next {next : Token → Reader β} (hl : l.kind ≠ .finish)
    (h : ∀ token : Token, token.lexeme = l → Reads (next token) given rest b) :
    Reads (Reader.next >>= next) (l :: given) rest b := by
  intro tokens htokens
  obtain ⟨token, more, rfl, rfl, hmore⟩ := List.map_eq_cons_iff.mp htokens
  have hkind : (token.kind != .finish) = true := bne_iff_ne.mpr hl
  obtain ⟨left, hleft, hrun⟩ := h token rfl more hmore
  refine ⟨left, hleft, ?_⟩
  have hnext : Reader.next.run (token :: more) = .ok (token, more) := by
    change (if (token.kind != .finish) = true then _ else _ : Reader Token).run _ = _
    rw [if_pos hkind]
    rfl
  change (Reader.next.run (token :: more) >>= fun (a, left) => (next a).run left) = _
  rw [hnext]
  exact hrun

/-- A token of a kind is taken if it comes next. -/
lemma reads_takes {kind : TokenKind} (h : l.kind = kind) (hfinish : l.kind ≠ .finish) :
    Reads (takes kind) (l :: given) given true := by
  unfold takes
  refine reads_peek fun token htoken => ?_
  have hkind : token.kind = kind := (congrArg Lexeme.kind htoken).trans h
  rw [if_pos hkind]
  exact reads_next hfinish fun _ _ => .pure

/-- A token of another kind is not taken. -/
lemma reads_takes_not {kind : TokenKind} (h : l.kind ≠ kind) :
    Reads (takes kind) (l :: given) (l :: given) false := by
  unfold takes
  refine reads_peek fun token htoken => ?_
  have hkind : token.kind ≠ kind := fun heq => h ((congrArg Lexeme.kind htoken).symm.trans heq)
  rw [if_neg hkind]
  exact .pure

/-- A keyword is taken if it comes next. -/
lemma reads_takesWord {words : List String} (h : l.isKeyword words = true) :
    Reads (takesWord words) (l :: given) given true := by
  unfold takesWord
  refine reads_peek fun token htoken => ?_
  rw [isKeyword_of_lexeme htoken, if_pos h]
  have hword : l.kind = .word := eq_of_beq (Bool.and_eq_true_iff.mp h).1
  exact reads_next (by rw [hword]; decide) fun _ _ => .pure

/-- What is none of some keywords is not taken. -/
lemma reads_takesWord_not {words : List String} (h : l.isKeyword words = false) :
    Reads (takesWord words) (l :: given) (l :: given) false := by
  unfold takesWord
  refine reads_peek fun token htoken => ?_
  rw [isKeyword_of_lexeme htoken, h, if_neg Bool.false_ne_true]
  exact .pure

/-- A reader goes the first way if one of some keywords comes next. -/
lemma Reads.taken {words : List String} {yes no : Reader β} (h : l.isKeyword words = true)
    (hyes : Reads yes given rest b) :
    Reads (do if ← takesWord words then yes else no) (l :: given) rest b := by
  refine (reads_takesWord h).bind ?_
  rw [if_pos rfl]
  exact hyes

/-- A reader goes the second way if none of some keywords comes next. -/
lemma Reads.skipped {words : List String} {yes no : Reader β} (h : l.isKeyword words = false)
    (hno : Reads no (l :: given) rest b) :
    Reads (do if ← takesWord words then yes else no) (l :: given) rest b := by
  refine (reads_takesWord_not h).bind ?_
  rw [if_neg Bool.false_ne_true]
  exact hno

/-- A token of a kind that is expected is taken. -/
lemma reads_expect {kind : TokenKind} (h : l.kind = kind) (hfinish : l.kind ≠ .finish)
    (what : String) : Reads (expect kind what) (l :: given) given () := by
  unfold expect
  refine (reads_takes h hfinish).bind ?_
  rw [if_pos rfl]
  exact .pure

/-- A keyword that is expected is taken. -/
lemma reads_expectWord {keyword : String} (h : Grammar.Keyword keyword l) (what : String) :
    Reads (expectWord keyword what) (l :: given) given () := by
  unfold expectWord
  refine (reads_takesWord (h.isKeyword_of_mem List.mem_cons_self)).bind ?_
  rw [if_pos rfl]
  exact .pure

/-- A name is a word that comes next. -/
lemma reads_name (s what : String) : Reads (name what) (word s :: given) given s := by
  unfold name
  refine reads_peek fun token htoken => ?_
  have hkind : token.kind = .word := congrArg Lexeme.kind htoken
  have htext : token.text = s := congrArg Lexeme.text htoken
  rw [if_pos hkind, htext]
  exact reads_next nofun fun _ _ => .pure

/-- The end that is expected is there. -/
lemma reads_finish : Reads finish (Lexeme.finish :: given) (Lexeme.finish :: given) () := by
  unfold finish
  refine reads_peek fun token htoken => ?_
  have hkind : token.kind = .finish := congrArg Lexeme.kind htoken
  rw [if_neg (not_not.mpr hkind)]
  exact .pure

/-- A reader that counts the tokens counts the lexemes. -/
lemma reads_length (next : Nat → Reader β) (h : Reads (next given.length) given rest b) :
    Reads (do next (← get).length) given rest b := by
  intro tokens htokens
  obtain ⟨left, hleft, hrun⟩ := h tokens htokens
  refine ⟨left, hleft, ?_⟩
  rw [← htokens, List.length_map] at hrun
  exact hrun

/-! ## Items between commas -/

/-- There are no more items than lexemes, up to the first item. -/
lemma length_le_commaSeparated (item : List Lexeme) (items : List (List Lexeme)) :
    items.length ≤ (commaSeparated (item :: items)).length := by
  induction items generalizing item with
  | nil => exact Nat.zero_le _
  | cons next items ih =>
    have hrest := ih next
    rw [commaSeparated, List.length_append, List.length_cons, List.length_cons]
    omega

section

variable {σ ι : Type} {item : σ → Reader σ} {Item : List Lexeme → ι → Prop} {state : List ι → σ}
  {items : List ι} {last : Lexeme}

/-- Each of some items is read from its phrase, if all those before it have been read and a comma or
the given rest follows. -/
def ReadsItems (item : σ → Reader σ) (Item : List Lexeme → ι → Prop) (state : List ι → σ)
    (items : List ι) (rest : List Lexeme) : Prop :=
  ∀ before x after, before ++ x :: after = items → ∀ phrase, Item phrase x → ∀ next,
    (next = rest ∨ ∃ more, next = comma :: more) →
      Reads (item (state before)) (phrase ++ next) next (state (before ++ [x]))

/-- Items with commas between them are read one after the other. -/
lemma reads_commaFoldWithin (hlast : last.kind ≠ .comma)
    (hitems : ReadsItems item Item state items (last :: rest)) {before : List ι} {x : ι}
    {xs : List ι} (hall : before ++ x :: xs = items) {phrase : List Lexeme}
    {phrases : List (List Lexeme)} (hx : Item phrase x) (hxs : List.Forall₂ Item phrases xs)
    {fuel : Nat} (hfuel : phrases.length ≤ fuel) :
    Reads (commaFoldWithin item fuel (state before))
      (commaSeparated (phrase :: phrases) ++ last :: rest) (last :: rest) (state items) := by
  induction hxs generalizing before x phrase fuel with
  | nil =>
    have hitem := hitems before x [] hall phrase hx _ (Or.inl rfl)
    rw [hall] at hitem
    cases fuel with
    | zero => exact hitem
    | succ fuel =>
      rw [commaFoldWithin]
      refine hitem.bind ((reads_takes_not hlast).bind ?_)
      rw [if_neg Bool.false_ne_true]
      exact .pure
  | @cons next y phrases ys hy _ ih =>
    obtain ⟨fuel, rfl⟩ : ∃ n, fuel = n + 1 := Nat.exists_eq_succ_of_ne_zero (by simp at hfuel; omega)
    rw [commaFoldWithin, commaSeparated, List.append_assoc, List.cons_append]
    refine (hitems before x (y :: ys) hall phrase hx _ (Or.inr ⟨_, rfl⟩)).bind ?_
    refine (reads_takes rfl (by decide)).bind ?_
    rw [if_pos rfl]
    have hmore : (before ++ [x]) ++ y :: ys = items := by rw [List.append_assoc]; exact hall
    exact ih hmore hy (by simpa using hfuel)

/-- Items with commas between them are read as a whole. -/
lemma reads_commaFold {phrase : List Lexeme} (h : Grammar.Separated Item phrase items)
    (hlast : last.kind ≠ .comma) (hitems : ReadsItems item Item state items (last :: rest)) :
    Reads (commaFold item (state [])) (phrase ++ last :: rest) (last :: rest) (state items) := by
  obtain ⟨phrases, hne, rfl, hforall⟩ := h
  cases hforall with
  | nil => exact absurd rfl hne
  | @cons first x phrases xs hx hxs =>
    unfold commaFold
    refine reads_length (fun n => commaFoldWithin item n (state [])) ?_
    refine reads_commaFoldWithin hlast hitems (List.nil_append _) hx hxs ?_
    have hlength := length_le_commaSeparated first phrases
    rw [List.length_append]
    omega

end

end Reader

end RecordStore.Query
