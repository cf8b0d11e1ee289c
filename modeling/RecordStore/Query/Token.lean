import RecordStore.Query.Problem
import RecordStore.Text.Blank
import RecordStore.Text.Case

/-!
# Tokens

A query is read as a sequence of tokens. Blanks and semicolons separate tokens and are dropped.
Quoted text becomes one token without its quotes; inside it the quote is written twice or after a
backslash. Parentheses, commas, stars and comparison operators stand for themselves, and all other
characters form words. Every token knows the position of its first character, and an end token at
the length of the text comes last.
-/

namespace RecordStore.Query

/-- The kinds of tokens. -/
inductive TokenKind where
  /-- A keyword, a name, a number or a bare literal. -/
  | word
  /-- Quoted text. -/
  | text
  | operator
  | openParen
  | closeParen
  | comma
  | star
  /-- The end of the query. -/
  | finish
  deriving DecidableEq

/-- A token: its kind, its text without quotes, and the position of its first character. -/
structure Token where
  kind : TokenKind
  text : String
  position : Nat
  deriving DecidableEq

/-- Whether a character only separates tokens. -/
def isGap (c : Char) : Bool :=
  Text.isBlank c || c == ';'

/-- Whether a character opens a quoted text. -/
def isQuote (c : Char) : Bool :=
  c == '\'' || c == '"'

/-- The kind of a token that is a single character of punctuation. -/
def punctuation? (c : Char) : Option TokenKind :=
  if c == '(' then some .openParen
  else if c == ')' then some .closeParen
  else if c == ',' then some .comma
  else if c == '*' then some .star
  else none

/-- Whether a character belongs to comparison operators. -/
def isOperatorChar (c : Char) : Bool :=
  c == '=' || c == '!' || c == '<' || c == '>'

/-- The operators of two characters. -/
def longOperators : List (Char × Char) :=
  [('!', '='), ('<', '>'), ('<', '='), ('>', '=')]

/-- Whether a character can be part of a word. -/
def isWordChar (c : Char) : Bool :=
  !(isGap c || isQuote c || (punctuation? c).isSome || isOperatorChar c)

/-- Reads the inside of a quoted text up to the quote that closes it: the text without escapes, and
what follows. -/
def readQuoted? (quote : Char) : List Char → Option (List Char × List Char)
  | [] => none
  | [c] => if c = quote then some ([], []) else none
  | c :: d :: rest =>
    if (c = '\\' ∨ c = quote) ∧ d = quote then
      (readQuoted? quote rest).map fun (inside, after) => (quote :: inside, after)
    else if c = quote then some ([], d :: rest)
    else (readQuoted? quote (d :: rest)).map fun (inside, after) => (c :: inside, after)

/-- What follows a quoted text is shorter than what begins with its inside. -/
theorem length_lt_of_readQuoted {quote : Char} {cs inside after : List Char}
    (h : readQuoted? quote cs = some (inside, after)) : after.length < cs.length := by
  fun_induction readQuoted? quote cs generalizing inside after with
  | case1 => simp at h
  | case2 => simp_all
  | case3 => simp_all
  | case4 c d rest hcd ih =>
    obtain ⟨⟨i, a⟩, hia, heq⟩ := Option.map_eq_some_iff.1 h
    have := ih hia
    cases heq
    simp only [List.length_cons]
    omega
  | case5 => simp_all
  | case6 c d rest _ _ ih =>
    obtain ⟨⟨i, a⟩, hia, heq⟩ := Option.map_eq_some_iff.1 h
    have := ih hia
    cases heq
    simp only [List.length_cons] at this ⊢
    omega

/-- Reads the tokens of a text whose first character is at the given position. -/
def Token.scanFrom (position : Nat) (cs : List Char) : Except Problem (List Token) :=
  match cs with
  | [] => .ok [⟨.finish, "", position⟩]
  | c :: rest =>
    if isGap c then scanFrom (position + 1) rest
    else if isQuote c then
      match h : readQuoted? c rest with
      | none => .error (.unterminated position)
      | some (inside, after) =>
        have := length_lt_of_readQuoted h
        (scanFrom (position + 1 + (rest.length - after.length)) after).map
          (⟨.text, String.ofList inside, position⟩ :: ·)
    else
      match punctuation? c with
      | some kind =>
        (scanFrom (position + 1) rest).map (⟨kind, String.ofList [c], position⟩ :: ·)
      | none =>
        if isOperatorChar c then
          match rest with
          | d :: rest =>
            if longOperators.contains (c, d) then
              (scanFrom (position + 2) rest).map
                (⟨.operator, String.ofList [c, d], position⟩ :: ·)
            else if c = '!' then .error (.strayMark position)
            else
              (scanFrom (position + 1) (d :: rest)).map
                (⟨.operator, String.ofList [c], position⟩ :: ·)
          | [] =>
            if c = '!' then .error (.strayMark position)
            else
              (scanFrom (position + 1) []).map (⟨.operator, String.ofList [c], position⟩ :: ·)
        else
          let more := rest.takeWhile isWordChar
          have := (rest.dropWhile_suffix isWordChar).length_le
          (scanFrom (position + 1 + more.length) (rest.dropWhile isWordChar)).map
            (⟨.word, String.ofList (c :: more), position⟩ :: ·)
termination_by cs.length
decreasing_by all_goals simp_all <;> omega

/-- The tokens of a query, the end token last. -/
def Token.ofText (text : String) : Except Problem (List Token) :=
  Token.scanFrom 0 text.toList

/-- Whether a token is one of some keywords, given in upper case. -/
def Token.isKeyword (token : Token) (words : List String) : Bool :=
  token.kind == .word && words.contains (Text.upper token.text)

end RecordStore.Query
