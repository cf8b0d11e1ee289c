import RecordStore.Query.Token

/-!
# Tokens on a line

A lexeme is a token wherever it stands.  Lexemes are laid out on a line with single blanks between
them, and none behind an opening parenthesis or in front of a closing one or a comma.  A word and an
operator stand for themselves, and a text stands between quotes, with a backslash in front of each
quote inside.  A text may hold any characters, but it may not end in a backslash, which would hide the
quote that closes it.
-/

namespace RecordStore.Query

/-- A token wherever it stands: its kind, and its text without quotes. -/
structure Lexeme where
  kind : TokenKind
  text : String
  deriving DecidableEq

/-- What a token is wherever it stands. -/
def Token.lexeme (token : Token) : Lexeme :=
  ⟨token.kind, token.text⟩

namespace Lexeme

/-- Characters with a backslash in front of each quote. -/
def escapeQuotes (cs : List Char) : List Char :=
  cs.flatMap fun c => if c = '\'' then ['\\', '\''] else [c]

/-- The characters that a lexeme is written with. -/
def chars (l : Lexeme) : List Char :=
  if l.kind = .text then '\'' :: (escapeQuotes l.text.toList ++ ['\'']) else l.text.toList

/-- What stands between a lexeme and the next one. -/
def gap (before after : Lexeme) : List Char :=
  if before.kind = .openParen ∨ after.kind = .closeParen ∨ after.kind = .comma then [] else [' ']

/-- The line on which lexemes are laid out. -/
def layOut : List Lexeme → List Char
  | [] => []
  | [l] => l.chars
  | l :: next :: rest => l.chars ++ (gap l next ++ layOut (next :: rest))

/-- The operators of the language. -/
def operators : List String :=
  ["=", "!=", "<", ">", "<=", ">=", "<>"]

/-- A text that may be a word: it is not empty, and all its characters belong to words. -/
def IsBare (s : String) : Prop :=
  s ≠ "" ∧ ∀ c ∈ s.toList, isWordChar c = true

/-- A text that may stand between quotes: its last character is no backslash. -/
def IsQuotable (s : String) : Prop :=
  s.toList.getLast? ≠ some '\\'

/-- A lexeme can be written so that it is taken for what it is. -/
def IsWritten (l : Lexeme) : Prop :=
  match l.kind with
  | .word => IsBare l.text
  | .text => IsQuotable l.text
  | .operator => l.text ∈ operators
  | .openParen => l.text = "("
  | .closeParen => l.text = ")"
  | .comma => l.text = ","
  | .star => l.text = "*"
  | .finish => False

/-- The end of a line, as a lexeme. -/
def finish : Lexeme :=
  ⟨.finish, ""⟩

end Lexeme

end RecordStore.Query
