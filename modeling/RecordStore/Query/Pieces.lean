import RecordStore.Query.Execution

/-!
# Queries in pieces

A query can also come as a list of values instead of a text. Each item that is text then takes the
place of one character, whatever its length: an item of blanks separates, an item that is a quote
opens a quoted text up to the next item that is the same, and all items in between are its inside.
The first item that is nothing ends the query, and no other kind of item can stand outside quotes.
Positions count items.
-/

namespace RecordStore.Query

/-- Whether one list of characters occurs within another. -/
def occursIn (part : List Char) : List Char → Bool
  | [] => part.isEmpty
  | c :: rest => part.isPrefixOf (c :: rest) || occursIn part rest

/-- What an item of a query is taken for. -/
inductive PieceKind where
  | gap
  | quote
  | punctuation (kind : TokenKind)
  | operator
  | word
  deriving DecidableEq

/-- What an item of a query is taken for. An empty item opens a quoted text. -/
def PieceKind.ofText (s : String) : PieceKind :=
  let cs := s.toList
  if (!cs.isEmpty && cs.all Text.isBlank) || s == ";" then .gap
  else if occursIn cs ['\'', '"'] then .quote
  else
    match cs.head?.bind punctuation? with
    | some kind => if cs.length = 1 then .punctuation kind else .word
    | none => if occursIn cs ['=', '!', '<', '>'] then .operator else .word

namespace Pieces

/-- The texts of the inside of a quotation, if all of its items are text. -/
def insideText (inside : List Value) : Except Fault String :=
  match inside.mapM Value.text? with
  | some texts => .ok (String.join texts)
  | none => .error .wrongType

/-- Takes the items of a quoted text up to the one that closes it; the opening item in it is written
twice or after a backslash. -/
def takeQuoted? (quote : String) : List Value → Option (List Value × List Value)
  | [] => none
  | [v] => if v.text? = some quote then some ([], []) else none
  | v :: w :: rest =>
    let isQuote := v.text? = some quote
    if (v.text? = some "\\" ∨ isQuote) ∧ w.text? = some quote then
      (takeQuoted? quote rest).map fun (inside, after) => (w :: inside, after)
    else if isQuote then some ([], w :: rest)
    else if v.isNull then none
    else (takeQuoted? quote (w :: rest)).map fun (inside, after) => (v :: inside, after)

/-- Takes the items of a word. An item that is not text is a fault unless it ends the query. -/
def takeWord : List Value → Except Fault (List String × List Value)
  | [] => .ok ([], [])
  | .null :: rest => .ok ([], .null :: rest)
  | .text s :: rest =>
    if PieceKind.ofText s = .word then
      (takeWord rest).map fun (texts, after) => (s :: texts, after)
    else .ok ([], .text s :: rest)
  | _ => .error .wrongShape

/-- Reads the tokens of items, the first of which is at the given position. The number of items is
enough fuel. -/
def scanFrom (fuel position : Nat) (items : List Value) : Except Fault (List Token) :=
  match fuel, items with
  | _, [] => .ok [⟨.finish, "", position⟩]
  | _, .null :: _ => .ok [⟨.finish, "", position⟩]
  | fuel + 1, .text s :: rest =>
    match PieceKind.ofText s with
    | .gap => scanFrom fuel (position + 1) rest
    | .quote =>
      match takeQuoted? s rest with
      | none => .error (.badQuery (.unterminated position))
      | some (inside, after) => do
        let text ← insideText inside
        let tokens ← scanFrom fuel (position + 1 + (rest.length - after.length)) after
        return ⟨.text, text, position⟩ :: tokens
    | .punctuation kind =>
      (scanFrom fuel (position + 1) rest).map (⟨kind, s, position⟩ :: ·)
    | .operator =>
      if s = "!" then .error (.badQuery (.strayMark position))
      else (scanFrom fuel (position + 1) rest).map (⟨.operator, s, position⟩ :: ·)
    | .word => do
      let (texts, after) ← takeWord rest
      let tokens ← scanFrom fuel (position + 1 + texts.length) after
      return ⟨.word, String.join (s :: texts), position⟩ :: tokens
  | _, _ => .error .wrongShape

/-- The command that a list of items denotes. -/
def command (items : List Value) : Except Fault Command :=
  (scanFrom items.length 0 items).bind Command.ofTokens

end Pieces

/-- Reads and carries out a query in pieces; refusals become results. -/
def executePieces (items : List Value) : Work Site Result :=
  executeCommand (Pieces.command items) ((Value.list items).display?.getD "")

end RecordStore.Query
