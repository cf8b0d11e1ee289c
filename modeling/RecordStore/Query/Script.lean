import RecordStore.Query.Token

/-!
# Scripts

A script is cut into statements at the semicolons outside quotes. Here a quote is simply closed by
the next quote of its kind. Blanks around a statement are dropped, and so are empty statements.
-/

namespace RecordStore.Query.Script

/-- Cuts characters at the semicolons outside quotes. `quote` is the open quote, if any, and
`current` holds the characters of the present piece in reverse order. -/
def piecesFrom (quote : Option Char) (current : List Char) : List Char → List (List Char)
  | [] => [current.reverse]
  | c :: rest =>
    match quote with
    | some open' => piecesFrom (if c = open' then none else quote) (c :: current) rest
    | none =>
      if isQuote c then piecesFrom (some c) (c :: current) rest
      else if c = ';' then current.reverse :: piecesFrom none [] rest
      else piecesFrom none (c :: current) rest

/-- The statements of a script as characters. -/
def statementsOf (cs : List Char) : List (List Char) :=
  ((piecesFrom none [] cs).map Text.stripChars).filter fun piece => !piece.isEmpty

/-- The statements of a script. -/
def statements (script : String) : List String :=
  (statementsOf script.toList).map String.ofList

end RecordStore.Query.Script
