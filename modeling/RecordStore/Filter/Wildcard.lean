/-!
# Wildcards

A pattern in which `%` stands for any run of characters, even an empty one, `_` for any one
character, and every other character for itself. A pattern must match the whole text.

A pattern is worked off from its end: for the rest of the pattern already done, a row of truth
values says which suffixes of the text it matches, the whole text first and the empty suffix last.
-/

namespace RecordStore.Wildcard

/-- For every suffix of a row, whether it holds a true value. -/
def anyFrom : List Bool → List Bool
  | [] => []
  | b :: rest => (b || rest.any id) :: anyFrom rest

/-- The row of a pattern from the row of the pattern after its first character. -/
def extend (text : List Char) (p : Char) (row : List Bool) : List Bool :=
  if p = '%' then anyFrom row
  else List.zipWith (fun c matched => (p = '_' || p = c) && matched) text row.tail ++ [false]

/-- The suffixes of a text that an empty pattern matches: only the empty one. -/
def emptyRow (text : List Char) : List Bool :=
  List.replicate text.length false ++ [true]

/-- Which suffixes of a text a pattern matches. -/
def row (pattern text : List Char) : List Bool :=
  pattern.foldr (extend text) (emptyRow text)

/-- Whether a pattern matches a text. -/
def isMatch (pattern text : String) : Bool :=
  (row pattern.toList text.toList).headD false

end RecordStore.Wildcard
