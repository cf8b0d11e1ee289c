import RecordStore.Proofs.Query.Printing

/-!
# The grammar of the query language

Which lexemes make a statement, and the command that they denote.  A phrase is a list of lexemes; each
kind of phrase is a relation between phrases and what they denote.  No word is reserved: a name is any
word, and a keyword is a word that spells it in any case.  Only the first lexeme of a statement may also
stand between quotes.  What a list of lexemes cannot tell by its shape is said beside it: names that
must not come twice, as many values as columns, and words of digits that denote numbers.
-/

namespace RecordStore.Query.Grammar

open Lexeme (word quoted sign openParen closeParen comma star)

/-! ## Words -/

/-- A word that spells a keyword, in any case. -/
def Keyword (keyword : String) (l : Lexeme) : Prop :=
  l.kind = .word ∧ Text.upper l.text = keyword

/-- What a statement begins with spells a keyword, between quotes or not. -/
def Opening (keyword : String) (l : Lexeme) : Prop :=
  (l.kind = .word ∨ l.kind = .text) ∧ Text.upper l.text = keyword

/-- A name is any word. -/
def Name (phrase : List Lexeme) (s : String) : Prop :=
  phrase = [word s]

/-- What a lexeme denotes as a literal.  A text between quotes is itself, and a word is a number if it
looks like one, or else a truth value or nothing if it says so, or else a text. -/
inductive Literal : Lexeme → Value → Prop
  | quoted (s : String) : Literal (quoted s) (.text s)
  | number {s : String} {numeral : Numeral} {n : Number}
      (hparse : Numeral.parse? s.toList = some numeral) (hn : numeral.number? = some n) :
      Literal (word s) (.ofNumber n)
  | true {s : String} (hparse : Numeral.parse? s.toList = none) (h : Text.upper s = "TRUE") :
      Literal (word s) (.bool true)
  | false {s : String} (hparse : Numeral.parse? s.toList = none) (h : Text.upper s = "FALSE") :
      Literal (word s) (.bool false)
  | null {s : String} (hparse : Numeral.parse? s.toList = none) (h : Text.upper s = "NULL") :
      Literal (word s) .null
  | bare {s : String} (hparse : Numeral.parse? s.toList = none)
      (h : Text.upper s ∉ ["TRUE", "FALSE", "NULL"]) : Literal (word s) (.text s)

/-- A literal as a phrase. -/
def LiteralItem (phrase : List Lexeme) (v : Value) : Prop :=
  ∃ l, phrase = [l] ∧ Literal l v

/-- The number that a word of digits denotes as a size or a limit: all its digits are decimal, and
there are not too many. -/
structure Count (l : Lexeme) (n : Nat) : Prop where
  kind : l.kind = .word
  digits : Text.isDigitRun l.text = true
  natural : Text.naturalOfDigits? l.text.toList = some n
  limit : l.text.toList.length ≤ Number.digitLimit

/-- Items with commas between them, and at least one of them. -/
def Separated {α : Type} (Item : List Lexeme → α → Prop) (phrase : List Lexeme) (items : List α) :
    Prop :=
  ∃ phrases, phrases ≠ [] ∧ phrase = commaSeparated phrases ∧ List.Forall₂ Item phrases items

/-! ## Clauses -/

/-- A comparison operator. -/
inductive Comparison : Lexeme → String → Prop
  | sign {s : String} (h : s ∈ ["=", "!=", "<", ">", "<=", ">="]) : Comparison (sign s) s
  | unequal : Comparison (sign "<>") "!="
  | like {l : Lexeme} (h : Keyword "LIKE" l) : Comparison l "LIKE"

/-- A condition compares a column with a literal. -/
inductive Condition : List Lexeme → Query.Condition → Prop
  | intro {column operator : String} {l m : Lexeme} {v : Value} (hoperator : Comparison l operator)
      (hvalue : Literal m v) : Condition [word column, l, m] ⟨column, operator, v⟩

/-- An optional condition. -/
inductive Where : List Lexeme → Option Query.Condition → Prop
  | absent : Where [] none
  | present {l : Lexeme} {phrase : List Lexeme} {c : Query.Condition} (hl : Keyword "WHERE" l)
      (h : Condition phrase c) : Where (l :: phrase) (some c)

/-- The direction of an order, which is ascending if it is not given. -/
inductive Direction : List Lexeme → Bool → Prop
  | absent : Direction [] false
  | ascending {l : Lexeme} (h : Keyword "ASC" l) : Direction [l] false
  | descending {l : Lexeme} (h : Keyword "DESC" l) : Direction [l] true

/-- An optional order. -/
inductive Order : List Lexeme → Option String × Bool → Prop
  | absent : Order [] (none, false)
  | present {l m : Lexeme} {column : String} {phrase : List Lexeme} {descending : Bool}
      (hl : Keyword "ORDER" l) (hm : Keyword "BY" m) (h : Direction phrase descending) :
      Order (l :: m :: word column :: phrase) (some column, descending)

/-- An optional limit. -/
inductive Limit : List Lexeme → Option Nat → Prop
  | absent : Limit [] none
  | present {l m : Lexeme} {n : Nat} (hl : Keyword "LIMIT" l) (hm : Count m n) :
      Limit [l, m] (some n)

/-! ## Declarations -/

/-- A reference names a table, and perhaps one of its columns. -/
inductive Reference : List Lexeme → Value → Prop
  | table (table : String) : Reference [word table] (Value.ofFields (referenceFields table none))
  | column (table column : String) :
      Reference [word table, openParen, word column, closeParen]
        (Value.ofFields (referenceFields table (some column)))

/-- A property of a column, and the field that it declares, if any. -/
inductive Property : List Lexeme → Fields → Prop
  | primaryKey {l m : Lexeme} (hl : Keyword "PRIMARY" l) (hm : Keyword "KEY" m) :
      Property [l, m] [("primaryKey", .bool true)]
  | unique {l : Lexeme} (hl : Keyword "UNIQUE" l) : Property [l] [("unique", .bool true)]
  | autoIncrement {l : Lexeme} (hl : Keyword "AUTO_INCREMENT" l ∨ Keyword "AUTOINCREMENT" l) :
      Property [l] [("autoIncrement", .bool true)]
  | required {l m : Lexeme} (hl : Keyword "NOT" l) (hm : Keyword "NULL" m) :
      Property [l, m] [("required", .bool true)]
  | optional {l : Lexeme} (hl : Keyword "NULL" l) : Property [l] []
  | default {l m : Lexeme} {v : Value} (hl : Keyword "DEFAULT" l) (hm : Literal m v) :
      Property [l, m] [("defaultValue", v)]
  | reference {l : Lexeme} {phrase : List Lexeme} {v : Value} (hl : Keyword "REFERENCES" l)
      (h : Reference phrase v) : Property (l :: phrase) [("foreignKey", v)]

/-- An optional size, and the field that it declares. -/
inductive Size : List Lexeme → Fields → Prop
  | absent : Size [] []
  | present {l : Lexeme} {n : Nat} (h : Count l n) :
      Size [openParen, l, closeParen] [("size", .int n)]

/-- A column: its name, its type, an optional size and properties in any number and order.  If a field
is declared several times, the last time counts. -/
inductive Column : List Lexeme → String × Fields → Prop
  | intro {column type : String} {size : List Lexeme} {sizeFields : Fields}
      {phrases : List (List Lexeme)} {fields : List Fields} (hsize : Size size sizeFields)
      (h : List.Forall₂ Property phrases fields) :
      Column (word column :: word type :: (size ++ phrases.flatten))
        (column, Entries.ofPairs (("type", .text type) :: (sizeFields ++ fields.flatten)))

/-- The optional name of an index, which is never the word `ON`. -/
inductive Label : List Lexeme → Option String → Prop
  | absent : Label [] none
  | present {s : String} (h : Text.upper s ≠ "ON") : Label [word s] (some s)

/-! ## Statements -/

/-- A column to select, or a star. -/
inductive Selected : List Lexeme → String → Prop
  | star : Selected [star] "*"
  | name (s : String) : Selected [word s] s

/-- An assignment of a literal to a column. -/
inductive Assignment : List Lexeme → String × Value → Prop
  | intro {column : String} {l : Lexeme} {v : Value} (h : Literal l v) :
      Assignment [word column, sign "=", l] (column, v)

/-- A statement, and the command that it denotes. -/
inductive Statement : List Lexeme → Command → Prop
  | createTable {l m : Lexeme} {table : String} {phrase : List Lexeme}
      {columns : List (String × Fields)} (hl : Opening "CREATE" l) (hm : Keyword "TABLE" m)
      (hcolumns : Separated Column phrase columns) (hdistinct : (columns.map (·.1)).Nodup) :
      Statement (l :: m :: word table :: openParen :: (phrase ++ [closeParen]))
        (.createTable table columns)
  | createIndex {l m n : Lexeme} {table column : String} {phrase : List Lexeme}
      {label : Option String} (hl : Opening "CREATE" l) (hm : Keyword "INDEX" m)
      (hlabel : Label phrase label) (hn : Keyword "ON" n) :
      Statement (l :: m :: (phrase ++ [n, word table, openParen, word column, closeParen]))
        (.createIndex table column label)
  | insert {l m n : Lexeme} {table : String} {names literals : List Lexeme} {columns : List String}
      {values : List Value} (hl : Opening "INSERT" l) (hm : Keyword "INTO" m)
      (hcolumns : Separated Name names columns) (hdistinct : columns.Nodup)
      (hn : Keyword "VALUES" n) (hvalues : Separated LiteralItem literals values)
      (hlength : columns.length = values.length) :
      Statement (l :: m :: word table :: openParen ::
          (names ++ closeParen :: n :: openParen :: (literals ++ [closeParen])))
        (.insert table columns values)
  | select {l m : Lexeme} {table : String} {items condition order limit : List Lexeme}
      {columns : List String} {c : Option Query.Condition} {orderBy : Option String}
      {descending : Bool} {n : Option Nat} (hl : Opening "SELECT" l)
      (hcolumns : Separated Selected items columns) (hm : Keyword "FROM" m)
      (hcondition : Where condition c) (horder : Order order (orderBy, descending))
      (hlimit : Limit limit n) :
      Statement (l :: (items ++ m :: word table :: (condition ++ (order ++ limit))))
        (.select ⟨table, columns, c, orderBy, descending, n⟩)
  | update {l m : Lexeme} {table : String} {items condition : List Lexeme} {assignments : Fields}
      {c : Option Query.Condition} (hl : Opening "UPDATE" l) (hm : Keyword "SET" m)
      (hassignments : Separated Assignment items assignments) (hcondition : Where condition c) :
      Statement (l :: word table :: m :: (items ++ condition))
        (.update table (Entries.ofPairs assignments) c)
  | delete {l m : Lexeme} {table : String} {condition : List Lexeme} {c : Option Query.Condition}
      (hl : Opening "DELETE" l) (hm : Keyword "FROM" m) (hcondition : Where condition c) :
      Statement (l :: m :: word table :: condition) (.delete table c)
  | dropTable {l m : Lexeme} {table : String} (hl : Opening "DROP" l) (hm : Keyword "TABLE" m) :
      Statement [l, m, word table] (.dropTable table)
  | use {l : Lexeme} {database : String} (hl : Opening "USE" l) :
      Statement [l, word database] (.use database)

end RecordStore.Query.Grammar
