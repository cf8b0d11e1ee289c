import Mathlib.Data.List.Permutation
import RecordStore.Proofs.Entries
import RecordStore.Proofs.Query.Lexemes
import RecordStore.Proofs.Snapshot.Numeral
import RecordStore.Query.Command
import RecordStore.Value.Display

/-!
# Commands in writing

How a command is written: its keywords in upper case, names as bare words, and literals as they are
read, a text between quotes and numbers by their own texts.  The properties of a column follow its
type and its size, in the order in which they are declared.  Not every command can be written.  Names
must be bare words, a text may not end in a backslash, integers have to be within the limit of digits,
and a column can only be declared with what the language has words for.
-/

namespace RecordStore

open Json (isDigit)

/-! ## Numerals as words -/

namespace Numeral

/-- The characters of a strict numeral are digits, signs, a point and the mark of a power. -/
lemma IsStrict.mem_chars {numeral : Numeral} (h : numeral.IsStrict) {c : Char}
    (hc : c ∈ numeral.chars) : isDigit c = true ∨ c ∈ ['-', '+', '.', 'e'] := by
  rw [chars, List.mem_append, List.mem_append, List.mem_append] at hc
  rcases hc with hsign | hwhole | hfraction | hpower
  · rw [signChars] at hsign
    split at hsign
    · rw [List.mem_singleton.mp hsign]
      decide
    · cases hsign
  · exact Or.inl (h.whole.2 c hwhole)
  · cases hdigits : numeral.fraction with
    | none =>
      rw [hdigits] at hfraction
      cases hfraction
    | some digits =>
      rw [hdigits] at hfraction
      rcases List.mem_cons.mp hfraction with rfl | hdigit
      · decide
      · exact Or.inl ((h.fraction digits hdigits).2 c hdigit)
  · cases hdigits : numeral.power with
    | none =>
      rw [hdigits] at hpower
      cases hpower
    | some power =>
      rw [hdigits] at hpower
      rcases List.mem_cons.mp hpower with rfl | hrest
      · decide
      rcases List.mem_cons.mp hrest with rfl | hdigit
      · cases power.1 <;> decide
      · exact Or.inl ((h.power power hdigits).2 c hdigit)

/-- The digits of a run are decimal digits. -/
lemma IsRun.isDecimal {digits : List Char} (h : IsRun digits) :
    ∀ c ∈ digits, Text.isDecimal c = true :=
  fun c hc => Text.isDecimal_of_isDigit (h.2 c hc)

/-- A power of ten is read from its characters. -/
lemma parsePower?_powerChars {power : Option (Bool × List Char)}
    (h : ∀ p, power = some p → IsRun p.2) : parsePower? (powerChars power) = some power := by
  cases power with
  | none => rfl
  | some power =>
    obtain ⟨negative, digits⟩ := power
    have hall : digits.all Text.isDecimal = true := List.all_eq_true.mpr (h _ rfl).isDecimal
    have hsign : splitSign ((if negative then '-' else '+') :: digits) = (negative, digits) := by
      cases negative <;> rfl
    have hsome : digits.isEmpty = false := List.isEmpty_eq_false_iff.mpr (h _ rfl).1
    simp [powerChars, parsePower?, hsign, hall, hsome]

/-- A strict numeral is read from its characters. -/
theorem parse?_chars {numeral : Numeral} (h : numeral.IsStrict) :
    parse? numeral.chars = some numeral := by
  have hbreak : dropFinalBreak numeral.chars = numeral.chars := by
    rw [dropFinalBreak, if_neg]
    intro hlast
    rcases h.mem_chars (List.mem_of_getLast? hlast) with hdigit | hmark
    · exact absurd hdigit (by decide)
    · exact absurd hmark (by decide)
  obtain ⟨first, digits, hfirst⟩ := List.exists_cons_of_ne_nil h.whole.1
  have hdigit : isDigit first = true := h.whole.2 first (hfirst ▸ List.mem_cons_self)
  have hsign : splitSign numeral.chars = (numeral.negative,
      numeral.whole ++ (fractionChars numeral.fraction ++ powerChars numeral.power)) := by
    rw [chars, signChars]
    cases numeral.negative with
    | true => rfl
    | false =>
      rw [hfirst, if_neg Bool.false_ne_true, List.nil_append, List.cons_append]
      unfold splitSign
      split
      · rename_i hminus
        obtain rfl := (List.cons.inj hminus).1
        exact absurd hdigit (by decide)
      · rename_i hplus
        obtain rfl := (List.cons.inj hplus).1
        exact absurd hdigit (by decide)
      · rfl
  have hpower : ∀ c, (powerChars numeral.power).head? = some c → Text.isDecimal c = false := by
    intro c hc
    cases hpower : numeral.power with
    | none =>
      rw [hpower] at hc
      cases hc
    | some power =>
      rw [hpower] at hc
      obtain rfl := Option.some.inj hc
      decide +kernel
  have hnonempty : numeral.whole.isEmpty = false := List.isEmpty_eq_false_iff.mpr h.whole.1
  have hread := parsePower?_powerChars h.power
  obtain ⟨negative, whole, fraction, power⟩ := numeral
  dsimp only at *
  cases fraction with
  | none =>
    have hspan := Text.span_append h.whole.isDecimal hpower
    have htail : ∀ tail, powerChars power ≠ '.' :: tail := by
      intro tail heq
      cases power <;> simp [powerChars] at heq
    rw [parse?, hbreak, hsign]
    simp only [fractionChars, Option.elim_none, List.nil_append, hspan.1, hspan.2, hnonempty,
      Bool.false_eq_true, if_false, hread, Option.map_some]
  | some digits =>
    have hdigits := (h.fraction digits rfl).isDecimal
    have hpoint : ∀ c, ('.' :: (digits ++ powerChars power)).head? = some c →
        Text.isDecimal c = false := by
      intro c hc
      obtain rfl := Option.some.inj hc
      decide +kernel
    have hspan := Text.span_append h.whole.isDecimal hpoint
    have hafter := Text.span_append hdigits hpower
    rw [parse?, hbreak, hsign]
    simp only [fractionChars, Option.elim_some, List.cons_append, hspan.1, hspan.2, hafter.1,
      hafter.2, hnonempty, Bool.false_and, Bool.false_eq_true, if_false, hread]
    rfl

end Numeral

namespace Query

open Lexeme (IsBare IsQuotable)

/-- An ASCII digit belongs to words. -/
lemma isWordChar_of_isDigit {c : Char} (h : isDigit c = true) : isWordChar c = true := by
  have hmarks : ∀ d ∈ [';', '\'', '"', '(', ')', ',', '*', '=', '!', '<', '>'], c ≠ d := by
    rintro d hd rfl
    have hother : [';', '\'', '"', '(', ')', ',', '*', '=', '!', '<', '>'].all (!isDigit ·) = true := by
      decide
    have hnone := List.all_eq_true.mp hother c hd
    rw [h] at hnone
    cases hnone
  simp only [List.forall_mem_cons, List.not_mem_nil, false_imp_iff, implies_true, and_true]
    at hmarks
  have hblank := Text.isBlank_of_isDigit h
  simp [isWordChar, isGap, isQuote, punctuation?, isOperatorChar, hblank, hmarks]

/-- A strict numeral is a bare word. -/
lemma isBare_chars {numeral : Numeral} (h : numeral.IsStrict) :
    IsBare (String.ofList numeral.chars) := by
  refine ⟨?_, fun c hc => ?_⟩
  · intro hempty
    have hparse := Numeral.parse?_chars h
    rw [String.ofList_eq_empty_iff.mp hempty] at hparse
    cases hparse
  · rw [String.toList_ofList] at hc
    rcases h.mem_chars hc with hdigit | hmark
    · exact isWordChar_of_isDigit hdigit
    · have hmarks : ['-', '+', '.', 'e'].all isWordChar = true := by
        decide +kernel
      exact List.all_eq_true.mp hmarks c hmark

/-! ## Lexemes -/

namespace Lexeme

/-- A word. -/
def word (s : String) : Lexeme :=
  ⟨.word, s⟩

/-- A text between quotes. -/
def quoted (s : String) : Lexeme :=
  ⟨.text, s⟩

/-- A comparison operator. -/
def sign (s : String) : Lexeme :=
  ⟨.operator, s⟩

/-- The parenthesis that opens. -/
def openParen : Lexeme :=
  ⟨.openParen, "("⟩

/-- The parenthesis that closes. -/
def closeParen : Lexeme :=
  ⟨.closeParen, ")"⟩

/-- A comma. -/
def comma : Lexeme :=
  ⟨.comma, ","⟩

/-- A star. -/
def star : Lexeme :=
  ⟨.star, "*"⟩

end Lexeme

open Lexeme (word quoted sign openParen closeParen comma star)

/-- Items with commas between them. -/
def commaSeparated : List (List Lexeme) → List Lexeme
  | [] => []
  | [item] => item
  | item :: next :: rest => item ++ comma :: commaSeparated (next :: rest)

/-- A value as a literal. -/
def literalOf : Value → Lexeme
  | .text s => quoted s
  | .null => word "NULL"
  | .bool b => word (if b then "TRUE" else "FALSE")
  | v => word (v.display?.getD "")

/-! ## Clauses -/

/-- A condition: the column, the operator and the value. -/
def Condition.lexemes (condition : Condition) : List Lexeme :=
  [word condition.column,
    if condition.operator = "LIKE" then word "LIKE" else sign condition.operator,
    literalOf condition.value]

/-- An optional condition. -/
def whereLexemes (condition : Option Condition) : List Lexeme :=
  condition.elim [] fun condition => word "WHERE" :: condition.lexemes

/-- A name that a reference gives, if it is text. -/
def referenceName (key : String) (entries : List (Value × Value)) : Option String :=
  (Value.lookup? key entries).bind Value.text?

/-- A reference: the table, and the column if one is named. -/
def referenceLexemes (v : Value) : List Lexeme :=
  match v with
  | .map entries =>
    word ((referenceName "table" entries).getD "") ::
      (referenceName "column" entries).elim [] fun column => [openParen, word column, closeParen]
  | _ => []

/-- What declares a property of a column. -/
def propertyLexemes (field : String × Value) : List Lexeme :=
  match field.1 with
  | "type" => [word (field.2.text?.getD "")]
  | "size" => [openParen, literalOf field.2, closeParen]
  | "primaryKey" => [word "PRIMARY", word "KEY"]
  | "unique" => [word "UNIQUE"]
  | "autoIncrement" => [word "AUTO_INCREMENT"]
  | "required" => [word "NOT", word "NULL"]
  | "defaultValue" => [word "DEFAULT", literalOf field.2]
  | "foreignKey" => word "REFERENCES" :: referenceLexemes field.2
  | _ => []

/-- The properties of a column in the order in which they are written: the type first, then the size,
and the other ones as they come. -/
def arrange (declared : Fields) : Fields :=
  declared.filter (·.1 = "type") ++ declared.filter (·.1 = "size") ++
    declared.filter fun field => field.1 ≠ "type" ∧ field.1 ≠ "size"

/-- The declaration of a column. -/
def columnLexemes (declaration : String × Fields) : List Lexeme :=
  word declaration.1 :: (arrange declaration.2).flatMap propertyLexemes

/-- The order of a selection. -/
def orderLexemes (orderBy : Option String) (descending : Bool) : List Lexeme :=
  orderBy.elim [] fun column =>
    [word "ORDER", word "BY", word column] ++ if descending then [word "DESC"] else []

/-- The limit of a selection. -/
def limitLexemes (limit : Option Nat) : List Lexeme :=
  limit.elim [] fun n => [word "LIMIT", literalOf (.int n)]

/-! ## Commands -/

/-- A command as it is written. -/
def Command.lexemes : Command → List Lexeme
  | .createTable table columns =>
    [word "CREATE", word "TABLE", word table, openParen] ++
      (commaSeparated (columns.map columnLexemes) ++ [closeParen])
  | .createIndex table column name =>
    [word "CREATE", word "INDEX"] ++ (name.elim [] (fun name => [word name]) ++
      [word "ON", word table, openParen, word column, closeParen])
  | .insert table columns values =>
    [word "INSERT", word "INTO", word table, openParen] ++
      (commaSeparated (columns.map fun column => [word column]) ++
        ([closeParen, word "VALUES", openParen] ++
          (commaSeparated (values.map fun v => [literalOf v]) ++ [closeParen])))
  | .select selection =>
    word "SELECT" ::
      (commaSeparated (selection.columns.map fun column =>
          [if column = "*" then star else word column]) ++
        ([word "FROM", word selection.table] ++
          (whereLexemes selection.condition ++
            (orderLexemes selection.orderBy selection.descending ++ limitLexemes selection.limit))))
  | .update table assignments condition =>
    [word "UPDATE", word table, word "SET"] ++
      (commaSeparated (assignments.map fun assignment =>
          [word assignment.1, sign "=", literalOf assignment.2]) ++ whereLexemes condition)
  | .delete table condition => [word "DELETE", word "FROM", word table] ++ whereLexemes condition
  | .dropTable table => [word "DROP", word "TABLE", word table]
  | .use database => [word "USE", word database]

/-- The text of a command. -/
def Command.print (command : Command) : String :=
  String.ofList (Lexeme.layOut command.lexemes)

/-! ## What can be written -/

instance (s : String) : Decidable (IsBare s) :=
  decidable_of_iff (s ≠ "" ∧ s.toList.all isWordChar = true) (by rw [IsBare, List.all_eq_true])

instance (s : String) : Decidable (IsQuotable s) :=
  inferInstanceAs (Decidable (_ ≠ _))

/-- A value is a literal of the language. -/
inductive IsLiteral : Value → Prop
  | null : IsLiteral .null
  | bool (b : Bool) : IsLiteral (.bool b)
  | int (i : Int) (h : i.natAbs < 10 ^ Number.digitLimit) : IsLiteral (.int i)
  | float (negative : Bool) (significand : Nat) (exponent : Int)
      (canonical : Binary64.Canonical significand exponent) :
      IsLiteral (.float (.finite negative significand exponent canonical))
  | text (s : String) (h : IsQuotable s) : IsLiteral (.text s)

/-- A condition that can be written compares a column with a literal. -/
structure Condition.IsPrintable (condition : Condition) : Prop where
  column : IsBare condition.column
  operator : condition.operator ∈ ["=", "!=", "<", ">", "<=", ">=", "LIKE"]
  value : IsLiteral condition.value

/-- What a reference to a table, and to one of its columns if it is named, consists of. -/
def referenceFields (table : String) (column : Option String) : Fields :=
  ("table", .text table) :: (column.elim [] fun column => [("column", .text column)])

/-- A property of a column that the language has words for. -/
inductive IsProperty : String × Value → Prop
  | type (s : String) (h : IsBare s) : IsProperty ("type", .text s)
  | size (n : Nat) (h : n < 10 ^ Number.digitLimit) : IsProperty ("size", .int n)
  | flag (name : String) (h : name ∈ ["primaryKey", "unique", "autoIncrement", "required"]) :
      IsProperty (name, .bool true)
  | default (v : Value) (h : IsLiteral v) : IsProperty ("defaultValue", v)
  | reference (table : String) (column : Option String) (fields : Fields) (htable : IsBare table)
      (hcolumn : ∀ s ∈ column, IsBare s) (h : fields.Perm (referenceFields table column)) :
      IsProperty ("foreignKey", Value.ofFields fields)

/-- A declaration of a column that can be written: it gives a type and each property at most once. -/
structure IsDeclaration (declaration : String × Fields) : Prop where
  name : IsBare declaration.1
  type : ∃ s, ("type", .text s) ∈ declaration.2
  distinct : (declaration.2.map (·.1)).Nodup
  properties : ∀ field ∈ declaration.2, IsProperty field

/-- A selection that can be written; a direction is only given to an order. -/
structure Selection.IsPrintable (selection : Selection) : Prop where
  table : IsBare selection.table
  columns : selection.columns ≠ []
  names : ∀ column ∈ selection.columns, column ≠ "*" → IsBare column
  condition : ∀ condition ∈ selection.condition, condition.IsPrintable
  orderBy : ∀ column ∈ selection.orderBy, IsBare column
  descending : selection.descending = true → selection.orderBy ≠ none
  limit : ∀ n ∈ selection.limit, n < 10 ^ Number.digitLimit

/-- A command that can be written: names are bare words, no list of columns is empty, and columns that
must not come twice do not. -/
def Command.IsPrintable : Command → Prop
  | .createTable table columns =>
    IsBare table ∧ columns ≠ [] ∧ (columns.map (·.1)).Nodup ∧
      ∀ declaration ∈ columns, IsDeclaration declaration
  | .createIndex table column name =>
    IsBare table ∧ IsBare column ∧ ∀ s ∈ name, IsBare s ∧ Text.upper s ≠ "ON"
  | .insert table columns values =>
    IsBare table ∧ columns ≠ [] ∧ columns.Nodup ∧ (∀ column ∈ columns, IsBare column) ∧
      columns.length = values.length ∧ ∀ v ∈ values, IsLiteral v
  | .select selection => selection.IsPrintable
  | .update table assignments condition =>
    IsBare table ∧ assignments ≠ [] ∧ (assignments.map (·.1)).Nodup ∧
      (∀ assignment ∈ assignments, IsBare assignment.1 ∧ IsLiteral assignment.2) ∧
        ∀ c ∈ condition, c.IsPrintable
  | .delete table condition => IsBare table ∧ ∀ c ∈ condition, c.IsPrintable
  | .dropTable table => IsBare table
  | .use database => IsBare database

/-! ## What is written -/

/-- The text of an integer within the limit of digits is that of its numeral. -/
lemma literalOf_int {i : Int} (h : i.natAbs < 10 ^ Number.digitLimit) :
    literalOf (.int i) = word (String.ofList (Numeral.ofInteger i).chars) := by
  have htext := Number.integerText?_eq_some.mpr ⟨h, rfl⟩
  rw [Numeral.chars_ofInteger]
  change word ((Number.integerText? i).getD "") = _
  rw [htext]
  rfl

/-- The text of a finite number is that of its numeral. -/
lemma literalOf_float (negative : Bool) (m : Nat) (e : Int) (canonical : Binary64.Canonical m e) :
    literalOf (.float (.finite negative m e canonical)) =
      word (String.ofList (Numeral.ofFinite negative m e).chars) := by
  rw [Numeral.chars_ofFinite]
  rfl

/-- A literal is written. -/
lemma isWritten_literalOf {v : Value} (h : IsLiteral v) : (literalOf v).IsWritten := by
  cases h with
  | null => exact (by decide +kernel : IsBare "NULL")
  | bool b => exact (by decide +kernel : ∀ b : Bool, IsBare (if b then "TRUE" else "FALSE")) b
  | int i hi =>
    rw [literalOf_int hi]
    exact isBare_chars (Numeral.isStrict_ofInteger i)
  | float negative m e canonical =>
    rw [literalOf_float]
    exact isBare_chars (Numeral.isStrict_ofFinite negative canonical)
  | text s hs => exact hs

/-- Items with commas between them are written if the items are. -/
lemma forall_mem_commaSeparated {P : Lexeme → Prop} (hcomma : P comma) {items : List (List Lexeme)}
    (h : ∀ item ∈ items, ∀ l ∈ item, P l) : ∀ l ∈ commaSeparated items, P l := by
  induction items with
  | nil => exact nofun
  | cons item rest ih =>
    obtain ⟨hitem, hrest⟩ := List.forall_mem_cons.mp h
    cases rest with
    | nil => exact hitem
    | cons next rest =>
      rw [commaSeparated, List.forall_mem_append, List.forall_mem_cons]
      exact ⟨hitem, hcomma, ih hrest⟩

/-- The keywords with which commands are written. -/
def keywords : List String :=
  ["CREATE", "TABLE", "INDEX", "ON", "INSERT", "INTO", "VALUES", "SELECT", "FROM", "WHERE", "LIKE",
    "ORDER", "BY", "DESC", "LIMIT", "UPDATE", "SET", "DELETE", "DROP", "USE", "PRIMARY", "KEY",
    "UNIQUE", "AUTO_INCREMENT", "NOT", "NULL", "DEFAULT", "REFERENCES"]

/-- A keyword is written. -/
lemma isWritten_keyword {s : String} (h : s ∈ keywords) : (word s).IsWritten :=
  (by decide +kernel : ∀ s ∈ keywords, IsBare s) s h

/-- A condition is written. -/
lemma Condition.IsPrintable.isWritten {condition : Condition} (h : condition.IsPrintable) :
    ∀ l ∈ condition.lexemes, l.IsWritten := by
  simp only [Condition.lexemes, List.forall_mem_cons]
  refine ⟨h.column, ?_, isWritten_literalOf h.value, nofun⟩
  split
  · exact isWritten_keyword (by decide)
  · rename_i hlike
    have hoperators : ∀ s ∈ ["=", "!=", "<", ">", "<=", ">=", "LIKE"], s ≠ "LIKE" →
        s ∈ Lexeme.operators := by decide
    exact hoperators _ h.operator hlike

/-- An optional condition is written. -/
lemma isWritten_whereLexemes {condition : Option Condition}
    (h : ∀ c ∈ condition, c.IsPrintable) : ∀ l ∈ whereLexemes condition, l.IsWritten := by
  cases condition with
  | none => exact nofun
  | some c => exact List.forall_mem_cons.mpr ⟨isWritten_keyword (by decide), (h c rfl).isWritten⟩

/-- The names of a reference are found in it, in whatever order it gives them. -/
lemma referenceLexemes_ofFields {fields : Fields} {table : String} {column : Option String}
    (h : fields.Perm (referenceFields table column)) :
    referenceLexemes (Value.ofFields fields) =
      word table :: column.elim [] fun column => [openParen, word column, closeParen] := by
  cases column with
  | none =>
    obtain rfl := List.perm_singleton.mp h
    rfl
  | some column => rcases List.perm_pair.mp h with rfl | rfl <;> rfl

/-- The parentheses and the comma are written. -/
lemma isWritten_marks : openParen.IsWritten ∧ closeParen.IsWritten ∧ comma.IsWritten ∧
    star.IsWritten :=
  ⟨rfl, rfl, rfl, rfl⟩

/-- A property is written. -/
lemma IsProperty.isWritten {field : String × Value} (h : IsProperty field) :
    ∀ l ∈ propertyLexemes field, l.IsWritten := by
  obtain ⟨hopen, hclose, -, -⟩ := isWritten_marks
  cases h with
  | type s hs => exact List.forall_mem_singleton.mpr hs
  | size n hn =>
    have hliteral := isWritten_literalOf (.int n (by rwa [Int.natAbs_natCast]))
    exact List.forall_mem_cons.mpr ⟨hopen, List.forall_mem_cons.mpr
      ⟨hliteral, List.forall_mem_singleton.mpr hclose⟩⟩
  | flag name hname =>
    have hwords : ∀ name ∈ ["primaryKey", "unique", "autoIncrement", "required"],
        ∀ l ∈ propertyLexemes (name, .bool true), l.kind = .word ∧ l.text ∈ keywords := by
      decide
    intro l hl
    obtain ⟨hkind, htext⟩ := hwords name hname l hl
    rw [show l = word l.text from by rw [word, ← hkind]]
    exact isWritten_keyword htext
  | default v hv =>
    exact List.forall_mem_cons.mpr
      ⟨isWritten_keyword (by decide), List.forall_mem_singleton.mpr (isWritten_literalOf hv)⟩
  | reference table column fields htable hcolumn hperm =>
    change ∀ l ∈ word "REFERENCES" :: referenceLexemes (Value.ofFields fields), l.IsWritten
    rw [referenceLexemes_ofFields hperm]
    refine List.forall_mem_cons.mpr
      ⟨isWritten_keyword (by decide), List.forall_mem_cons.mpr ⟨htable, ?_⟩⟩
    cases column with
    | none => exact nofun
    | some column =>
      simp only [Option.elim_some, List.forall_mem_cons]
      exact ⟨hopen, hcolumn column rfl, hclose, nofun⟩

/-- The properties of a column in the order in which they are written are the properties. -/
lemma perm_arrange (declared : Fields) : (arrange declared).Perm declared := by
  have hsize : declared.filter (·.1 = "size") =
      (declared.filter fun field => !decide (field.1 = "type")).filter (·.1 = "size") := by
    rw [List.filter_filter]
    refine List.filter_congr fun field _ => ?_
    by_cases hkey : field.1 = "size" <;> simp [hkey]
  have hrest : (declared.filter fun field => field.1 ≠ "type" ∧ field.1 ≠ "size") =
      (declared.filter fun field => !decide (field.1 = "type")).filter
        fun field => !decide (field.1 = "size") := by
    rw [List.filter_filter]
    refine List.filter_congr fun field _ => ?_
    simp [and_comm]
  rw [arrange, List.append_assoc, hsize, hrest]
  exact ((List.filter_append_perm _ _).append_left _).trans (List.filter_append_perm _ _)

/-- Of the fields under different names, those of one name are the one that is found. -/
lemma filter_name_eq {fields : Fields} (h : (fields.map (·.1)).Nodup) (name : String) :
    fields.filter (·.1 = name) = (fields.lookup name).elim [] fun v => [(name, v)] := by
  induction fields with
  | nil => rfl
  | cons field fields ih =>
    obtain ⟨key, v⟩ := field
    obtain ⟨hfirst, hrest⟩ := List.nodup_cons.mp h
    by_cases hkey : key = name
    · subst hkey
      have hnone : fields.filter (·.1 = key) = [] := by
        refine List.filter_eq_nil_iff.mpr fun other hother hsame => hfirst ?_
        exact List.mem_map.mpr ⟨other, hother, of_decide_eq_true hsame⟩
      rw [List.filter_cons_of_pos (by simp), hnone, List.lookup_cons_self]
      rfl
    · have hother : (name == key) = false := by simpa using Ne.symm hkey
      rw [List.filter_cons_of_neg (by simpa using hkey), List.lookup_cons, hother, ih hrest]

/-- A property under the name of the size is a number within the limit of digits. -/
lemma IsProperty.exists_size {field : String × Value} (h : IsProperty field)
    (hkey : field.1 = "size") : ∃ n : Nat, field.2 = .int n ∧ n < 10 ^ Number.digitLimit := by
  cases h with
  | size n hn => exact ⟨n, rfl, hn⟩
  | type s hs => exact absurd hkey (by decide : "type" ≠ "size")
  | flag name hname =>
    subst hkey
    exact absurd hname (by decide)
  | default v hv => exact absurd hkey (by decide : "defaultValue" ≠ "size")
  | reference => exact absurd hkey (by decide : "foreignKey" ≠ "size")

/-- The properties of a column are written as its type, its size if there is one, and the others. -/
lemma IsDeclaration.exists_arrange_eq {declaration : String × Fields}
    (h : IsDeclaration declaration) :
    ∃ (type : String) (size : Option Nat) (fields : Fields),
      arrange declaration.2 =
          [("type", .text type)] ++ (size.elim [] fun n => [("size", .int n)]) ++ fields ∧
        (∀ n ∈ size, n < 10 ^ Number.digitLimit) ∧
          ∀ field ∈ fields, IsProperty field ∧ field.1 ≠ "type" ∧ field.1 ≠ "size" := by
  obtain ⟨name, declared⟩ := declaration
  obtain ⟨-, ⟨type, htype⟩, hdistinct, hproperties⟩ := h
  dsimp only at htype hdistinct hproperties ⊢
  have hothers : ∀ field ∈ declared.filter (fun field => field.1 ≠ "type" ∧ field.1 ≠ "size"),
      IsProperty field ∧ field.1 ≠ "type" ∧ field.1 ≠ "size" := by
    intro field hfield
    obtain ⟨hmem, hkey⟩ := List.mem_filter.mp hfield
    exact ⟨hproperties field hmem, of_decide_eq_true hkey⟩
  have hfound : declared.filter (·.1 = "type") = [("type", .text type)] := by
    rw [filter_name_eq hdistinct, Entries.lookup_eq_some_of_mem hdistinct htype]
    rfl
  rw [arrange, hfound, filter_name_eq hdistinct]
  cases hsize : declared.lookup "size" with
  | none => exact ⟨type, none, _, rfl, nofun, hothers⟩
  | some v =>
    have hmem : ("size", v) ∈ declared := Entries.mem_of_lookup hsize
    obtain ⟨n, rfl, hn⟩ : ∃ n : Nat, v = .int n ∧ n < 10 ^ Number.digitLimit :=
      (hproperties _ hmem).exists_size rfl
    refine ⟨type, some n, _, rfl, ?_, hothers⟩
    rintro m hm
    obtain rfl := Option.some.inj hm
    exact hn

/-- The declaration of a column is written. -/
lemma IsDeclaration.isWritten {declaration : String × Fields} (h : IsDeclaration declaration) :
    ∀ l ∈ columnLexemes declaration, l.IsWritten := by
  refine List.forall_mem_cons.mpr ⟨h.name, fun l hl => ?_⟩
  obtain ⟨field, hfield, hl⟩ := List.mem_flatMap.mp hl
  exact (h.properties field ((perm_arrange _).subset hfield)).isWritten l hl

/-- A selection is written. -/
lemma Selection.IsPrintable.isWritten {selection : Selection} (h : selection.IsPrintable) :
    ∀ l ∈ (Command.select selection).lexemes, l.IsWritten := by
  have hcolumns : ∀ item ∈ selection.columns.map fun column =>
      [if column = "*" then star else word column], ∀ l ∈ item, l.IsWritten := by
    rw [List.forall_mem_map]
    intro column hcolumn
    rw [List.forall_mem_singleton]
    split
    · exact rfl
    · rename_i hstar
      exact h.names column hcolumn hstar
  have horder : ∀ l ∈ orderLexemes selection.orderBy selection.descending, l.IsWritten := by
    cases horderBy : selection.orderBy with
    | none => exact nofun
    | some column =>
      have hdirection : ∀ l ∈ (if selection.descending then [word "DESC"] else []),
          l.IsWritten := by
        split
        · exact List.forall_mem_singleton.mpr (isWritten_keyword (by decide))
        · exact nofun
      simp only [orderLexemes, Option.elim_some, List.forall_mem_append, List.forall_mem_cons]
      exact ⟨⟨isWritten_keyword (by decide), isWritten_keyword (by decide), h.orderBy column horderBy,
        nofun⟩, hdirection⟩
  have hlimit : ∀ l ∈ limitLexemes selection.limit, l.IsWritten := by
    cases hlimit : selection.limit with
    | none => exact nofun
    | some n =>
      have hn : (Int.ofNat n).natAbs < 10 ^ Number.digitLimit := h.limit n hlimit
      simp only [limitLexemes, Option.elim_some, List.forall_mem_cons]
      exact ⟨isWritten_keyword (by decide), isWritten_literalOf (.int n hn), nofun⟩
  simp only [Command.lexemes, List.forall_mem_append, List.forall_mem_cons]
  exact ⟨isWritten_keyword (by decide), forall_mem_commaSeparated isWritten_marks.2.2.1 hcolumns,
    ⟨isWritten_keyword (by decide), h.table, nofun⟩, isWritten_whereLexemes h.condition, horder,
    hlimit⟩

/-- What a command that can be written consists of is written. -/
theorem Command.IsPrintable.isWritten {command : Command} (h : command.IsPrintable) :
    ∀ l ∈ command.lexemes, l.IsWritten := by
  obtain ⟨hopen, hclose, hcomma, -⟩ := isWritten_marks
  cases command with
  | createTable table columns =>
    obtain ⟨htable, -, -, hcolumns⟩ := h
    have hdeclarations : ∀ item ∈ columns.map columnLexemes, ∀ l ∈ item, l.IsWritten :=
      List.forall_mem_map.mpr fun declaration hdeclaration =>
        (hcolumns declaration hdeclaration).isWritten
    simp only [lexemes, List.forall_mem_append, List.forall_mem_cons]
    exact ⟨⟨isWritten_keyword (by decide), isWritten_keyword (by decide), htable, hopen, nofun⟩,
      forall_mem_commaSeparated hcomma hdeclarations, hclose, nofun⟩
  | createIndex table column name =>
    obtain ⟨htable, hcolumn, hname⟩ := h
    have hlabel : ∀ l ∈ name.elim [] (fun name => [word name]), l.IsWritten := by
      cases name with
      | none => exact nofun
      | some name => exact List.forall_mem_singleton.mpr (hname name rfl).1
    simp only [lexemes, List.forall_mem_append, List.forall_mem_cons]
    exact ⟨⟨isWritten_keyword (by decide), isWritten_keyword (by decide), nofun⟩, hlabel,
      isWritten_keyword (by decide), htable, hopen, hcolumn, hclose, nofun⟩
  | insert table columns values =>
    obtain ⟨htable, -, -, hcolumns, -, hvalues⟩ := h
    have hnames : ∀ item ∈ columns.map fun column => [word column], ∀ l ∈ item, l.IsWritten :=
      List.forall_mem_map.mpr fun column hcolumn =>
        List.forall_mem_singleton.mpr (hcolumns column hcolumn)
    have hliterals : ∀ item ∈ values.map fun v => [literalOf v], ∀ l ∈ item, l.IsWritten :=
      List.forall_mem_map.mpr fun v hv =>
        List.forall_mem_singleton.mpr (isWritten_literalOf (hvalues v hv))
    simp only [lexemes, List.forall_mem_append, List.forall_mem_cons]
    exact ⟨⟨isWritten_keyword (by decide), isWritten_keyword (by decide), htable, hopen, nofun⟩,
      forall_mem_commaSeparated hcomma hnames,
      ⟨hclose, isWritten_keyword (by decide), hopen, nofun⟩,
      forall_mem_commaSeparated hcomma hliterals, hclose, nofun⟩
  | select selection => exact Selection.IsPrintable.isWritten h
  | update table assignments condition =>
    obtain ⟨htable, -, -, hassignments, hcondition⟩ := h
    have hitems : ∀ item ∈ assignments.map fun assignment =>
        [word assignment.1, sign "=", literalOf assignment.2], ∀ l ∈ item, l.IsWritten := by
      refine List.forall_mem_map.mpr fun assignment hassignment => ?_
      obtain ⟨hname, hvalue⟩ := hassignments assignment hassignment
      simp only [List.forall_mem_cons]
      exact ⟨hname, (by decide : "=" ∈ Lexeme.operators), isWritten_literalOf hvalue, nofun⟩
    simp only [lexemes, List.forall_mem_append, List.forall_mem_cons]
    exact ⟨⟨isWritten_keyword (by decide), htable, isWritten_keyword (by decide), nofun⟩,
      forall_mem_commaSeparated hcomma hitems, isWritten_whereLexemes hcondition⟩
  | delete table condition =>
    obtain ⟨htable, hcondition⟩ := h
    simp only [lexemes, List.forall_mem_append, List.forall_mem_cons]
    exact ⟨⟨isWritten_keyword (by decide), isWritten_keyword (by decide), htable, nofun⟩,
      isWritten_whereLexemes hcondition⟩
  | dropTable table =>
    simp only [lexemes, List.forall_mem_cons]
    exact ⟨isWritten_keyword (by decide), isWritten_keyword (by decide), h, nofun⟩
  | use database =>
    simp only [lexemes, List.forall_mem_cons]
    exact ⟨isWritten_keyword (by decide), h, nofun⟩

end Query

end RecordStore
