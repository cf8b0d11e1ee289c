import RecordStore.Proofs.Query.Recognizing
import RecordStore.Proofs.Query.Scanning

/-!
# Commands read from their own texts

What is written for a command is a statement of the grammar that denotes the command, so it is read as
the command.  No keyword is reserved, so a name may spell one.  The properties of a column come back in
the order in which they are written, and a reference gives its table first.  Apart from that, a command
comes back as it is.
-/

namespace RecordStore.Query

open Lexeme (word sign openParen closeParen star)

/-- Two properties of a column say the same: a reference may give its names in another order. -/
def SameProperty (field field' : String × Value) : Prop :=
  field.1 = field'.1 ∧ (field.2 = field'.2 ∨ ∃ names names' : Fields,
    field.2 = Value.ofFields names ∧ field'.2 = Value.ofFields names' ∧ names.Perm names')

/-- Two declarations of a column say the same: they have the same properties, in whatever order. -/
def SameDeclaration (declaration declaration' : String × Fields) : Prop :=
  declaration.1 = declaration'.1 ∧
    ∃ fields, declaration.2.Perm fields ∧ List.Forall₂ SameProperty fields declaration'.2

/-- A command says the same as another: it is the same, but for the order in which a column of a new
table gives its properties and a reference gives its names. -/
def Command.SaysSame (command command' : Command) : Prop :=
  match command with
  | .createTable table columns => ∃ columns', command' = .createTable table columns' ∧
      List.Forall₂ SameDeclaration columns columns'
  | command => command' = command

namespace Grammar

/-- A keyword that is written in upper case spells itself. -/
lemma keyword_word {s : String} (h : s ∈ keywords) : Keyword s (word s) :=
  ⟨rfl, (by decide +kernel : ∀ s ∈ keywords, Text.upper s = s) s h⟩

/-- A keyword that is written in upper case opens a statement. -/
lemma opening_word {s : String} (h : s ∈ keywords) : Opening s (word s) :=
  ⟨Or.inl rfl, (keyword_word h).2⟩

/-- What each of some items is written with makes a phrase of all. -/
lemma separated_map {ι κ : Type} {Item : List Lexeme → κ → Prop} {print : ι → List Lexeme}
    {settle : ι → κ} {items : List ι} (hne : items ≠ []) (h : ∀ x ∈ items, Item (print x) (settle x)) :
    Separated Item (commaSeparated (items.map print)) (items.map settle) := by
  refine ⟨items.map print, by simpa using hne, rfl, ?_⟩
  rw [List.forall₂_map_left_iff, List.forall₂_map_right_iff]
  exact List.forall₂_same.mpr h

/-! ## Clauses -/

/-- A strict numeral that denotes a number is the number as a word. -/
lemma literal_chars {numeral : Numeral} (h : numeral.IsStrict) {n : Number}
    (hn : numeral.number? = some n) :
    Literal (word (String.ofList numeral.chars)) (.ofNumber n) :=
  .number (by rw [String.toList_ofList, Numeral.parse?_chars h]) hn

/-- What a literal is written with denotes it. -/
lemma literal_literalOf {v : Value} (h : IsLiteral v) : Literal (literalOf v) v := by
  cases h with
  | null => exact .null (by decide +kernel) (by decide +kernel)
  | bool b =>
    cases b with
    | true => exact .true (by decide +kernel) (by decide +kernel)
    | false => exact .false (by decide +kernel) (by decide +kernel)
  | int i hi =>
    rw [literalOf_int hi]
    exact literal_chars (Numeral.isStrict_ofInteger i) (Numeral.number?_ofInteger hi)
  | float negative m e canonical =>
    rw [literalOf_float]
    exact literal_chars (Numeral.isStrict_ofFinite negative canonical)
      (Numeral.number?_ofFinite negative canonical)
  | text s _ => exact .quoted s

/-- What a number within the limit of digits is written with denotes it as a size or a limit. -/
lemma count_literalOf {n : Nat} (h : n < 10 ^ Number.digitLimit) : Count (literalOf (.int n)) n := by
  have hdigits : ∀ c ∈ Nat.toDigits 10 n, Json.isDigit c = true := fun c => isDigit_of_mem_toDigits
  have hword : literalOf (.int n) = word (String.ofList (Nat.toDigits 10 n)) := by
    have hnonnegative : ¬(n : Int) < 0 := Int.not_lt.mpr (Int.natCast_nonneg n)
    rw [literalOf_int (by rwa [Int.natAbs_natCast]), Numeral.chars_ofInteger, Number.integerChars,
      if_neg hnonnegative, List.nil_append, Int.natAbs_natCast]
  have htext : (literalOf (.int n)).text.toList = Nat.toDigits 10 n := by
    rw [hword, word, String.toList_ofList]
  refine ⟨by rw [hword]; rfl, ?_, ?_, ?_⟩
  · rw [Text.isDigitRun, htext, hword, Bool.and_eq_true, Bool.not_eq_true', List.all_eq_true]
    refine ⟨by simp [word], fun c hc => ?_⟩
    rw [Text.isDigitLike, Text.isDecimal_of_isDigit (hdigits c hc), Bool.true_or]
  · rw [htext]
    refine Text.naturalOfDigits?_eq_some_iff.mpr ⟨fun c hc => ?_, Numeral.naturalOf_toDigits n⟩
    rw [Text.digitValue?_of_isDigit (hdigits c hc)]
    rfl
  · rw [htext]
    exact Number.length_toDigits_le h

/-- What a condition is written with denotes it. -/
lemma condition_lexemes {c : Query.Condition} (h : c.IsPrintable) : Condition c.lexemes c := by
  obtain ⟨column, operator, v⟩ := c
  obtain ⟨-, hoperator, hvalue⟩ := h
  refine .intro ?_ (literal_literalOf hvalue)
  dsimp only at hoperator ⊢
  by_cases hlike : operator = "LIKE"
  · subst hlike
    exact .like (keyword_word (by decide))
  · rw [if_neg hlike]
    refine .sign ?_
    simpa [hlike] using hoperator

/-- What an optional condition is written with denotes it. -/
lemma where_whereLexemes {c : Option Query.Condition} (h : ∀ condition ∈ c, condition.IsPrintable) :
    Where (whereLexemes c) c := by
  cases c with
  | none => exact .absent
  | some condition => exact .present (keyword_word (by decide)) (condition_lexemes (h condition rfl))

/-- What an order is written with denotes it. -/
lemma order_orderLexemes {orderBy : Option String} {descending : Bool}
    (h : descending = true → orderBy ≠ none) :
    Order (orderLexemes orderBy descending) (orderBy, descending) := by
  cases orderBy with
  | none =>
    obtain rfl : descending = false := by
      rw [Bool.eq_false_iff]
      exact fun hdescending => h hdescending rfl
    exact .absent
  | some column =>
    refine .present (keyword_word (by decide)) (keyword_word (by decide)) ?_
    cases descending with
    | true => exact .descending (keyword_word (by decide))
    | false => exact .absent

/-- What a limit is written with denotes it. -/
lemma limit_limitLexemes {limit : Option Nat} (h : ∀ n ∈ limit, n < 10 ^ Number.digitLimit) :
    Limit (limitLexemes limit) limit := by
  cases limit with
  | none => exact .absent
  | some n => exact .present (keyword_word (by decide)) (count_literalOf (h n rfl))

/-! ## Declarations -/

/-- What a property other than the type and the size is written with denotes one that says the same. -/
lemma exists_property {field : String × Value} (h : IsProperty field)
    (hkey : field.1 ≠ "type" ∧ field.1 ≠ "size") :
    ∃ field', SameProperty field field' ∧ Property (propertyLexemes field) [field'] := by
  cases h with
  | type s hs => exact absurd rfl hkey.1
  | size n hn => exact absurd rfl hkey.2
  | flag name hname =>
    refine ⟨(name, .bool true), ⟨rfl, Or.inl rfl⟩, ?_⟩
    simp only [List.mem_cons, List.not_mem_nil, or_false] at hname
    rcases hname with rfl | rfl | rfl | rfl
    · exact .primaryKey (keyword_word (by decide)) (keyword_word (by decide))
    · exact .unique (keyword_word (by decide))
    · exact .autoIncrement (Or.inl (keyword_word (by decide)))
    · exact .required (keyword_word (by decide)) (keyword_word (by decide))
  | default v hv =>
    refine ⟨("defaultValue", v), ⟨rfl, Or.inl rfl⟩, ?_⟩
    exact .default (keyword_word (by decide)) (literal_literalOf hv)
  | reference table column fields htable hcolumn hperm =>
    refine ⟨("foreignKey", Value.ofFields (referenceFields table column)),
      ⟨rfl, Or.inr ⟨fields, _, rfl, rfl, hperm⟩⟩, ?_⟩
    refine .reference (keyword_word (by decide)) ?_
    change Reference (referenceLexemes (Value.ofFields fields)) _
    rw [referenceLexemes_ofFields hperm]
    cases column with
    | none => exact .table table
    | some column => exact .column table column

/-- What a column is written with denotes a declaration that says the same. -/
lemma exists_column {declaration : String × Fields} (h : IsDeclaration declaration) :
    ∃ declaration', SameDeclaration declaration declaration' ∧
      Column (columnLexemes declaration) declaration' := by
  obtain ⟨type, size, fields, harrange, hsize, hfields⟩ := h.exists_arrange_eq
  have hperm := harrange ▸ perm_arrange declaration.2
  choose! settle hsame hproperty using fun field hfield =>
    exists_property (hfields field hfield).1 (hfields field hfield).2
  have hforall : List.Forall₂ SameProperty
      ([("type", .text type)] ++ (size.elim [] fun n => [("size", .int n)]) ++ fields)
      (("type", .text type) :: ((size.elim [] fun n => [("size", .int n)]) ++
        fields.map settle)) := by
    rw [← List.cons_append, ← List.singleton_append]
    refine List.rel_append (List.forall₂_same.mpr fun field _ => ⟨rfl, Or.inl rfl⟩) ?_
    exact List.forall₂_map_right_iff.mpr (List.forall₂_same.mpr hsame)
  have hkeys : ∀ {declared declared' : Fields}, List.Forall₂ SameProperty declared declared' →
      Entries.keys declared' = declared.map (·.1) := by
    intro declared declared' hdeclared
    induction hdeclared with
    | nil => rfl
    | cons hfirst _ ih => exact List.cons_eq_cons.mpr ⟨hfirst.1.symm, ih⟩
  have hdistinct : (Entries.keys (("type", Value.text type) ::
      ((size.elim [] fun n => [("size", .int n)]) ++ fields.map settle))).Nodup := by
    rw [hkeys hforall]
    exact (hperm.map (·.1)).nodup_iff.mpr h.distinct
  have hsizes : Size (size.elim [] fun n => [openParen, literalOf (.int n), closeParen])
      (size.elim [] fun n => [("size", .int n)]) := by
    cases size with
    | none => exact .absent
    | some n => exact .present (count_literalOf (hsize n rfl))
  have hproperties : List.Forall₂ Property (fields.map propertyLexemes)
      (fields.map fun field => [settle field]) := by
    rw [List.forall₂_map_left_iff, List.forall₂_map_right_iff]
    exact List.forall₂_same.mpr hproperty
  have hsettled : (fields.map fun field => [settle field]).flatten = fields.map settle := by
    rw [← List.flatMap_def, ← List.map_eq_flatMap]
  have hlexemes : columnLexemes declaration = word declaration.1 :: word type ::
      ((size.elim [] fun n => [openParen, literalOf (.int n), closeParen]) ++
        (fields.map propertyLexemes).flatten) := by
    rw [columnLexemes, harrange, ← List.flatMap_def]
    cases size <;> simp [propertyLexemes, Value.text?]
  have hcolumn : Column _ (declaration.1, Entries.ofPairs (("type", .text type) :: _)) :=
    .intro hsizes hproperties
  rw [hsettled, Entries.ofPairs_of_nodup hdistinct, ← hlexemes] at hcolumn
  refine ⟨_, ?_, hcolumn⟩
  exact ⟨rfl, _, hperm.symm, hforall⟩

/-! ## Commands -/

/-- What a command is written with is a statement, and denotes a command that says the same. -/
theorem exists_statement {command : Command} (h : command.IsPrintable) :
    ∃ command', command.SaysSame command' ∧ Statement command.lexemes command' := by
  cases command with
  | createTable table columns =>
    obtain ⟨-, hne, hdistinct, hcolumns⟩ := h
    choose! settle hsame hcolumn using fun declaration hdeclaration =>
      exists_column (hcolumns declaration hdeclaration)
    refine ⟨.createTable table (columns.map settle), ⟨_, rfl, ?_⟩, ?_⟩
    · exact List.forall₂_map_right_iff.mpr (List.forall₂_same.mpr hsame)
    refine .createTable (opening_word (by decide)) (keyword_word (by decide))
      (separated_map hne hcolumn) ?_
    have hnames : (columns.map settle).map (·.1) = columns.map (·.1) := by
      rw [List.map_map]
      exact List.map_congr_left fun declaration hmem => (hsame declaration hmem).1.symm
    rwa [hnames]
  | createIndex table column label =>
    refine ⟨_, rfl, ?_⟩
    have hlabel : Label (label.elim [] fun name => [word name]) label := by
      cases label with
      | none => exact .absent
      | some name => exact .present (h.2.2 name rfl).2
    exact .createIndex (opening_word (by decide)) (keyword_word (by decide)) hlabel
      (keyword_word (by decide))
  | insert table columns values =>
    obtain ⟨-, hne, hdistinct, -, hlength, hvalues⟩ := h
    have hvaluesNe : values ≠ [] := by
      rintro rfl
      exact hne (List.length_eq_zero_iff.mp hlength)
    have hnames : Separated Name (commaSeparated (columns.map fun column => [word column]))
        (columns.map id) :=
      separated_map hne fun column _ => rfl
    have hliterals : Separated LiteralItem (commaSeparated (values.map fun v => [literalOf v]))
        (values.map id) :=
      separated_map hvaluesNe fun v hv => ⟨_, rfl, literal_literalOf (hvalues v hv)⟩
    rw [List.map_id] at hnames hliterals
    exact ⟨_, rfl, .insert (opening_word (by decide)) (keyword_word (by decide)) hnames hdistinct
      (keyword_word (by decide)) hliterals hlength⟩
  | select selection =>
    obtain ⟨table, columns, c, orderBy, descending, limit⟩ := selection
    obtain ⟨-, hne, -, hcondition, -, hdescending, hlimit⟩ := h
    have hcolumns : Separated Selected (commaSeparated (columns.map fun column =>
        [if column = "*" then star else word column])) (columns.map id) := by
      refine separated_map hne fun column _ => ?_
      by_cases hstar : column = "*"
      · subst hstar
        exact .star
      · rw [if_neg hstar]
        exact .name column
    rw [List.map_id] at hcolumns
    refine ⟨_, rfl, ?_⟩
    change Statement (word "SELECT" :: (_ ++ word "FROM" :: word table ::
      (whereLexemes c ++ (orderLexemes orderBy descending ++ limitLexemes limit)))) _
    exact .select (opening_word (by decide)) hcolumns (keyword_word (by decide))
      (where_whereLexemes hcondition) (order_orderLexemes hdescending) (limit_limitLexemes hlimit)
  | update table assignments condition =>
    obtain ⟨-, hne, hdistinct, hassignments, hcondition⟩ := h
    have hitems : Separated Assignment (commaSeparated (assignments.map fun assignment =>
        [word assignment.1, sign "=", literalOf assignment.2])) (assignments.map id) :=
      separated_map hne fun assignment hmem =>
        .intro (literal_literalOf (hassignments assignment hmem).2)
    rw [List.map_id] at hitems
    have hstatement : Statement _ (.update table (Entries.ofPairs assignments) condition) :=
      .update (opening_word (by decide)) (keyword_word (by decide)) hitems
        (where_whereLexemes hcondition)
    rw [Entries.ofPairs_of_nodup hdistinct] at hstatement
    exact ⟨_, rfl, hstatement⟩
  | delete table condition =>
    exact ⟨_, rfl, .delete (opening_word (by decide)) (keyword_word (by decide))
      (where_whereLexemes h.2)⟩
  | dropTable table =>
    exact ⟨_, rfl, .dropTable (opening_word (by decide)) (keyword_word (by decide))⟩
  | use database => exact ⟨_, rfl, .use (opening_word (by decide))⟩

end Grammar

/-- A command that can be written is read from its text as one that says the same. -/
theorem Command.ofText_print {command : Command} (h : command.IsPrintable) :
    ∃ command', Command.ofText command.print = .ok command' ∧ command.SaysSame command' := by
  obtain ⟨tokens, hscan, hlexemes⟩ := Lexeme.scanFrom_layOut h.isWritten 0
  obtain ⟨command', hsame, hstatement⟩ := Grammar.exists_statement h
  obtain ⟨left, -, hrun⟩ := Reader.reads_statement hstatement tokens hlexemes
  refine ⟨command', ?_, hsame⟩
  have htokens : Token.ofText command.print = .ok tokens := by
    rw [Token.ofText, print, String.toList_ofList, hscan]
  rw [ofText, htokens]
  dsimp only
  rw [ofTokens, hrun]
  rfl

/-- The declaration of a table whose names spell keywords is read as what it says, with a default that
has a quote, and a reference that names its column before its table. -/
theorem Command.ofText_print_keywords :
    let command : Command := .createTable "table" [
      ("primary", [("type", .text "number"), ("primaryKey", .bool true), ("autoIncrement", .bool true)]),
      ("default", [("defaultValue", .text "it's"), ("size", .int 50), ("type", .text "string")]),
      ("not", [("foreignKey", Value.ofFields [("column", .text "primary"), ("table", .text "table")]),
        ("required", .bool true), ("type", .text "number")])]
    command.IsPrintable ∧
      command.print = "CREATE TABLE table (primary number PRIMARY KEY AUTO_INCREMENT, " ++
        "default string (50) DEFAULT 'it\\'s', " ++
        "not number REFERENCES table (primary) NOT NULL)" ∧
      ∃ command', Command.ofText command.print = .ok command' ∧ command.SaysSame command' := by
  intro command
  have hsize : 50 < 10 ^ Number.digitLimit :=
    lt_of_lt_of_le (by decide : 50 < 10 ^ 2) (Nat.pow_le_pow_right (by decide) (by decide))
  have hprintable : command.IsPrintable := by
    refine ⟨by decide +kernel, by simp, by decide, ?_⟩
    simp only [List.forall_mem_cons]
    refine ⟨⟨by decide +kernel, ⟨"number", by simp⟩, by decide, ?_⟩,
      ⟨by decide +kernel, ⟨"string", by simp⟩, by decide, ?_⟩,
      ⟨by decide +kernel, ⟨"number", by simp⟩, by decide, ?_⟩, nofun⟩
    · simp only [List.forall_mem_cons]
      exact ⟨.type _ (by decide +kernel), .flag _ (by decide), .flag _ (by decide), nofun⟩
    · simp only [List.forall_mem_cons]
      exact ⟨.default _ (.text _ (by decide +kernel)), .size 50 hsize, .type _ (by decide +kernel),
        nofun⟩
    · simp only [List.forall_mem_cons]
      exact ⟨.reference "table" (some "primary") _ (by decide +kernel)
        (fun s hs => Option.some.inj hs ▸ by decide +kernel) (.swap _ _ _), .flag _ (by decide),
        .type _ (by decide +kernel), nofun⟩
  exact ⟨hprintable, by decide +kernel, Command.ofText_print hprintable⟩

end RecordStore.Query
