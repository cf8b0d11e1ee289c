import RecordStore.Proofs.Entries
import RecordStore.Proofs.Query.Rereading

/-!
# Phrases are read

Every phrase of the grammar is read as what it denotes, and what follows it is left.  Where a phrase
may go on, or may be missing, something has to be known of the lexeme that follows: no parenthesis
opens behind a reference, and no keyword that begins a clause stands behind the clause before.  In a
statement this is always so, so every statement is read as its command.
-/

namespace RecordStore.Query

open Lexeme (word quoted sign openParen closeParen comma star)

namespace Reader

variable {given rest phrase : List Lexeme} {l : Lexeme}

/-- The end is none of some keywords. -/
lemma isKeyword_finish (words : List String) : Lexeme.finish.isKeyword words = false :=
  rfl

/-! ## Literals -/

/-- A word that denotes a literal has its value. -/
lemma wordValue_of_literal {s : String} {v : Value} (h : Grammar.Literal (word s) v) :
    wordValue s = .ok v := by
  unfold wordValue
  cases h with
  | number hparse hn => simp only [hparse, hn]
  | true hparse h => simp only [hparse, h, if_true]
  | false hparse h => simp only [hparse, h, String.reduceEq, if_false, if_true]
  | null hparse h => simp only [hparse, h, String.reduceEq, if_false, if_true]
  | bare hparse h =>
    simp only [List.mem_cons, List.not_mem_nil, or_false, not_or] at h
    simp only [hparse, h, if_false]

/-- A literal is read. -/
lemma reads_literal {v : Value} (h : Grammar.Literal l v) : Reads literal (l :: given) given v := by
  have hword : ∀ {s : String}, Grammar.Literal (word s) v →
      Reads literal (word s :: given) given v := by
    intro s hs
    unfold literal
    refine reads_peek fun token htoken => ?_
    have hkind : token.kind = .word := congrArg Lexeme.kind htoken
    have htext : token.text = s := congrArg Lexeme.text htoken
    rw [if_neg (by rw [hkind]; decide), if_pos hkind, htext]
    refine reads_next nofun fun _ _ => ?_
    rw [wordValue_of_literal hs]
    exact .pure
  cases h with
  | quoted s =>
    unfold literal
    refine reads_peek fun token htoken => ?_
    have hkind : token.kind = .text := congrArg Lexeme.kind htoken
    have htext : token.text = s := congrArg Lexeme.text htoken
    rw [if_pos hkind, htext]
    exact reads_next nofun fun _ _ => .pure
  | number hparse hn => exact hword (.number hparse hn)
  | true hparse h => exact hword (.true hparse h)
  | false hparse h => exact hword (.false hparse h)
  | null hparse h => exact hword (.null hparse h)
  | bare hparse h => exact hword (.bare hparse h)

/-- A size or a limit has the number that it denotes. -/
lemma count_of_isCount {n : Nat} (h : Grammar.Count l n) : count l.text = .ok n := by
  unfold count
  simp only [h.natural, if_pos h.limit]

/-! ## Clauses -/

/-- A comparison operator is a sign, with two spellings for inequality, or a keyword. -/
lemma sign_or_like_of_comparison {operator : String} (h : Grammar.Comparison l operator) :
    (∃ s, l = sign s ∧ (if s = "<>" then "!=" else s) = operator) ∨
      Grammar.Keyword "LIKE" l ∧ operator = "LIKE" := by
  cases h with
  | sign hmem =>
    refine Or.inl ⟨_, rfl, if_neg ?_⟩
    rintro rfl
    exact absurd hmem (by decide)
  | unequal => exact Or.inl ⟨_, rfl, rfl⟩
  | like h => exact Or.inr ⟨h, rfl⟩

/-- A condition is read. -/
lemma reads_condition {c : Condition} (h : Grammar.Condition phrase c) :
    Reads condition (phrase ++ given) given c := by
  obtain ⟨hoperator, hvalue⟩ := h
  unfold condition
  refine (reads_name _ _).bind (reads_peek fun token htoken => ?_)
  rcases sign_or_like_of_comparison hoperator with ⟨s, rfl, rfl⟩ | ⟨hlike, rfl⟩
  · have hkind : token.kind = .operator := congrArg Lexeme.kind htoken
    have htext : token.text = s := congrArg Lexeme.text htoken
    refine (reads_takesWord_not rfl).bind ?_
    rw [if_pos hkind, htext]
    refine reads_next nofun fun _ _ => ?_
    exact Reads.pure.bind ((reads_literal hvalue).bind .pure)
  · have hkind : token.kind ≠ .operator := by
      rw [show token.kind = .word from (congrArg Lexeme.kind htoken).trans hlike.1]
      decide
    refine (reads_takesWord (hlike.isKeyword_of_mem List.mem_cons_self)).bind ?_
    rw [if_neg hkind, if_pos rfl]
    exact Reads.pure.bind ((reads_literal hvalue).bind .pure)

/-- An optional condition is read, if what follows is not taken for one. -/
lemma reads_whereClause {c : Option Condition} (h : Grammar.Where phrase c)
    (hrest : l.isKeyword ["WHERE"] = false) (given : List Lexeme) :
    Reads whereClause (phrase ++ l :: given) (l :: given) c := by
  unfold whereClause
  cases h with
  | absent => exact .skipped hrest .pure
  | present hl h =>
    exact .taken (hl.isKeyword_of_mem List.mem_cons_self) ((reads_condition h).bind .pure)

/-- An order is read, if what follows is taken neither for one nor for a direction. -/
lemma reads_orderClause {order : Option String × Bool} (h : Grammar.Order phrase order)
    (hrest : ∀ keyword ∈ ["ORDER", "DESC", "ASC"], l.isKeyword [keyword] = false)
    (given : List Lexeme) : Reads orderClause (phrase ++ l :: given) (l :: given) order := by
  unfold orderClause
  cases h with
  | absent => exact .skipped (hrest "ORDER" (by decide)) .pure
  | present hl hm hdirection =>
    refine .taken (hl.isKeyword_of_mem List.mem_cons_self) ?_
    refine (reads_expectWord hm _).bind ((reads_name _ _).bind ?_)
    cases hdirection with
    | absent =>
      refine .skipped (hrest "DESC" (by decide)) ?_
      exact (reads_takesWord_not (hrest "ASC" (by decide))).bind .pure
    | ascending h =>
      refine .skipped (h.isKeyword_of_not_mem (by decide)) ?_
      exact (reads_takesWord (h.isKeyword_of_mem List.mem_cons_self)).bind .pure
    | descending h => exact .taken (h.isKeyword_of_mem List.mem_cons_self) .pure

/-- A limit is read, if what follows is not taken for one. -/
lemma reads_limitClause {limit : Option Nat} (h : Grammar.Limit phrase limit)
    (hrest : l.isKeyword ["LIMIT"] = false) (given : List Lexeme) :
    Reads limitClause (phrase ++ l :: given) (l :: given) limit := by
  unfold limitClause
  cases h with
  | absent => exact .skipped hrest .pure
  | @present _ m n hl hm =>
    refine .taken (hl.isKeyword_of_mem List.mem_cons_self) (reads_peek fun token htoken => ?_)
    have hkind : token.kind = .word := (congrArg Lexeme.kind htoken).trans hm.kind
    have htext : token.text = m.text := congrArg Lexeme.text htoken
    have hvalid : (token.kind = .word && Text.isDigitRun token.text) = true := by
      rw [hkind, htext, hm.digits]
      rfl
    rw [if_pos hvalid]
    refine reads_next (by rw [hm.kind]; decide) fun _ _ => ?_
    rw [htext, count_of_isCount hm]
    exact .pure

/-! ## Declarations -/

/-- A reference is read, if no parenthesis follows it. -/
lemma reads_reference {v : Value} (h : Grammar.Reference phrase v) (hl : l.kind ≠ .openParen) :
    Reads reference (phrase ++ l :: given) (l :: given) v := by
  unfold reference
  cases h with
  | table table =>
    refine (reads_name table _).bind ((reads_takes_not hl).bind ?_)
    rw [if_neg Bool.false_ne_true]
    exact .pure
  | column table column =>
    refine (reads_name table _).bind ((reads_takes (l := openParen) rfl (by decide)).bind ?_)
    rw [if_pos rfl]
    refine (reads_name column _).bind ?_
    exact (reads_expect (l := closeParen) rfl (by decide) _).bind .pure

/-- A property is read and added to those declared, if no parenthesis follows it. -/
lemma reads_property (column : String) (declared : Fields) {fields : Fields}
    (h : Grammar.Property phrase fields) (hl : l.kind ≠ .openParen) (given : List Lexeme) :
    Reads (property column declared) (phrase ++ l :: given) (l :: given)
      (fields.foldl (fun entries field => Entries.put field.1 field.2 entries) declared) := by
  -- Each property has its own keyword, and those asked for before it are others.
  unfold property
  cases h with
  | primaryKey hl hm =>
    exact .taken (hl.isKeyword_of_mem (by decide)) ((reads_expectWord hm _).bind .pure)
  | unique hl =>
    refine .skipped (hl.isKeyword_of_not_mem (by decide)) ?_
    exact .taken (hl.isKeyword_of_mem (by decide)) .pure
  | autoIncrement hl =>
    rcases hl with hl | hl
    all_goals
      refine .skipped (hl.isKeyword_of_not_mem (by decide)) ?_
      refine .skipped (hl.isKeyword_of_not_mem (by decide)) ?_
      exact .taken (hl.isKeyword_of_mem (by decide)) .pure
  | required hl hm =>
    refine .skipped (hl.isKeyword_of_not_mem (by decide)) ?_
    refine .skipped (hl.isKeyword_of_not_mem (by decide)) ?_
    refine .skipped (hl.isKeyword_of_not_mem (by decide)) ?_
    exact .taken (hl.isKeyword_of_mem (by decide)) ((reads_expectWord hm _).bind .pure)
  | optional hl =>
    refine .skipped (hl.isKeyword_of_not_mem (by decide)) ?_
    refine .skipped (hl.isKeyword_of_not_mem (by decide)) ?_
    refine .skipped (hl.isKeyword_of_not_mem (by decide)) ?_
    refine .skipped (hl.isKeyword_of_not_mem (by decide)) ?_
    exact .taken (hl.isKeyword_of_mem (by decide)) .pure
  | default hl hm =>
    refine .skipped (hl.isKeyword_of_not_mem (by decide)) ?_
    refine .skipped (hl.isKeyword_of_not_mem (by decide)) ?_
    refine .skipped (hl.isKeyword_of_not_mem (by decide)) ?_
    refine .skipped (hl.isKeyword_of_not_mem (by decide)) ?_
    refine .skipped (hl.isKeyword_of_not_mem (by decide)) ?_
    exact .taken (hl.isKeyword_of_mem (by decide)) ((reads_literal hm).bind .pure)
  | reference hkeyword h =>
    refine .skipped (hkeyword.isKeyword_of_not_mem (by decide)) ?_
    refine .skipped (hkeyword.isKeyword_of_not_mem (by decide)) ?_
    refine .skipped (hkeyword.isKeyword_of_not_mem (by decide)) ?_
    refine .skipped (hkeyword.isKeyword_of_not_mem (by decide)) ?_
    refine .skipped (hkeyword.isKeyword_of_not_mem (by decide)) ?_
    refine .skipped (hkeyword.isKeyword_of_not_mem (by decide)) ?_
    exact .taken (hkeyword.isKeyword_of_mem (by decide)) ((reads_reference h hl).bind .pure)

/-- A property begins with a word. -/
lemma exists_word_of_property {fields : Fields} (h : Grammar.Property phrase fields) :
    ∃ l more, phrase = l :: more ∧ l.kind = .word := by
  cases h with
  | primaryKey hl _ | unique hl | required hl _ | optional hl | default hl _ | reference hl _ =>
    exact ⟨_, _, rfl, hl.1⟩
  | autoIncrement hl => exact ⟨_, _, rfl, hl.elim (·.1) (·.1)⟩

variable {phrases : List (List Lexeme)} {fields : List Fields}

/-- What follows a column or stands behind its type: no parenthesis opens there if a comma or a
parenthesis that closes comes behind the properties. -/
lemma exists_next_of_properties (h : List.Forall₂ Grammar.Property phrases fields)
    (hl : l.kind = .comma ∨ l.kind = .closeParen) (given : List Lexeme) :
    ∃ next after, phrases.flatten ++ l :: given = next :: after ∧ next.kind ≠ .openParen := by
  cases h with
  | nil => exact ⟨l, given, rfl, by rcases hl with h | h <;> rw [h] <;> decide⟩
  | @cons phrase _ phrases _ h _ =>
    obtain ⟨m, more, rfl, hm⟩ := exists_word_of_property h
    exact ⟨m, more ++ (phrases.flatten ++ l :: given), by simp, by rw [hm]; decide⟩

/-- There are no more properties than lexemes in them. -/
lemma length_le_flatten_of_properties (h : List.Forall₂ Grammar.Property phrases fields) :
    phrases.length ≤ phrases.flatten.length := by
  induction h with
  | nil => exact Nat.le_refl _
  | cons h _ ih =>
    obtain ⟨m, more, rfl, -⟩ := exists_word_of_property h
    rw [List.flatten_cons, List.length_append, List.length_cons, List.length_cons]
    omega

/-- The properties of a column are read one after the other up to a comma or a parenthesis that
closes. -/
lemma reads_propertiesWithin (column : String) (declared : Fields)
    (h : List.Forall₂ Grammar.Property phrases fields) (hl : l.kind = .comma ∨ l.kind = .closeParen)
    (given : List Lexeme) {fuel : Nat} (hfuel : phrases.length ≤ fuel) :
    Reads (propertiesWithin column fuel declared) (phrases.flatten ++ l :: given) (l :: given)
      (fields.flatten.foldl (fun entries field => Entries.put field.1 field.2 entries) declared) := by
  induction h generalizing declared fuel with
  | nil =>
    cases fuel with
    | zero => exact .pure
    | succ fuel =>
      rw [propertiesWithin]
      refine reads_peek fun token htoken => ?_
      have hends : endsColumn token = true := by
        rw [endsColumn, show token.kind = l.kind from congrArg Lexeme.kind htoken]
        rcases hl with hcomma | hclose
        · rw [hcomma]
          rfl
        · rw [hclose]
          rfl
      rw [if_pos hends]
      exact .pure
  | @cons phrase _ phrases _ h hrest ih =>
    obtain ⟨fuel, rfl⟩ : ∃ n, fuel = n + 1 :=
      Nat.exists_eq_succ_of_ne_zero (by simp at hfuel; omega)
    obtain ⟨next, after, hnext, hopen⟩ := exists_next_of_properties hrest hl given
    have hfirst := reads_property column declared h hopen after
    obtain ⟨m, more, rfl, hm⟩ := exists_word_of_property h
    rw [propertiesWithin, List.flatten_cons, List.flatten_cons, List.foldl_append, List.append_assoc,
      List.cons_append]
    refine reads_peek fun token htoken => ?_
    have hgoesOn : endsColumn token = false := by
      rw [endsColumn, show token.kind = .word from (congrArg Lexeme.kind htoken).trans hm]
      rfl
    rw [if_neg (Bool.eq_false_iff.mp hgoesOn)]
    rw [← hnext, List.cons_append] at hfirst
    exact hfirst.bind (ih _ (Nat.le_of_succ_le_succ hfuel))

/-- A size is read and added to what is declared, if no parenthesis follows that is not its own. -/
lemma reads_sizeOf (column : String) (declared : Fields) {fields : Fields}
    (h : Grammar.Size phrase fields) (hl : l.kind ≠ .openParen) :
    Reads (sizeOf column declared) (phrase ++ l :: given) (l :: given)
      (fields.foldl (fun entries field => Entries.put field.1 field.2 entries) declared) := by
  unfold Reader.sizeOf
  cases h with
  | absent =>
    refine (reads_takes_not hl).bind ?_
    rw [if_neg Bool.false_ne_true]
    exact .pure
  | @present m n h =>
    obtain ⟨s, rfl⟩ : ∃ s, m = word s := ⟨m.text, by rw [word, ← h.kind]⟩
    refine (reads_takes (l := openParen) rfl (by decide)).bind ?_
    rw [if_pos rfl]
    refine (reads_name s _).bind ?_
    have hdigits : Text.isDigitRun s = true := h.digits
    have hcount : count s = .ok n := count_of_isCount h
    rw [if_pos hdigits, hcount]
    exact Reads.pure.bind ((reads_expect (l := closeParen) rfl (by decide) _).bind .pure)

/-- The declaration of a column is read up to a comma or a parenthesis that closes. -/
lemma reads_column {declaration : String × Fields} (h : Grammar.Column phrase declaration)
    (hl : l.kind = .comma ∨ l.kind = .closeParen) (given : List Lexeme) :
    Reads Reader.column (phrase ++ l :: given) (l :: given) declaration := by
  obtain ⟨hsize, hproperties⟩ := h
  rename_i column type size sizeFields phrases fields
  obtain ⟨next, after, hnext, hopen⟩ := exists_next_of_properties hproperties hl given
  have hlength : phrases.length ≤ (next :: after).length := by
    rw [← hnext, List.length_append]
    exact (length_le_flatten_of_properties hproperties).trans (Nat.le_add_right _ _)
  have hread := reads_propertiesWithin column
    (sizeFields.foldl (fun entries field => Entries.put field.1 field.2 entries)
      [("type", .text type)]) hproperties hl given hlength
  rw [← List.foldl_append, hnext] at hread
  rw [List.cons_append, List.cons_append, List.append_assoc, hnext]
  unfold Reader.column
  refine (reads_name _ _).bind ((reads_name _ _).bind ?_)
  refine (reads_sizeOf _ _ hsize hopen).bind ?_
  refine reads_length (fun n => do return (_, ← propertiesWithin _ n _)) ?_
  exact hread.bind .pure

/-! ## Statements -/

/-- Before the last of a list, a name that comes only once has not come. -/
lemma not_mem_of_nodup {ι κ : Type} (name : ι → κ) {before after items : List ι} {x : ι}
    (hall : before ++ x :: after = items) (h : (items.map name).Nodup) :
    name x ∉ before.map name := by
  rw [← hall, List.map_append, List.map_cons] at h
  exact fun hold => (List.nodup_append.mp h).2.2 _ hold _ List.mem_cons_self rfl

/-- Columns of a table are read, if no name comes twice. -/
lemma readsItems_column {columns : List (String × Fields)} (hdistinct : (columns.map (·.1)).Nodup)
    (hl : l.kind = .closeParen) (given : List Lexeme) :
    ReadsItems anotherColumn Grammar.Column id columns (l :: given) := by
  intro before declaration after hall phrase h next hnext
  have hcolumn : Reads column (phrase ++ next) next declaration := by
    rcases hnext with rfl | ⟨more, rfl⟩
    · exact reads_column h (Or.inr hl) _
    · exact reads_column h (Or.inl rfl) _
  have hnew : Entries.has declaration.1 before = false := by
    rw [Entries.has, List.any_eq_false]
    intro other hother heq
    rw [beq_iff_eq] at heq
    exact not_mem_of_nodup _ hall hdistinct (heq ▸ List.mem_map_of_mem hother)
  unfold anotherColumn
  refine hcolumn.bind ?_
  dsimp only
  rw [id, hnew, if_neg Bool.false_ne_true]
  exact .pure

/-- Names of an insertion are read, if none comes twice. -/
lemma readsItems_name {columns : List String} (hdistinct : columns.Nodup) :
    ReadsItems anotherName Grammar.Name id columns given := by
  rintro before column after hall phrase rfl next -
  have hnew : before.contains column = false := by
    have hnot := not_mem_of_nodup id hall (by rwa [List.map_id])
    rwa [id, List.map_id, ← List.contains_iff_mem, Bool.not_eq_true] at hnot
  unfold anotherName
  refine (reads_name column _).bind ?_
  rw [id, hnew, if_neg Bool.false_ne_true]
  exact .pure

/-- Values of an insertion are read. -/
lemma readsItems_literal (values : List Value) :
    ReadsItems anotherValue Grammar.LiteralItem id values given := by
  rintro before v after - phrase ⟨m, rfl, hm⟩ next -
  unfold anotherValue
  exact (reads_literal hm).bind .pure

/-- Columns of a selection are read. -/
lemma readsItems_selected (columns : List String) :
    ReadsItems anotherSelected Grammar.Selected id columns given := by
  rintro before column after - phrase h next -
  unfold anotherSelected
  cases h with
  | star =>
    refine (reads_takes (l := star) rfl (by decide)).bind ?_
    rw [if_pos rfl]
    exact .pure
  | name =>
    have hword : (word column).kind ≠ .star := nofun
    refine (reads_takes_not hword).bind ?_
    rw [if_neg Bool.false_ne_true]
    exact (reads_name _ _).bind .pure

/-- Assignments of an update are read, each put among those before it. -/
lemma readsItems_assignment (assignments : Fields) :
    ReadsItems anotherAssignment Grammar.Assignment Entries.ofPairs assignments given := by
  rintro before assignment after - phrase ⟨hm⟩ next -
  unfold anotherAssignment
  refine (reads_name _ _).bind (reads_peek fun token htoken => ?_)
  have hequals : (token.kind = .operator && token.text = "=") = true := by
    rw [show token.kind = .operator from congrArg Lexeme.kind htoken,
      show token.text = "=" from congrArg Lexeme.text htoken]
    rfl
  rw [if_pos hequals]
  refine reads_next nofun fun _ _ => (reads_literal hm).bind ?_
  rw [Entries.ofPairs, Entries.ofPairs, List.foldl_append]
  exact .pure

/-- The declaration of a table is read after its first words. -/
lemma reads_createTable {table : String} {columns : List (String × Fields)}
    (hcolumns : Grammar.Separated Grammar.Column phrase columns)
    (hdistinct : (columns.map (·.1)).Nodup) :
    Reads createTable (word table :: openParen :: (phrase ++ [closeParen, Lexeme.finish]))
      [Lexeme.finish] (.createTable table columns) := by
  have hread := reads_commaFold hcolumns (by decide : closeParen.kind ≠ .comma)
    (readsItems_column hdistinct rfl [Lexeme.finish])
  unfold createTable
  refine (reads_name table _).bind ((reads_expect rfl (by decide) _).bind ?_)
  exact hread.bind ((reads_expect rfl (by decide) _).bind (reads_finish.bind .pure))

/-- The declaration of an index is read after its first words. -/
lemma reads_createIndex {table column : String} {label : Option String}
    (hlabel : Grammar.Label phrase label) (hl : Grammar.Keyword "ON" l) :
    Reads createIndex
      (phrase ++ [l, word table, openParen, word column, closeParen, Lexeme.finish])
      [Lexeme.finish] (.createIndex table column label) := by
  have hrest : Reads (do
        expectWord "ON" "ON in CREATE INDEX"
        let table ← Reader.name "table name"
        expect .openParen "( before indexed column"
        let column ← Reader.name "column name"
        expect .closeParen ") after indexed column"
        finish
        return Command.createIndex table column label)
      [l, word table, openParen, word column, closeParen, Lexeme.finish] [Lexeme.finish]
      (.createIndex table column label) := by
    refine (reads_expectWord hl _).bind ((reads_name table _).bind ?_)
    refine (reads_expect rfl (by decide) _).bind ((reads_name column _).bind ?_)
    exact (reads_expect rfl (by decide) _).bind (reads_finish.bind .pure)
  unfold createIndex
  cases hlabel with
  | absent =>
    refine reads_peek fun token htoken => ?_
    rw [isKeyword_of_lexeme htoken, if_pos (hl.isKeyword_of_mem List.mem_cons_self)]
    exact hrest
  | @present s hs =>
    refine reads_peek fun token htoken => ?_
    have hlabel : (word s).isKeyword ["ON"] = false := by
      simpa [Lexeme.isKeyword, word] using hs
    have hname : ∀ given, Reads (some <$> Reader.name "index name") (word s :: given) given
        (some s) := by
      intro given
      rw [map_eq_pure_bind]
      exact (reads_name s _).bind .pure
    rw [isKeyword_of_lexeme htoken, hlabel, if_neg Bool.false_ne_true]
    exact (hname _).bind hrest

/-- An insertion is read after its first word. -/
lemma reads_insert {m : Lexeme} {names literals : List Lexeme} {table : String}
    {columns : List String} {values : List Value} (hl : Grammar.Keyword "INTO" l)
    (hcolumns : Grammar.Separated Grammar.Name names columns) (hdistinct : columns.Nodup)
    (hm : Grammar.Keyword "VALUES" m)
    (hvalues : Grammar.Separated Grammar.LiteralItem literals values)
    (hlength : columns.length = values.length) :
    Reads Reader.insert (l :: word table :: openParen ::
        (names ++ closeParen :: m :: openParen :: (literals ++ [closeParen, Lexeme.finish])))
      [Lexeme.finish] (.insert table columns values) := by
  unfold Reader.insert
  refine (reads_expectWord hl _).bind ((reads_name table _).bind ?_)
  refine (reads_takes (l := openParen) rfl (by decide)).bind ?_
  rw [if_pos rfl]
  refine (reads_commaFold hcolumns (by decide) (readsItems_name hdistinct)).bind ?_
  refine (reads_expect rfl (by decide) _).bind ((reads_expectWord hm _).bind ?_)
  refine (reads_expect rfl (by decide) _).bind ?_
  refine (reads_commaFold hvalues (by decide) (readsItems_literal values)).bind ?_
  refine (reads_expect rfl (by decide) _).bind (reads_finish.bind ?_)
  rw [id, id, if_neg (not_not.mpr hlength)]
  exact .pure

/-- A selection is read after its first word. -/
lemma reads_select {items condition order limit : List Lexeme} {table : String}
    {columns : List String} {c : Option Condition} {orderBy : Option String} {descending : Bool}
    {n : Option Nat} (hcolumns : Grammar.Separated Grammar.Selected items columns)
    (hl : Grammar.Keyword "FROM" l) (hcondition : Grammar.Where condition c)
    (horder : Grammar.Order order (orderBy, descending)) (hlimit : Grammar.Limit limit n) :
    Reads select
      (items ++ l :: word table :: (condition ++ (order ++ (limit ++ [Lexeme.finish]))))
      [Lexeme.finish] (.select ⟨table, columns, c, orderBy, descending, n⟩) := by
  -- Behind the table stands a keyword that tells what follows, or the end.
  obtain ⟨first, more, hfirst, hafter⟩ : ∃ first more, limit ++ [Lexeme.finish] = first :: more ∧
      (first = Lexeme.finish ∨ Grammar.Keyword "LIMIT" first) := by
    cases hlimit with
    | absent => exact ⟨_, _, rfl, Or.inl rfl⟩
    | present hl _ => exact ⟨_, _, rfl, Or.inr hl⟩
  obtain ⟨second, rest, hsecond, hbehind⟩ : ∃ second rest, order ++ first :: more = second :: rest ∧
      (second = first ∨ Grammar.Keyword "ORDER" second) := by
    cases horder with
    | absent => exact ⟨_, _, rfl, Or.inl rfl⟩
    | present hl _ _ => exact ⟨_, _, rfl, Or.inr hl⟩
  have hnone : ∀ words, "LIMIT" ∉ words → first.isKeyword words = false := by
    intro words hwords
    rcases hafter with rfl | hkeyword
    · exact isKeyword_finish words
    · exact hkeyword.isKeyword_of_not_mem hwords
  have hnoCondition : second.isKeyword ["WHERE"] = false := by
    rcases hbehind with rfl | hkeyword
    · exact hnone _ (by decide)
    · exact hkeyword.isKeyword_of_not_mem (by decide)
  have hnoOrder : ∀ keyword ∈ ["ORDER", "DESC", "ASC"], first.isKeyword [keyword] = false := by
    have hothers : ∀ keyword ∈ ["ORDER", "DESC", "ASC"], "LIMIT" ∉ [keyword] := by decide
    exact fun keyword hkeyword => hnone _ (hothers keyword hkeyword)
  have hreadCondition := reads_whereClause hcondition hnoCondition rest
  have hreadOrder := reads_orderClause horder hnoOrder more
  have hreadLimit := reads_limitClause hlimit (isKeyword_finish _) []
  rw [hfirst] at hreadLimit ⊢
  rw [hsecond] at hreadOrder ⊢
  unfold select
  refine (reads_commaFold hcolumns (by rw [hl.1]; decide) (readsItems_selected columns)).bind ?_
  refine (reads_expectWord hl _).bind ((reads_name table _).bind ?_)
  exact hreadCondition.bind (hreadOrder.bind (hreadLimit.bind (reads_finish.bind .pure)))

/-- An update is read after its first word. -/
lemma reads_update {items condition : List Lexeme} {table : String} {assignments : Fields}
    {c : Option Condition} (hl : Grammar.Keyword "SET" l)
    (hassignments : Grammar.Separated Grammar.Assignment items assignments)
    (hcondition : Grammar.Where condition c) :
    Reads update (word table :: l :: (items ++ (condition ++ [Lexeme.finish]))) [Lexeme.finish]
      (.update table (Entries.ofPairs assignments) c) := by
  obtain ⟨first, more, hfirst, hcomma⟩ : ∃ first more,
      condition ++ [Lexeme.finish] = first :: more ∧ first.kind ≠ .comma := by
    cases hcondition with
    | absent => exact ⟨_, _, rfl, nofun⟩
    | present hl _ => exact ⟨_, _, rfl, by rw [hl.1]; decide⟩
  have hreadCondition := reads_whereClause hcondition (isKeyword_finish _) []
  rw [hfirst] at hreadCondition ⊢
  unfold update
  refine (reads_name table _).bind ((reads_expectWord hl _).bind ?_)
  refine (reads_commaFold hassignments hcomma (readsItems_assignment assignments)).bind ?_
  exact hreadCondition.bind (reads_finish.bind .pure)

/-- The first lexeme of a statement tells how the rest is read. -/
lemma reads_opening {keyword : String} (hl : Grammar.Opening keyword l) {c : Command}
    (h : Reads (if keyword = "CREATE" then create
      else if keyword = "INSERT" then Reader.insert
      else if keyword = "SELECT" then select
      else if keyword = "UPDATE" then update
      else if keyword = "DELETE" then delete
      else if keyword = "DROP" then dropTable
      else if keyword = "USE" then useDatabase
      else problem (.unknownCommand keyword)) given rest c) :
    Reads Reader.command (l :: given) rest c := by
  have hfinish : l.kind ≠ .finish := by
    rcases hl.1 with hkind | hkind <;> rw [hkind] <;> decide
  unfold Reader.command
  refine reads_next hfinish fun token htoken => ?_
  have hkind : token.kind = l.kind := congrArg Lexeme.kind htoken
  have htext : Text.upper token.text = keyword :=
    (congrArg (fun l : Lexeme => Text.upper l.text) htoken).trans hl.2
  rw [if_neg (hkind ▸ hfinish), htext]
  exact h

/-- A statement is read as its command. -/
theorem reads_statement {c : Command} (h : Grammar.Statement phrase c) :
    Reads Reader.command (phrase ++ [Lexeme.finish]) [Lexeme.finish] c := by
  cases h with
  | createTable hl hm hcolumns hdistinct =>
    simp only [List.append_assoc, List.cons_append, List.nil_append]
    refine reads_opening hl ?_
    rw [if_pos rfl]
    unfold create
    exact .taken (hm.isKeyword_of_mem (by decide)) (reads_createTable hcolumns hdistinct)
  | createIndex hl hm hlabel hn =>
    simp only [List.append_assoc, List.cons_append, List.nil_append]
    refine reads_opening hl ?_
    rw [if_pos rfl]
    unfold create
    refine .skipped (hm.isKeyword_of_not_mem (by decide)) ?_
    exact .taken (hm.isKeyword_of_mem (by decide)) (reads_createIndex hlabel hn)
  | insert hl hm hcolumns hdistinct hn hvalues hlength =>
    simp only [List.append_assoc, List.cons_append, List.nil_append]
    refine reads_opening hl ?_
    rw [if_neg (by decide), if_pos rfl]
    exact reads_insert hm hcolumns hdistinct hn hvalues hlength
  | select hl hcolumns hm hcondition horder hlimit =>
    simp only [List.append_assoc, List.cons_append]
    refine reads_opening hl ?_
    rw [if_neg (by decide), if_neg (by decide), if_pos rfl]
    exact reads_select hcolumns hm hcondition horder hlimit
  | update hl hm hassignments hcondition =>
    simp only [List.append_assoc, List.cons_append]
    refine reads_opening hl ?_
    rw [if_neg (by decide), if_neg (by decide), if_neg (by decide), if_pos rfl]
    exact reads_update hm hassignments hcondition
  | delete hl hm hcondition =>
    have hreadCondition := reads_whereClause hcondition (isKeyword_finish _) []
    refine reads_opening hl ?_
    rw [if_neg (by decide), if_neg (by decide), if_neg (by decide), if_neg (by decide), if_pos rfl]
    unfold delete
    refine (reads_expectWord hm _).bind ((reads_name _ _).bind ?_)
    exact hreadCondition.bind (reads_finish.bind .pure)
  | dropTable hl hm =>
    refine reads_opening hl ?_
    rw [if_neg (by decide), if_neg (by decide), if_neg (by decide), if_neg (by decide),
      if_neg (by decide), if_pos rfl]
    unfold dropTable
    exact (reads_expectWord hm _).bind ((reads_name _ _).bind (reads_finish.bind .pure))
  | use hl =>
    refine reads_opening hl ?_
    rw [if_neg (by decide), if_neg (by decide), if_neg (by decide), if_neg (by decide),
      if_neg (by decide), if_neg (by decide), if_pos rfl]
    unfold useDatabase
    exact (reads_name _ _).bind (reads_finish.bind .pure)

end Reader

end RecordStore.Query
