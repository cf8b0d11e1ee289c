import RecordStore.Proofs.Query.Deriving
import RecordStore.Proofs.Query.Reading
import RecordStore.Proofs.Query.Recognizing
import RecordStore.Proofs.Query.Scanning

/-!
# Commands are statements

What is taken for a declaration or a statement is one, up to the end.  So the lists of tokens that are
read as commands are the statements of the grammar: no token is skipped or left over, the command is the
one that the statement denotes, and everything else is refused.
-/

namespace RecordStore.Query

open Lexeme (word sign openParen closeParen star)

namespace Reader

variable {given rest : List Lexeme} {l : Lexeme}

/-! ## Declarations -/

/-- What is taken for a reference is one. -/
lemma derives_reference : Derives reference Grammar.Reference := by
  intro given rest v h
  unfold reference at h
  obtain ⟨_, table, more, rfl, rfl, hopen⟩ := h.step (derives_name _)
  obtain ⟨_, opened, more, rfl, hphrase, hcolumn⟩ :=
    hopen.step (derives_takes (by decide : openParen ∈ Lexeme.marks))
  rcases hphrase with ⟨rfl, rfl⟩ | ⟨rfl, rfl⟩
  · rw [if_pos rfl] at hcolumn
    obtain ⟨_, column, more, rfl, rfl, hclose⟩ := hcolumn.step (derives_name _)
    obtain ⟨_, _, more, rfl, rfl, hrest⟩ :=
      hclose.step (derives_expect (by decide : closeParen ∈ Lexeme.marks) _)
    obtain ⟨rfl, rfl⟩ := hrest.eq_of_pure
    exact ⟨[word table, openParen, word column, closeParen], rfl, hrest.1, .column table column⟩
  · rw [if_neg Bool.false_ne_true] at hcolumn
    obtain ⟨rfl, rfl⟩ := hcolumn.eq_of_pure
    exact ⟨[word table], rfl, hcolumn.1, .table table⟩

/-- What is taken for a property is one, and its field is put among those declared. -/
lemma derives_property (column : String) (declared : Fields) :
    Derives (property column declared) fun phrase declared' => ∃ fields,
      Grammar.Property phrase fields ∧
        declared' = fields.foldl (fun entries field => Entries.put field.1 field.2 entries) declared := by
  intro given rest declared' h
  unfold property at h
  rcases h.taken_or with ⟨l, more, rfl, hl, hkey⟩ | h
  · obtain ⟨_, _, more, rfl, ⟨m, rfl, hm⟩, hrest⟩ := hkey.step (derives_expectWord _ _)
    obtain ⟨rfl, rfl⟩ := hrest.eq_of_pure
    exact ⟨[l, m], rfl, hrest.1, _, .primaryKey (keyword_of_isKeyword hl) hm, rfl⟩
  rcases h.taken_or with ⟨l, more, rfl, hl, hrest⟩ | h
  · obtain ⟨rfl, rfl⟩ := hrest.eq_of_pure
    exact ⟨[l], rfl, hrest.1, _, .unique (keyword_of_isKeyword hl), rfl⟩
  rcases h.taken_or with ⟨l, more, rfl, hl, hrest⟩ | h
  · obtain ⟨rfl, rfl⟩ := hrest.eq_of_pure
    refine ⟨[l], rfl, hrest.1, _, .autoIncrement ?_, rfl⟩
    obtain ⟨hkind, hmem⟩ := Bool.and_eq_true_iff.mp hl
    rw [List.contains_iff_mem, List.mem_pair] at hmem
    exact hmem.imp (⟨eq_of_beq hkind, ·⟩) (⟨eq_of_beq hkind, ·⟩)
  rcases h.taken_or with ⟨l, more, rfl, hl, hnull⟩ | h
  · obtain ⟨_, _, more, rfl, ⟨m, rfl, hm⟩, hrest⟩ := hnull.step (derives_expectWord _ _)
    obtain ⟨rfl, rfl⟩ := hrest.eq_of_pure
    exact ⟨[l, m], rfl, hrest.1, _, .required (keyword_of_isKeyword hl) hm, rfl⟩
  rcases h.taken_or with ⟨l, more, rfl, hl, hrest⟩ | h
  · obtain ⟨rfl, rfl⟩ := hrest.eq_of_pure
    exact ⟨[l], rfl, hrest.1, _, .optional (keyword_of_isKeyword hl), rfl⟩
  rcases h.taken_or with ⟨l, more, rfl, hl, hliteral⟩ | h
  · obtain ⟨_, v, more, rfl, ⟨m, rfl, hm⟩, hrest⟩ := hliteral.step derives_literal
    obtain ⟨rfl, rfl⟩ := hrest.eq_of_pure
    exact ⟨[l, m], rfl, hrest.1, _, .default (keyword_of_isKeyword hl) hm, rfl⟩
  rcases h.taken_or with ⟨l, more, rfl, hl, hreference⟩ | h
  · obtain ⟨phrase, v, more, rfl, hphrase, hrest⟩ := hreference.step derives_reference
    obtain ⟨rfl, rfl⟩ := hrest.eq_of_pure
    exact ⟨l :: phrase, rfl, hrest.1, _, .reference (keyword_of_isKeyword hl) hphrase, rfl⟩
  · obtain ⟨_, _, _, h⟩ := h.of_peek
    exact (not_gives_problem h).elim

/-- What is taken for properties of a column are properties. -/
lemma derives_propertiesWithin (column : String) (fuel : Nat) (declared : Fields) :
    Derives (propertiesWithin column fuel declared) fun phrase declared' => ∃ phrases fields,
      phrase = List.flatten phrases ∧ List.Forall₂ Grammar.Property phrases fields ∧
        declared' = fields.flatten.foldl (fun entries field => Entries.put field.1 field.2 entries)
          declared := by
  induction fuel generalizing declared with
  | zero =>
    intro given rest declared' h
    obtain ⟨rfl, rfl⟩ := h.eq_of_pure
    exact ⟨[], rfl, h.1, [], [], rfl, .nil, rfl⟩
  | succ fuel ih =>
    intro given rest declared' h
    rw [propertiesWithin] at h
    obtain ⟨token, more, rfl, h⟩ := h.of_peek
    by_cases hends : endsColumn token = true
    · rw [if_pos hends] at h
      obtain ⟨rfl, rfl⟩ := h.eq_of_pure
      exact ⟨[], rfl, h.1, [], [], rfl, .nil, rfl⟩
    · rw [if_neg hends] at h
      obtain ⟨phrase, _, more, hmore, ⟨fields, hphrase, rfl⟩, hrest⟩ :=
        h.step (derives_property column declared)
      obtain ⟨_, rfl, hclosed, phrases, others, rfl, hphrases, rfl⟩ := ih _ _ _ _ hrest
      refine ⟨phrase ++ phrases.flatten, by rw [hmore, List.append_assoc], hclosed,
        phrase :: phrases, fields :: others, rfl, .cons hphrase hphrases, ?_⟩
      rw [List.flatten_cons, List.foldl_append]

/-- What is taken for an optional size is one, and its field is put among those declared. -/
lemma derives_sizeOf (column : String) (declared : Fields) :
    Derives (sizeOf column declared) fun phrase declared' => ∃ fields,
      Grammar.Size phrase fields ∧
        declared' = fields.foldl (fun entries field => Entries.put field.1 field.2 entries) declared := by
  intro given rest declared' h
  unfold Reader.sizeOf at h
  obtain ⟨_, opened, more, rfl, hphrase, hsize⟩ :=
    h.step (derives_takes (by decide : openParen ∈ Lexeme.marks))
  rcases hphrase with ⟨rfl, rfl⟩ | ⟨rfl, rfl⟩
  · rw [if_pos rfl] at hsize
    obtain ⟨_, s, more, rfl, rfl, hvalid⟩ := hsize.step (derives_name _)
    by_cases hdigits : Text.isDigitRun s = true
    · rw [if_pos hdigits] at hvalid
      obtain ⟨n, hn, hclose⟩ := hvalid.of_lift
      obtain ⟨_, _, more, rfl, rfl, hrest⟩ :=
        hclose.step (derives_expect (by decide : closeParen ∈ Lexeme.marks) _)
      obtain ⟨rfl, rfl⟩ := hrest.eq_of_pure
      exact ⟨[openParen, word s, closeParen], rfl, hrest.1, _,
        .present (isCount_of_count rfl hdigits hn), rfl⟩
    · rw [if_neg hdigits] at hvalid
      exact (not_gives_problem_bind hvalid).elim
  · rw [if_neg Bool.false_ne_true] at hsize
    obtain ⟨rfl, rfl⟩ := hsize.eq_of_pure
    exact ⟨[], rfl, hsize.1, [], .absent, rfl⟩

/-- What is taken for a column is one. -/
lemma derives_column : Derives Reader.column Grammar.Column := by
  intro given rest declaration h
  unfold Reader.column at h
  obtain ⟨_, column, more, rfl, rfl, htype⟩ := h.step (derives_name _)
  obtain ⟨_, type, more, rfl, rfl, hsize⟩ := htype.step (derives_name _)
  obtain ⟨size, _, more, rfl, ⟨sizeFields, hsizePhrase, rfl⟩, hget⟩ := hsize.step (derives_sizeOf _ _)
  obtain ⟨tokens, hproperties⟩ := hget.of_get
  obtain ⟨_, _, more, rfl, ⟨phrases, fields, rfl, hphrases, rfl⟩, hrest⟩ :=
    hproperties.step (derives_propertiesWithin _ _ _)
  obtain ⟨rfl, rfl⟩ := hrest.eq_of_pure
  refine ⟨word column :: word type :: (size ++ phrases.flatten), by simp, hrest.1, ?_⟩
  rw [← List.foldl_append]
  exact .intro hsizePhrase hphrases

/-- What is taken for the columns of a table are columns under distinct names. -/
lemma derives_columns :
    Derives (commaFold anotherColumn []) fun phrase columns =>
      Grammar.Separated Grammar.Column phrase columns ∧ (columns.map (·.1)).Nodup := by
  have hitem : ∀ before : List (String × Fields), (before.map (·.1)).Nodup →
      Derives (anotherColumn (id before)) fun phrase columns => ∃ declaration,
        Grammar.Column phrase declaration ∧ columns = id (before ++ [declaration]) ∧
          ((before ++ [declaration]).map (·.1)).Nodup := by
    intro before hbefore given rest columns h
    unfold anotherColumn at h
    obtain ⟨phrase, ⟨column, declared⟩, more, rfl, hphrase, hnew⟩ := h.step derives_column
    dsimp only [id] at hnew
    by_cases hhas : Entries.has column before = true
    · rw [if_pos hhas] at hnew
      exact (not_gives_problem_bind hnew).elim
    · rw [if_neg hhas] at hnew
      obtain ⟨rfl, rfl⟩ := hnew.eq_of_pure
      refine ⟨phrase, rfl, hnew.1, _, hphrase, rfl, ?_⟩
      rw [List.map_append, List.map_singleton, ← List.concat_eq_append]
      refine hbefore.concat fun hmem => hhas ?_
      obtain ⟨other, hother, hsame⟩ := List.mem_map.mp hmem
      exact List.any_eq_true.mpr ⟨other, hother, beq_iff_eq.mpr hsame⟩
  refine (derives_commaFold hitem List.nodup_nil).mono ?_
  rintro phrase _ ⟨columns, hcolumns, rfl, hdistinct⟩
  exact ⟨hcolumns, hdistinct⟩

/-- What is taken for the declaration of a table is one, up to the end. -/
lemma gives_createTable {c : Command} (h : Gives createTable given rest c) :
    ∃ (table : String) (phrase : List Lexeme) (columns : List (String × Fields)),
      given = word table :: openParen :: (phrase ++ [closeParen, Lexeme.finish]) ∧
        Grammar.Separated Grammar.Column phrase columns ∧ (columns.map (·.1)).Nodup ∧
          c = .createTable table columns := by
  unfold createTable at h
  obtain ⟨_, table, more, rfl, rfl, hopen⟩ := h.step (derives_name _)
  obtain ⟨_, _, more, rfl, rfl, hcolumns⟩ :=
    hopen.step (derives_expect (by decide : openParen ∈ Lexeme.marks) _)
  obtain ⟨phrase, columns, more, rfl, ⟨hphrase, hdistinct⟩, hclose⟩ := hcolumns.step derives_columns
  obtain ⟨_, _, more, rfl, rfl, hfinish⟩ :=
    hclose.step (derives_expect (by decide : closeParen ∈ Lexeme.marks) _)
  obtain ⟨rfl, hrest⟩ := hfinish.of_finish
  obtain ⟨-, rfl⟩ := hrest.eq_of_pure
  exact ⟨table, phrase, columns, rfl, hphrase, hdistinct, rfl⟩

/-- What is taken for the declaration of an index is one, up to the end. -/
lemma gives_createIndex {c : Command} (h : Gives createIndex given rest c) :
    ∃ (label : Option String) (table column : String) (phrase : List Lexeme) (l : Lexeme),
      given = phrase ++ [l, word table, openParen, word column, closeParen, Lexeme.finish] ∧
        Grammar.Label phrase label ∧ Grammar.Keyword "ON" l ∧ c = .createIndex table column label := by
  have htail : ∀ (label : Option String) (given : List Lexeme), Gives (do
        expectWord "ON" "ON in CREATE INDEX"
        let table ← name "table name"
        expect .openParen "( before indexed column"
        let column ← name "column name"
        expect .closeParen ") after indexed column"
        finish
        return Command.createIndex table column label) given rest c →
      ∃ (table column : String) (l : Lexeme),
        given = [l, word table, openParen, word column, closeParen, Lexeme.finish] ∧
          Grammar.Keyword "ON" l ∧ c = .createIndex table column label := by
    intro label given h
    obtain ⟨_, _, more, rfl, ⟨l, rfl, hl⟩, hname⟩ := h.step (derives_expectWord _ _)
    obtain ⟨_, table, more, rfl, rfl, hopen⟩ := hname.step (derives_name _)
    obtain ⟨_, _, more, rfl, rfl, hcolumn⟩ :=
      hopen.step (derives_expect (by decide : openParen ∈ Lexeme.marks) _)
    obtain ⟨_, column, more, rfl, rfl, hclose⟩ := hcolumn.step (derives_name _)
    obtain ⟨_, _, more, rfl, rfl, hfinish⟩ :=
      hclose.step (derives_expect (by decide : closeParen ∈ Lexeme.marks) _)
    obtain ⟨rfl, hrest⟩ := hfinish.of_finish
    obtain ⟨-, rfl⟩ := hrest.eq_of_pure
    exact ⟨table, column, l, rfl, hl, rfl⟩
  unfold createIndex at h
  obtain ⟨token, more, rfl, h⟩ := h.of_peek
  by_cases hkeyword : token.isKeyword ["ON"] = true
  · rw [if_pos hkeyword, pure_bind] at h
    obtain ⟨table, column, l, hgiven, hl, rfl⟩ := htail none _ h
    exact ⟨none, table, column, [], l, hgiven, .absent, hl, rfl⟩
  · rw [if_neg hkeyword, map_eq_pure_bind, bind_assoc] at h
    obtain ⟨_, label, more, hgiven, rfl, hon⟩ := h.step (derives_name _)
    rw [pure_bind] at hon
    obtain ⟨table, column, l, rfl, hl, rfl⟩ := htail (some label) _ hon
    refine ⟨some label, table, column, [word label], l, hgiven, .present fun hlabel => ?_, hl, rfl⟩
    obtain ⟨hsame, -⟩ := List.cons.inj hgiven
    have hword : (Token.lexeme token).isKeyword ["ON"] = true := by
      rw [hsame]
      simpa [Lexeme.isKeyword, word] using hlabel
    exact hkeyword hword

/-- What is taken for a declaration after its first word is one, up to the end. -/
lemma gives_create {c : Command} (hl : Grammar.Opening "CREATE" l) (h : Gives create given rest c) :
    ∃ phrase, l :: given = phrase ++ [Lexeme.finish] ∧ Grammar.Statement phrase c := by
  unfold create at h
  rcases h.taken_or with ⟨m, more, rfl, hm, htable⟩ | hother
  · obtain ⟨table, phrase, columns, rfl, hcolumns, hdistinct, rfl⟩ := gives_createTable htable
    exact ⟨_, by simp, .createTable hl (keyword_of_isKeyword hm) hcolumns hdistinct⟩
  rcases hother.taken_or with ⟨m, more, rfl, hm, hindex⟩ | hproblem
  · obtain ⟨label, table, column, phrase, n, rfl, hlabel, hn, rfl⟩ := gives_createIndex hindex
    exact ⟨_, by simp, .createIndex hl (keyword_of_isKeyword hm) hlabel hn⟩
  · obtain ⟨_, _, _, hproblem⟩ := hproblem.of_peek
    split_ifs at hproblem
    · exact (not_gives_problem hproblem).elim
    · exact (not_gives_problem hproblem).elim

/-! ## Statements on records -/

/-- What is taken for the names of an insertion are distinct names. -/
lemma derives_names :
    Derives (commaFold anotherName []) fun phrase columns =>
      Grammar.Separated Grammar.Name phrase columns ∧ columns.Nodup := by
  have hitem : ∀ before : List String, before.Nodup →
      Derives (anotherName (id before)) fun phrase columns => ∃ column,
        Grammar.Name phrase column ∧ columns = id (before ++ [column]) ∧
          (before ++ [column]).Nodup := by
    intro before hbefore given rest columns h
    unfold anotherName at h
    obtain ⟨phrase, column, more, rfl, hphrase, hnew⟩ := h.step (derives_name _)
    dsimp only [id] at hnew
    by_cases hhas : before.contains column = true
    · rw [if_pos hhas] at hnew
      exact (not_gives_problem_bind hnew).elim
    · rw [if_neg hhas] at hnew
      obtain ⟨rfl, rfl⟩ := hnew.eq_of_pure
      refine ⟨phrase, rfl, hnew.1, column, hphrase, rfl, ?_⟩
      rw [List.contains_iff_mem] at hhas
      rw [← List.concat_eq_append]
      exact hbefore.concat hhas
  refine (derives_commaFold hitem List.nodup_nil).mono ?_
  rintro phrase _ ⟨columns, hcolumns, rfl, hdistinct⟩
  exact ⟨hcolumns, hdistinct⟩

/-- What is taken for the values of an insertion are literals. -/
lemma derives_values :
    Derives (commaFold anotherValue []) (Grammar.Separated Grammar.LiteralItem) := by
  have hitem : ∀ before : List Value, True →
      Derives (anotherValue (id before)) fun phrase values => ∃ v,
        Grammar.LiteralItem phrase v ∧ values = id (before ++ [v]) ∧ True := by
    intro before _ given rest values h
    unfold anotherValue at h
    obtain ⟨phrase, v, more, rfl, hphrase, hrest⟩ := h.step derives_literal
    obtain ⟨rfl, rfl⟩ := hrest.eq_of_pure
    exact ⟨phrase, rfl, hrest.1, v, hphrase, rfl, trivial⟩
  refine (derives_commaFold hitem trivial).mono ?_
  rintro phrase _ ⟨values, h, rfl, -⟩
  exact h

/-- What is taken for an insertion after its first word is one, up to the end. -/
lemma gives_insert {c : Command} (h : Gives Reader.insert given rest c) :
    ∃ (l m : Lexeme) (table : String) (names literals : List Lexeme) (columns : List String)
      (values : List Value),
      given = l :: word table :: openParen ::
          (names ++ closeParen :: m :: openParen :: (literals ++ [closeParen, Lexeme.finish])) ∧
        Grammar.Keyword "INTO" l ∧ Grammar.Separated Grammar.Name names columns ∧ columns.Nodup ∧
          Grammar.Keyword "VALUES" m ∧ Grammar.Separated Grammar.LiteralItem literals values ∧
            columns.length = values.length ∧ c = .insert table columns values := by
  unfold Reader.insert at h
  obtain ⟨_, _, more, rfl, ⟨l, rfl, hl⟩, hname⟩ := h.step (derives_expectWord _ _)
  obtain ⟨_, table, more, rfl, rfl, hopen⟩ := hname.step (derives_name _)
  obtain ⟨_, opened, more, rfl, hphrase, hcolumns⟩ :=
    hopen.step (derives_takes (by decide : openParen ∈ Lexeme.marks))
  rcases hphrase with ⟨rfl, rfl⟩ | ⟨rfl, rfl⟩
  swap
  · rw [if_neg Bool.false_ne_true] at hcolumns
    exact (not_gives_problem_bind hcolumns).elim
  rw [if_pos rfl] at hcolumns
  obtain ⟨names, columns, more, rfl, ⟨hnames, hdistinct⟩, hclose⟩ := hcolumns.step derives_names
  obtain ⟨_, _, more, rfl, rfl, hword⟩ :=
    hclose.step (derives_expect (by decide : closeParen ∈ Lexeme.marks) _)
  obtain ⟨_, _, more, rfl, ⟨m, rfl, hm⟩, hopen'⟩ := hword.step (derives_expectWord _ _)
  obtain ⟨_, _, more, rfl, rfl, hvalues⟩ :=
    hopen'.step (derives_expect (by decide : openParen ∈ Lexeme.marks) _)
  obtain ⟨literals, values, more, rfl, hliterals, hclose'⟩ := hvalues.step derives_values
  obtain ⟨_, _, more, rfl, rfl, hfinish⟩ :=
    hclose'.step (derives_expect (by decide : closeParen ∈ Lexeme.marks) _)
  obtain ⟨rfl, hlength⟩ := hfinish.of_finish
  by_cases hsame : columns.length = values.length
  · rw [if_neg (not_not.mpr hsame)] at hlength
    obtain ⟨-, rfl⟩ := hlength.eq_of_pure
    exact ⟨l, m, table, names, literals, columns, values, rfl, hl, hnames, hdistinct, hm, hliterals,
      hsame, rfl⟩
  · rw [if_pos hsame] at hlength
    exact (not_gives_problem_bind hlength).elim

/-- What is taken for the columns of a selection are names or stars. -/
lemma derives_selected :
    Derives (commaFold anotherSelected []) (Grammar.Separated Grammar.Selected) := by
  have hitem : ∀ before : List String, True →
      Derives (anotherSelected (id before)) fun phrase columns => ∃ column,
        Grammar.Selected phrase column ∧ columns = id (before ++ [column]) ∧ True := by
    intro before _ given rest columns h
    unfold anotherSelected at h
    obtain ⟨_, starred, more, rfl, hphrase, hname⟩ :=
      h.step (derives_takes (by decide : star ∈ Lexeme.marks))
    rcases hphrase with ⟨rfl, rfl⟩ | ⟨rfl, rfl⟩
    · rw [if_pos rfl] at hname
      obtain ⟨rfl, rfl⟩ := hname.eq_of_pure
      exact ⟨[star], rfl, hname.1, "*", .star, rfl, trivial⟩
    · rw [if_neg Bool.false_ne_true] at hname
      obtain ⟨_, column, more, rfl, rfl, hrest⟩ := hname.step (derives_name _)
      obtain ⟨rfl, rfl⟩ := hrest.eq_of_pure
      exact ⟨[word column], rfl, hrest.1, column, .name column, rfl, trivial⟩
  refine (derives_commaFold hitem trivial).mono ?_
  rintro phrase _ ⟨columns, h, rfl, -⟩
  exact h

/-- What is taken for a selection after its first word is one, up to the end. -/
lemma gives_select {c : Command} (h : Gives select given rest c) :
    ∃ (l : Lexeme) (items condition order limit : List Lexeme) (selection : Selection),
      given = items ++ l :: word selection.table ::
          (condition ++ (order ++ (limit ++ [Lexeme.finish]))) ∧
        Grammar.Separated Grammar.Selected items selection.columns ∧ Grammar.Keyword "FROM" l ∧
          Grammar.Where condition selection.condition ∧
            Grammar.Order order (selection.orderBy, selection.descending) ∧
              Grammar.Limit limit selection.limit ∧ c = .select selection := by
  unfold select at h
  obtain ⟨items, columns, more, rfl, hitems, hfrom⟩ := h.step derives_selected
  obtain ⟨_, _, more, rfl, ⟨l, rfl, hl⟩, hname⟩ := hfrom.step (derives_expectWord _ _)
  obtain ⟨_, table, more, rfl, rfl, hwhere⟩ := hname.step (derives_name _)
  obtain ⟨condition, c', more, rfl, hcondition, horders⟩ := hwhere.step derives_whereClause
  obtain ⟨order, ⟨orderBy, descending⟩, more, rfl, horder, hlimits⟩ :=
    horders.step derives_orderClause
  obtain ⟨limit, n, more, rfl, hlimit, hfinish⟩ := hlimits.step derives_limitClause
  obtain ⟨rfl, hrest⟩ := hfinish.of_finish
  obtain ⟨-, rfl⟩ := hrest.eq_of_pure
  exact ⟨l, items, condition, order, limit, ⟨table, columns, c', orderBy, descending, n⟩, rfl, hitems,
    hl, hcondition, horder, hlimit, rfl⟩

/-- What is taken for the assignments of an update are assignments, each put among those before it. -/
lemma derives_assignments :
    Derives (commaFold anotherAssignment []) fun phrase assignments => ∃ items,
      Grammar.Separated Grammar.Assignment phrase items ∧ assignments = Entries.ofPairs items := by
  have hitem : ∀ before : Fields, True →
      Derives (anotherAssignment (Entries.ofPairs before)) fun phrase assignments => ∃ assignment,
        Grammar.Assignment phrase assignment ∧
          assignments = Entries.ofPairs (before ++ [assignment]) ∧ True := by
    intro before _ given rest assignments h
    unfold anotherAssignment at h
    obtain ⟨_, column, more, rfl, rfl, hpeek⟩ := h.step (derives_name _)
    obtain ⟨token, after, rfl, hsign⟩ := hpeek.of_peek
    by_cases hequals : (token.kind = .operator && token.text = "=") = true
    · rw [if_pos hequals] at hsign
      obtain ⟨hkind, htext⟩ := Bool.and_eq_true_iff.mp hequals
      have hlexeme : Token.lexeme token = sign "=" := by
        rw [Token.lexeme, of_decide_eq_true hkind, of_decide_eq_true htext]
        rfl
      obtain ⟨_, -, hliteral⟩ := hsign.of_next (by rw [hlexeme]; decide)
      obtain ⟨_, v, more, rfl, ⟨m, rfl, hm⟩, hrest⟩ := hliteral.step derives_literal
      obtain ⟨rfl, rfl⟩ := hrest.eq_of_pure
      refine ⟨[word column, sign "=", m], by rw [hlexeme]; rfl, hrest.1, (column, v), .intro hm, ?_,
        trivial⟩
      rw [Entries.ofPairs, Entries.ofPairs, List.foldl_append]
      rfl
    · rw [if_neg hequals] at hsign
      exact (not_gives_problem_bind hsign).elim
  refine (derives_commaFold hitem trivial).mono ?_
  rintro phrase _ ⟨items, hitems, rfl, -⟩
  exact ⟨items, hitems, rfl⟩

/-- What is taken for an update after its first word is one, up to the end. -/
lemma gives_update {c : Command} (h : Gives update given rest c) :
    ∃ (l : Lexeme) (table : String) (items condition : List Lexeme) (assignments : Fields)
      (c' : Option Condition),
      given = word table :: l :: (items ++ (condition ++ [Lexeme.finish])) ∧
        Grammar.Keyword "SET" l ∧ Grammar.Separated Grammar.Assignment items assignments ∧
          Grammar.Where condition c' ∧ c = .update table (Entries.ofPairs assignments) c' := by
  unfold update at h
  obtain ⟨_, table, more, rfl, rfl, hset⟩ := h.step (derives_name _)
  obtain ⟨_, _, more, rfl, ⟨l, rfl, hl⟩, hassignments⟩ := hset.step (derives_expectWord _ _)
  obtain ⟨items, _, more, rfl, ⟨assignments, hitems, rfl⟩, hwhere⟩ :=
    hassignments.step derives_assignments
  obtain ⟨condition, c', more, rfl, hcondition, hfinish⟩ := hwhere.step derives_whereClause
  obtain ⟨rfl, hrest⟩ := hfinish.of_finish
  obtain ⟨-, rfl⟩ := hrest.eq_of_pure
  exact ⟨l, table, items, condition, assignments, c', rfl, hl, hitems, hcondition, rfl⟩

/-- What is taken for a deletion after its first word is one, up to the end. -/
lemma gives_delete {c : Command} (h : Gives delete given rest c) :
    ∃ (l : Lexeme) (table : String) (condition : List Lexeme) (c' : Option Condition),
      given = l :: word table :: (condition ++ [Lexeme.finish]) ∧ Grammar.Keyword "FROM" l ∧
        Grammar.Where condition c' ∧ c = .delete table c' := by
  unfold delete at h
  obtain ⟨_, _, more, rfl, ⟨l, rfl, hl⟩, hname⟩ := h.step (derives_expectWord _ _)
  obtain ⟨_, table, more, rfl, rfl, hwhere⟩ := hname.step (derives_name _)
  obtain ⟨condition, c', more, rfl, hcondition, hfinish⟩ := hwhere.step derives_whereClause
  obtain ⟨rfl, hrest⟩ := hfinish.of_finish
  obtain ⟨-, rfl⟩ := hrest.eq_of_pure
  exact ⟨l, table, condition, c', rfl, hl, hcondition, rfl⟩

/-! ## Statements on tables and databases -/

/-- What is taken for the removal of a table after its first word is one, up to the end. -/
lemma gives_dropTable {c : Command} (h : Gives dropTable given rest c) :
    ∃ (l : Lexeme) (table : String),
      given = [l, word table, Lexeme.finish] ∧ Grammar.Keyword "TABLE" l ∧ c = .dropTable table := by
  unfold dropTable at h
  obtain ⟨_, _, more, rfl, ⟨l, rfl, hl⟩, hname⟩ := h.step (derives_expectWord _ _)
  obtain ⟨_, table, more, rfl, rfl, hfinish⟩ := hname.step (derives_name _)
  obtain ⟨rfl, hrest⟩ := hfinish.of_finish
  obtain ⟨-, rfl⟩ := hrest.eq_of_pure
  exact ⟨l, table, rfl, hl, rfl⟩

/-- What is taken for the choice of a database after its first word is one, up to the end. -/
lemma gives_use {c : Command} (h : Gives useDatabase given rest c) :
    ∃ database, given = [word database, Lexeme.finish] ∧ c = .use database := by
  unfold useDatabase at h
  obtain ⟨_, database, more, rfl, rfl, hfinish⟩ := h.step (derives_name _)
  obtain ⟨rfl, hrest⟩ := hfinish.of_finish
  obtain ⟨-, rfl⟩ := hrest.eq_of_pure
  exact ⟨database, rfl, rfl⟩

/-! ## Statements -/

/-- What a statement begins with is no mark, sign or end if it spells a keyword. -/
lemma opening_of_upper {keyword : String} (hl : l.IsWritten) (h : Text.upper l.text = keyword)
    (hkeyword : keyword ∈ ["CREATE", "INSERT", "SELECT", "UPDATE", "DELETE", "DROP", "USE"]) :
    Grammar.Opening keyword l := by
  obtain ⟨kind, s⟩ := l
  have hnone : ∀ s ∈ ["(", ")", ",", "*"] ++ Lexeme.operators, Text.upper s ∉
      ["CREATE", "INSERT", "SELECT", "UPDATE", "DELETE", "DROP", "USE"] := by
    decide +kernel
  have hother : s ∉ ["(", ")", ",", "*"] ++ Lexeme.operators :=
    fun hmem => hnone s hmem (h ▸ hkeyword)
  cases kind with
  | word => exact ⟨Or.inl rfl, h⟩
  | text => exact ⟨Or.inr rfl, h⟩
  | operator => exact absurd (List.mem_append_right _ hl) hother
  | openParen =>
    obtain rfl : s = "(" := hl
    exact absurd (by decide) hother
  | closeParen =>
    obtain rfl : s = ")" := hl
    exact absurd (by decide) hother
  | comma =>
    obtain rfl : s = "," := hl
    exact absurd (by decide) hother
  | star =>
    obtain rfl : s = "*" := hl
    exact absurd (by decide) hother
  | finish => exact hl.elim

/-- What is read as a command is a statement that denotes it, up to the end. -/
theorem gives_command {c : Command} (h : Gives Reader.command given rest c) :
    ∃ phrase, given = phrase ++ [Lexeme.finish] ∧ Grammar.Statement phrase c := by
  obtain ⟨l, given, rfl⟩ := h.1.exists_cons
  unfold Reader.command at h
  by_cases hfinish : l.kind = .finish
  · obtain ⟨token, rfl, hproblem⟩ := h.of_next_finish hfinish
    rw [if_pos (show token.kind = .finish from hfinish)] at hproblem
    exact (not_gives_problem_bind hproblem).elim
  have hwritten := (h.1.tail hfinish).1
  obtain ⟨token, rfl, hstatement⟩ := h.of_next hfinish
  rw [if_neg (show ¬token.kind = .finish from hfinish)] at hstatement
  have hopening : ∀ {keyword : String}, Text.upper token.text = keyword →
      keyword ∈ ["CREATE", "INSERT", "SELECT", "UPDATE", "DELETE", "DROP", "USE"] →
        Grammar.Opening keyword (Token.lexeme token) :=
    fun hupper => opening_of_upper hwritten hupper
  dsimp only at hstatement
  by_cases hcreate : Text.upper token.text = "CREATE"
  · rw [if_pos hcreate] at hstatement
    exact gives_create (hopening hcreate (by decide)) hstatement
  rw [if_neg hcreate] at hstatement
  by_cases hinsert : Text.upper token.text = "INSERT"
  · rw [if_pos hinsert] at hstatement
    obtain ⟨m, n, table, names, literals, columns, values, rfl, hm, hnames, hdistinct, hn, hliterals,
      hlength, rfl⟩ := gives_insert hstatement
    exact ⟨_, by simp, .insert (hopening hinsert (by decide)) hm hnames hdistinct hn hliterals hlength⟩
  rw [if_neg hinsert] at hstatement
  by_cases hselect : Text.upper token.text = "SELECT"
  · rw [if_pos hselect] at hstatement
    obtain ⟨m, items, condition, order, limit, selection, rfl, hitems, hm, hcondition, horder, hlimit,
      rfl⟩ := gives_select hstatement
    exact ⟨_, by simp, .select (hopening hselect (by decide)) hitems hm hcondition horder hlimit⟩
  rw [if_neg hselect] at hstatement
  by_cases hupdate : Text.upper token.text = "UPDATE"
  · rw [if_pos hupdate] at hstatement
    obtain ⟨m, table, items, condition, assignments, c', rfl, hm, hitems, hcondition, rfl⟩ :=
      gives_update hstatement
    exact ⟨_, by simp, .update (hopening hupdate (by decide)) hm hitems hcondition⟩
  rw [if_neg hupdate] at hstatement
  by_cases hdelete : Text.upper token.text = "DELETE"
  · rw [if_pos hdelete] at hstatement
    obtain ⟨m, table, condition, c', rfl, hm, hcondition, rfl⟩ := gives_delete hstatement
    exact ⟨_, by simp, .delete (hopening hdelete (by decide)) hm hcondition⟩
  rw [if_neg hdelete] at hstatement
  by_cases hdrop : Text.upper token.text = "DROP"
  · rw [if_pos hdrop] at hstatement
    obtain ⟨m, table, rfl, hm, rfl⟩ := gives_dropTable hstatement
    exact ⟨_, by simp, .dropTable (hopening hdrop (by decide)) hm⟩
  rw [if_neg hdrop] at hstatement
  by_cases huse : Text.upper token.text = "USE"
  · rw [if_pos huse] at hstatement
    obtain ⟨database, rfl, rfl⟩ := gives_use hstatement
    exact ⟨_, by simp, .use (hopening huse (by decide))⟩
  rw [if_neg huse] at hstatement
  exact (not_gives_problem hstatement).elim

end Reader

/-- The tokens of a text are read as a command exactly if all of them up to the end make a statement that
denotes it.  If they make none, they are refused, or come upon a word that is no number that can be
read. -/
theorem Command.ofTokens_eq_ok_iff {text : String} {tokens : List Token}
    (h : Token.ofText text = .ok tokens) :
    ∃ phrase, tokens.map Token.lexeme = phrase ++ [Lexeme.finish] ∧ (∀ l ∈ phrase, l.IsWritten) ∧
      (∀ command, Command.ofTokens tokens = .ok command ↔ Grammar.Statement phrase command) ∧
        ((¬∃ command, Grammar.Statement phrase command) → ∃ fault,
          Command.ofTokens tokens = .error fault ∧
            (fault.isRefusal = true ∨ ∃ t ∈ tokens, t.IsUnreadable)) := by
  obtain ⟨phrase, hphrase, hwritten⟩ := (Token.scans_of_scanFrom h).exists_phrase
  have hread : ∀ command, Command.ofTokens tokens = .ok command ↔ Grammar.Statement phrase command := by
    intro command
    constructor
    · intro hok
      obtain ⟨⟨_, left⟩, hrun, rfl⟩ := Outcome.map_eq_ok.mp hok
      obtain ⟨phrase', hsame, hstatement⟩ := Reader.gives_command
        ⟨⟨phrase, rfl, hwritten⟩, tokens, left, hphrase, rfl, hrun⟩
      rwa [List.append_cancel_right hsame]
    · intro hstatement
      obtain ⟨left, -, hrun⟩ := Reader.reads_statement hstatement tokens hphrase
      exact Outcome.map_eq_ok.mpr ⟨_, hrun, rfl⟩
  refine ⟨phrase, hphrase, hwritten, hread, fun hnone => ?_⟩
  have hcases := Command.ofTokens_cases tokens
  cases hresult : Command.ofTokens tokens with
  | ok command => exact absurd ⟨command, (hread command).mp hresult⟩ hnone
  | error fault =>
    rw [hresult] at hcases
    exact ⟨fault, rfl, hcases⟩

/-- A statement whose first word stands between quotes and whose name spells a keyword. -/
theorem Command.ofTokens_dropSelect :
    ∃ tokens, Token.ofText "'Drop' table Select" = .ok tokens ∧
      Command.ofTokens tokens = .ok (.dropTable "Select") := by
  have htokens : Token.ofText "'Drop' table Select" = .ok [⟨.text, "Drop", 0⟩, ⟨.word, "table", 7⟩,
      ⟨.word, "Select", 13⟩, ⟨.finish, "", 19⟩] := by
    decide +kernel
  obtain ⟨phrase, hphrase, -, hread, -⟩ := Command.ofTokens_eq_ok_iff htokens
  obtain rfl : [⟨.text, "Drop"⟩, word "table", word "Select"] = phrase :=
    List.append_cancel_right hphrase
  refine ⟨_, htokens, (hread _).mpr (.dropTable ⟨Or.inr rfl, ?_⟩ ⟨rfl, ?_⟩)⟩
  · decide +kernel
  · decide +kernel

end RecordStore.Query
