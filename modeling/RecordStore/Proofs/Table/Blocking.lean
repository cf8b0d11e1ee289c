import RecordStore.Proofs.Snapshot.Told
import RecordStore.Proofs.Table.Descent

/-!
# Tables that block

Whatever the files of a table hold, the table is loaded from them, or it is refused, or some other
fault comes up.  The last happens where something has the wrong shape: a schema that is no mapping, a
column described by a number, rows under ids that are no integers, an index on what cannot be a key.
Which of these is met depends on what comes before it, since a refusal ends the loading as well: first
the schema, then the rows, and then the columns that the index file names, one after the other.
-/

namespace RecordStore

/-! ## Schemas -/

namespace Column

/-- What a column is described by ends the reading of the schema with a fault that is no refusal: it is
no mapping, though it counts as true, or it gives a column of numbers an integer out of range for its
default. -/
def Derails (name : Value) : Value → Prop
  | .map entries => DescribesOverflow name entries
  | v => v.isTruthy = true

/-- A description without properties has no default. -/
lemma not_describesOverflow_nil (name : Value) : ¬DescribesOverflow name [] := by
  rintro ⟨kind, size, -, -, w, hw, rfl, i, rfl, -⟩
  cases hw

/-- The reading of a column is checked, or it is derailed. -/
lemma ofValue_cases (name : Value) {v : Value} (hv : v.IsTold) :
    Escapes (ofValue name v) ∧ Derails name v ∨ IsChecked (ofValue name v) ∧ ¬Derails name v := by
  by_cases hmap : ∃ entries, v = .map entries
  · obtain ⟨entries, rfl⟩ := hmap
    have htold : TellsValues entries := fun entry hentry =>
      (Value.isTold_map_iff.mp hv entry hentry).2
    rw [ofValue_map]
    rcases ofEntries_cases name htold with ⟨heq, hover⟩ | ⟨hchecked, hover⟩
    · exact Or.inl ⟨⟨.overflow, heq, rfl⟩, hover⟩
    · exact Or.inr ⟨hchecked, hover⟩
  · have hderails : Derails name v ↔ v.isTruthy = true := by
      cases v with
      | map entries => exact absurd ⟨entries, rfl⟩ hmap
      | _ => exact Iff.rfl
    rw [hderails]
    unfold ofValue
    split
    · rename_i htruthy
      split
      · rename_i entries
        exact absurd ⟨entries, rfl⟩ hmap
      · exact Or.inl ⟨⟨.wrongShape, rfl, rfl⟩, htruthy⟩
    · rename_i hfalsy
      have hnothing : TellsValues ([] : List (Value × Value)) := nofun
      rcases ofEntries_cases name hnothing with ⟨-, hover⟩ | ⟨hchecked, -⟩
      · exact absurd hover (not_describesOverflow_nil name)
      · exact Or.inr ⟨hchecked, hfalsy⟩

end Column

namespace Schema

/-- What a schema is described by ends its reading with a fault that is no refusal: it is no mapping,
though it counts as true, or the description of one of the columns does. -/
def Derails : Value → Prop
  | .map entries => ∃ entry ∈ entries, Column.Derails entry.1 entry.2
  | v => v.isTruthy = true

/-- Columns are added, whatever rules are broken, unless one of them is derailed. -/
lemma escapes_addAll {entries : List (Value × Value)}
    (h : ∀ entry ∈ entries, (∃ s, entry.1 = .text s) ∧ entry.2.IsTold) (schema : Schema)
    (broken : List Violation) :
    Escapes (addAll schema broken
      (entries.map fun (name, properties) => (name, .described properties))) ↔
        ∃ entry ∈ entries, Column.Derails entry.1 entry.2 := by
  induction entries generalizing schema broken with
  | nil => simp [addAll]
  | cons entry rest ih =>
    obtain ⟨⟨⟨s, hs⟩, htold⟩, hrest⟩ := List.forall_mem_cons.mp h
    obtain ⟨name, v⟩ := entry
    obtain rfl : name = .text s := hs
    rw [List.map_cons, addAll, List.exists_mem_cons_iff]
    rcases Column.ofValue_cases (.text s) htold with ⟨⟨fault, heq, hfault⟩, hderails⟩ |
      ⟨hchecked, hderails⟩
    · refine iff_of_true (escapes_seq.mpr (Or.inl ⟨fault, ?_, hfault⟩)) (Or.inl hderails)
      rw [addSource, columnOf, heq]
      cases fault <;> first | rfl | cases hfault
    · have hadded : ∃ outcome, addSource schema (.text s) (.described v) = .ok outcome := by
        rw [addSource, columnOf]
        cases hcolumn : Column.ofValue (.text s) v with
        | ok column =>
          dsimp only
          rw [(Column.canonical_ofValue hcolumn).2]
          exact ⟨_, rfl⟩
        | error fault =>
          obtain ⟨all, rfl⟩ := hchecked fault hcolumn
          exact ⟨_, rfl⟩
      obtain ⟨outcome, hadded⟩ := hadded
      rw [hadded, or_iff_right hderails]
      cases outcome with
      | ok added => exact ih hrest added broken
      | error all => exact ih hrest schema (broken ++ all)

/-- The reading of a schema from a snapshot ends with a fault that is no refusal exactly if it is
derailed. -/
theorem escapes_ofValue {v : Value} (hv : v.IsPlain) : Escapes (ofValue v) ↔ Derails v := by
  by_cases hmap : ∃ entries, v = .map entries
  · obtain ⟨entries, rfl⟩ := hmap
    have hentries : ∀ entry ∈ entries, (∃ s, entry.1 = .text s) ∧ entry.2.IsTold :=
      fun entry hentry =>
        ⟨hv.keys entries rfl entry hentry, (Value.isTold_map_iff.mp hv.told entry hentry).2⟩
    cases entries with
    | nil => exact iff_of_false (not_escapes_error rfl) (by simp [Derails])
    | cons entry rest =>
      have hadded := escapes_addAll hentries empty []
      change Escapes (addAll empty [] _ >>= _) ↔ _
      rw [escapes_seq, hadded, or_iff_left]
      · exact Iff.rfl
      · rintro ⟨⟨schema, broken⟩, -, hescapes⟩
        dsimp only at hescapes
        split at hescapes
        · exact not_escapes_ok schema hescapes
        · exact not_escapes_error rfl hescapes
  · have hderails : Derails v ↔ v.isTruthy = true := by
      cases v with
      | map entries => exact absurd ⟨entries, rfl⟩ hmap
      | _ => exact Iff.rfl
    rw [hderails]
    unfold ofValue
    split
    · rename_i htruthy
      split
      · rename_i entries
        exact absurd ⟨entries, rfl⟩ hmap
      · exact iff_of_true ⟨.wrongShape, rfl, rfl⟩ htruthy
    · rename_i hfalsy
      exact iff_of_false (not_escapes_error rfl) hfalsy

end Schema

/-! ## Rows -/

namespace Table

/-- A value gives no rows under ids: it is no mapping, or one of its keys is no integer. -/
def MisnumbersRows : Value → Prop
  | .map rows => ∃ row ∈ rows, row.1.text?.bind Number.integerOfText? = none
  | _ => True

/-- A snapshot of rows is out of shape: it is neither a list nor a mapping, though it counts as true, or
it is a mapping whose rows are not under ids, or whose next id is no number. -/
def MisshapesRows : Value → Prop
  | .list _ => False
  | .map entries => (∃ v ∈ Value.lookup? "rows" entries, MisnumbersRows v) ∨
    ∃ v ∈ Value.lookup? "next_row_id" entries, v.number? = none
  | v => v.isTruthy = true

/-- Rows are read from a mapping unless one of its keys is no integer. -/
lemma rowsOfEntries_cases (rows : List (Int × Row)) (entries : List (Value × Value)) :
    (∃ rows', rowsOfEntries rows entries = .ok rows') ∧ ¬MisnumbersRows (.map entries) ∨
      rowsOfEntries rows entries = .error .badNumeral ∧ MisnumbersRows (.map entries) := by
  rw [MisnumbersRows]
  induction entries generalizing rows with
  | nil => exact Or.inl ⟨⟨rows, rfl⟩, by simp⟩
  | cons entry rest ih =>
    obtain ⟨key, v⟩ := entry
    rw [List.exists_mem_cons_iff, rowsOfEntries]
    cases hid : key.text?.bind Number.integerOfText? with
    | none => exact Or.inr ⟨rfl, Or.inl rfl⟩
    | some id =>
      dsimp only
      rw [or_iff_right (Option.some_ne_none id)]
      exact ih (Entries.put id (.ofValue v) rows)

/-- Rows are read from a mapping that is not empty unless they are not under ids or the next id is no
number. -/
lemma escapes_rowsOfValue_map {entries : List (Value × Value)} (h : entries ≠ []) :
    Escapes (rowsOfValue (.map entries)) ↔ MisshapesRows (.map entries) := by
  have htruthy : (Value.map entries).isTruthy = true := by
    cases entries with
    | nil => exact absurd rfl h
    | cons entry rest => rfl
  have hnext : (∃ v ∈ Value.lookup? "next_row_id" entries, v.number? = none) ↔
      ((Value.lookup? "next_row_id" entries).getD (.int 1)).number? = none := by
    cases Value.lookup? "next_row_id" entries with
    | none => simp [Value.number?]
    | some v => simp
  have hrows : (∃ v ∈ Value.lookup? "rows" entries, MisnumbersRows v) ↔
      MisnumbersRows ((Value.lookup? "rows" entries).getD (.map [])) := by
    cases Value.lookup? "rows" entries with
    | none => simp [MisnumbersRows]
    | some v => simp
  rw [MisshapesRows, hrows, hnext, rowsOfValue, if_pos htruthy]
  cases (Value.lookup? "rows" entries).getD (.map []) with
  | map rowEntries =>
    dsimp only
    rcases rowsOfEntries_cases [] rowEntries with ⟨⟨rows, heq⟩, hgood⟩ | ⟨heq, hbad⟩
    · rw [or_iff_right hgood, heq]
      cases ((Value.lookup? "next_row_id" entries).getD (.int 1)).number? with
      | some stored => exact iff_of_false (not_escapes_ok _) (Option.some_ne_none stored)
      | none => exact iff_of_true ⟨.wrongType, rfl, rfl⟩ rfl
    · rw [heq]
      exact iff_of_true ⟨.badNumeral, rfl, rfl⟩ (Or.inl hbad)
  | _ => exact iff_of_true ⟨.wrongShape, rfl, rfl⟩ (Or.inl trivial)

/-- Rows are read from a snapshot unless it is out of shape. -/
theorem escapes_rowsOfValue (data : Value) : Escapes (rowsOfValue data) ↔ MisshapesRows data := by
  cases data with
  | list items =>
    rw [rowsOfValue]
    exact iff_of_false (by split <;> exact not_escapes_ok _) id
  | map entries =>
    cases entries with
    | nil => exact iff_of_false (not_escapes_ok _) (by simp [MisshapesRows, Value.lookup?])
    | cons entry rest => exact escapes_rowsOfValue_map (List.cons_ne_nil entry rest)
  | _ =>
    rw [rowsOfValue, MisshapesRows]
    · split
      · rename_i htruthy
        exact iff_of_true ⟨.wrongShape, rfl, rfl⟩ htruthy
      · rename_i hfalsy
        exact iff_of_false (not_escapes_ok _) hfalsy
    all_goals nofun

end Table

/-! ## Indexes -/

namespace Index

/-- A row is added if it has a key, and otherwise a fault comes up that is no refusal. -/
lemma addRow_cases (index : Index) (id : RowId) (row : Row) :
    row.HasKey index.column ∧ index.addRow id row = .ok (index.enterRow id row) ∨
      ¬row.HasKey index.column ∧ Escapes (index.addRow id row) := by
  by_cases hkey : row.HasKey index.column
  · exact Or.inl ⟨hkey, addRow_eq hkey id⟩
  · refine Or.inr ⟨hkey, ?_⟩
    cases row with
    | other v => exact ⟨.wrongShape, rfl, rfl⟩
    | record record =>
      have hhash : (record.value index.column).isHashable = false :=
        Bool.eq_false_iff.mpr fun hhash => hkey ⟨_, rfl, hhash⟩
      have hnull : (record.value index.column).isNull = false := by
        cases hv : record.value index.column with
        | null =>
          rw [hv] at hhash
          cases hhash
        | _ => rfl
      refine ⟨.wrongType, ?_, rfl⟩
      change index.add (record.value index.column) id = _
      rw [add, hnull, hhash]
      rfl

/-- Rows are added unless one of them has no key. -/
lemma escapes_addRows (index : Index) (rows : List (RowId × Row)) :
    Escapes (index.addRows rows) ↔ ∃ entry ∈ rows, ¬entry.2.HasKey index.column := by
  induction rows generalizing index with
  | nil => simp [addRows]
  | cons entry rest ih =>
    obtain ⟨id, row⟩ := entry
    rw [addRows, List.exists_mem_cons_iff]
    rcases index.addRow_cases id row with ⟨hkey, hadded⟩ | ⟨hnone, hescapes⟩
    · rw [hadded, or_iff_right (not_not_intro hkey), ← enterRow_column index id row]
      exact ih (index.enterRow id row)
    · exact iff_of_true (escapes_bind.mpr (Or.inl hescapes)) (Or.inl hnone)

end Index

namespace Table

variable {table table' : Table} {column : Value}

/-- A column can be indexed, or it is refused. -/
lemma checkIndexable_cases (schema : Schema) (column : Value) :
    checkIndexable schema column = .ok () ∨
      ∃ v, checkIndexable schema column = .error (.violation v) := by
  rw [checkIndexable]
  split
  · exact Or.inr ⟨_, rfl⟩
  · split
    · exact Or.inl rfl
    · exact Or.inr ⟨_, rfl⟩

/-- An index can be built on a column: it can be indexed, and every row has a key in it. -/
def CanBuild (table : Table) (column : Value) : Prop :=
  checkIndexable table.schema column = .ok () ∧ ∀ row ∈ table.rows, row.2.HasKey column

/-- The building of an index comes upon a row without a key in a column that can be indexed. -/
def Jams (table : Table) (column : Value) : Prop :=
  checkIndexable table.schema column = .ok () ∧ ∃ row ∈ table.rows, ¬row.2.HasKey column

/-- An index is built if it can be, and otherwise it is refused unless a row has no key. -/
lemma buildIndex_cases (table : Table) (column : Value) :
    (table.CanBuild column ∧ ¬table.Jams column ∧
        ∃ index notice, table.buildIndex column = .ok (table.withIndex column index, notice)) ∨
      (¬table.CanBuild column ∧ ¬table.Jams column ∧
        ∃ fault, table.buildIndex column = .error fault ∧ fault.isRefusal = true) ∨
      ¬table.CanBuild column ∧ table.Jams column ∧ Escapes (table.buildIndex column) := by
  rcases checkIndexable_cases table.schema column with hcheck | ⟨v, hcheck⟩
  · by_cases hjams : ∃ row ∈ table.rows, ¬row.2.HasKey column
    · refine Or.inr (Or.inr ⟨fun hcan => ?_, ⟨hcheck, hjams⟩, ?_⟩)
      · obtain ⟨row, hrow, hnone⟩ := hjams
        exact hnone (hcan.2 row hrow)
      · refine escapes_seq.mpr (Or.inr ⟨(), hcheck, escapes_seq.mpr (Or.inl ?_)⟩)
        exact (Index.escapes_addRows _ _).mpr hjams
    · have hkeys : ∀ row ∈ table.rows, row.2.HasKey column := by simpa using hjams
      refine Or.inl ⟨⟨hcheck, hkeys⟩, fun hno => hjams hno.2, ?_⟩
      obtain ⟨index, hindex⟩ : ∃ index, Index.ofRows column table.rows = .ok index :=
        ⟨_, Index.ofRows_eq_ok.mpr ⟨hkeys, rfl⟩⟩
      exact ⟨index, _, Outcome.seq_eq_ok.mpr ⟨(), hcheck, Outcome.seq_eq_ok.mpr ⟨index, hindex, rfl⟩⟩⟩
  · have hno : checkIndexable table.schema column ≠ .ok () := by
      rw [hcheck]
      exact nofun
    refine Or.inr (Or.inl ⟨fun hcan => hno hcan.1, fun hjams => hno hjams.1, .violation v, ?_, rfl⟩)
    rw [buildIndex, hcheck]
    rfl

/-! ## The columns that an index file names -/

/-- What an index file names is passed: it is the name of no column, or an index can be built on it. -/
def Passes (table : Table) (column : Value) : Prop :=
  column.isHashable = true ∧ (table.schema.has column = true → table.CanBuild column)

/-- What an index file names stops the loading with a fault that is no refusal: it cannot be a key, or
it names a column that can be indexed, in which some row has no key. -/
def Stops (table : Table) (column : Value) : Prop :=
  column.isHashable = false ∨ table.Jams column

/-- The names in an index file stop the loading: one of them does, and those before it are passed. -/
def StopsAmong (table : Table) (columns : List Value) : Prop :=
  ∃ before column after, columns = before ++ column :: after ∧ (∀ c ∈ before, table.Passes c) ∧
    table.Stops column

/-- Names stop the loading if the first of them does, or is passed and the others do. -/
lemma stopsAmong_cons {rest : List Value} : table.StopsAmong (column :: rest) ↔
    table.Stops column ∨ table.Passes column ∧ table.StopsAmong rest := by
  constructor
  · rintro ⟨before, stop, after, heq, hbefore, hstop⟩
    cases before with
    | nil =>
      obtain ⟨rfl, -⟩ := List.cons.inj heq
      exact Or.inl hstop
    | cons first others =>
      obtain ⟨rfl, hrest⟩ := List.cons.inj heq
      obtain ⟨hfirst, hothers⟩ := List.forall_mem_cons.mp hbefore
      exact Or.inr ⟨hfirst, others, stop, after, hrest, hothers, hstop⟩
  · rintro (hstop | ⟨hfirst, before, stop, after, rfl, hbefore, hstop⟩)
    · exact ⟨[], column, rest, rfl, List.forall_mem_nil _, hstop⟩
    · exact ⟨column :: before, stop, after, rfl, List.forall_mem_cons.mpr ⟨hfirst, hbefore⟩, hstop⟩

/-- Only a column of the schema can be indexed. -/
lemma has_of_checkIndexable {schema : Schema} (h : checkIndexable schema column = .ok ()) :
    schema.has column = true := by
  rw [checkIndexable] at h
  split at h
  · cases h
  · rename_i c hc
    exact List.any_eq_true.mpr ⟨c, List.mem_of_find?_eq_some hc,
      List.find?_some (p := fun c : Column => c.name == column) hc⟩

/-- The indexes that a snapshot names are built, all of them just if every name is passed, unless the
names stop the loading. -/
lemma restoreIndexes_cases (table : Table) (notices : List Notice) (columns : List Value) :
    ((∃ restored, (table.restoreIndexes notices columns).2 = .ok restored) ↔
        ∀ column ∈ columns, table.Passes column) ∧
      (Escapes (table.restoreIndexes notices columns).2 ↔ table.StopsAmong columns) := by
  induction columns generalizing table notices with
  | nil =>
    refine ⟨iff_of_true ⟨table, rfl⟩ (List.forall_mem_nil _), iff_of_false (not_escapes_ok _) ?_⟩
    rintro ⟨before, stop, after, heq, -⟩
    cases before <;> cases heq
  | cons column rest ih =>
    rw [stopsAmong_cons, List.forall_mem_cons, restoreIndexes]
    cases hhash : column.isHashable with
    | false =>
      have hfails : ¬table.Passes column := fun hpasses => by simp [hpasses.1] at hhash
      exact ⟨iff_of_false Outcome.not_exists_error_eq_ok fun h => hfails h.1,
        iff_of_true ⟨.wrongType, rfl, rfl⟩ (Or.inl (Or.inl hhash))⟩
    | true =>
      have hstops : table.Stops column ↔ table.Jams column := by
        rw [Stops, hhash]
        exact or_iff_right Bool.noConfusion
      rw [hstops, Bool.not_true, if_neg Bool.false_ne_true]
      cases hhas : table.schema.has column with
      | false =>
        have hpasses : table.Passes column := ⟨hhash, fun h => by simp [hhas] at h⟩
        have hno : ¬table.Jams column := by
          intro hjams
          rw [has_of_checkIndexable hjams.1] at hhas
          cases hhas
        rw [if_neg Bool.false_ne_true, or_iff_right hno, and_iff_right hpasses, and_iff_right hpasses]
        exact ih table _
      | true =>
        have hpasses : table.Passes column ↔ table.CanBuild column := by
          rw [Passes, hhash, hhas]
          simp
        rw [hpasses, if_pos rfl]
        rcases table.buildIndex_cases column with ⟨hcan, hno, index, notice, hbuilt⟩ |
          ⟨hcannot, hno, fault, hbuilt, hfault⟩ | ⟨hcannot, hjams, fault, hbuilt, hfault⟩
        · rw [hbuilt, or_iff_right hno, and_iff_right hcan, and_iff_right hcan]
          exact ih (table.withIndex column index) _
        · rw [hbuilt]
          refine ⟨iff_of_false Outcome.not_exists_error_eq_ok fun h => hcannot h.1,
            iff_of_false (not_escapes_error hfault) ?_⟩
          rintro (hjams | h)
          · exact hno hjams
          · exact hcannot h.1
        · rw [hbuilt]
          exact ⟨iff_of_false Outcome.not_exists_error_eq_ok fun h => hcannot h.1,
            iff_of_true ⟨fault, rfl, hfault⟩ (Or.inl hjams)⟩

/-! ## Key indexes -/

/-- A row that has a key in a column has one in every column of the same name. -/
lemma hasKey_congr {row : Row} {other : Value} (hhash : column.isHashable = true)
    (hsame : (column == other) = true) (h : row.HasKey column) : row.HasKey other := by
  obtain ⟨v, hv, hkey⟩ := h
  refine ⟨v, ?_, hkey⟩
  cases row with
  | record record =>
    rw [← hv]
    exact congrArg (fun found => Except.ok (Value.ofOption found))
      (Entries.lookup_congr hhash hsame record).symm
  | other w => cases hv

/-- Some row has no key in a unique column. -/
def LacksKey (table : Table) : Prop :=
  ∃ column ∈ table.schema.uniqueNames, ∃ row ∈ table.rows, ¬row.2.HasKey column

/-- Indexes are built on columns that can be indexed unless a row has no key. -/
lemma escapes_buildIndexes {columns : List Value}
    (h : ∀ column ∈ columns, checkIndexable table.schema column = .ok ()) :
    Escapes (table.buildIndexes columns) ↔
      ∃ column ∈ columns, ∃ row ∈ table.rows, ¬row.2.HasKey column := by
  induction columns generalizing table with
  | nil => simp [buildIndexes]
  | cons column rest ih =>
    obtain ⟨hfirst, hrest⟩ := List.forall_mem_cons.mp h
    have hjams : table.Jams column ↔ ∃ row ∈ table.rows, ¬row.2.HasKey column :=
      and_iff_right hfirst
    rw [buildIndexes, List.exists_mem_cons_iff, ← hjams]
    rcases table.buildIndex_cases column with ⟨-, hno, index, notice, hbuilt⟩ |
      ⟨hcannot, hno, -⟩ | ⟨-, hjam, hescapes⟩
    · rw [hbuilt, or_iff_right hno]
      have hrestBuilt : Escapes ((table.withIndex column index).buildIndexes rest) ↔
          ∃ c ∈ rest, ∃ row ∈ table.rows, ¬row.2.HasKey c := ih hrest
      rw [← hrestBuilt]
      change Escapes ((table.withIndex column index).buildIndexes rest >>= _) ↔ _
      refine escapes_seq.trans (or_iff_left ?_)
      rintro ⟨made, -, hmade⟩
      exact not_escapes_ok _ hmade
    · have hcan : table.CanBuild column := ⟨hfirst, by simpa [hjams] using hno⟩
      exact absurd hcan hcannot
    · exact iff_of_true (escapes_seq.mpr (Or.inl hescapes)) (Or.inl hjam)

/-- The indexes on unique columns are built unless a row has no key. -/
lemma Steady.escapes_ensureKeyIndexes (h : table.Steady)
    (hunique : ∀ column ∈ table.schema.uniqueNames, checkIndexable table.schema column = .ok ()) :
    Escapes table.ensureKeyIndexes ↔ table.LacksKey := by
  rw [ensureKeyIndexes, escapes_buildIndexes fun column hcolumn =>
    hunique column (List.mem_filter.mp hcolumn).1]
  constructor
  · rintro ⟨column, hcolumn, hrow⟩
    exact ⟨column, (List.mem_filter.mp hcolumn).1, hrow⟩
  · rintro ⟨column, hcolumn, row, hrow, hnone⟩
    refine ⟨column, List.mem_filter.mpr ⟨hcolumn, ?_⟩, row, hrow, hnone⟩
    -- The rows have keys in the columns that are indexed, so the column has no index.
    rw [Bool.not_eq_true', Entries.has, List.any_eq_false]
    intro entry hentry hsame
    obtain ⟨hhash, hname, -⟩ := h.indexes entry hentry
    have hentryhash : entry.1.isHashable = true := (Value.isHashable_congr hname).trans hhash
    have hboth : (entry.2.column == column) = true := by
      rw [← Value.beq_congr_left hentryhash hname]
      exact hsame
    exact hnone (hasKey_congr hhash hboth (h.rows entry hentry row hrow))

/-! ## Loading -/

/-- An index file names columns; if it cannot be read, it names none. -/
def NamesColumns (disk : Disk) (path : String) (columns : List Value) : Prop :=
  disk.readSnapshot path = .error (.unreadable path) ∧ columns = [] ∨
    ∃ v, disk.readSnapshot path = .ok v ∧ indexedColumns v = .ok columns

/-- The schema file or the file of rows of a table blocks: the reader trips over it, or what it holds
has the wrong shape, where the schema file is in order before the file of rows is read. -/
inductive BlocksRows (name directory : String) (disk : Disk) : Prop where
  | schemaTrips (h : disk.Trips (schemaPath directory name))
  | schema {v : Value} (hv : disk.readSnapshot (schemaPath directory name) = .ok v)
      (h : Schema.Derails v)
  | dataTrips {v : Value} {schema : Schema}
      (hv : disk.readSnapshot (schemaPath directory name) = .ok v)
      (hschema : Schema.ofValue v = .ok schema) (h : disk.Trips (dataPath directory name))
  | data {v data : Value} {schema : Schema}
      (hv : disk.readSnapshot (schemaPath directory name) = .ok v)
      (hschema : Schema.ofValue v = .ok schema)
      (hdata : disk.readSnapshot (dataPath directory name) = .ok data) (h : MisshapesRows data)

/-- The index file of a table whose rows have been loaded blocks, or the rows do as soon as they are
indexed: the reader trips over the file, it has no parts, a name in it stops the loading, or all names
are passed and a row has no key in a unique column. -/
inductive BlocksIndexes (table : Table) (disk : Disk) : Prop where
  | trips (h : disk.Trips (indexPath table.directory table.name))
  | shape {v : Value} (hv : disk.readSnapshot (indexPath table.directory table.name) = .ok v)
      (htruthy : v.isTruthy = true) (h : v.items? = none)
  | named {columns : List Value}
      (hcolumns : NamesColumns disk (indexPath table.directory table.name) columns)
      (h : table.StopsAmong columns)
  | key {columns : List Value}
      (hcolumns : NamesColumns disk (indexPath table.directory table.name) columns)
      (hpasses : ∀ column ∈ columns, table.Passes column) (h : table.LacksKey)

/-- The files of a table block: one of them has something of the wrong shape, and what is loaded before
it is in order. -/
inductive Blocks (name directory : String) (disk : Disk) : Prop where
  | rows (h : BlocksRows name directory disk)
  | indexes {table : Table} (hrows : loadRows name directory disk = .ok table)
      (h : table.BlocksIndexes disk)

variable {name directory : String} {disk : Disk}

/-- The schema and the rows of a table are loaded or refused unless one of their files blocks. -/
lemma escapes_loadRows :
    Escapes (loadRows name directory disk) ↔ BlocksRows name directory disk := by
  constructor
  · intro h
    rcases escapes_seq.mp h with h | ⟨v, hv, h⟩
    · exact .schemaTrips (Disk.escapes_readSnapshot.mp h)
    obtain ⟨-, h⟩ := (escapes_unless rfl).mp h
    rcases escapes_seq.mp h with h | ⟨schema, hschema, h⟩
    · exact .schema hv ((Schema.escapes_ofValue (Disk.isPlain_of_readSnapshot hv)).mp h)
    rcases escapes_seq.mp h with h | ⟨data, hdata, h⟩
    · exact .dataTrips hv hschema (Disk.escapes_readSnapshot.mp h)
    rcases escapes_seq.mp h with h | ⟨⟨rows, next⟩, -, h⟩
    · exact .data hv hschema hdata ((escapes_rowsOfValue data).mp h)
    · exact absurd h (not_escapes_ok _)
  · have hpresent : ∀ {v : Value}, v ≠ .null → ¬v.isNull = true := by
      intro v hv hnull
      cases v with
      | null => exact hv rfl
      | _ => cases hnull
    have hthere : ∀ {v : Value} {schema : Schema}, Schema.ofValue v = .ok schema → v ≠ .null := by
      rintro v schema hschema rfl
      cases hschema
    rintro (h | ⟨hv, h⟩ | ⟨hv, hschema, h⟩ | ⟨hv, hschema, hdata, h⟩)
    · exact escapes_seq.mpr (Or.inl (Disk.escapes_readSnapshot.mpr h))
    · refine escapes_seq.mpr (Or.inr ⟨_, hv, (escapes_unless rfl).mpr ⟨hpresent ?_, ?_⟩⟩)
      · rintro rfl
        cases h
      · exact escapes_seq.mpr (Or.inl
          ((Schema.escapes_ofValue (Disk.isPlain_of_readSnapshot hv)).mpr h))
    · refine escapes_seq.mpr (Or.inr ⟨_, hv, (escapes_unless rfl).mpr ⟨hpresent (hthere hschema), ?_⟩⟩)
      refine escapes_seq.mpr (Or.inr ⟨_, hschema, escapes_seq.mpr (Or.inl ?_)⟩)
      exact Disk.escapes_readSnapshot.mpr h
    · refine escapes_seq.mpr (Or.inr ⟨_, hv, (escapes_unless rfl).mpr ⟨hpresent (hthere hschema), ?_⟩⟩)
      refine escapes_seq.mpr (Or.inr ⟨_, hschema, escapes_seq.mpr (Or.inr ⟨_, hdata, ?_⟩)⟩)
      exact escapes_seq.mpr (Or.inl ((escapes_rowsOfValue _).mpr h))

/-- The indexes on the columns that an index file names are built, and then those on the unique columns,
unless one of the names stops the loading or a row has no key in a unique column. -/
lemma Steady.escapes_restore (h : table.Steady)
    (hunique : ∀ column ∈ table.schema.uniqueNames, checkIndexable table.schema column = .ok ())
    (noted : List Notice) (columns : List Value) :
    Escapes (match table.restoreIndexes noted columns with
      | (notices, .ok table) =>
        match table.ensureKeyIndexes with
        | .ok (table, more) => (notices ++ more, .ok table)
        | .error fault => (notices, .error fault)
      | (notices, .error fault) => (notices, .error fault) : List Notice × Except Fault Table).2 ↔
      table.StopsAmong columns ∨
        (∀ column ∈ columns, table.Passes column) ∧ table.LacksKey := by
  obtain ⟨hdone, hstops⟩ := table.restoreIndexes_cases noted columns
  rw [← hdone, ← hstops]
  cases hrestored : table.restoreIndexes noted columns with
  | mk notices result =>
    cases result with
    | error fault =>
      exact (or_iff_left fun h => Outcome.not_exists_error_eq_ok h.1).symm
    | ok restored =>
      obtain ⟨hsame, hrows, -⟩ := sameFiles_restoreIndexes hrestored
      have hsteady : restored.Steady := h.reaches (restoreIndexes_eq_ok hrestored)
      have hlacks : restored.LacksKey ↔ table.LacksKey := by
        rw [LacksKey, LacksKey, hsame.schema, hrows]
      have hkeys := hsteady.escapes_ensureKeyIndexes (by rw [hsame.schema]; exact hunique)
      rw [or_iff_right (not_escapes_ok restored), and_iff_right ⟨restored, rfl⟩, ← hlacks, ← hkeys]
      dsimp only
      cases restored.ensureKeyIndexes with
      | ok made => exact iff_of_false (not_escapes_ok made.1) (not_escapes_ok made)
      | error fault => exact escapes_error.trans escapes_error.symm

/-- A file that can be read names columns only in one way. -/
lemma NamesColumns.eq {path : String} {columns others : List Value}
    (h : NamesColumns disk path columns) (hothers : NamesColumns disk path others) :
    others = columns := by
  rcases h with ⟨hbad, rfl⟩ | ⟨v, hv, hcolumns⟩ <;>
    rcases hothers with ⟨hbad', rfl⟩ | ⟨w, hw, hothers⟩
  · rfl
  · cases hbad.symm.trans hw
  · cases hbad'.symm.trans hv
  · obtain rfl := Except.ok.inj (hv.symm.trans hw)
    exact Except.ok.inj (hothers.symm.trans hcolumns)

/-- The columns of a mapping, a list or a text are named unless it has no parts. -/
lemma indexedColumns_cases (v : Value) : (∃ columns, indexedColumns v = .ok columns) ∧
      ¬(v.isTruthy = true ∧ v.items? = none) ∨
    indexedColumns v = .error .wrongType ∧ v.isTruthy = true ∧ v.items? = none := by
  rw [indexedColumns]
  split
  · rename_i htruthy
    cases hitems : v.items? with
    | none => exact Or.inr ⟨rfl, htruthy, rfl⟩
    | some columns => exact Or.inl ⟨⟨columns, rfl⟩, nofun⟩
  · rename_i hfalsy
    exact Or.inl ⟨⟨[], rfl⟩, fun h => hfalsy h.1⟩

/-- If an index file names columns, it blocks where they do. -/
lemma blocksIndexes_iff {columns : List Value}
    (hcolumns : NamesColumns disk (indexPath table.directory table.name) columns) :
    table.BlocksIndexes disk ↔ table.StopsAmong columns ∨
      (∀ column ∈ columns, table.Passes column) ∧ table.LacksKey := by
  constructor
  · rintro (h | ⟨hv, htruthy, h⟩ | ⟨hothers, h⟩ | ⟨hothers, hpasses, h⟩)
    · obtain ⟨fault, hfault, hrefusal⟩ := Disk.escapes_readSnapshot.mpr h
      rcases hcolumns with ⟨hbad, -⟩ | ⟨v, hv, -⟩
      · obtain rfl := Except.error.inj (hbad.symm.trans hfault)
        cases hrefusal
      · cases hv.symm.trans hfault
    · rcases hcolumns with ⟨hbad, -⟩ | ⟨w, hw, hnamed⟩
      · cases hbad.symm.trans hv
      · obtain rfl := Except.ok.inj (hv.symm.trans hw)
        rw [indexedColumns, if_pos htruthy, h] at hnamed
        cases hnamed
    · obtain rfl := hcolumns.eq hothers
      exact Or.inl h
    · obtain rfl := hcolumns.eq hothers
      exact Or.inr ⟨hpasses, h⟩
  · rintro (h | ⟨hpasses, h⟩)
    · exact .named hcolumns h
    · exact .key hcolumns hpasses h

/-- The indexes of a table whose rows have been loaded are built or refused unless they block. -/
lemma Steady.escapes_loadIndexes (h : table.Steady)
    (hunique : ∀ column ∈ table.schema.uniqueNames, checkIndexable table.schema column = .ok ()) :
    Escapes (table.loadIndexes disk).2 ↔ table.BlocksIndexes disk := by
  rcases disk.readSnapshot_cases (indexPath table.directory table.name) with
    ⟨⟨v, hv, -⟩, hno⟩ | ⟨hbad, hno⟩ | ⟨hescapes, htrips⟩
  · rw [loadIndexes, hv]
    dsimp only
    rcases indexedColumns_cases v with ⟨⟨columns, hcolumns⟩, -⟩ | ⟨hfault, htruthy, hitems⟩
    · rw [blocksIndexes_iff (Or.inr ⟨v, hv, hcolumns⟩), hcolumns]
      exact h.escapes_restore hunique [] columns
    · rw [hfault]
      exact iff_of_true ⟨.wrongType, rfl, rfl⟩ (.shape hv htruthy hitems)
  · rw [blocksIndexes_iff (Or.inl ⟨hbad, rfl⟩), loadIndexes, hbad]
    exact h.escapes_restore hunique _ []
  · obtain ⟨fault, hfault, hrefusal⟩ := hescapes
    refine iff_of_true ⟨fault, ?_, hrefusal⟩ (.trips htrips)
    rw [loadIndexes, hfault]
    cases fault <;> first | rfl | cases hrefusal

/-- What is loaded from the files of a table is a table, or it is refused, unless they block. -/
theorem escapes_load : Escapes (load name directory disk).2 ↔ Blocks name directory disk := by
  rw [load]
  cases hrows : loadRows name directory disk with
  | ok table =>
    obtain ⟨hschema, hindexes⟩ := loadRows_eq_ok hrows
    have hsteady : table.Steady :=
      steady_of_unindexed (hschema.mono fun _ hc => hc.hasKeyDefault) hindexes
    have hunique : ∀ column ∈ table.schema.uniqueNames,
        checkIndexable table.schema column = .ok () := fun column hcolumn =>
      (namesIndexable_of_unique hschema hcolumn).checkIndexable hschema
    refine (hsteady.escapes_loadIndexes hunique).trans ⟨fun h => .indexes hrows h, ?_⟩
    rintro (h | ⟨hrows', h⟩)
    · have hescapes := escapes_loadRows.mpr h
      rw [hrows] at hescapes
      exact absurd hescapes (not_escapes_ok table)
    · obtain rfl := Except.ok.inj (hrows.symm.trans hrows')
      exact h
  | error fault =>
    have hescapes : Escapes (.error fault : Except Fault Table) ↔ BlocksRows name directory disk := by
      rw [← escapes_loadRows, hrows]
    refine hescapes.trans ⟨.rows, ?_⟩
    rintro (h | ⟨hrows', -⟩)
    · exact h
    · cases hrows.symm.trans hrows'

end Table

end RecordStore
