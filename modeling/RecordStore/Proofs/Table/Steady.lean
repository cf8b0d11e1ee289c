import RecordStore.Proofs.Index
import RecordStore.Proofs.Numbering

/-!
# Steady tables

An index refuses a row that has no key in its column, and the change that was going on is left half
done.  In a steady table this does not happen: the schema only lets records through that have a key
in every column that can be indexed, and the rows that are there have keys in the indexed columns.
On steady tables the operations that change rows and indexes are given by total functions.
-/

namespace RecordStore

/-! ## Keys of rows -/

namespace Row

/-- A row has a key in a column: what it holds there can be a key, or is absent. -/
def HasKey (column : Value) (row : Row) : Prop :=
  ∃ v, row.value column = .ok v ∧ v.isHashable = true

/-- What a row holds in a column; what is no record holds nothing. -/
def held (column : Value) (row : Row) : Value :=
  row.value column |>.toOption.getD .null

/-- A row that has a key in a column holds it there. -/
lemma HasKey.value_eq {column : Value} {row : Row} (h : row.HasKey column) :
    row.value column = .ok (row.held column) := by
  obtain ⟨v, hv, -⟩ := h
  rw [held, hv]
  rfl

/-- What a row holds where it has a key can be a key. -/
lemma HasKey.isHashable {column : Value} {row : Row} (h : row.HasKey column) :
    (row.held column).isHashable = true := by
  obtain ⟨v, hv, hhash⟩ := h
  rw [held, hv]
  exact hhash

end Row

namespace Index

/-- An index with a row entered under what it holds. -/
def enterRow (index : Index) (id : RowId) (row : Row) : Index :=
  index.enter (row.held index.column) id

/-- An index with a row taken out from under what it holds. -/
def leaveRow (index : Index) (id : RowId) (row : Row) : Index :=
  index.leave (row.held index.column) id

/-- Entering a row leaves the column of an index as it is. -/
@[simp] lemma enterRow_column (index : Index) (id : RowId) (row : Row) :
    (index.enterRow id row).column = index.column :=
  enter_column _ _ _

/-- Taking a row out leaves the column of an index as it is. -/
@[simp] lemma leaveRow_column (index : Index) (id : RowId) (row : Row) :
    (index.leaveRow id row).column = index.column :=
  leave_column _ _ _

/-- A row that has a key is entered. -/
lemma addRow_eq {index : Index} {row : Row} (h : row.HasKey index.column) (id : RowId) :
    index.addRow id row = .ok (index.enterRow id row) := by
  rw [addRow, h.value_eq]
  exact add_eq_enter h.isHashable index id

/-- A row that has a key is taken out. -/
lemma removeRow_eq {index : Index} {row : Row} (h : row.HasKey index.column) (id : RowId) :
    index.removeRow id row = .ok (index.leaveRow id row) := by
  rw [removeRow, h.value_eq]
  exact remove_eq_leave h.isHashable index id

/-- Only a row that has a key can be added. -/
lemma hasKey_of_addRow {index index' : Index} {id : RowId} {row : Row}
    (h : index.addRow id row = .ok index') : row.HasKey index.column := by
  obtain ⟨v, hv, hadd⟩ := Outcome.bind_eq_ok.mp h
  refine ⟨v, hv, ?_⟩
  rw [add] at hadd
  split at hadd
  · rename_i hnull
    cases v <;> first | rfl | cases hnull
  · split at hadd
    · assumption
    · cases hadd

/-- Rows can be added exactly if they all have keys, and then they are entered one after the
other. -/
lemma addRows_eq_ok {index index' : Index} {rows : List (RowId × Row)} :
    index.addRows rows = .ok index' ↔
      (∀ entry ∈ rows, entry.2.HasKey index.column) ∧
        rows.foldl (fun index entry => index.enterRow entry.1 entry.2) index = index' := by
  induction rows generalizing index with
  | nil => simp [addRows]
  | cons entry rest ih =>
    obtain ⟨id, row⟩ := entry
    rw [addRows, Outcome.bind_eq_ok, List.foldl_cons, List.forall_mem_cons]
    constructor
    · rintro ⟨added, hadded, hrest⟩
      have hkey := hasKey_of_addRow hadded
      rw [addRow_eq hkey] at hadded
      obtain rfl : index.enterRow id row = added := by simpa using hadded
      obtain ⟨hkeys, hfold⟩ := ih.mp hrest
      exact ⟨⟨hkey, by simpa using hkeys⟩, hfold⟩
    · rintro ⟨⟨hkey, hkeys⟩, hfold⟩
      exact ⟨_, addRow_eq hkey id, ih.mpr ⟨by simpa using hkeys, hfold⟩⟩

/-- Entering rows leaves the column of an index as it is. -/
lemma foldl_enterRow_column (rows : List (RowId × Row)) (index : Index) :
    (rows.foldl (fun index entry => index.enterRow entry.1 entry.2) index).column =
      index.column := by
  induction rows generalizing index with
  | nil => rfl
  | cons entry rest ih => rw [List.foldl_cons, ih, enterRow_column]

/-- An index is built from rows exactly if they all have keys in its column. -/
lemma ofRows_eq_ok {column : Value} {rows : List (RowId × Row)} {index : Index} :
    ofRows column rows = .ok index ↔
      (∀ entry ∈ rows, entry.2.HasKey column) ∧
        rows.foldl (fun index entry => index.enterRow entry.1 entry.2) (empty column) = index :=
  addRows_eq_ok

end Index

namespace Table

/-! ## Changes as total functions -/

/-- A table with a row entered into its indexes. -/
def entered (table : Table) (id : RowId) (row : Row) : Table :=
  { table with indexes := table.indexes.map fun entry => (entry.1, entry.2.enterRow id row) }

/-- A table with a row taken out of its indexes. -/
def left (table : Table) (id : RowId) (row : Row) : Table :=
  { table with indexes := table.indexes.map fun entry => (entry.1, entry.2.leaveRow id row) }

/-- A table with a record appended as a new row. -/
def appended (table : Table) (record : Record) : Table :=
  ({ table with nextRowId := table.nextRowId.successor }.withRow (.ofNumber table.nextRowId)
    (.record record)).entered (.ofNumber table.nextRowId) (.record record)

/-- A table with a record in the place of the row under an id. -/
def replaced (table : Table) (id : RowId) (record : Record) : Table :=
  ((table.left id ((table.row? id).getD (.record []))).withRow id (.record record)).entered id
    (.record record)

/-- A table with records in the place of rows. -/
def replacedAll (table : Table) (staged : List (RowId × Record)) : Table :=
  staged.foldl (fun table entry => table.replaced entry.1 entry.2) table

/-- A table without the row under an id. -/
def removed (table : Table) (id : RowId) : Table :=
  (table.withoutRow id).left id ((table.row? id).getD (.record []))

/-- A table without the rows under some ids. -/
def removedAll (table : Table) (ids : List RowId) : Table :=
  ids.foldl removed table

/-- A table with an index put on a column. -/
def withIndex (table : Table) (column : Value) (index : Index) : Table :=
  { table with indexes := Entries.put column index table.indexes }

/-- A table without an index on a column. -/
def withoutIndex (table : Table) (column : Value) : Table :=
  { table with indexes := Entries.drop column table.indexes }

/-! ## Steadiness -/

/-- A value is a key if its column can be indexed. -/
def KeyIn (column : Column) (v : Value) : Prop :=
  column.kind.isIndexable = true → v.isHashable = true

/-- Every index is on a column, by its name, that can be indexed. -/
def Named (table : Table) : Prop :=
  ∀ entry ∈ table.indexes, entry.2.column.isHashable = true ∧
    (entry.1 == entry.2.column) = true ∧
      ∃ c ∈ table.schema.columns, (entry.2.column == c.name) = true ∧ c.kind.isIndexable = true

/-- The invariants under which changes of a table go through once they have been checked. -/
structure Steady (table : Table) : Prop where
  /-- Columns that can be indexed have defaults that can be keys. -/
  schema : table.schema.Sound Column.HasKeyDefault
  /-- Every index is on a column, by its name, that can be indexed. -/
  indexes : ∀ entry ∈ table.indexes, entry.2.column.isHashable = true ∧
    (entry.1 == entry.2.column) = true ∧
      ∃ c ∈ table.schema.columns, (entry.2.column == c.name) = true ∧ c.kind.isIndexable = true
  /-- Every row has a key in every indexed column. -/
  rows : ∀ entry ∈ table.indexes, ∀ row ∈ table.rows, row.2.HasKey entry.2.column

variable {table : Table}

/-- A record whose values are keys where they have to be has a key in every indexed column. -/
lemma Named.hasKey_record (h : table.Named) {record : Record}
    (hrecord : table.schema.Holds KeyIn record) :
    ∀ entry ∈ table.indexes, (Row.record record).HasKey entry.2.column := by
  intro entry hentry
  obtain ⟨hhash, -, c, hc, hname, hkind⟩ := h entry hentry
  refine ⟨_, rfl, ?_⟩
  rw [Record.value, Entries.lookup_congr hhash hname]
  cases hlookup : record.lookup c.name with
  | none => rfl
  | some v => exact hrecord c hc v hlookup hkind

/-- The indexes of a steady table are on columns that can be indexed. -/
lemma Steady.named (h : table.Steady) : table.Named :=
  h.indexes

/-- A record whose values are keys where they have to be has a key in every indexed column of a steady
table. -/
lemma Steady.hasKey_record (h : table.Steady) {record : Record}
    (hrecord : table.schema.Holds KeyIn record) :
    ∀ entry ∈ table.indexes, (Row.record record).HasKey entry.2.column :=
  h.named.hasKey_record hrecord

/-- The empty record has a key in every column. -/
lemma hasKey_nil (column : Value) : (Row.record []).HasKey column :=
  ⟨.null, rfl, rfl⟩

/-- The row under an id, or nothing in its place, has a key in every indexed column. -/
lemma Steady.hasKey_row? (h : table.Steady) (id : RowId) :
    ∀ entry ∈ table.indexes, ((table.row? id).getD (.record [])).HasKey entry.2.column := by
  intro entry hentry
  cases hrow : table.row? id with
  | none => exact hasKey_nil _
  | some row =>
    obtain ⟨k, hmem, -⟩ := Entries.mem_of_lookup_eq_some hrow
    exact h.rows entry hentry _ hmem

/-! ## Entering rows and taking them out -/

/-- If no index refuses a change, all indexes are changed. -/
lemma changeIndexes_eq {change : Index → Except Fault Index} (total : Index → Index)
    {indexes : List (Value × Index)} (h : ∀ entry ∈ indexes, change entry.2 = .ok (total entry.2)) :
    changeIndexes change indexes = (indexes.map fun entry => (entry.1, total entry.2), none) := by
  induction indexes with
  | nil => rfl
  | cons entry rest ih =>
    obtain ⟨column, index⟩ := entry
    rw [changeIndexes, h (column, index) List.mem_cons_self,
      ih fun e he => h e (List.mem_cons_of_mem _ he)]
    rfl

/-- A row that has keys in the indexed columns is entered. -/
lemma indexRow_eq {row : Row} (h : ∀ entry ∈ table.indexes, row.HasKey entry.2.column)
    (id : RowId) : table.indexRow id row = (table.entered id row, none) := by
  rw [indexRow, changeIndexes_eq (fun index => index.enterRow id row)
    fun entry hentry => Index.addRow_eq (h entry hentry) id]
  rfl

/-- A row that has keys in the indexed columns is taken out. -/
lemma unindexRow_eq {row : Row} (h : ∀ entry ∈ table.indexes, row.HasKey entry.2.column)
    (id : RowId) : table.unindexRow id row = (table.left id row, none) := by
  rw [unindexRow, changeIndexes_eq (fun index => index.leaveRow id row)
    fun entry hentry => Index.removeRow_eq (h entry hentry) id]
  rfl

/-- Steadiness only depends on the columns of the indexes. -/
lemma Steady.of_indexes (h : table.Steady) (change : Index → Index)
    (hchange : ∀ index, (change index).column = index.column) {table' : Table}
    (hschema : table'.schema = table.schema)
    (hindexes : table'.indexes = table.indexes.map fun entry => (entry.1, change entry.2))
    (hrows : ∀ entry ∈ table.indexes, ∀ row ∈ table'.rows, row.2.HasKey entry.2.column) :
    table'.Steady := by
  refine ⟨hschema ▸ h.schema, fun entry hentry => ?_, fun entry hentry => ?_⟩
  · rw [hindexes] at hentry
    obtain ⟨old, hold, rfl⟩ := List.mem_map.mp hentry
    simpa only [hchange, hschema] using h.indexes old hold
  · rw [hindexes] at hentry
    obtain ⟨old, hold, rfl⟩ := List.mem_map.mp hentry
    simpa only [hchange] using hrows old hold

/-- Every row after a row has been put under an id is an old one or the new one. -/
lemma hasKey_of_mem_withRow (h : table.Steady) {record : Record}
    (hrecord : table.schema.Holds KeyIn record) {id : RowId} :
    ∀ entry ∈ table.indexes, ∀ row ∈ (table.withRow id (.record record)).rows,
      row.2.HasKey entry.2.column := by
  intro entry hentry row hrow
  rcases Entries.mem_put hrow with hrow | ⟨hrow, -⟩
  · exact h.rows entry hentry row hrow
  · rw [hrow]
    exact h.hasKey_record hrecord entry hentry

/-! ## Steadiness is kept -/

/-- Appending a record whose values are keys where they have to be keeps a table steady. -/
lemma Steady.appended (h : table.Steady) {record : Record}
    (hrecord : table.schema.Holds KeyIn record) : (table.appended record).Steady :=
  h.of_indexes (fun index => index.enterRow _ _) (fun _ => Index.enterRow_column _ _ _)
    rfl rfl (hasKey_of_mem_withRow h hrecord)

/-- Replacing a row by a record whose values are keys where they have to be keeps a table
steady. -/
lemma Steady.replaced (h : table.Steady) {record : Record}
    (hrecord : table.schema.Holds KeyIn record) (id : RowId) :
    (table.replaced id record).Steady := by
  refine h.of_indexes
    (fun index =>
      (index.leaveRow id ((table.row? id).getD (.record []))).enterRow id (.record record))
    (fun _ => by simp) rfl ?_ (hasKey_of_mem_withRow h hrecord)
  exact List.map_map

/-- Removing a row keeps a table steady. -/
lemma Steady.removed (h : table.Steady) (id : RowId) : (table.removed id).Steady :=
  h.of_indexes (fun index => index.leaveRow _ _) (fun _ => Index.leaveRow_column _ _ _)
    rfl rfl fun entry hentry row hrow => h.rows entry hentry row (List.mem_filter.mp hrow).1

/-- Replacing rows by records whose values are keys where they have to be keeps a table steady. -/
lemma Steady.replacedAll {staged : List (RowId × Record)} (h : table.Steady)
    (hstaged : ∀ entry ∈ staged, table.schema.Holds KeyIn entry.2) :
    (table.replacedAll staged).Steady := by
  induction staged generalizing table with
  | nil => exact h
  | cons entry rest ih =>
    obtain ⟨hfirst, hrest⟩ := List.forall_mem_cons.mp hstaged
    exact ih (h.replaced hfirst entry.1) hrest

/-- Removing rows keeps a table steady. -/
lemma Steady.removedAll (h : table.Steady) (ids : List RowId) : (table.removedAll ids).Steady := by
  induction ids generalizing table with
  | nil => exact h
  | cons id rest ih => exact ih (h.removed id)

/-- Indexes are on columns that can be indexed after one that is built from rows has been put on such a
column. -/
lemma Named.withIndex (h : table.Named) {column : Value} {index : Index}
    {rows : List (RowId × Row)} (hcolumn : column.isHashable = true)
    (hindexable : ∃ c ∈ table.schema.columns, (column == c.name) = true ∧ c.kind.isIndexable = true)
    (hindex : Index.ofRows column rows = .ok index) : (table.withIndex column index).Named := by
  intro entry hentry
  rcases Entries.mem_put hentry with hentry | ⟨hnew, hsame⟩
  · exact h entry hentry
  · have hcol : index.column = column := by
      rw [← (Index.ofRows_eq_ok.mp hindex).2]
      exact Index.foldl_enterRow_column _ _
    rw [hnew, hcol]
    exact ⟨hcolumn, hsame, hindexable⟩

/-- Putting an index that has been built from the rows on a column that can be indexed keeps a table
steady. -/
lemma Steady.withIndex (h : table.Steady) {column : Value} {index : Index}
    (hcolumn : column.isHashable = true)
    (hindexable : ∃ c ∈ table.schema.columns, (column == c.name) = true ∧ c.kind.isIndexable = true)
    (hindex : Index.ofRows column table.rows = .ok index) :
    (table.withIndex column index).Steady := by
  refine ⟨h.schema, h.named.withIndex hcolumn hindexable hindex, fun entry hentry row hrow => ?_⟩
  rcases Entries.mem_put hentry with hentry | ⟨hnew, -⟩
  · exact h.rows entry hentry row hrow
  · obtain ⟨hkeys, hfold⟩ := Index.ofRows_eq_ok.mp hindex
    rw [hnew, ← hfold, Index.foldl_enterRow_column]
    exact hkeys row hrow

/-- Removing an index keeps a table steady. -/
lemma Steady.withoutIndex (h : table.Steady) (column : Value) :
    (table.withoutIndex column).Steady :=
  ⟨h.schema, fun entry hentry => h.indexes entry (List.mem_filter.mp hentry).1,
    fun entry hentry => h.rows entry (List.mem_filter.mp hentry).1⟩

/-- A table without indexes is steady, whatever its rows are. -/
lemma steady_of_unindexed (hschema : table.schema.Sound Column.HasKeyDefault)
    (hindexes : table.indexes = []) : table.Steady :=
  ⟨hschema, by simp [hindexes], by simp [hindexes]⟩

/-- A table without rows and indexes is steady. -/
lemma steady_empty {schema : Schema} (hschema : schema.Sound Column.HasKeyDefault)
    (name directory : String) : (empty name schema directory).Steady :=
  steady_of_unindexed hschema rfl

end Table

end RecordStore
