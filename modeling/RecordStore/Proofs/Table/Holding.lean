import RecordStore.Proofs.Table.Descent
import RecordStore.Proofs.Table.Returning

/-!
# What the files of a table hold

The file of rows and the index file are written one after the other, so that the one may be newer than
the other.  They keep a table if the rows are read as its rows, and the index file
names the columns of its indexes, perhaps without unique ones that come last; files that are not there
hold a table without rows, whose indexes are on the unique columns.  A table that descends from a schema
which is accepted again is loaded from files that keep it, with the same rows under the same ids, the
same next id, and indexes on the same columns that agree with the rows.
-/

namespace RecordStore

open Snapshot (ComesBackEqual draft restored)

/-- What is read from a file is what a value comes back as. -/
def Disk.Reads (disk : Disk) (path : String) (v : Value) : Prop :=
  ∃ w, restored v = .ok w ∧ disk.readSnapshot path = .ok w

/-- A complete snapshot is read as what its value comes back as. -/
lemma Disk.Stores.reads {disk : Disk} {path : String} {v w : Value} (h : disk.Stores path v)
    (hrestored : restored v = .ok w) : disk.Reads path v :=
  ⟨w, hrestored, by rw [h.readSnapshot, hrestored]⟩

namespace Table

variable {schema : Schema} {table table' : Table} {records : List (Int × Record)} {disk disk' : Disk}

/-! ## Tables that files keep -/

/-- The file of rows is read as the rows of a table and its next id. -/
def HoldsRows (table : Table) (disk : Disk) : Prop :=
  ∃ data rows, disk.readSnapshot (dataPath table.directory table.name) = .ok data ∧
    rowsOfValue data = .ok (rows, table.nextRowId) ∧ asRows rows = table.rows

/-- The index file names the columns of the indexes of a table, except that unique ones which come last
may be left out. -/
def NamesIndexes (table : Table) (disk : Disk) : Prop :=
  ∃ w columns, disk.readSnapshot (indexPath table.directory table.name) = .ok w ∧
    indexedColumns w = .ok columns ∧
      columns ++ uniqueBeside table.schema columns = Entries.keys table.indexes

/-- The files of a table keep it, with the schema that it descends from. -/
structure KeptIn (schema : Schema) (table : Table) (disk : Disk) : Prop where
  schema : disk.Stores (schemaPath table.directory table.name) schema.toValue
  rows : table.HoldsRows disk
  indexes : table.NamesIndexes disk

/-- Files that hold the rows of a table hold those of another one with the same rows. -/
lemma HoldsRows.congr (h : table.HoldsRows disk) (hsame : table.SameFiles table')
    (hrows : table'.rows = table.rows) (hnext : table'.nextRowId = table.nextRowId) :
    table'.HoldsRows disk := by
  rw [HoldsRows, hsame.directory, hsame.name, hrows, hnext]
  exact h

/-- A file that names the indexes of a table names those of another one on the same columns. -/
lemma NamesIndexes.congr (h : table.NamesIndexes disk) (hsame : table.SameFiles table')
    (hkeys : Entries.keys table'.indexes = Entries.keys table.indexes) :
    table'.NamesIndexes disk := by
  rw [NamesIndexes, hsame.directory, hsame.name, hsame.schema, hkeys]
  exact h

/-- Files that hold the rows of a table do so as long as the file of rows stays. -/
lemma HoldsRows.of_find? (h : table.HoldsRows disk)
    (hfind : disk'.find? (dataPath table.directory table.name) =
      disk.find? (dataPath table.directory table.name)) : table.HoldsRows disk' := by
  rw [HoldsRows, Disk.readSnapshot_congr hfind]
  exact h

/-- A file names the indexes of a table as long as it stays. -/
lemma NamesIndexes.of_find? (h : table.NamesIndexes disk)
    (hfind : disk'.find? (indexPath table.directory table.name) =
      disk.find? (indexPath table.directory table.name)) : table.NamesIndexes disk' := by
  rw [NamesIndexes, Disk.readSnapshot_congr hfind]
  exact h

/-! ## What is written of a table -/

/-- What is written of a table can be written, and its schema, its rows and its indexes come back
equal. -/
structure GivenBack (table : Table) : Prop where
  schema : ComesBackEqual table.schema.toValue
  rows : ∀ entry ∈ table.rows, ComesBackEqual entry.2.toValue
  written : (draft table.dataValue).complete = true
  indexes : ComesBackEqual table.indexesValue

instance (table : Table) : Decidable table.GivenBack :=
  decidable_of_iff (ComesBackEqual table.schema.toValue ∧
      (∀ entry ∈ table.rows, ComesBackEqual entry.2.toValue) ∧
      (draft table.dataValue).complete = true ∧ ComesBackEqual table.indexesValue)
    ⟨fun ⟨hschema, hrows, hwritten, hindexes⟩ => ⟨hschema, hrows, hwritten, hindexes⟩,
      fun h => ⟨h.schema, h.rows, h.written, h.indexes⟩⟩

/-- The columns of a table whose schema comes back equal have texts for names. -/
lemma GivenBack.exists_text (h : table.GivenBack) :
    ∀ c ∈ table.schema.columns, ∃ s, c.name = .text s := by
  intro c hc
  have hback : restored (.map table.schema.toRecord) = .ok (.map table.schema.toRecord) :=
    (Snapshot.comesBackEqual_iff.mp h.schema).1.2
  refine Snapshot.exists_text_of_restored hback c.name ?_
  rw [Schema.keys_toRecord]
  exact List.mem_map_of_mem hc

/-- Records that come back equal are found as they are. -/
lemma GivenBack.rowsFound (h : table.GivenBack) (hnumbers : table.Numbers records) :
    RowsFound records (asValues records) := by
  have hrestored : ∀ entry ∈ records, restored (.map entry.2) = .ok (.map entry.2) := by
    intro entry hentry
    have hrow : (Value.int entry.1, Row.record entry.2) ∈ table.rows := by
      rw [hnumbers.rows]
      exact List.mem_map_of_mem hentry
    exact (Snapshot.comesBackEqual_iff.mp (h.rows _ hrow)).1.2
  rw [RowsFound, asValues, List.forall₂_map_right_iff]
  exact List.forall₂_same.mpr fun entry hentry => ⟨rfl, hrestored entry hentry⟩

/-- The snapshot of rows that come back equal can be read again. -/
lemma GivenBack.exists_restored_dataValue (h : table.GivenBack) (hnumbers : table.Numbers records)
    (hcounts : table.CountsFromOne) : ∃ w, restored table.dataValue = .ok w := by
  obtain ⟨next, hnext, -⟩ := hnumbers.dataValue_eq hcounts
  exact ⟨_, (hnumbers.restored_dataValue_eq_ok hcounts h.written).mpr
    ⟨next, _, hnext, h.rowsFound hnumbers, rfl⟩⟩

/-- A file that reads as rows that come back equal holds them. -/
lemma GivenBack.holdsRows (h : table.GivenBack) (hnumbers : table.Numbers records)
    (hcounts : table.CountsFromOne)
    (hdata : disk.Reads (dataPath table.directory table.name) table.dataValue) :
    table.HoldsRows disk := by
  obtain ⟨w, hw, hread⟩ := hdata
  obtain ⟨next, found, hnext, hfound, rfl⟩ :=
    (hnumbers.restored_dataValue_eq_ok hcounts h.written).mp hw
  obtain rfl := eq_of_rowsFound hfound (h.rowsFound hnumbers)
  refine ⟨_, _, hread, hnumbers.rowsOfValue_eq hcounts h.written hnext hfound, ?_⟩
  rw [asRows_asValues, hnumbers.rows]

/-- A file that stores indexes which come back equal names them, if every unique column has one. -/
lemma GivenBack.namesIndexes (h : table.GivenBack) (hindexed : table.KeyIndexed)
    (hstores : disk.Stores (indexPath table.directory table.name) table.indexesValue) :
    table.NamesIndexes disk := by
  obtain ⟨w, hw, hread⟩ := hstores.reads (Snapshot.comesBackEqual_iff.mp h.indexes).1.2
  obtain rfl : w = table.indexesValue :=
    Except.ok.inj (hw.symm.trans (Snapshot.comesBackEqual_iff.mp h.indexes).1.2)
  refine ⟨_, Entries.keys table.indexes, hread, ?_, ?_⟩
  · rw [indexesValue, indexedColumns_map]
    exact congrArg Except.ok (keys_indexesValue table)
  · have hnone : uniqueBeside table.schema (Entries.keys table.indexes) = [] := by
      refine uniqueBeside_eq_nil fun column hcolumn => ?_
      rw [← Entries.has_eq_any]
      exact hindexed column hcolumn
    rw [hnone, List.append_nil]

/-! ## Loading what is kept -/

/-- Every record that a table lists has a key in every column with an index. -/
lemma Lists.hasKey_of_has (h : table.Lists records) (hsteady : table.Steady) {column : Value}
    (hhas : Entries.has column table.indexes = true) :
    ∀ row ∈ rowsOf records, row.2.HasKey column := by
  obtain ⟨entry, hentry, hkey⟩ := List.any_eq_true.mp hhas
  obtain ⟨hhash, hname, -⟩ := hsteady.indexes entry hentry
  have hentryhash : entry.1.isHashable = true := (Value.isHashable_congr hname).trans hhash
  intro row hrow
  obtain ⟨v, hv, hvhash⟩ := hsteady.rows entry hentry row (h.rows ▸ hrow)
  obtain ⟨found, -, rfl⟩ := List.mem_map.mp hrow
  refine ⟨v, ?_, hvhash⟩
  rw [← hv, Row.value, Row.value, ← value_congr hentryhash hkey, ← value_congr hentryhash hname]

section Indexing

variable (h : table.Orderly schema records) {schema' : Schema}
  (hacts : List.Forall₂ Column.ActsAs table.schema.columns schema'.columns)

include h hacts

/-- An index can be built again, on what has been read, wherever an orderly table has one. -/
lemma Orderly.canIndex (hback : table.GivenBack) {column : Value}
    (hcolumn : column ∈ Entries.keys table.indexes) :
    (table.unindexed schema' records).CanIndex column := by
  refine ⟨(h.steady.namesIndexable hback.exists_text column hcolumn).of_actsAs hacts,
    h.lists.hasKey_of_has h.steady ?_⟩
  rw [Entries.has_eq_any]
  exact List.any_eq_true.mpr ⟨column, hcolumn, Value.beq_self _⟩

/-- An index can be built on every unique column that has been read. -/
lemma Orderly.canIndex_of_unique (hsound : schema'.Sound Column.Described) {column : Value}
    (hcolumn : column ∈ schema'.uniqueNames) :
    (table.unindexed schema' records).CanIndex column := by
  refine ⟨namesIndexable_of_unique hsound hcolumn, h.lists.hasKey_of_has h.steady ?_⟩
  rw [uniqueNames_eq_of_actsAs hacts] at hcolumn
  exact h.indexed column hcolumn

end Indexing

/-- A table that has been loaded restates another one: the columns act alike, the rows are the same under
the same ids in the same order, as is the next id, and the indexes are on the same columns, find the same
rows and agree with them. -/
structure Restates (table loaded : Table) : Prop where
  columns : List.Forall₂ Column.ActsAs table.schema.columns loaded.schema.columns
  rows : loaded.rows = table.rows
  nextRowId : loaded.nextRowId = table.nextRowId
  indexed : Entries.keys loaded.indexes = Entries.keys table.indexes
  lookups : ∀ column, Option.Rel (fun index index' => ∀ v, index'.lookup v = index.lookup v)
    (table.index? column) (loaded.index? column)
  consistent : ∃ records, loaded.Lists records

/-- From a schema file a schema is read whose columns act as those of the table, if its schema is
accepted again. -/
lemma Numbered.exists_schema (h : table.Numbered schema)
    (hschema : disk.Stores (schemaPath table.directory table.name) schema.toValue)
    (hback : ComesBackEqual table.schema.toValue) (haccepted : table.schema.IsAccepted) :
    ∃ v schema', disk.readSnapshot (schemaPath table.directory table.name) = .ok v ∧
      v.isNull = false ∧ Schema.ofValue v = .ok schema' ∧
        List.Forall₂ Column.ActsAs table.schema.columns schema'.columns := by
  rcases h.origin with heq | ⟨v, hv, hread⟩
  · obtain ⟨schema', hschema'⟩ := haccepted
    rw [heq] at hback hschema' ⊢
    refine ⟨_, schema', ?_, rfl, hschema', (Schema.forall₂_actsAs_of_ofValue hschema').1⟩
    rw [hschema.readSnapshot, (Snapshot.comesBackEqual_iff.mp hback).1.2]
  · obtain ⟨entries, rfl⟩ := Schema.exists_map_of_restored_toValue hv
    refine ⟨_, table.schema, ?_, rfl, hread, List.forall₂_same.mpr fun c _ => .refl c⟩
    rw [hschema.readSnapshot, hv]

/-- An orderly table whose schema is accepted again is loaded from files that keep it. -/
theorem KeptIn.load (hkept : table.KeptIn schema disk) (h : table.Orderly schema records)
    (hback : table.GivenBack) (haccepted : table.schema.IsAccepted) :
    ∃ notices loaded, Table.load table.name table.directory disk = (notices, .ok loaded) ∧
      table.Restates loaded := by
  obtain ⟨v, schema', hread, hpresent, hschema', hacts⟩ :=
    h.numbered.exists_schema hkept.schema hback.schema haccepted
  obtain ⟨data, rows, hdata, hrows, hsame⟩ := hkept.rows
  obtain ⟨w, columns, hindex, hcolumns, hkeys⟩ := hkept.indexes
  have hplain : loadRows table.name table.directory disk = .ok (table.unindexed schema' records) := by
    refine loadRows_eq_ok_iff.mpr ⟨v, schema', data, rows, table.nextRowId, hread, hpresent, hschema',
      hdata, hrows, ?_⟩
    rw [hsame, h.lists.rows]
    rfl
  have hsound : schema'.Sound Column.Described := Schema.sound_ofValue hschema'
  have hnamed : ∀ column ∈ columns, (table.unindexed schema' records).CanIndex column :=
    fun _ hcolumn => h.canIndex hacts hback (hkeys ▸ List.mem_append_left _ hcolumn)
  have hapart : KeysApart columns := by
    have hall : KeysApart (Entries.keys table.indexes) := List.pairwise_map.mpr h.distinct
    rw [← hkeys] at hall
    exact (List.pairwise_append.mp hall).1
  obtain ⟨notices, loaded, hload, -, hrows', hnext, hindexed⟩ :=
    loadIndexes_of_canIndex hsound (show (table.unindexed schema' records).indexes = [] from rfl)
      (fun _ hcolumn => h.canIndex_of_unique hacts hsound hcolumn) hnamed
      (Or.inr ⟨w, hindex, hcolumns⟩)
  -- the table that is loaded lists the same records
  have hsteady : (table.unindexed schema' records).Steady :=
    steady_of_unindexed (hsound.mono fun _ hc => hc.hasKeyDefault) rfl
  obtain ⟨hreaches, -⟩ := hsteady.loadIndexes_eq_ok hload
  have hlists' := ((h.lists.numbers.unindexed schema' rfl).lists rfl).of_reaches hsteady hreaches hrows'
  have hsameKeys : Entries.keys loaded.indexes = Entries.keys table.indexes := by
    rw [hindexed ⟨w, hindex⟩ hapart, ← hkeys]
    change columns ++ uniqueBeside schema' columns = _
    rw [uniqueBeside, uniqueBeside, uniqueNames_eq_of_actsAs hacts]
  refine ⟨notices, loaded, ?_, ?_, hlists'.rows.trans h.lists.rows.symm, hnext, hsameKeys,
    fun column => ?_, _, hlists'⟩
  · rw [Table.load, hplain]
    exact hload
  · rw [hreaches.schema_eq]
    exact hacts
  · exact h.lists.lookups h.steady hlists' (hsteady.reaches hreaches) hsameKeys column

end Table

end RecordStore
