import RecordStore.Proofs.Schema.Accepted
import RecordStore.Proofs.Snapshot.Legible
import RecordStore.Proofs.Table.Loading
import RecordStore.Proofs.Table.Rows

/-!
# Loading what has been written

A tidy table whose files are on the disk can be loaded from them, if its schema and its records come
back.  The index file only names columns; the indexes on them are built again from the rows, which all
have keys, and those on unique columns are built even if the index file cannot be read.
-/

namespace RecordStore

open Snapshot (ObjectKeys ValueRestored restored)

/-- A schema that is built has columns that have been checked. -/
lemma Schema.Built.sound {schema : Schema} (h : schema.Built) : schema.Sound Column.Described := by
  induction h with
  | empty => exact Schema.sound_empty
  | added _ hcolumn hname hadd ih => exact ih.add hname hcolumn.described hadd

namespace Table

variable {table table' : Table} {P : Column → Prop} {column : Value}

/-! ## Building indexes -/

/-- A value names a column that can be indexed. -/
def NamesIndexable (schema : Schema) (column : Value) : Prop :=
  ∃ c ∈ schema.columns, c.name = column ∧ c.kind.isIndexable = true

/-- An index can be built on a column: it is one that can be indexed, and every row has a key in it. -/
structure CanIndex (table : Table) (column : Value) : Prop where
  names : NamesIndexable table.schema column
  rows : ∀ row ∈ table.rows, row.2.HasKey column

/-- Every row has a key in every column that can be indexed. -/
def HasKeys (table : Table) : Prop :=
  ∀ c ∈ table.schema.columns, c.kind.isIndexable = true → ∀ row ∈ table.rows, row.2.HasKey c.name

/-- If all rows have keys, an index can be built on every column that can be indexed. -/
lemma HasKeys.canIndex (h : table.HasKeys) {column : Value}
    (hcolumn : NamesIndexable table.schema column) : table.CanIndex column := by
  refine ⟨hcolumn, ?_⟩
  obtain ⟨c, hc, rfl, hkind⟩ := hcolumn
  exact h c hc hkind

/-- The rows of a settled table have keys. -/
lemma Settled.hasKeys {records : List (Int × Record)} (h : table.Settled records) :
    table.HasKeys := by
  intro c hc hkind row hrow
  rw [h.lists.rows] at hrow
  obtain ⟨entry, hentry, rfl⟩ := List.mem_map.mp hrow
  exact ⟨_, rfl, (isHashable_value (h.holds hentry) hc hkind).1⟩

/-- The names of unique columns that have been checked are those of columns that can be indexed. -/
lemma namesIndexable_of_unique {schema : Schema} (hschema : schema.Sound Column.Described)
    {column : Value} (hcolumn : column ∈ schema.uniqueNames) : NamesIndexable schema column := by
  obtain ⟨c, hc, rfl⟩ := List.mem_map.mp hcolumn
  obtain ⟨hc, hunique⟩ := List.mem_filter.mp hc
  exact ⟨c, hc, rfl, (hschema.each c hc).unique hunique⟩

/-- The name of a column that can be indexed passes the check. -/
lemma NamesIndexable.checkIndexable {schema : Schema} (h : NamesIndexable schema column)
    (hschema : schema.Sound P) : checkIndexable schema column = .ok () := by
  obtain ⟨c, hc, rfl, hkind⟩ := h
  rw [Table.checkIndexable, hschema.column?_eq hc]
  exact if_pos hkind

/-- An index is built on a column on which it can be. -/
lemma CanIndex.buildIndex (h : table.CanIndex column) (hschema : table.schema.Sound P) :
    ∃ index notice, table.buildIndex column = .ok (table.withIndex column index, notice) := by
  have hcheck := h.names.checkIndexable hschema
  obtain ⟨index, hindex⟩ : ∃ index, Index.ofRows column table.rows = .ok index :=
    ⟨_, Index.ofRows_eq_ok.mpr ⟨h.rows, rfl⟩⟩
  exact ⟨index, _, Outcome.seq_eq_ok.mpr ⟨(), hcheck, Outcome.seq_eq_ok.mpr ⟨index, hindex, rfl⟩⟩⟩

/-- Keys that are all different from each other. -/
abbrev KeysApart (keys : List Value) : Prop :=
  keys.Pairwise fun a b => (a == b) = false

/-- An index on a column without one comes last. -/
lemma keys_withIndex {rest : List Value}
    (h : KeysApart (Entries.keys table.indexes ++ column :: rest)) (index : Index) :
    Entries.keys (table.withIndex column index).indexes =
      Entries.keys table.indexes ++ [column] := by
  have hnew : Entries.has column table.indexes = false := by
    rw [Entries.has, List.any_eq_false]
    intro entry hentry
    have hapart := (List.pairwise_append.mp h).2.2 entry.1 (List.mem_map_of_mem hentry) column
      List.mem_cons_self
    exact Bool.eq_false_iff.mp hapart
  rw [withIndex, Entries.put_of_has_eq_false hnew]
  simp [Entries.keys]

/-- The indexes that a snapshot names are built, in order, if they can be. -/
lemma restoreIndexes_of_canIndex (hschema : table.schema.Sound P) {columns : List Value}
    (hcolumns : ∀ column ∈ columns, table.CanIndex column) (notices : List Notice) :
    ∃ notices' table', table.restoreIndexes notices columns = (notices', .ok table') ∧
      table.SameFiles table' ∧ table'.rows = table.rows ∧ table'.nextRowId = table.nextRowId ∧
      (KeysApart (Entries.keys table.indexes ++ columns) →
        Entries.keys table'.indexes = Entries.keys table.indexes ++ columns) := by
  induction columns generalizing table notices with
  | nil => exact ⟨notices, table, rfl, .refl table, rfl, rfl, fun _ => (List.append_nil _).symm⟩
  | cons column rest ih =>
    obtain ⟨hfirst, hrest⟩ := List.forall_mem_cons.mp hcolumns
    obtain ⟨index, notice, hbuilt⟩ := hfirst.buildIndex hschema
    have hschema' : (table.withIndex column index).schema.Sound P := hschema
    have hsame : table.SameFiles (table.withIndex column index) := ⟨rfl, rfl, rfl⟩
    obtain ⟨notices', done, hdone, hlater, hrows, hnext, hindexes⟩ :=
      ih hschema' (fun c hc => ⟨(hrest c hc).names, (hrest c hc).rows⟩) (notices ++ [notice])
    refine ⟨notices', done, ?_, hsame.trans hlater, hrows, hnext, fun hapart => ?_⟩
    · obtain ⟨⟨c, hc, rfl, -⟩, -⟩ := hfirst
      have hhas : table.schema.has c.name = true :=
        List.any_eq_true.mpr ⟨c, hc, Value.beq_self _⟩
      rw [restoreIndexes, hschema.hashable c hc, hhas, hbuilt]
      exact hdone
    · have hlast := keys_withIndex hapart index
      rw [hlast] at hindexes
      rw [hindexes (by rw [List.append_assoc]; exact hapart), List.append_assoc]
      rfl

/-- Indexes are built on columns if they can be. -/
lemma buildIndexes_of_canIndex (hschema : table.schema.Sound P) {columns : List Value}
    (hcolumns : ∀ column ∈ columns, table.CanIndex column) :
    ∃ table' notices, table.buildIndexes columns = .ok (table', notices) := by
  induction columns generalizing table with
  | nil => exact ⟨table, [], rfl⟩
  | cons column rest ih =>
    obtain ⟨hfirst, hrest⟩ := List.forall_mem_cons.mp hcolumns
    obtain ⟨index, notice, hbuilt⟩ := hfirst.buildIndex hschema
    have hschema' : (table.withIndex column index).schema.Sound P := hschema
    obtain ⟨done, notices, hdone⟩ :=
      ih hschema' fun c hc => ⟨(hrest c hc).names, (hrest c hc).rows⟩
    exact ⟨done, notice :: notices, Outcome.seq_eq_ok.mpr ⟨_, hbuilt, Outcome.seq_eq_ok.mpr
      ⟨_, hdone, rfl⟩⟩⟩

/-- Indexes that have been built on columns without one come last, in order. -/
lemma keys_buildIndexes {columns : List Value} {notices : List Notice}
    (h : table.buildIndexes columns = .ok (table', notices))
    (hapart : KeysApart (Entries.keys table.indexes ++ columns)) :
    Entries.keys table'.indexes = Entries.keys table.indexes ++ columns := by
  induction columns generalizing table notices with
  | nil =>
    cases h
    exact (List.append_nil _).symm
  | cons column rest ih =>
    obtain ⟨⟨built, notice⟩, hbuilt, h⟩ := Outcome.seq_eq_ok.mp h
    obtain ⟨⟨done, more⟩, hdone, h⟩ := Outcome.seq_eq_ok.mp h
    obtain ⟨rfl, -⟩ := Prod.mk.injEq .. ▸ Outcome.pure_eq_ok.mp h
    obtain ⟨⟨⟩, -, hbuilt⟩ := Outcome.seq_eq_ok.mp hbuilt
    obtain ⟨index, -, hbuilt⟩ := Outcome.seq_eq_ok.mp hbuilt
    obtain ⟨rfl, -⟩ := Prod.mk.injEq .. ▸ Outcome.pure_eq_ok.mp hbuilt
    have hlast := keys_withIndex hapart index
    have hrest := ih hdone (by
      change KeysApart (Entries.keys (table.withIndex column index).indexes ++ rest)
      rw [hlast, List.append_assoc]
      exact hapart)
    rw [hrest]
    change Entries.keys (table.withIndex column index).indexes ++ rest = _
    rw [hlast, List.append_assoc]
    rfl

/-- The unique columns that are not among some columns. -/
def uniqueBeside (schema : Schema) (columns : List Value) : List Value :=
  schema.uniqueNames.filter fun column => !columns.any (· == column)

/-- Names of unique columns that are not among some columns are different from them and from each
other. -/
lemma keysApart_uniqueBeside {schema : Schema} (hschema : schema.Sound P) {columns : List Value}
    (h : KeysApart columns) : KeysApart (columns ++ uniqueBeside schema columns) := by
  have hnames : KeysApart schema.uniqueNames :=
    List.pairwise_map.mpr (hschema.distinct.sublist List.filter_sublist)
  refine List.pairwise_append.mpr ⟨h, hnames.sublist List.filter_sublist, fun a ha b hb => ?_⟩
  have hbeside := (List.mem_filter.mp hb).2
  rw [Bool.not_eq_true', List.any_eq_false] at hbeside
  exact Bool.eq_false_iff.mpr (hbeside a ha)

/-- The indexes on unique columns are built that are not there, if they can be. -/
lemma ensureKeyIndexes_of_canIndex (hschema : table.schema.Sound P)
    (hunique : ∀ column ∈ table.schema.uniqueNames, table.CanIndex column) :
    ∃ table' notices, table.ensureKeyIndexes = .ok (table', notices) ∧
      (KeysApart (Entries.keys table.indexes) → Entries.keys table'.indexes =
        Entries.keys table.indexes ++ uniqueBeside table.schema (Entries.keys table.indexes)) := by
  have hbeside : (table.schema.uniqueNames.filter fun column =>
      !Entries.has column table.indexes) =
        uniqueBeside table.schema (Entries.keys table.indexes) :=
    List.filter_congr fun column _ => by rw [Entries.has_eq_any]
  obtain ⟨table', notices, hmade⟩ := buildIndexes_of_canIndex hschema
    fun column hcolumn => hunique column (List.mem_filter.mp hcolumn).1
  refine ⟨table', notices, hmade, fun hapart => ?_⟩
  rw [hbeside] at hmade
  exact keys_buildIndexes hmade (keysApart_uniqueBeside hschema hapart)

/-- The indexes of a table that is loaded can be built again, whether the index file can be read or not,
if those on the unique columns can be, and those on the columns that the file names.  If it can be read,
the columns that it names are indexed, and besides them the unique ones. -/
theorem loadIndexes_of_canIndex {disk : Disk} {columns : List Value}
    (hschema : table.schema.Sound P) (hnone : table.indexes = [])
    (hunique : ∀ column ∈ table.schema.uniqueNames, table.CanIndex column)
    (hcolumns : ∀ column ∈ columns, table.CanIndex column)
    (hread : (∃ path, disk.readSnapshot (indexPath table.directory table.name) =
        .error (.unreadable path)) ∨
      ∃ w, disk.readSnapshot (indexPath table.directory table.name) = .ok w ∧
        indexedColumns w = .ok columns) :
    ∃ notices table', table.loadIndexes disk = (notices, .ok table') ∧ table.SameFiles table' ∧
      table'.rows = table.rows ∧ table'.nextRowId = table.nextRowId ∧
        ((∃ w, disk.readSnapshot (indexPath table.directory table.name) = .ok w) →
          KeysApart columns →
            Entries.keys table'.indexes = columns ++ uniqueBeside table.schema columns) := by
  rcases hread with ⟨path, hread⟩ | ⟨w, hread, hnamed⟩
  · obtain ⟨made, notices, hmade, -⟩ := ensureKeyIndexes_of_canIndex hschema hunique
    obtain ⟨hsame, hrows, hnext⟩ := sameFiles_buildIndexes hmade
    refine ⟨[.indexUnreadable table.name (Fault.unreadable path).message] ++ notices, made, ?_, hsame,
      hrows, hnext, ?_⟩
    · rw [loadIndexes, hread]
      dsimp only
      rw [hmade]
    · rintro ⟨w, hw⟩
      rw [hread] at hw
      cases hw
  · obtain ⟨noted, built, hbuilt, hsame, hrows, hnext, hindexes⟩ :=
      restoreIndexes_of_canIndex hschema hcolumns []
    have hschema' : built.schema.Sound P := by
      rw [hsame.schema]
      exact hschema
    have hunique' : ∀ column ∈ built.schema.uniqueNames, built.CanIndex column := by
      intro column hcolumn
      rw [hsame.schema] at hcolumn
      refine ⟨?_, ?_⟩
      · rw [hsame.schema]
        exact (hunique column hcolumn).names
      · rw [hrows]
        exact (hunique column hcolumn).rows
    obtain ⟨made, notices, hmade, hkept⟩ := ensureKeyIndexes_of_canIndex hschema' hunique'
    obtain ⟨hsame', hrows', hnext'⟩ := sameFiles_buildIndexes hmade
    refine ⟨noted ++ notices, made, ?_, hsame.trans hsame', hrows'.trans hrows,
      hnext'.trans hnext, fun _ hapart => ?_⟩
    · rw [loadIndexes, hread]
      dsimp only
      rw [hnamed]
      dsimp only
      rw [hbuilt]
      dsimp only
      rw [hmade]
    · rw [hnone] at hindexes
      have hkeys : Entries.keys built.indexes = columns := hindexes hapart
      rw [hkeys, hsame.schema] at hkept
      exact hkept hapart

/-- If the unique columns are among some columns there are none beside them. -/
lemma uniqueBeside_eq_nil {schema : Schema} {columns : List Value}
    (h : ∀ column ∈ schema.uniqueNames, columns.any (· == column) = true) :
    uniqueBeside schema columns = [] := by
  refine List.filter_eq_nil_iff.mpr fun column hcolumn => ?_
  rw [h column hcolumn]
  exact Bool.false_ne_true

/-! ## The index file -/

variable {records records' : List (Int × Record)} {disk : Disk}

/-- The indexes of a steady table whose columns have texts for names are on names of columns that can be
indexed. -/
lemma Steady.namesIndexable (h : table.Steady)
    (hnamed : ∀ c ∈ table.schema.columns, ∃ s, c.name = .text s) :
    ∀ column ∈ Entries.keys table.indexes, NamesIndexable table.schema column := by
  intro column hcolumn
  obtain ⟨entry, hentry, rfl⟩ := List.mem_map.mp hcolumn
  obtain ⟨hhash, hsame, c, hc, hname, hkind⟩ := h.indexes entry hentry
  obtain ⟨s, hs⟩ := hnamed c hc
  have hentryhash : entry.1.isHashable = true := (Value.isHashable_congr hsame).trans hhash
  have hboth := Value.beq_trans hentryhash hsame hname
  rw [hs, Value.beq_comm hentryhash] at hboth
  exact ⟨c, hc, hs.trans (Snapshot.eq_text_of_same hboth).symm, hkind⟩

/-- The indexes of a tidy table are on names of columns that can be indexed. -/
lemma Tidy.namesIndexable (h : table.Tidy records) (hnamed : table.schema.IsPlainlyNamed) :
    ∀ column ∈ Entries.keys table.indexes, NamesIndexable table.schema column := by
  refine h.settled.steady.namesIndexable fun c hc => ?_
  obtain ⟨s, hs, -⟩ := hnamed c hc
  exact ⟨s, hs⟩

/-- A mapping of indexes names the columns that are its keys. -/
lemma indexedColumns_map (entries : List (Value × Value)) :
    indexedColumns (.map entries) = .ok (Entries.keys entries) := by
  cases entries with
  | nil => rfl
  | cons entry rest => rfl

/-- The columns of the indexes are the keys of what is written of them. -/
lemma keys_indexesValue (table : Table) :
    Entries.keys (table.indexes.map fun entry => (entry.1, entry.2.toValue)) =
      Entries.keys table.indexes := by
  rw [Entries.keys, List.map_map]
  rfl

/-- Names of columns are different from the marks in snapshots. -/
lemma Tidy.objectKeys_indexes (h : table.Tidy records) (hnamed : table.schema.IsPlainlyNamed) :
    ObjectKeys (table.indexes.map fun entry => (entry.1, entry.2.toValue)) := by
  have htext : ∀ entry ∈ table.indexes, ∃ s, entry.1 = .text s ∧ s ≠ Snapshot.timestampMark ∧
      s ≠ Snapshot.dateMark := by
    intro entry hentry
    obtain ⟨c, hc, hname, -⟩ := h.namesIndexable hnamed entry.1 (List.mem_map_of_mem hentry)
    rw [← hname]
    exact hnamed c hc
  refine ⟨?_, ?_, ?_⟩
  · intro entry hentry
    obtain ⟨old, hold, rfl⟩ := List.mem_map.mp hentry
    obtain ⟨s, hs, -⟩ := htext old hold
    exact ⟨s, hs⟩
  · exact List.pairwise_map.mpr h.distinct
  · intro entry hentry
    obtain ⟨old, hold, rfl⟩ := List.mem_map.mp hentry
    obtain ⟨s, hs, htimestamp, hdate⟩ := htext old hold
    dsimp only
    rw [hs]
    exact ⟨fun heq => htimestamp (Value.text.inj heq), fun heq => hdate (Value.text.inj heq)⟩

/-- The columns that the snapshot of the indexes names are those of the indexes, in order. -/
lemma Tidy.indexedColumns_of_restored (h : table.Tidy records)
    (hnamed : table.schema.IsPlainlyNamed) {w : Value}
    (hrestored : restored table.indexesValue = .ok w) :
    indexedColumns w = .ok (Entries.keys table.indexes) := by
  obtain ⟨entries, hentries, rfl⟩ :=
    (Snapshot.restored_object (h.objectKeys_indexes hnamed)).mp hrestored
  rw [indexedColumns_map, ← keys_indexesValue table]
  exact congrArg Except.ok (Snapshot.map_eq_of_forall₂ hentries fun _ _ _ hentry => hentry.1)

/-! ## The table that is loaded -/

/-- Columns that act alike have the same names and kinds. -/
lemma NamesIndexable.of_actsAs {schema schema' : Schema} (h : NamesIndexable schema column)
    (hcolumns : List.Forall₂ Column.ActsAs schema.columns schema'.columns) :
    NamesIndexable schema' column := by
  obtain ⟨c, hc, rfl, hkind⟩ := h
  obtain ⟨c', hc', hacts⟩ := Snapshot.exists_right_of_forall₂ hcolumns hc
  refine ⟨c', hc', hacts.name, ?_⟩
  rw [hacts.kind]
  exact hkind

/-- Columns that act alike are unique alike. -/
lemma uniqueNames_eq_of_actsAs {schema schema' : Schema}
    (hcolumns : List.Forall₂ Column.ActsAs schema.columns schema'.columns) :
    schema'.uniqueNames = schema.uniqueNames := by
  have hunique : List.Forall₂ Column.ActsAs (schema.columns.filter (·.isUnique))
      (schema'.columns.filter (·.isUnique)) := by
    refine List.rel_filter (fun old new hacts => ?_) hcolumns
    exact iff_of_eq (congrArg (· = true) hacts.unique.symm)
  exact Snapshot.map_eq_of_forall₂ hunique fun _ _ _ hacts => hacts.name

/-- A tidy table can be loaded from its files if its schema and its records have come back with the
same columns and with keys, whether its index file can be read or not.  If it can, the same columns
are indexed. -/
theorem StoredIn.load_eq (hstored : table.StoredIn disk) (h : table.Tidy records)
    (hnamed : table.schema.IsPlainlyNamed) {schema : Schema} (hbuilt : schema.Built)
    (hcolumns : List.Forall₂ Column.RestoredAs table.schema.columns schema.columns)
    (hrecords : RecordsRestored records records')
    (hkeys : (table.unindexed schema records').HasKeys)
    (hindexes : Snapshot.Legible table.indexesValue) :
    ∃ notices table', load table.name table.directory disk = (notices, .ok table') ∧
      Reaches (table.unindexed schema records') table' ∧
      table'.rows = rowsOf records' ∧ table'.nextRowId = table.nextRowId ∧
      ((∃ w, restored table.indexesValue = .ok w) →
        Entries.keys table'.indexes = Entries.keys table.indexes) := by
  have hsome : schema.columns ≠ [] := by
    intro hempty
    rw [hempty] at hcolumns
    exact h.columns (List.forall₂_nil_right_iff.mp hcolumns)
  have hobjects : ∀ entry ∈ records, ObjectKeys entry.2 := fun entry hentry =>
    hnamed.objectKeys h.built.sound (h.orders hentry)
  have hschema := Schema.restored_toValue h.built.sound h.built hnamed hcolumns
  have hrows := hstored.loadRows_eq h hobjects hschema hbuilt hsome hrecords
  have hfile := hstored.indexes.readSnapshot
  have hread : (∃ path, disk.readSnapshot (indexPath table.directory table.name) =
        .error (.unreadable path)) ∨
      ∃ w, disk.readSnapshot (indexPath table.directory table.name) = .ok w ∧
        indexedColumns w = .ok (Entries.keys table.indexes) := by
    rcases hindexes.cases with hbad | ⟨w, hw⟩
    · rw [hbad] at hfile
      exact Or.inl ⟨_, hfile⟩
    · rw [hw] at hfile
      exact Or.inr ⟨w, hfile, h.indexedColumns_of_restored hnamed hw⟩
  have hacts : List.Forall₂ Column.ActsAs table.schema.columns schema.columns :=
    hcolumns.imp fun _ _ hrestored => hrestored.actsAs
  have hindexable : ∀ column ∈ Entries.keys table.indexes,
      (table.unindexed schema records').CanIndex column :=
    fun column hcolumn => hkeys.canIndex ((h.namesIndexable hnamed column hcolumn).of_actsAs hacts)
  have hsound : (table.unindexed schema records').schema.Sound Column.Described := hbuilt.sound
  have hunique : ∀ column ∈ schema.uniqueNames, (table.unindexed schema records').CanIndex column :=
    fun column hcolumn => hkeys.canIndex (namesIndexable_of_unique hbuilt.sound hcolumn)
  obtain ⟨notices, table', hload, -, hrows', hnext, hsameKeys⟩ :=
    loadIndexes_of_canIndex hsound rfl hunique hindexable hread
  have hsteady : (table.unindexed schema records').Steady :=
    steady_of_unindexed (hsound.mono fun _ hc => hc.hasKeyDefault) rfl
  refine ⟨notices, table', ?_, (hsteady.loadIndexes_eq_ok hload).1, hrows', hnext, ?_⟩
  · rw [load, hrows]
    exact hload
  · rintro ⟨w, hw⟩
    rw [hw] at hfile
    rw [hsameKeys ⟨w, hfile⟩ (List.pairwise_map.mpr h.distinct)]
    have hnone : uniqueBeside schema (Entries.keys table.indexes) = [] := by
      refine uniqueBeside_eq_nil fun column hcolumn => ?_
      rw [uniqueNames_eq_of_actsAs hacts] at hcolumn
      rw [← Entries.has_eq_any]
      exact h.settled.indexed column hcolumn
    exact (congrArg (Entries.keys table.indexes ++ ·) hnone).trans (List.append_nil _)

end Table

end RecordStore
