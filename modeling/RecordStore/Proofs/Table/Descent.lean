import RecordStore.Proofs.Snapshot.Marks
import RecordStore.Proofs.Table.Reloading

/-!
# Tables that descend from a schema

A table that has been made with a schema changes by requests, and now and then it is loaded again from
the schema and from the rows that some state of it has written.  Whatever the schema says, and also where
a request breaks off, the rows are records under ascending ids.  Loading keeps the ids and the id of the
next row, every record becomes what comes back of it, and the indexes are built again; so a table that
has been loaded is orderly, with indexes that agree with the rows, and so is one that has been made with
defaults that can be keys in the columns that can be indexed.

A record could only come back as a date, and not as a record, if a column were named by a mark.  But then
the schema could not be read either.
-/

namespace RecordStore

open Snapshot (IsPlainKey restored)

namespace Table

variable {schema : Schema} {table table' : Table} {records records' : List (Int × Record)}
  {disk : Disk} {notices : List Notice}

/-- A table descends from a schema: it was made with it, or goes back to one that was, by requests and
by being loaded from the schema and the rows of one of its states. -/
inductive Descends (schema : Schema) : Table → Prop where
  | created {name directory : String} {source : SchemaSource} {table : Table}
      {effects : List Effect} (h : Table.create name source directory = .ok (table, effects))
      (hschema : table.schema = schema) : Descends schema table
  | requested {table : Table} (h : Descends schema table) (request : Request) :
      Descends schema (table.reply request).table
  | loaded {written table : Table} {disk : Disk} {notices : List Notice}
      (h : Descends schema written)
      (hschema : disk.Stores (schemaPath written.directory written.name) schema.toValue)
      (hdata : disk.Stores (dataPath written.directory written.name) written.dataValue)
      (hload : load written.name written.directory disk = (notices, .ok table)) :
      Descends schema table

/-! ## Loading indexes -/

/-- Building the indexes that a snapshot names keeps the files and the rows of a table. -/
lemma sameFiles_restoreIndexes {columns : List Value} {noted : List Notice}
    (h : table.restoreIndexes noted columns = (notices, .ok table')) :
    table.SameFiles table' ∧ table'.rows = table.rows ∧ table'.nextRowId = table.nextRowId := by
  induction columns generalizing table noted with
  | nil =>
    cases h
    exact ⟨.refl _, rfl, rfl⟩
  | cons column rest ih =>
    rw [restoreIndexes] at h
    split at h
    · cases h
    · split at h
      · split at h
        · rename_i built notice hbuilt
          obtain ⟨hsame, hrows, hnext⟩ := sameFiles_buildIndex hbuilt
          obtain ⟨hsame', hrows', hnext'⟩ := ih h
          exact ⟨hsame.trans hsame', hrows'.trans hrows, hnext'.trans hnext⟩
        · cases h
      · exact ih h

/-- Building the indexes of a table that is loaded keeps the files and the rows. -/
lemma sameFiles_loadIndexes (h : table.loadIndexes disk = (notices, .ok table')) :
    table.SameFiles table' ∧ table'.rows = table.rows ∧ table'.nextRowId = table.nextRowId := by
  unfold loadIndexes at h
  dsimp only at h
  split at h
  · rename_i noted built hbuilt
    have hfirst : table.SameFiles built ∧ built.rows = table.rows ∧
        built.nextRowId = table.nextRowId := by
      split at hbuilt
      · split at hbuilt
        · exact sameFiles_restoreIndexes hbuilt
        · cases hbuilt
      · split at hbuilt
        · cases hbuilt
          exact ⟨.refl _, rfl, rfl⟩
        · cases hbuilt
    split at h
    · rename_i hensured
      cases h
      obtain ⟨hsame, hrows, hnext⟩ := sameFiles_buildIndexes hensured
      obtain ⟨hsame', hrows', hnext'⟩ := hfirst
      exact ⟨hsame'.trans hsame, hrows.trans hrows', hnext.trans hnext'⟩
    · cases h
  · cases h

/-- A table is loaded if its rows are, and then its indexes. -/
lemma load_eq_ok_iff {name directory : String} :
    load name directory disk = (notices, .ok table) ↔
      ∃ plain, loadRows name directory disk = .ok plain ∧
        plain.loadIndexes disk = (notices, .ok table) := by
  rw [load]
  cases loadRows name directory disk with
  | ok plain =>
    constructor
    · exact fun h => ⟨plain, rfl, h⟩
    · rintro ⟨other, hother, h⟩
      rwa [Except.ok.inj hother]
  | error fault =>
    constructor
    · intro h
      cases h
    · rintro ⟨other, hother, -⟩
      cases hother

/-! ## Numbered tables -/

/-- The rows are under ascending integers, all below the one that comes next. -/
def HasAscendingIds (table : Table) : Prop :=
  ∃ (ids : List Int) (next : Int), table.rows.map (·.1) = ids.map .int ∧ ids.Pairwise (· < ·) ∧
    table.nextRowId = .whole next ∧ ∀ i ∈ ids, i < next

/-- A table that numbers records has them under ascending ids. -/
lemma Numbers.hasAscendingIds (h : table.Numbers records) : table.HasAscendingIds := by
  obtain ⟨next, hnext, hbelow⟩ := h.next
  refine ⟨Entries.keys records, next, ?_, h.ascending, hnext, hbelow⟩
  rw [h.rows]
  exact map_fst_rowsOf records

/-- If a schema can be read, no key of a record is written as a mark. -/
def PlainIfRead (schema : Schema) (record : Record) : Prop :=
  (∃ v, restored schema.toValue = .ok v) → ∀ key ∈ Entries.keys record, IsPlainKey key

/-- A table that descends from a schema has records for rows, under ascending ids, whatever has become of
its indexes. -/
structure Numbered (schema : Schema) (table : Table) : Prop where
  ids : table.HasAscendingIds
  /-- Ids start at one. -/
  counts : table.CountsFromOne
  /-- The schema of the table is the one that it descends from, or has been read from the description
  of that. -/
  origin : table.schema = schema ∨
    ∃ v, restored schema.toValue = .ok v ∧ Schema.ofValue v = .ok table.schema
  /-- The rows are records whose keys are not written as marks. -/
  records : table.EachRecord (PlainIfRead schema)

/-- Rows that are records under integers are the rows of records. -/
lemma exists_rowsOf {P : Record → Prop} {rows : List (RowId × Row)} {ids : List Int}
    (hids : rows.map (·.1) = ids.map .int)
    (hrows : ∀ entry ∈ rows, ∃ record, entry.2 = .record record ∧ P record) :
    ∃ records, rows = rowsOf records ∧ Entries.keys records = ids ∧
      ∀ entry ∈ records, P entry.2 := by
  induction rows generalizing ids with
  | nil =>
    obtain rfl : ids = [] := by simpa using hids.symm
    exact ⟨[], rfl, rfl, fun entry hentry => by (cases hentry)⟩
  | cons entry rest ih =>
    obtain ⟨id, row⟩ := entry
    obtain ⟨i, is, rfl, hi, his⟩ := List.map_eq_cons_iff.mp hids.symm
    obtain ⟨⟨record, hrecord, hP⟩, hrest⟩ := List.forall_mem_cons.mp hrows
    obtain ⟨records, rfl, rfl, hall⟩ := ih his.symm hrest
    obtain rfl : Value.int i = id := hi
    dsimp only at hrecord
    subst hrecord
    exact ⟨(i, record) :: records, rfl, rfl, List.forall_mem_cons.mpr ⟨hP, hall⟩⟩

namespace Numbered

/-- A numbered table has records for rows. -/
lemma exists_numbers (h : table.Numbered schema) : ∃ records, table.Numbers records := by
  obtain ⟨ids, next, hids, hascending, hnext, hbelow⟩ := h.ids
  obtain ⟨records, hrows, rfl, -⟩ := exists_rowsOf hids h.records
  exact ⟨records, hrows, hascending, next, hnext, hbelow⟩

/-- The records of a numbered table have no keys that are written as marks, if the schema can be read. -/
lemma plain (h : table.Numbered schema) (hnumbers : table.Numbers records) {entry : Int × Record}
    (hentry : entry ∈ records) : PlainIfRead schema entry.2 := by
  have hrow : (Value.int entry.1, Row.record entry.2) ∈ table.rows := by
    rw [hnumbers.rows]
    exact List.mem_map_of_mem hentry
  obtain ⟨record, hrecord, hplain⟩ := h.records _ hrow
  obtain rfl := Row.record.inj hrecord
  exact hplain

/-- If the schema can be read, no column is named by a mark. -/
lemma isUnmarked (h : table.Numbered schema) (hread : ∃ v, restored schema.toValue = .ok v) :
    table.schema.IsUnmarked := by
  rcases h.origin with heq | ⟨v, hv, hschema⟩
  · obtain ⟨v, hv⟩ := hread
    rw [heq]
    exact Schema.isUnmarked_of_restored hv
  · exact Schema.isUnmarked_of_ofValue hv hschema

/-- A record in the order of the columns has no keys that are written as marks, if the schema can be
read. -/
lemma plain_of_orders (h : table.Numbered schema) {record : Record}
    (horders : table.schema.Orders record) : PlainIfRead schema record :=
  fun hread key hkey => h.isUnmarked hread key (horders.subset hkey)

/-- Whether a table is numbered does not depend on its indexes. -/
lemma congr (h : table.Numbered schema) (hschema : table'.schema = table.schema)
    (hrows : table'.rows = table.rows) (hnext : table'.nextRowId = table.nextRowId) :
    table'.Numbered schema := by
  refine ⟨?_, ?_, ?_, ?_⟩
  · rw [HasAscendingIds, hrows, hnext]
    exact h.ids
  · rw [CountsFromOne, hnext]
    exact h.counts
  · rw [hschema]
    exact h.origin
  · rw [EachRecord, hrows]
    exact h.records

/-- Putting a record in the place of a row keeps a table numbered. -/
lemma withRow (h : table.Numbered schema) {id : RowId} (hid : Entries.has id table.rows = true)
    {record : Record} (hrecord : PlainIfRead schema record) :
    (table.withRow id (.record record)).Numbered schema := by
  refine ⟨?_, h.counts, h.origin, fun entry hentry => ?_⟩
  · have hkeys : (table.withRow id (.record record)).rows.map (·.1) = table.rows.map (·.1) :=
      Entries.keys_put_of_has hid _
    rw [HasAscendingIds, hkeys]
    exact h.ids
  · rcases Entries.mem_put hentry with hold | ⟨hnew, -⟩
    · exact h.records entry hold
    · exact ⟨record, hnew, hrecord⟩

/-- Removing a row keeps a table numbered. -/
lemma withoutRow (h : table.Numbered schema) (id : RowId) :
    (table.withoutRow id).Numbered schema := by
  obtain ⟨ids, next, hids, hascending, hnext, hbelow⟩ := h.ids
  have hsub : ((table.withoutRow id).rows.map (·.1)).Sublist (table.rows.map (·.1)) :=
    List.filter_sublist.map _
  rw [hids] at hsub
  obtain ⟨left, hleft, heq⟩ := List.sublist_map_iff.mp hsub
  refine ⟨⟨left, next, heq, hascending.sublist hleft, hnext, fun i hi => hbelow i (hleft.subset hi)⟩,
    h.counts, h.origin, fun entry hentry => ?_⟩
  exact h.records entry (List.mem_filter.mp hentry).1

/-- No row stands under an id that is above those of the rows. -/
lemma has_eq_false_of_lt {rows : List (RowId × Row)} {ids : List Int} {next : Int}
    (hids : rows.map (·.1) = ids.map .int) (hbelow : ∀ i ∈ ids, i < next) :
    Entries.has (.int next) rows = false := by
  rw [Entries.has_eq_any, Entries.keys, hids, List.any_map, List.any_eq_false]
  intro i hi hsame
  have hlt := hbelow i hi
  have heq := of_decide_eq_true ((Value.int_beq_int i next).symm.trans hsame)
  omega

/-- Putting a record under the next id keeps a table numbered. -/
lemma withNext (h : table.Numbered schema) {record : Record} (hrecord : PlainIfRead schema record) :
    ({ table with nextRowId := table.nextRowId.successor }.withRow
      (.ofNumber table.nextRowId) (.record record)).Numbered schema := by
  obtain ⟨ids, next, hids, hascending, hnext, hbelow⟩ := h.ids
  obtain ⟨next', hnext', hone⟩ := h.counts
  obtain rfl : next = next' := Number.whole.inj (hnext.symm.trans hnext')
  have hrows : ({ table with nextRowId := table.nextRowId.successor }.withRow
      (.ofNumber table.nextRowId) (.record record)).rows =
        table.rows ++ [(.int next, .record record)] := by
    rw [hnext]
    exact Entries.put_of_has_eq_false (has_eq_false_of_lt hids hbelow) _
  have hsucc : table.nextRowId.successor = .whole (next + 1) := by
    rw [hnext]
    rfl
  refine ⟨⟨ids ++ [next], next + 1, ?_, ?_, hsucc, ?_⟩, ⟨next + 1, hsucc, by omega⟩, h.origin,
    fun entry hentry => ?_⟩
  · rw [hrows, List.map_append, List.map_append, hids]
    rfl
  · refine List.pairwise_append.mpr ⟨hascending, List.pairwise_singleton _ _, fun i hi j hj => ?_⟩
    rw [List.mem_singleton.mp hj]
    exact hbelow i hi
  · intro i hi
    rcases List.mem_append.mp hi with hold | hnew
    · have := hbelow i hold
      omega
    · rw [List.mem_singleton.mp hnew]
      omega
  · rw [hrows] at hentry
    rcases List.mem_append.mp hentry with hold | hnew
    · exact h.records entry hold
    · rw [List.mem_singleton.mp hnew]
      exact ⟨record, rfl, hrecord⟩

/-- Appending a record keeps a table numbered, also if an index refuses it. -/
lemma append (h : table.Numbered schema) {record : Record} (hrecord : PlainIfRead schema record) :
    (table.append record).table.Numbered schema := by
  rw [Table.append]
  split
  · rename_i hindexed
    obtain rfl := congrArg Prod.fst hindexed
    exact (h.withNext hrecord).congr rfl rfl rfl
  · rename_i hindexed
    obtain rfl := congrArg Prod.fst hindexed
    exact (h.withNext hrecord).congr rfl rfl rfl

/-- Replacing rows keeps a table numbered, also if it breaks off. -/
lemma replaceRows {staged : List (RowId × Record)} (h : table.Numbered schema)
    (hstaged : ∀ entry ∈ staged, Entries.has entry.1 table.rows = true ∧
      PlainIfRead schema entry.2) : (table.replaceRows staged).1.Numbered schema := by
  induction staged generalizing table with
  | nil => exact h
  | cons entry rest ih =>
    obtain ⟨id, record⟩ := entry
    obtain ⟨⟨hid, hrecord⟩, hrest⟩ := List.forall_mem_cons.mp hstaged
    rw [Table.replaceRows]
    split
    · rename_i hleft
      obtain rfl := congrArg Prod.fst hleft
      exact h.congr rfl rfl rfl
    · rename_i left hleft
      obtain rfl := congrArg Prod.fst hleft
      have hunindexed : (table.unindexRow id ((table.row? id).getD (.record []))).1.Numbered schema :=
        h.congr rfl rfl rfl
      have hput := hunindexed.withRow hid hrecord
      split
      · rename_i hentered
        obtain rfl := congrArg Prod.fst hentered
        exact hput.congr rfl rfl rfl
      · rename_i hentered
        obtain rfl := congrArg Prod.fst hentered
        refine ih (hput.congr rfl rfl rfl) fun entry hentry => ⟨?_, (hrest entry hentry).2⟩
        exact (Entries.has_congr (Entries.keys_put_of_has hid _) entry.1).trans (hrest entry hentry).1

/-- Removing rows keeps a table numbered, also if it breaks off. -/
lemma removeRows {ids : List RowId} (h : table.Numbered schema) :
    (table.removeRows ids).1.Numbered schema := by
  induction ids generalizing table with
  | nil => exact h
  | cons id rest ih =>
    rw [Table.removeRows]
    split
    · exact h
    · rename_i row _
      have hleft : ((table.withoutRow id).unindexRow id row).1.Numbered schema :=
        (h.withoutRow id).congr rfl rfl rfl
      split
      · rename_i hremoved
        obtain rfl := congrArg Prod.fst hremoved
        exact hleft
      · rename_i hremoved
        obtain rfl := congrArg Prod.fst hremoved
        exact ih hleft

/-- A row that is found under an id is there. -/
lemma has_of_recordAt (h : table.Numbered schema) {id : RowId} {record : Record}
    (hrecord : table.recordAt id = .ok record) : Entries.has id table.rows = true := by
  obtain ⟨records, hnumbers⟩ := h.exists_numbers
  obtain ⟨row, hrow, -⟩ := Outcome.bind_eq_ok.mp hrecord
  rw [rowAt] at hrow
  split at hrow
  · rename_i found hfound
    obtain ⟨k, hmem, hsame⟩ := Entries.mem_of_lookup_eq_some hfound
    refine List.any_eq_true.mpr ⟨_, hmem, ?_⟩
    rw [hnumbers.rows] at hmem
    obtain ⟨entry, -, heq⟩ := List.mem_map.mp hmem
    obtain rfl : Value.int entry.1 = k := congrArg Prod.fst heq
    rwa [Value.beq_comm rfl]
  · cases hrow

/-- A request keeps a table numbered, whatever comes of it. -/
theorem reply (h : table.Numbered schema) (request : Request) :
    (table.reply request).table.Numbered schema := by
  cases request with
  | insert v =>
    change (table.insert v).table.Numbered schema
    rw [insert]
    split
    · rename_i record hadmitted
      exact h.append (h.plain_of_orders (orders_of_admits (Outcome.bind_eq_ok.mp hadmitted)))
    · exact h
  | update conditions patch =>
    change (table.update conditions patch).table.Numbered schema
    unfold update
    split
    · exact h
    · exact h
    · rename_i staged _ hstaged
      have hdone : (table.replaceRows staged).1.Numbered schema := by
        refine h.replaceRows fun entry hentry => ⟨?_, ?_⟩
        · rcases prepareUpdate_eq_ok hstaged with rfl | ⟨targets, changes, -, -, -, -, hstage, -⟩
          · cases hentry
          · obtain ⟨old, -, hold, -⟩ := (stage_eq_ok_iff.mp hstage).2 entry hentry
            exact h.has_of_recordAt hold
        · exact h.plain_of_orders (orders_of_prepareUpdate hstaged entry hentry)
      split
      · rename_i hreplaced
        rwa [hreplaced] at hdone
      · rename_i hreplaced
        rwa [hreplaced] at hdone
  | delete conditions =>
    change (table.delete conditions).table.Numbered schema
    unfold delete
    split
    · exact h
    · exact h
    · rename_i targets _ _
      have hdone : (table.removeRows targets).1.Numbered schema := h.removeRows
      split
      · rename_i hremoved
        rwa [hremoved] at hdone
      · rename_i hremoved
        rwa [hremoved] at hdone
  | createIndex column =>
    obtain ⟨hrows, hnext⟩ := rows_createIndex table column
    exact h.congr (mem_filePaths_of_saves (saves_createIndex table column)).1.schema hrows hnext
  | rebuildIndex column =>
    obtain ⟨hrows, hnext⟩ := rows_rebuildIndex table column
    exact h.congr (mem_filePaths_of_saves (saves_rebuildIndex table column)).1.schema hrows hnext
  | dropIndex column =>
    obtain ⟨hrows, hnext⟩ := rows_dropIndex table column
    exact h.congr (mem_filePaths_of_saves (saves_dropIndex table column)).1.schema hrows hnext

/-- A new table is numbered. -/
theorem of_create {name directory : String} {source : SchemaSource} {effects : List Effect}
    (h : Table.create name source directory = .ok (table, effects)) :
    table.Numbered table.schema := by
  obtain ⟨-, -, hrows, hnext, -⟩ := effects_of_create h
  refine ⟨⟨[], 1, ?_, List.Pairwise.nil, hnext, fun i hi => by (cases hi)⟩, ⟨1, hnext, le_refl 1⟩,
    Or.inl rfl, fun entry hentry => ?_⟩
  · rw [hrows]
    rfl
  · rw [hrows] at hentry
    cases hentry

end Numbered

/-! ## Orderly tables -/

/-- A table that descends from a schema lists records in order, under indexes that agree with them. -/
structure Orderly (schema : Schema) (table : Table) (records : List (Int × Record)) : Prop where
  numbered : table.Numbered schema
  /-- Changes that have been checked go through. -/
  steady : table.Steady
  /-- The records are listed in order, and the indexes agree with them. -/
  lists : table.Lists records
  /-- Every unique column has an index. -/
  indexed : table.KeyIndexed
  /-- No column has two indexes. -/
  distinct : Entries.Distinct table.indexes

/-- A request keeps a table orderly. -/
theorem Orderly.reply (h : table.Orderly schema records) (request : Request) :
    ∃ records', (table.reply request).table.Orderly schema records' := by
  have hstep := h.steady.step_reply request
  obtain ⟨records', hlists⟩ := h.lists.step h.steady hstep
  exact ⟨records', h.numbered.reply request, h.steady.step hstep, hlists,
    h.indexed.step h.steady.schema hstep, hstep.distinct h.distinct⟩

/-- A new table is orderly and lists no records, if the defaults of columns that can be indexed can be
keys. -/
theorem Orderly.of_create {name directory : String} {source : SchemaSource} {effects : List Effect}
    (hsound : table.schema.Sound Column.HasKeyDefault)
    (h : Table.create name source directory = .ok (table, effects)) :
    table.Orderly table.schema [] := by
  obtain ⟨-, -, -, -, hsource, -⟩ := effects_of_create h
  obtain ⟨hreaches, hsteady, hindexed, hlists⟩ := lists_of_create hsound hsource h
  have hdistinct : Entries.Distinct (empty name table.schema directory).indexes := List.Pairwise.nil
  exact ⟨.of_create h, hsteady, hlists, hindexed, hreaches.distinct hdistinct⟩

/-- Records whose keys are not written as marks come back as records. -/
lemma exists_asValues {found : List (Int × Value)}
    (hplain : ∀ entry ∈ records, ∀ key ∈ Entries.keys entry.2, IsPlainKey key)
    (hfound : RowsFound records found) : ∃ records', asValues records' = found := by
  induction hfound with
  | nil => exact ⟨[], rfl⟩
  | @cons entry value records found hvalue _ ih =>
    obtain ⟨hfirst, hrest⟩ := List.forall_mem_cons.mp hplain
    obtain ⟨others, rfl⟩ := ih hrest
    obtain ⟨record, hrecord⟩ := Snapshot.exists_map_of_restored hfirst hvalue.2
    exact ⟨(value.1, record) :: others, by rw [asValues, List.map_cons, ← hrecord, ← asValues]⟩

/-- Records that have come back are under the same ids. -/
lemma keys_eq_of_rowsFound (h : RowsFound records (asValues records')) :
    Entries.keys records' = Entries.keys records := by
  rw [← h.keys_eq, asValues, Entries.keys, Entries.keys, List.map_map]
  rfl

/-- A table that is loaded from the schema and from the rows of a numbered one is orderly, with what has
come back of the records under the same ids and with the same next id. -/
theorem Numbered.load (h : table.Numbered schema) (hnumbers : table.Numbers records)
    (hschema : disk.Stores (schemaPath table.directory table.name) schema.toValue)
    (hdata : disk.Stores (dataPath table.directory table.name) table.dataValue)
    (hload : Table.load table.name table.directory disk = (notices, .ok table')) :
    ∃ records', table'.Orderly schema records' ∧ RowsFound records (asValues records') ∧
      table'.nextRowId = table.nextRowId ∧ table'.name = table.name ∧
        table'.directory = table.directory := by
  obtain ⟨plain, hplain, hindexes⟩ := load_eq_ok_iff.mp hload
  obtain ⟨v, schema', data, rows, next, hv, -, hschema', hread, hrows, rfl⟩ :=
    loadRows_eq_ok_iff.mp hplain
  have hrestored := hschema.restored_eq_ok hv
  obtain ⟨next', found, hnext, hfound, rfl⟩ :=
    (hnumbers.restored_dataValue_eq_ok h.counts hdata.complete).mp (hdata.restored_eq_ok hread)
  obtain ⟨records', rfl⟩ :=
    exists_asValues (fun _ hentry => h.plain hnumbers hentry ⟨v, hrestored⟩) hfound
  rw [hnumbers.rowsOfValue_eq h.counts hdata.complete hnext hfound] at hrows
  obtain ⟨rfl, rfl⟩ := Prod.mk.inj (Except.ok.inj hrows)
  rw [asRows_asValues] at hindexes
  -- the indexes are built on the rows that have been loaded, in steps
  have hsound : schema'.Sound Column.HasKeyDefault :=
    (Schema.sound_ofValue hschema').mono fun _ hc => hc.hasKeyDefault
  have hsteady : (table.unindexed schema' records').Steady := steady_of_unindexed hsound rfl
  have hnumbers' := hnumbers.unindexed schema' (keys_eq_of_rowsFound hfound)
  have hdistinct : Entries.Distinct (table.unindexed schema' records').indexes := List.Pairwise.nil
  obtain ⟨hreaches, hindexed⟩ := hsteady.loadIndexes_eq_ok hindexes
  obtain ⟨hsame, hrows', hnext'⟩ := sameFiles_loadIndexes hindexes
  have hlists' := (hnumbers'.lists rfl).of_reaches hsteady hreaches hrows'
  refine ⟨records', ⟨⟨hlists'.numbers.hasAscendingIds, ?_, Or.inr ⟨v, hrestored, ?_⟩,
    fun entry hentry => ?_⟩, hsteady.reaches hreaches, hlists', hindexed, hreaches.distinct hdistinct⟩,
    hfound, hnext', hsame.name, hsame.directory⟩
  · rw [CountsFromOne, hnext']
    exact h.counts
  · rw [hsame.schema]
    exact hschema'
  · rw [hlists'.rows] at hentry
    obtain ⟨entry', hentry', rfl⟩ := List.mem_map.mp hentry
    refine ⟨entry'.2, rfl, fun _ => ?_⟩
    have hmem : (entry'.1, Value.map entry'.2) ∈ asValues records' := List.mem_map_of_mem hentry'
    obtain ⟨entry, -, -, hback⟩ := Snapshot.exists_left_of_forall₂ hfound hmem
    exact (Snapshot.isPlainKey_of_restored hback).2

/-! ## Tables that descend from a schema -/

/-- Every table that descends from a schema is numbered. -/
theorem Descends.numbered (h : Descends schema table) : table.Numbered schema := by
  induction h with
  | created h hschema => exact hschema ▸ .of_create h
  | requested _ request ih => exact ih.reply request
  | loaded _ hschema hdata hload ih =>
    obtain ⟨records, hnumbers⟩ := ih.exists_numbers
    obtain ⟨records', horderly, -⟩ := ih.load hnumbers hschema hdata hload
    exact horderly.numbered

/-- Every table that descends from a schema is orderly if the defaults of columns that can be indexed
can be keys. -/
theorem Descends.orderly (h : Descends schema table)
    (hsound : table.schema.Sound Column.HasKeyDefault) :
    ∃ records, table.Orderly schema records := by
  induction h with
  | created h hschema => exact ⟨[], hschema ▸ .of_create hsound h⟩
  | @requested table _ request ih =>
    rw [(mem_filePaths_of_saves (saves_reply table request)).1.schema] at hsound
    obtain ⟨records, horderly⟩ := ih hsound
    exact horderly.reply request
  | loaded hwritten hschema hdata hload _ =>
    obtain ⟨records, hnumbers⟩ := hwritten.numbered.exists_numbers
    obtain ⟨records', horderly, -⟩ := hwritten.numbered.load hnumbers hschema hdata hload
    exact ⟨records', horderly⟩

end Table

end RecordStore
