import RecordStore.Proofs.Table.Reloading

/-!
# Tables that come back

If everything that a tidy table holds comes back equal from a snapshot, the whole table comes back from
its files: with its schema, its rows, the id of the next row, and indexes on the same columns that find
the same rows.
-/

namespace RecordStore

open Snapshot (ComesBackEqual Legible ObjectKeys ValueRestored restored)

namespace Table

variable {table table' : Table} {records records' : List (Int × Record)} {disk : Disk}

/-! ## The index file -/

/-- The key of a bucket is the same as something that a record holds in a column that can be
indexed. -/
lemma Tidy.exists_held (h : table.Tidy records) {entry : Value × Index}
    (hentry : entry ∈ table.indexes) {bucket : Value × List RowId}
    (hbucket : bucket ∈ entry.2.buckets) :
    ∃ other ∈ records, ∃ field ∈ other.2, field.2.identity?.isSome = true ∧
      (field.2 == bucket.1) = true := by
  have hdenotes := h.settled.lists.denotes entry hentry
  have hregular := hdenotes.regular
  obtain ⟨is, his, -, hsome⟩ := hregular.ascending bucket hbucket
  obtain ⟨i, hi⟩ := List.exists_mem_of_ne_nil is hsome
  have hids : Value.int i ∈ entry.2.ids bucket.1 := by
    have hfound : entry.2.buckets.lookup bucket.1 = some bucket.2 :=
      hregular.distinct.lookup_eq_some (hregular.hashable bucket hbucket) hbucket
    rw [Index.ids, Index.bucket?, hfound, Option.getD_some, his]
    exact List.mem_map_of_mem hi
  obtain ⟨w, ⟨record, hrecord, rfl, hpresent⟩, hsame⟩ :=
    (hdenotes.mem_ids i bucket.1 (hregular.hashable bucket hbucket)).mp hids
  obtain ⟨hhash, -, c, hc, hname, hkind⟩ := h.settled.steady.indexes entry hentry
  rw [value_congr hhash hname] at hpresent hsame
  have hplain : (record.value c.name).isPlain = true := by
    rcases isCanonical_value (h.settled.holds hrecord) hc with hnull | hcanonical
    · rw [hnull] at hpresent
      cases hpresent
    · exact Kind.isPlain_of_isCanonical hkind hcanonical
  rw [Value.isPlain, Bool.and_eq_true] at hplain
  cases hlookup : record.lookup c.name with
  | none =>
    rw [Record.value, hlookup] at hpresent
    cases hpresent
  | some v =>
    obtain ⟨k, hfield, -⟩ := Entries.mem_of_lookup_eq_some hlookup
    have hvalue : record.value c.name = v := by
      rw [Record.value, hlookup]
      rfl
    rw [hvalue] at hplain hsame
    exact ⟨(i, record), hrecord, (k, v), hfield, hplain.1, hsame⟩

/-- The index file of a tidy table can be read, or it is no text in the format. -/
lemma Tidy.legible_indexesValue (h : table.Tidy records) (hnamed : table.schema.IsPlainlyNamed) :
    Legible table.indexesValue := by
  refine Snapshot.legible_object (h.objectKeys_indexes hnamed) fun pair hpair => ?_
  obtain ⟨entry, hentry, rfl⟩ := List.mem_map.mp hpair
  refine Snapshot.legible_list fun item hitem => ?_
  obtain ⟨bucket, hbucket, rfl⟩ := List.mem_map.mp hitem
  obtain ⟨other, -, field, -, hscalar, hsame⟩ := h.exists_held hentry hbucket
  refine Snapshot.legible_list fun part hpart => ?_
  rcases List.mem_cons.mp hpart with rfl | hpart
  · exact Snapshot.legible_scalar (Snapshot.isSome_identity_of_same hscalar hsame)
  · obtain rfl := List.mem_singleton.mp hpart
    obtain ⟨is, his, -⟩ := (h.settled.lists.denotes entry hentry).regular.ascending bucket hbucket
    rw [his]
    refine Snapshot.legible_list fun id hid => ?_
    obtain ⟨i, -, rfl⟩ := List.mem_map.mp hid
    exact Snapshot.legible_scalar rfl

/-- The index file of a tidy table can be read if all values in the records come back. -/
lemma Tidy.isOk_indexesValue (h : table.Tidy records) (hnamed : table.schema.IsPlainlyNamed)
    (hvalues : ∀ entry ∈ records, ∀ field ∈ entry.2, restored field.2 = .ok field.2) :
    ∃ w, restored table.indexesValue = .ok w := by
  refine (Snapshot.isOk_restored_object (h.objectKeys_indexes hnamed)).mpr fun pair hpair => ?_
  obtain ⟨entry, hentry, rfl⟩ := List.mem_map.mp hpair
  refine Snapshot.isOk_restored_list.mpr fun item hitem => ?_
  obtain ⟨bucket, hbucket, rfl⟩ := List.mem_map.mp hitem
  obtain ⟨other, hother, field, hfield, hscalar, hsame⟩ := h.exists_held hentry hbucket
  refine Snapshot.isOk_restored_list.mpr fun part hpart => ?_
  rcases List.mem_cons.mp hpart with rfl | hpart
  · exact Snapshot.isOk_restored_of_same hscalar (hvalues other hother field hfield) hsame
  · obtain rfl := List.mem_singleton.mp hpart
    obtain ⟨is, his, -⟩ := (h.settled.lists.denotes entry hentry).regular.ascending bucket hbucket
    rw [his]
    refine Snapshot.isOk_restored_list.mpr fun id hid => ?_
    obtain ⟨i, -, rfl⟩ := List.mem_map.mp hid
    exact ⟨_, rfl⟩

/-! ## Tables that look the same -/

/-- Two tables look the same: they have the same schema, the same rows under the same ids in the same
order, and the same next id, and the indexes are on the same columns and find the same rows. -/
structure LooksLike (table table' : Table) : Prop where
  schema : table'.schema = table.schema
  rows : table'.rows = table.rows
  nextRowId : table'.nextRowId = table.nextRowId
  columns : Entries.keys table'.indexes = Entries.keys table.indexes
  lookups : ∀ column, Option.Rel (fun index index' => ∀ v, index'.lookup v = index.lookup v)
    (table.index? column) (table'.index? column)

/-- Tables that list the same records under indexes on the same columns find the same rows. -/
lemma Lists.lookups (h : table.Lists records) (hsteady : table.Steady)
    (h' : table'.Lists records) (hsteady' : table'.Steady)
    (hkeys : Entries.keys table'.indexes = Entries.keys table.indexes) (column : Value) :
    Option.Rel (fun index index' => ∀ v, index'.lookup v = index.lookup v)
      (table.index? column) (table'.index? column) := by
  refine Entries.rel_lookup hkeys fun index index' hindex hindex' v => ?_
  have hids : index'.ids v = index.ids v := by
    rw [h.ids_of_index? hsteady hindex, h'.ids_of_index? hsteady' hindex']
  rw [Index.lookup, Index.lookup, hids]

/-! ## Coming back from the files -/

/-- The fields of a row, if it is a record. -/
def fieldsOf : Row → Record
  | .record record => record
  | .other _ => []

/-- Everything that a table holds can be written and comes back equal. -/
structure ComesBack (table : Table) : Prop where
  /-- The names of the columns are texts, none of which is a mark of dates. -/
  named : table.schema.IsPlainlyNamed
  defaults : ∀ c ∈ table.schema.columns, ∀ v ∈ c.defaultValue, ComesBackEqual v
  references : ∀ c ∈ table.schema.columns, ComesBackEqual c.foreignKey
  values : ∀ row ∈ table.rows, ∀ field ∈ fieldsOf row.2, ComesBackEqual field.2

instance (table : Table) : Decidable table.ComesBack :=
  decidable_of_iff (table.schema.IsPlainlyNamed ∧
      (∀ c ∈ table.schema.columns, ∀ v ∈ c.defaultValue, ComesBackEqual v) ∧
      (∀ c ∈ table.schema.columns, ComesBackEqual c.foreignKey) ∧
      ∀ row ∈ table.rows, ∀ field ∈ fieldsOf row.2, ComesBackEqual field.2)
    ⟨fun ⟨hnamed, hdefaults, hreferences, hvalues⟩ => ⟨hnamed, hdefaults, hreferences, hvalues⟩,
      fun h => ⟨h.named, h.defaults, h.references, h.values⟩⟩

/-- A column whose default and reference come back equal comes back as itself. -/
lemma restoredAs_self {c : Column} (hdefault : ∀ v ∈ c.defaultValue, ComesBackEqual v)
    (hreference : ComesBackEqual c.foreignKey) : c.RestoredAs c := by
  refine ⟨rfl, rfl, rfl, rfl, rfl, rfl, ?_, (Snapshot.comesBackEqual_iff.mp hreference).1.2, rfl⟩
  cases hvalue : c.defaultValue with
  | none => exact .none
  | some v => exact .some (Snapshot.comesBackEqual_iff.mp (hdefault v hvalue)).1.2

/-- A tidy table whose files are on the disk and that holds only what comes back equal is loaded from
them as it is. -/
theorem StoredIn.looksLike_of_load (hstored : table.StoredIn disk) (h : table.Tidy records)
    (hback : table.ComesBack) :
    ∃ notices table', load table.name table.directory disk = (notices, .ok table') ∧
      table.LooksLike table' := by
  have hvalues : ∀ entry ∈ records, ∀ field ∈ entry.2, restored field.2 = .ok field.2 := by
    intro entry hentry field hfield
    have hvalue := hback.values _ (h.settled.lists.mem_rows hentry) field hfield
    exact (Snapshot.comesBackEqual_iff.mp hvalue).1.2
  have hrecords : RecordsRestored records records :=
    List.forall₂_same.mpr fun entry hentry =>
      ⟨rfl, List.forall₂_same.mpr fun field hfield => ⟨rfl, hvalues entry hentry field hfield⟩⟩
  have hcolumns : List.Forall₂ Column.RestoredAs table.schema.columns table.schema.columns :=
    List.forall₂_same.mpr fun c hc => restoredAs_self (hback.defaults c hc) (hback.references c hc)
  have hrows : (table.unindexed table.schema records).rows = table.rows := h.settled.lists.rows.symm
  have hkeys : (table.unindexed table.schema records).HasKeys := by
    rw [HasKeys, hrows]
    exact h.settled.hasKeys
  obtain ⟨notices, table', hload, hreaches, hrows', hnext, hsameKeys⟩ :=
    hstored.load_eq h hback.named h.built hcolumns hrecords hkeys
      (h.legible_indexesValue hback.named)
  have hsameKeys := hsameKeys (h.isOk_indexesValue hback.named hvalues)
  have hsteady : (table.unindexed table.schema records).Steady :=
    steady_of_unindexed (h.built.sound.mono fun _ hc => hc.hasKeyDefault) rfl
  have hlists := (h.settled.lists.numbers.unindexed table.schema rfl).lists rfl
  have hlists' := hlists.of_reaches hsteady hreaches hrows'
  refine ⟨notices, table', hload, hreaches.schema_eq, hrows'.trans h.settled.lists.rows.symm, hnext,
    hsameKeys, fun column => ?_⟩
  exact h.settled.lists.lookups h.settled.steady hlists' (hsteady.reaches hreaches) hsameKeys column

end Table

end RecordStore
