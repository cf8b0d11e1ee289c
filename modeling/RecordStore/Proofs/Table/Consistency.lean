import RecordStore.Proofs.Table.Canonical

/-!
# Consistency of indexes and rows

In every state of a table whose columns have been described by mappings, what an index gives for a
key is the list of the ids, in ascending order, of the rows that hold a value equal to the key.
Buckets are not empty and only list ids of rows that are there, and every unique column has an
index.  Nothing that is not a number is ever held, so that a row is found under a key exactly if the
two are equal.
-/

namespace RecordStore.Table

variable {table : Table}

/-- The ids of the rows that hold a value equal to a given one in a column, in the order of the
rows. -/
def idsHolding (table : Table) (column v : Value) : List RowId :=
  (table.rows.filter fun entry => (entry.2.held column).equals v).map (·.1)

/-- The indexes of a table and its rows say the same. -/
structure Consistent (table : Table) : Prop where
  /-- The ids of the rows are ascending integers. -/
  ids : ∃ is : List Int, table.rows.map (·.1) = is.map .int ∧ is.Pairwise (· < ·)
  /-- An index gives for a key the ids of the rows that hold it. -/
  lookup : ∀ column index, table.index? column = some index → ∀ v, v.isHashable = true →
    v.isNull = false → index.lookup v = .ok (table.idsHolding column v)
  /-- No bucket is empty. -/
  filled : ∀ entry ∈ table.indexes, ∀ bucket ∈ entry.2.buckets, bucket.2 ≠ []
  /-- Every id in a bucket is the id of a row. -/
  live : ∀ entry ∈ table.indexes, ∀ bucket ∈ entry.2.buckets, ∀ id ∈ bucket.2,
    (table.row? id).isSome = true
  /-- Every unique column has an index. -/
  keyed : ∀ column ∈ table.schema.uniqueNames, (table.index? column).isSome = true

/-- The rows that hold a value equal to a key in an indexed column are those that hold the same as the
key. -/
lemma Settled.idsHolding_eq {records : List (Int × Record)} (h : table.Settled records)
    {column : Value} {index : Index} (hindex : table.index? column = some index) (v : Value) :
    table.idsHolding column v = (idsOf records index.column v).map .int := by
  obtain ⟨k, hmem, hhash, hsame⟩ := h.steady.named.index?_eq_some hindex
  obtain ⟨-, -, c, hc, hname, hkind⟩ := h.steady.indexes _ hmem
  have hindexhash := Value.isHashable_of_beq hhash hsame
  have hfilter : records.filter ((fun entry => (entry.2.held column).equals v) ∘
        fun entry : Int × Record => (Value.int entry.1, Row.record entry.2)) =
      records.filter fun entry => entry.2.value index.column == v := by
    refine List.filter_congr fun entry hentry => ?_
    change (entry.2.value column).equals v = _
    rw [value_congr hhash hsame]
    refine Value.equals_eq_beq ?_ v
    rw [value_congr hindexhash hname]
    exact (isHashable_value (h.holds hentry) hc hkind).2
  rw [idsHolding, h.lists.rows, rowsOf, List.filter_map, hfilter, List.map_map, idsOf,
    Entries.keys, List.map_map]
  rfl

/-- What holds in every state makes a table consistent. -/
theorem Settled.consistent {records : List (Int × Record)} (h : table.Settled records) :
    table.Consistent := by
  refine ⟨⟨Entries.keys records, ?_, h.lists.ascending⟩, ?_, ?_, ?_, ?_⟩
  · rw [h.lists.rows, map_fst_rowsOf]
  · intro column index hindex v hv hpresent
    obtain ⟨k, hmem, -, -⟩ := h.steady.named.index?_eq_some hindex
    rw [(h.lists.denotes _ hmem).regular.lookup_eq hv, h.lists.ids_eq hmem hv hpresent,
      h.idsHolding_eq hindex]
  · intro entry hentry bucket hbucket
    obtain ⟨is, his, -, hne⟩ := (h.lists.denotes entry hentry).regular.ascending bucket hbucket
    rw [his]
    simpa using hne
  · intro entry hentry bucket hbucket id hid
    have hregular := (h.lists.denotes entry hentry).regular
    have hhash := hregular.hashable bucket hbucket
    have hids : entry.2.ids bucket.1 = bucket.2 := by
      rw [Index.ids, Index.bucket?, hregular.distinct.lookup_eq_some hhash hbucket]
      rfl
    rw [← hids, h.lists.ids_eq hentry hhash (hregular.present bucket hbucket)] at hid
    obtain ⟨i, hi, rfl⟩ := List.mem_map.mp hid
    obtain ⟨⟨j, record⟩, hrecord, rfl⟩ := List.mem_map.mp hi
    rw [row?, h.lists.rows, lookup_rowsOf,
      Entries.lookup_eq_some_of_mem h.lists.nodup (List.mem_filter.mp hrecord).1]
    rfl
  · intro column hcolumn
    have hhash := isHashable_of_mem_uniqueNames h.described hcolumn
    rw [index?, ← Entries.has_eq_isSome_lookup hhash]
    exact h.indexed column hcolumn

/-- In every state of a table whose columns have been described by mappings, whatever has been asked
of it and with whatever outcome, the indexes and the rows say the same. -/
theorem consistent_run {source : SchemaSource} (hsource : source.IsDescribed) {schema : Schema}
    (hschema : Schema.ofSource source = .ok schema) {name directory : String} {created : Table}
    {effects : List Effect}
    (hcreate : Table.create name (.schema schema) directory = .ok (created, effects))
    (requests : List Request) : (created.run requests).Consistent := by
  obtain ⟨records, hsettled⟩ := (settled_of_create hsource hschema hcreate).run requests
  exact hsettled.consistent

/-- A table with a unique column of numbers and a column of texts is consistent after two insertions
and an update that fails because it would make two numbers the same. -/
theorem consistent_run_twoColumns : ∃ schema created effects,
    Schema.ofSource twoColumns = .ok schema ∧
      Table.create "t" (.schema schema) "d" = .ok (created, effects) ∧
      (created.run requestsOnTwo).Consistent :=
  ⟨_, _, _, rfl, rfl, consistent_run isDescribed_twoColumns rfl rfl requestsOnTwo⟩

end RecordStore.Table
