import RecordStore.Proofs.Table.Agreement

/-!
# Rows in canonical form

If the columns of a table have been described by mappings, everything that its rows hold is in the
canonical form of its column: what is accepted is brought into it, defaults have been checked, and
the next number of a column of numbers is a number.
-/

namespace RecordStore.Table

variable {table table' : Table}

/-- A value is in the canonical form of a column. -/
def CanonicalIn (column : Column) (v : Value) : Prop :=
  column.kind.isCanonical v = true

/-- Every row of a table is a record with a property. -/
def EachRecord (P : Record → Prop) (table : Table) : Prop :=
  ∀ entry ∈ table.rows, ∃ record, entry.2 = .record record ∧ P record

/-- A property of the records of a table is one of the records that it lists. -/
lemma eachRecord_iff {records : List (Int × Record)} {P : Record → Prop}
    (hrows : table.rows = rowsOf records) :
    table.EachRecord P ↔ ∀ entry ∈ records, P entry.2 := by
  rw [EachRecord, hrows, rowsOf, List.forall_mem_map]
  refine forall₂_congr fun entry _ => ?_
  simp

/-- Every row of a table is a record whose values are in canonical form. -/
def IsCanonical (table : Table) : Prop :=
  ∀ entry ∈ table.rows, ∃ record, entry.2 = .record record ∧ table.schema.Holds CanonicalIn record

/-- What a canonical record holds in a column is absent or in canonical form. -/
lemma isCanonical_value {schema : Schema} {record : Record} (h : schema.Holds CanonicalIn record)
    {c : Column} (hc : c ∈ schema.columns) :
    (record.value c.name).isNull = true ∨ c.kind.isCanonical (record.value c.name) = true := by
  rw [Record.value]
  cases hlookup : record.lookup c.name with
  | none => exact Or.inl rfl
  | some v => exact Or.inr (h c hc v hlookup)

/-- What a canonical record holds is a key where it has to be. -/
lemma keyIn_of_canonical {schema : Schema} {record : Record} (h : schema.Holds CanonicalIn record) :
    schema.Holds KeyIn record :=
  fun c hc v hv hkind => Value.isHashable_of_isPlain (Kind.isPlain_of_isCanonical hkind (h c hc v hv))

/-- The next number of a numbered column that has been described is in canonical form. -/
lemma IsCanonical.nextNumber (h : table.IsCanonical)
    (hschema : table.schema.Sound Column.Described) {c : Column} (hc : c ∈ table.schema.columns)
    (hnumbered : c.isNumbered = true) {v : Value} (hnext : table.nextNumber c.name = .ok v) :
    CanonicalIn c v := by
  have hkind := (hschema.each c hc).numbered hnumbered
  have hrows : ∀ entry ∈ table.rows, ∀ w, entry.2.value c.name = .ok w →
      w.isNull = true ∨ Kind.number.isCanonical w = true := by
    intro entry hentry w hw
    obtain ⟨record, hrecord, hholds⟩ := h entry hentry
    rw [hrecord] at hw
    obtain rfl : record.value c.name = w := by simpa [Row.value] using hw
    rw [← hkind]
    exact isCanonical_value hholds hc
  obtain ⟨numbers, -, -, hcanonical⟩ := nextNumber_eq_successor hrows hnext
  rw [CanonicalIn, hkind]
  exact hcanonical

/-- What a kind accepts it brings into canonical form. -/
lemma canonicalIn_of_accepts (c : Column) (v : Value) (h : c.kind.accepts v = .ok true) :
    CanonicalIn c (c.kind.coerce v) :=
  Kind.isCanonical_coerce h

/-- An admitted record is in canonical form. -/
lemma IsCanonical.holds_of_admits (h : table.IsCanonical)
    (hschema : table.schema.Sound Column.Described) {v : Value} {record : Record}
    (hadmits : table.Admits v record) : table.schema.Holds CanonicalIn record :=
  Table.holds_of_admits hschema canonicalIn_of_accepts
    (fun _ hc w hw => hc.canonical w hw)
    (fun _ hc hnumbered _ hnext => h.nextNumber hschema hc hnumbered hnext) hadmits

/-- The records of a prepared update are in canonical form. -/
lemma canonical_of_prepareUpdate {P : Column → Prop} (hschema : table.schema.Sound P)
    {conditions patch : Value} {staged : List (RowId × Record)}
    (hstaged : table.prepareUpdate conditions patch = .ok staged) :
    ∀ entry ∈ staged, table.schema.Holds CanonicalIn entry.2 :=
  Table.holds_of_prepareUpdate hschema canonicalIn_of_accepts hstaged

/-- Every row after rows have been replaced is an old one or one of the new ones. -/
lemma mem_rows_replacedAll {staged : List (RowId × Record)} {row : RowId × Row}
    (h : row ∈ (table.replacedAll staged).rows) :
    row ∈ table.rows ∨ ∃ entry ∈ staged, row.2 = .record entry.2 := by
  induction staged generalizing table with
  | nil => exact Or.inl h
  | cons entry rest ih =>
    rcases ih h with hold | ⟨later, hlater, hrow⟩
    · rcases Entries.mem_put hold with hold | ⟨hnew, -⟩
      · exact Or.inl hold
      · exact Or.inr ⟨entry, List.mem_cons_self, hnew⟩
    · exact Or.inr ⟨later, List.mem_cons_of_mem _ hlater, hrow⟩

/-- Every row after rows have been removed is an old one. -/
lemma mem_rows_removedAll {ids : List RowId} {row : RowId × Row}
    (h : row ∈ (table.removedAll ids).rows) : row ∈ table.rows := by
  induction ids generalizing table with
  | nil => exact h
  | cons id rest ih => exact (List.mem_filter.mp (ih h)).1

/-- A property of all that a step can store is kept by the step. -/
lemma Step.eachRecord {P : Record → Prop} (h : table.EachRecord P)
    (happend : ∀ v record, table.Admits v record → P record)
    (hreplace : ∀ conditions patch staged, table.prepareUpdate conditions patch = .ok staged →
      ∀ entry ∈ staged, P entry.2)
    (hstep : Step table table') : table'.EachRecord P := by
  cases hstep with
  | append hadmits =>
    intro entry hentry
    rcases Entries.mem_put hentry with hold | ⟨hnew, -⟩
    · exact h entry hold
    · exact ⟨_, hnew, happend _ _ hadmits⟩
  | replace hstaged =>
    intro row hrow
    rcases mem_rows_replacedAll hrow with hold | ⟨entry, hentry, hnew⟩
    · exact h row hold
    · exact ⟨entry.2, hnew, hreplace _ _ _ hstaged entry hentry⟩
  | remove _ _ => exact fun row hrow => h row (mem_rows_removedAll hrow)
  | _ => exact h

/-- A step keeps rows in canonical form. -/
theorem IsCanonical.step (h : table.IsCanonical)
    (hschema : table.schema.Sound Column.Described) (hstep : Step table table') :
    table'.IsCanonical := by
  rw [IsCanonical, hstep.schema_eq]
  exact hstep.eachRecord (P := table.schema.Holds CanonicalIn) h
    (fun _ _ hadmits => h.holds_of_admits hschema hadmits)
    fun _ _ _ hstaged => canonical_of_prepareUpdate hschema hstaged

/-- Steps keep rows in canonical form. -/
theorem IsCanonical.reaches (h : table.IsCanonical)
    (hschema : table.schema.Sound Column.Described) (hreaches : Reaches table table') :
    table'.IsCanonical := by
  induction hreaches with
  | refl => exact h
  | tail hmany hstep ih => exact ih.step (Reaches.schema_eq hmany ▸ hschema) hstep

/-! ## Every state -/

/-- What holds in every state of a table whose columns have been described by mappings. -/
structure Settled (table : Table) (records : List (Int × Record)) : Prop where
  /-- The columns have been checked. -/
  described : table.schema.Sound Column.Described
  /-- Changes that have been checked go through. -/
  steady : table.Steady
  /-- The rows are records in canonical form. -/
  canonical : table.IsCanonical
  /-- Every unique column has an index. -/
  indexed : table.KeyIndexed
  /-- The records are listed in order, and the indexes agree with them. -/
  lists : table.Lists records

/-- What holds in every state of a table holds after steps. -/
theorem Settled.reaches {records : List (Int × Record)} (h : table.Settled records)
    (hreaches : Reaches table table') : ∃ records', table'.Settled records' := by
  obtain ⟨records', hlists⟩ := h.lists.reaches h.steady hreaches
  exact ⟨records', Reaches.schema_eq hreaches ▸ h.described, h.steady.reaches hreaches,
    h.canonical.reaches h.described hreaches, h.indexed.reaches h.steady hreaches, hlists⟩

/-- What holds in every state of a table holds after requests, whatever their outcome. -/
theorem Settled.run {records : List (Int × Record)} (h : table.Settled records)
    (requests : List Request) : ∃ records', (table.run requests).Settled records' :=
  h.reaches (h.steady.reaches_run requests)

/-- What holds in every state of a table holds of one that has just been made, which lists
nothing. -/
theorem settled_of_create {source : SchemaSource} (hsource : source.IsDescribed)
    {schema : Schema} (hschema : Schema.ofSource source = .ok schema) {name directory : String}
    {created : Table} {effects : List Effect}
    (hcreate : Table.create name (.schema schema) directory = .ok (created, effects)) :
    created.Settled [] := by
  have hsound := hsource.sound hschema
  have hkeys := hsound.mono fun _ hc => hc.hasKeyDefault
  obtain ⟨hreaches, hsteady, hindexed, hlists⟩ := lists_of_create hkeys rfl hcreate
  refine ⟨Reaches.schema_eq hreaches ▸ hsound, hsteady, ?_, hindexed, hlists⟩
  exact IsCanonical.reaches (by simp [IsCanonical, empty]) hsound hreaches

/-- Every matching id has its record. -/
lemma Settled.recordAt_of_matching {records : List (Int × Record)} (h : table.Settled records)
    {conditions : Value} {targets : List RowId} (htargets : table.matching conditions = .ok targets) :
    ∀ id ∈ targets, ∃ record, table.recordAt id = .ok record := by
  obtain ⟨is, rfl, -, hids⟩ := h.lists.matching_eq_ok h.steady htargets
  intro id hid
  obtain ⟨i, hi, rfl⟩ := List.mem_map.mp hid
  exact h.lists.recordAt_eq (hids i hi)

/-- Every record of a settled table is in canonical form. -/
lemma Settled.holds {records : List (Int × Record)} (h : table.Settled records)
    {entry : Int × Record} (hentry : entry ∈ records) :
    table.schema.Holds CanonicalIn entry.2 :=
  (eachRecord_iff h.lists.rows).mp h.canonical entry hentry

/-- What a canonical record holds in a column that can be indexed can be a key and is a number, or
none at all. -/
lemma isHashable_value {schema : Schema} {record : Record} (h : schema.Holds CanonicalIn record)
    {c : Column} (hc : c ∈ schema.columns) (hkind : c.kind.isIndexable = true) :
    (record.value c.name).isHashable = true ∧ (record.value c.name).isNotNumber = false := by
  rcases isCanonical_value h hc with hnull | hcanonical
  · cases hvalue : record.value c.name <;> rw [hvalue] at hnull <;>
      first | exact ⟨rfl, rfl⟩ | cases hnull
  · have hplain := Kind.isPlain_of_isCanonical hkind hcanonical
    refine ⟨Value.isHashable_of_isPlain hplain, ?_⟩
    rw [Value.isPlain, Bool.and_eq_true, Bool.not_eq_true'] at hplain
    exact hplain.2

end RecordStore.Table
