import RecordStore.Proofs.Schema.Description
import RecordStore.Proofs.Table.Canonical

/-!
# Tidy tables

What a table has to be, besides settled, to be put together again from what is written of it: its
schema is built from columns in canonical form, every record lists columns in the order of the schema,
ids start at one, and no column has two indexes.  A table that is made from descriptions is tidy, and
every step keeps it so.
-/

namespace RecordStore

open Snapshot (ObjectKeys)

/-! ## Records in the order of the columns -/

/-- The columns of a record are some of those of a schema, in order. -/
def Schema.Orders (schema : Schema) (record : Record) : Prop :=
  (Entries.keys record).Sublist schema.names

namespace Schema

variable {isTaken : TakenTest} {updating : Bool} {valueOf : Value → Value} {schema : Schema}

/-- A checked record is in the order of the columns. -/
lemma sublist_of_checkColumns {columns : List Column} {record : Record} {broken : List Violation}
    (h : checkColumns isTaken updating valueOf columns = .ok (record, broken)) :
    (Entries.keys record).Sublist (columns.map (·.name)) := by
  induction columns generalizing record broken with
  | nil =>
    cases h
    exact List.Sublist.refl _
  | cons column rest ih =>
    obtain ⟨verdict, -, h⟩ := Outcome.seq_eq_ok.mp h
    obtain ⟨own, -, h⟩ := Outcome.seq_eq_ok.mp h
    obtain ⟨⟨others, violations⟩, hrest, h⟩ := Outcome.seq_eq_ok.mp h
    cases h
    have hown : (Entries.keys (verdict.entries column.name)).Sublist [column.name] := by
      cases verdict <;> first | exact List.Sublist.refl _ | exact List.nil_sublist _
    have hkeys : Entries.keys (verdict.entries column.name ++ others) =
        Entries.keys (verdict.entries column.name) ++ Entries.keys others := List.map_append
    rw [hkeys]
    exact hown.append (ih hrest)

/-- A validated record is in the order of the columns. -/
lemma orders_of_validate {given record : Record}
    (h : schema.validate isTaken updating given = .ok record) : schema.Orders record := by
  obtain ⟨⟨checked, broken⟩, hchecked, h⟩ := Outcome.seq_eq_ok.mp h
  dsimp only at h
  split at h
  · obtain rfl := Outcome.pure_eq_ok.mp h
    exact sublist_of_checkColumns hchecked
  · cases h

end Schema

namespace Table

variable {table table' : Table}

/-- A record that is put in order is in the order of the columns. -/
lemma orders_inOrder (schema : Schema) (record : Record) :
    schema.Orders (inOrder schema record) := by
  have hkeys : ∀ names : List Value, (Entries.keys (names.filterMap fun name =>
      (record.lookup name).map fun v => (name, v))).Sublist names := by
    intro names
    induction names with
    | nil => exact List.Sublist.refl _
    | cons name rest ih =>
      rw [List.filterMap_cons]
      cases record.lookup name with
      | none => exact ih.cons name
      | some v => exact ih.cons_cons name
  exact hkeys schema.names

/-- A record that has been admitted is in the order of the columns. -/
lemma orders_of_admits {v : Value} {record : Record} (h : table.Admits v record) :
    table.schema.Orders record := by
  obtain ⟨checked, hchecked, hcomplete⟩ := exists_validate_of_admits h
  rw [complete] at hcomplete
  split at hcomplete
  · obtain rfl := Except.ok.inj hcomplete
    exact Schema.orders_of_validate hchecked
  · obtain ⟨filled, -, rfl⟩ := Outcome.map_eq_ok.mp hcomplete
    exact orders_inOrder _ _

/-- The records of a prepared update are in the order of the columns. -/
lemma orders_of_prepareUpdate {conditions patch : Value} {staged : List (RowId × Record)}
    (h : table.prepareUpdate conditions patch = .ok staged) :
    ∀ entry ∈ staged, table.schema.Orders entry.2 := by
  intro entry hentry
  obtain ⟨isTaken, given, hvalid⟩ := exists_validate_of_prepareUpdate h entry hentry
  exact Schema.orders_of_validate hvalid

/-! ## Ids and indexes -/

/-- Ids are integers that start at one. -/
def CountsFromOne (table : Table) : Prop :=
  ∃ next : Int, table.nextRowId = .whole next ∧ 1 ≤ next

/-- A step keeps ids counting. -/
lemma CountsFromOne.step (h : table.CountsFromOne) (hstep : Step table table') :
    table'.CountsFromOne := by
  obtain ⟨next, hnext, hone⟩ := h
  cases hstep with
  | append _ =>
    refine ⟨next + 1, ?_, by omega⟩
    change table.nextRowId.successor = _
    rw [hnext]
    rfl
  | replace _ => exact ⟨next, (replacedAll_frame _ _).2.1.trans hnext, hone⟩
  | remove _ _ => exact ⟨next, (removedAll_frame _ _).2.1.trans hnext, hone⟩
  | _ => exact ⟨next, hnext, hone⟩

/-- Steps keep ids counting. -/
lemma CountsFromOne.reaches (h : table.CountsFromOne) (hreaches : Reaches table table') :
    table'.CountsFromOne := by
  induction hreaches with
  | refl => exact h
  | tail _ hstep ih => exact ih.step hstep

/-- A step keeps the columns of the indexes distinct. -/
lemma Step.distinct (h : Entries.Distinct table.indexes) (hstep : Step table table') :
    Entries.Distinct table'.indexes := by
  cases hstep with
  | idle => exact h
  | append _ =>
    refine Entries.distinct_congr ?_ h
    simp [Entries.keys, appended, entered, withRow]
  | replace _ => exact Entries.distinct_congr (replacedAll_frame _ _).2.2 h
  | remove _ _ => exact Entries.distinct_congr (removedAll_frame _ _).2.2 h
  | index hcolumn _ _ => exact Entries.distinct_put hcolumn _ h
  | unindex _ _ => exact Entries.distinct_drop _ h

/-- Steps keep the columns of the indexes distinct. -/
lemma Reaches.distinct (h : Entries.Distinct table.indexes) (hreaches : Reaches table table') :
    Entries.Distinct table'.indexes := by
  induction hreaches with
  | refl => exact h
  | tail _ hstep ih => exact hstep.distinct ih

/-! ## Tidy tables -/

/-- A table that can be put together again from what is written of it. -/
structure Tidy (table : Table) (records : List (Int × Record)) : Prop where
  settled : table.Settled records
  /-- The schema is built from columns in canonical form. -/
  built : table.schema.Built
  /-- There is a column. -/
  columns : table.schema.columns ≠ []
  /-- Every record is in the order of the columns. -/
  ordered : table.EachRecord table.schema.Orders
  /-- Ids start at one. -/
  counts : table.CountsFromOne
  /-- No column has two indexes. -/
  distinct : Entries.Distinct table.indexes

variable {records : List (Int × Record)}

/-- A step keeps a table tidy. -/
theorem Tidy.step (h : table.Tidy records) (hstep : Step table table') :
    ∃ records', table'.Tidy records' := by
  obtain ⟨records', hsettled⟩ := h.settled.reaches (.single hstep)
  have hschema := hstep.schema_eq
  refine ⟨records', hsettled, ?_, ?_, ?_, h.counts.step hstep, hstep.distinct h.distinct⟩
  · rw [hschema]
    exact h.built
  · rw [hschema]
    exact h.columns
  · rw [hschema]
    exact hstep.eachRecord h.ordered (fun _ _ => orders_of_admits)
      fun _ _ _ => orders_of_prepareUpdate

/-- A record of a tidy table is in the order of the columns. -/
lemma Tidy.orders (h : table.Tidy records) {entry : Int × Record} (hentry : entry ∈ records) :
    table.schema.Orders entry.2 :=
  (eachRecord_iff h.settled.lists.rows).mp h.ordered entry hentry

/-- A table that is made from descriptions is tidy and has no records. -/
theorem tidy_of_create {name directory : String} {source : SchemaSource} {effects : List Effect}
    (hsource : source.IsDescribed)
    (h : Table.create name source directory = .ok (table, effects)) : table.Tidy [] := by
  obtain ⟨schema, hschema, hmade⟩ := Outcome.seq_eq_ok.mp h
  have hcreate : Table.create name (.schema schema) directory = .ok (table, effects) :=
    Outcome.seq_eq_ok.mpr ⟨schema, rfl, hmade⟩
  have hsettled := settled_of_create hsource hschema hcreate
  have hkeys := (hsource.sound hschema).mono fun _ hc => hc.hasKeyDefault
  obtain ⟨hreaches, -⟩ := lists_of_create hkeys rfl hcreate
  obtain ⟨hbuilt, hcolumns⟩ := Schema.built_ofSource hsource hschema
  have heq : table.schema = schema := hreaches.schema_eq
  have hcounts : (empty name schema directory).CountsFromOne := ⟨1, rfl, le_refl 1⟩
  have hdistinct : Entries.Distinct (empty name schema directory).indexes := List.Pairwise.nil
  refine ⟨hsettled, heq ▸ hbuilt, heq ▸ hcolumns, ?_, hcounts.reaches hreaches,
    hreaches.distinct hdistinct⟩
  intro entry hentry
  rw [hsettled.lists.rows] at hentry
  cases hentry

end Table

end RecordStore
