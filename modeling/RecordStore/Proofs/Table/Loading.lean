import RecordStore.Proofs.Table.Run
import RecordStore.Table.Loading

/-!
# Where tables come from

A table is made from a schema or loaded from the files of one, and then it is asked for things and
perhaps dropped, while somebody may still hold it.  The rows that are loaded are whatever the files
say, and only the indexes that are built on them make sure that they have keys; all the same every
table that comes about in these ways is steady.
-/

namespace RecordStore.Table

variable {table table' : Table}

/-! ## Loading -/

/-- Building the indexes that a snapshot names is a sequence of steps. -/
lemma restoreIndexes_eq_ok {columns : List Value} {notices notices' : List Notice}
    (h : table.restoreIndexes notices columns = (notices', .ok table')) : Reaches table table' := by
  induction columns generalizing table notices with
  | nil =>
    cases h
    exact .refl
  | cons column rest ih =>
    rw [restoreIndexes] at h
    split at h
    · cases h
    · rename_i hcolumn
      split at h
      · split at h
        · rename_i built notice hbuilt
          have hhash : column.isHashable = true := by simpa using hcolumn
          obtain ⟨index, rfl, hindexable, hindex⟩ := buildIndex_eq_ok hhash hbuilt
          exact .head (.index hhash hindexable hindex) (ih h)
        · cases h
      · exact ih h

/-- Building the indexes of a table that is loaded is a sequence of steps, and after it every unique
column has an index. -/
lemma Steady.loadIndexes_eq_ok (hsteady : table.Steady) {disk : Disk} {notices : List Notice}
    (h : table.loadIndexes disk = (notices, .ok table')) :
    Reaches table table' ∧ table'.KeyIndexed := by
  unfold loadIndexes at h
  dsimp only at h
  split at h
  · rename_i noted restored hrestored
    have hreaches : Reaches table restored := by
      split at hrestored
      · split at hrestored
        · exact restoreIndexes_eq_ok hrestored
        · cases hrestored
      · split at hrestored
        · cases hrestored
          exact .refl
        · cases hrestored
    split at h
    · rename_i hensured
      cases h
      obtain ⟨hrest, -, hindexed⟩ := ensureKeyIndexes_eq_ok (hsteady.reaches hreaches).schema hensured
      exact ⟨hreaches.trans hrest, hindexed⟩
    · cases h
  · cases h

/-- Rows under integers as the rows of a table. -/
def asRows (rows : List (Int × Row)) : List (RowId × Row) :=
  rows.map fun entry => (.int entry.1, entry.2)

/-- Rows are loaded just if the schema and the rows can be read and are accepted. -/
theorem loadRows_eq_ok_iff {name directory : String} {disk : Disk} :
    loadRows name directory disk = .ok table ↔ ∃ v schema data rows next,
      disk.readSnapshot (schemaPath directory name) = .ok v ∧ v.isNull = false ∧
      Schema.ofValue v = .ok schema ∧ disk.readSnapshot (dataPath directory name) = .ok data ∧
      rowsOfValue data = .ok (rows, next) ∧
      table = ⟨name, schema, directory, asRows rows, next, []⟩ := by
  constructor
  · intro h
    obtain ⟨v, hv, h⟩ := Outcome.seq_eq_ok.mp h
    obtain ⟨hpresent, h⟩ := Outcome.unless_eq_ok.mp h
    obtain ⟨schema, hschema, h⟩ := Outcome.seq_eq_ok.mp h
    obtain ⟨data, hdata, h⟩ := Outcome.seq_eq_ok.mp h
    obtain ⟨⟨rows, next⟩, hrows, h⟩ := Outcome.seq_eq_ok.mp h
    obtain rfl := Outcome.pure_eq_ok.mp h
    exact ⟨v, schema, data, rows, next, hv, Bool.eq_false_iff.mpr hpresent, hschema, hdata, hrows,
      rfl⟩
  · rintro ⟨v, schema, data, rows, next, hv, hpresent, hschema, hdata, hrows, rfl⟩
    refine Outcome.seq_eq_ok.mpr ⟨v, hv, Outcome.unless_eq_ok.mpr ⟨by simp [hpresent], ?_⟩⟩
    refine Outcome.seq_eq_ok.mpr ⟨schema, hschema, Outcome.seq_eq_ok.mpr ⟨data, hdata, ?_⟩⟩
    exact Outcome.seq_eq_ok.mpr ⟨(rows, next), hrows, rfl⟩

/-- The rows that are loaded are the rows of a table without indexes, whose columns have been
checked. -/
lemma loadRows_eq_ok {name directory : String} {disk : Disk}
    (h : loadRows name directory disk = .ok table) :
    table.schema.Sound Column.Described ∧ table.indexes = [] := by
  obtain ⟨v, schema, data, rows, next, -, -, hschema, -, -, rfl⟩ := loadRows_eq_ok_iff.mp h
  exact ⟨Schema.sound_ofValue hschema, rfl⟩

/-- A table that is loaded is steady, and every unique column has an index. -/
theorem steady_of_load {name directory : String} {disk : Disk} {notices : List Notice}
    (h : Table.load name directory disk = (notices, .ok table)) :
    table.Steady ∧ table.KeyIndexed := by
  rw [load] at h
  split at h
  · rename_i unindexed hrows
    obtain ⟨hschema, hindexes⟩ := loadRows_eq_ok hrows
    have hsteady : unindexed.Steady :=
      steady_of_unindexed (hschema.mono fun _ hc => hc.hasKeyDefault) hindexes
    obtain ⟨hreaches, hindexed⟩ := hsteady.loadIndexes_eq_ok h
    exact ⟨hsteady.reaches hreaches, hindexed⟩
  · cases h

/-! ## Everything that can happen to a table -/

/-- A table comes about: it is made or loaded, and then asked for things or dropped. -/
inductive Arises : Table → Prop where
  | created {name directory : String} {source : SchemaSource} {table : Table}
      {effects : List Effect} (hsource : source.HasKeyDefaults)
      (h : Table.create name source directory = .ok (table, effects)) : Arises table
  | loaded {name directory : String} {disk : Disk} {table : Table} {notices : List Notice}
      (h : Table.load name directory disk = (notices, .ok table)) : Arises table
  | requested {table : Table} (h : Arises table) (request : Request) :
      Arises (table.reply request).table
  | dropped {table : Table} (h : Arises table) (world : World) : Arises (table.drop world).1

/-- Every table that comes about is steady. -/
theorem Arises.steady (h : table.Arises) : table.Steady := by
  induction h with
  | created hsource h =>
    obtain ⟨schema, hschema, hmade⟩ := create_eq_ok h
    have hsound := hsource.sound hschema
    exact (steady_empty hsound _ _).reaches (hmade (hsound.mono fun _ _ => trivial)).1
  | loaded h => exact (steady_of_load h).1
  | requested _ request ih => exact ih.step (ih.step_reply request)
  | dropped _ world ih => exact steady_of_unindexed ih.schema rfl

end RecordStore.Table
