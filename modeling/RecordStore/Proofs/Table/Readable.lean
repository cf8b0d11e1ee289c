import RecordStore.Proofs.Table.Returning
import RecordStore.Proofs.Table.Simple

/-!
# Tables that can be read again

A tidy table of simple values whose files are on the disk can be loaded from them just if no column
is named like a mark of dates and all dates that it holds, as defaults or in its rows, have years of
four digits.  A column named like a mark makes the description of the schema look like a date, and a
year of less than four digits makes the whole file unreadable.
-/

namespace RecordStore

open Snapshot (EntryRestored HasFullYear ObjectKeys ValueRestored markedObject restored)

namespace Snapshot

/-- What a simple value comes back as is simple. -/
lemma isSimple_of_restored {v w : Value} (hv : v.IsSimple) (h : restored v = .ok w) :
    w.IsSimple := by
  cases v with
  | date d =>
    rw [restored] at h
    split at h
    · obtain rfl := Except.ok.inj h
      rfl
    · cases h
  | timestamp t =>
    rw [restored] at h
    split at h
    · obtain rfl := Except.ok.inj h
      rfl
    · cases h
  | list items => cases hv
  | tuple items => cases hv
  | map entries => cases hv
  | _ =>
    obtain rfl := Except.ok.inj h
    rfl

/-- A mapping of mappings under different texts only comes back if none of the texts is a mark. -/
lemma objectKeys_of_restored {entries : List (Value × Value)}
    (htexts : ∀ entry ∈ entries, ∃ s, entry.1 = .text s) (hdistinct : Entries.Distinct entries)
    (hmaps : ∀ entry ∈ entries, ∃ inner, ObjectKeys inner ∧ entry.2 = .map inner) {w : Value}
    (h : restored (.map entries) = .ok w) : ObjectKeys entries := by
  rw [restored] at h
  obtain ⟨entries', hentries, h⟩ := Outcome.bind_eq_ok.mp h
  have hforall := restoredEntries_eq_ok.mp hentries
  have hkeys : Entries.keys entries' = Entries.keys entries := by
    refine map_eq_of_forall₂ hforall fun entry hentry entry' hrestored => ?_
    obtain ⟨s, hs⟩ := htexts entry hentry
    rw [hrestored.1, hs]
    rfl
  rw [Entries.ofPairs_of_distinct (Entries.distinct_congr hkeys hdistinct)] at h
  have hvalues : ∀ mark v, Value.lookup? mark entries' = some v → ∃ inner, v = .map inner := by
    intro mark v hv
    obtain ⟨entry', hfound, rfl⟩ := Option.map_eq_some_iff.mp hv
    obtain ⟨entry, hentry, -, hrestored⟩ :=
      exists_left_of_forall₂ hforall (List.mem_of_find?_eq_some hfound)
    obtain ⟨inner, hinner, hmap⟩ := hmaps entry hentry
    rw [hmap] at hrestored
    obtain ⟨inner', -, hsame⟩ := (restored_object hinner).mp hrestored
    exact ⟨inner', hsame.symm⟩
  have hunmarked : Value.lookup? timestampMark entries' = none ∧
      Value.lookup? dateMark entries' = none := by
    unfold markedObject at h
    split at h
    · rename_i v hv
      obtain ⟨inner, rfl⟩ := hvalues _ v hv
      cases h
    · rename_i v hnone hv
      obtain ⟨inner, rfl⟩ := hvalues _ v hv
      cases h
    · rename_i htimestamp hdate
      exact ⟨htimestamp, hdate⟩
  refine ⟨htexts, hdistinct, fun entry hentry => ?_⟩
  have hmem : entry.1 ∈ Entries.keys entries' := by
    rw [hkeys]
    exact List.mem_map_of_mem hentry
  obtain ⟨entry', hentry', hkey⟩ := List.mem_map.mp hmem
  rw [← hkey]
  exact ⟨lookup?_eq_none.mp hunmarked.1 entry' hentry', lookup?_eq_none.mp hunmarked.2 entry' hentry'⟩

end Snapshot

/-- Whether a year has four digits is told by the day. -/
instance (v : Value) : Decidable (HasFullYear v) :=
  decidable_of_iff ((Snapshot.day? v).all fun d => 1000 ≤ d.year) <| by
    rw [HasFullYear]
    cases Snapshot.day? v <;> simp

/-! ## Schemas that come back -/

namespace Kind

/-- A simple default in canonical form comes back in canonical form. -/
lemma coerceDefault_restored {kind : Kind} {v w : Value} (h : kind.coerceDefault v = .ok v)
    (hv : v.IsSimple) (hrestored : restored v = .ok w) : kind.coerceDefault w = .ok w := by
  have hcanonical := isCanonical_of_coerceDefault h
  cases v with
  | float x =>
    cases x with
    | notNumber payload => cases kind <;> cases hcanonical
    | finite negative m e hfinite =>
      obtain rfl := Except.ok.inj hrestored
      exact h
    | infinite negative =>
      obtain rfl := Except.ok.inj hrestored
      exact h
  | date d =>
    rw [restored] at hrestored
    split at hrestored
    · obtain rfl := Except.ok.inj hrestored
      exact h
    · cases hrestored
  | timestamp t =>
    rw [restored] at hrestored
    split at hrestored
    · obtain rfl := Except.ok.inj hrestored
      cases kind with
      | date => rfl
      | _ => cases hcanonical
    · cases hrestored
  | list items => cases hv
  | tuple items => cases hv
  | map entries => cases hv
  | _ =>
    obtain rfl := Except.ok.inj hrestored
    exact h

end Kind

namespace Column

/-- A simple column in canonical form whose default comes back comes back as a column in canonical
form. -/
lemma IsSimple.exists_restored {column : Column} (h : column.IsSimple) (hcanonical : column.Canonical)
    (hyear : ∀ v ∈ column.defaultValue, HasFullYear v) :
    ∃ column', column.RestoredAs column' ∧ column'.Canonical := by
  have hdefault : ∃ d', Option.Rel (fun v w => restored v = .ok w) column.defaultValue d' ∧
      ∀ w, d' = some w → column.kind.coerceDefault w = .ok w := by
    cases hv : column.defaultValue with
    | none => exact ⟨none, .none, nofun⟩
    | some v =>
      have hsimple := h.defaultValue v hv
      obtain ⟨w, hw⟩ := (Snapshot.isOk_restored_scalar_iff hsimple).mpr (hyear v hv)
      refine ⟨some w, .some hw, fun u hu => ?_⟩
      obtain rfl := Option.some.inj hu
      exact Kind.coerceDefault_restored (hcanonical.defaultValue v hv) hsimple hw
  obtain ⟨d', hrel, hcoerce⟩ := hdefault
  refine ⟨{ column with defaultValue := d' }, ⟨rfl, rfl, rfl, rfl, rfl, rfl, hrel, h.foreignKey, rfl⟩,
    ⟨hcanonical.required, hcanonical.primaryKey, hcanonical.unique, hcanonical.autoIncrement, hcoerce,
      hcanonical.foreignKey, hcanonical.size, ?_⟩⟩
  exact ⟨hcanonical.described.unique, hcanonical.described.numbered, fun w hw =>
    Kind.isCanonical_of_coerceDefault (hcoerce w hw)⟩

end Column

namespace Schema

/-- Columns come back under their names. -/
lemma names_restored {columns columns' : List Column}
    (h : List.Forall₂ Column.RestoredAs columns columns') :
    columns'.map (·.name) = columns.map (·.name) :=
  Snapshot.map_eq_of_forall₂ h fun _ _ _ hc => hc.name

/-- A schema whose columns come back in canonical form comes back as one that is built from them. -/
lemma Built.exists_restored {schema : Schema} (h : schema.Built)
    (hcolumns : ∀ c ∈ schema.columns, ∃ c', Column.RestoredAs c c' ∧ c'.Canonical) :
    ∃ schema' : Schema, schema'.Built ∧
      List.Forall₂ Column.RestoredAs schema.columns schema'.columns ∧
      schema'.primaryKey = schema.primaryKey := by
  induction h with
  | empty => exact ⟨.empty, .empty, .nil, rfl⟩
  | @added before after column hbefore hcolumn hname hadd ih =>
    rw [columns_add hadd, List.forall_mem_append] at hcolumns
    obtain ⟨before', hbuilt, hrestored, hkey⟩ := ih hcolumns.1
    obtain ⟨column', hcolumn', hcanonical⟩ := hcolumns.2 column (List.mem_singleton.mpr rfl)
    have hnames := names_restored hrestored
    have hhas : before'.has column'.name = before.has column.name := by
      have hany : ∀ (columns : List Column) (name : Value),
          columns.any (·.name == name) = (columns.map (·.name)).any (· == name) :=
        fun columns name => by rw [List.any_map]; rfl
      rw [has, has, hany, hany, hnames, hcolumn'.name]
    have hprimary : column'.isPrimaryKey = column.isPrimaryKey :=
      congrArg Value.isTruthy hcolumn'.primaryKey
    have hadd' : before'.add column' =
        .ok ⟨before'.columns ++ [column'], after.primaryKey⟩ := by
      rw [add, hhas, hprimary, hkey, hcolumn'.name]
      rw [add] at hadd
      split at hadd
      · cases hadd
      · rename_i hnew
        rw [if_neg hnew]
        split at hadd
        · rename_i hprimary
          rw [if_pos hprimary]
          split at hadd
          · cases hadd
          · rename_i hnone
            rw [if_neg hnone, ← Except.ok.inj hadd]
        · rename_i hprimary
          rw [if_neg hprimary, ← Except.ok.inj hadd]
    refine ⟨_, .added hbuilt hcanonical ?_ hadd', ?_, rfl⟩
    · rw [hcolumn'.name]
      exact hname
    · rw [columns_add hadd]
      exact List.rel_append hrestored (.cons hcolumn' .nil)

end Schema

/-! ## Loading -/

namespace Table

variable {table : Table} {records : List (Int × Record)} {disk : Disk}

/-- No column is named like a mark of dates, and the year of every default and of everything in the
rows has four digits. -/
structure IsReadable (table : Table) : Prop where
  named : table.schema.IsPlainlyNamed
  defaults : ∀ c ∈ table.schema.columns, ∀ v ∈ c.defaultValue, HasFullYear v
  values : ∀ row ∈ table.rows, ∀ field ∈ fieldsOf row.2, HasFullYear field.2

instance (table : Table) : Decidable table.IsReadable :=
  decidable_of_iff (table.schema.IsPlainlyNamed ∧
      (∀ c ∈ table.schema.columns, ∀ v ∈ c.defaultValue, HasFullYear v) ∧
      ∀ row ∈ table.rows, ∀ field ∈ fieldsOf row.2, HasFullYear field.2)
    ⟨fun ⟨hnamed, hdefaults, hvalues⟩ => ⟨hnamed, hdefaults, hvalues⟩,
      fun h => ⟨h.named, h.defaults, h.values⟩⟩

/-- The records of a tidy table of simple values hold simple values. -/
lemma Tidy.holdsSimple (h : table.Tidy records) (hsimple : table.IsSimple) {entry : Int × Record}
    (hentry : entry ∈ records) : HoldsSimple entry.2 :=
  (eachRecord_iff h.settled.lists.rows).mp hsimple.rows entry hentry

/-- A table of simple values that is readable is loaded from its files. -/
lemma StoredIn.load_of_isReadable (hstored : table.StoredIn disk) (h : table.Tidy records)
    (hsimple : table.IsSimple) (hreadable : table.IsReadable) :
    ∃ notices table', load table.name table.directory disk = (notices, .ok table') := by
  have hcolumns : ∀ c ∈ table.schema.columns, ∃ c', Column.RestoredAs c c' ∧ c'.Canonical :=
    fun c hc => (hsimple.columns c hc).exists_restored (h.built.canonical c hc)
      (hreadable.defaults c hc)
  obtain ⟨schema, hbuilt, hrestored, -⟩ := h.built.exists_restored hcolumns
  have hfields : ∀ entry ∈ records, ∃ record', List.Forall₂ ValueRestored entry.2 record' := by
    intro entry hentry
    refine Snapshot.exists_forall₂ fun field hfield => ?_
    have hyear := hreadable.values _ (h.settled.lists.mem_rows hentry) field hfield
    obtain ⟨w, hw⟩ := (Snapshot.isOk_restored_scalar_iff
      (h.holdsSimple hsimple hentry field hfield)).mpr hyear
    exact ⟨(field.1, w), rfl, hw⟩
  obtain ⟨records', hrecords⟩ : ∃ records', RecordsRestored records records' := by
    refine Snapshot.exists_forall₂ fun entry hentry => ?_
    obtain ⟨record', hrecord⟩ := hfields entry hentry
    exact ⟨(entry.1, record'), rfl, hrecord⟩
  have hrestoredSimple : ∀ entry' ∈ records', HoldsSimple entry'.2 := by
    intro entry' hentry' field' hfield'
    obtain ⟨entry, hentry, -, hrecord⟩ := Snapshot.exists_left_of_forall₂ hrecords hentry'
    obtain ⟨field, hfield, -, hvalue⟩ := Snapshot.exists_left_of_forall₂ hrecord hfield'
    exact Snapshot.isSimple_of_restored (h.holdsSimple hsimple hentry field hfield) hvalue
  have hkeys : (table.unindexed schema records').HasKeys := by
    intro c _ _ row hrow
    obtain ⟨entry', hentry', rfl⟩ := List.mem_map.mp hrow
    refine ⟨_, rfl, ?_⟩
    have hvalue := (hrestoredSimple entry' hentry').value c.name
    cases hv : entry'.2.value c.name <;> rw [hv] at hvalue <;> first | rfl | cases hvalue
  obtain ⟨notices, table', hload, -⟩ := hstored.load_eq h hreadable.named hbuilt hrestored hrecords
    hkeys (h.legible_indexesValue hreadable.named)
  exact ⟨notices, table', hload⟩

/-- What is loaded has been read from the schema file and from the file of the rows. -/
lemma exists_read_of_load {name directory : String} {notices : List Notice} {table' : Table}
    (h : load name directory disk = (notices, .ok table')) :
    (∃ w, disk.readSnapshot (schemaPath directory name) = .ok w) ∧
      ∃ w, disk.readSnapshot (dataPath directory name) = .ok w := by
  rw [load] at h
  split at h
  · rename_i loaded hrows
    obtain ⟨schemaData, hschema, hrows⟩ := Outcome.seq_eq_ok.mp hrows
    obtain ⟨-, hrows⟩ := Outcome.unless_eq_ok.mp hrows
    obtain ⟨schema, -, hrows⟩ := Outcome.seq_eq_ok.mp hrows
    obtain ⟨data, hdata, -⟩ := Outcome.seq_eq_ok.mp hrows
    exact ⟨⟨schemaData, hschema⟩, data, hdata⟩
  · cases h

/-- A table of simple values that is loaded from its files is readable. -/
lemma StoredIn.isReadable_of_load (hstored : table.StoredIn disk) (h : table.Tidy records)
    (hsimple : table.IsSimple) {notices : List Notice} {table' : Table}
    (hload : load table.name table.directory disk = (notices, .ok table')) : table.IsReadable := by
  obtain ⟨⟨w, hschema⟩, w', hdata⟩ := exists_read_of_load hload
  have hschema := hstored.schema.restored_eq_ok hschema
  have hdata := hstored.data.restored_eq_ok hdata
  have hobject : ObjectKeys table.schema.toRecord := by
    refine Snapshot.objectKeys_of_restored ?_ ?_ ?_ hschema
    · intro entry hentry
      obtain ⟨c, hc, rfl⟩ := List.mem_map.mp hentry
      exact (hsimple.columns c hc).name
    · exact List.pairwise_map.mpr h.built.sound.distinct
    · intro entry hentry
      obtain ⟨c, -, rfl⟩ := List.mem_map.mp hentry
      exact ⟨_, c.objectKeys_description, rfl⟩
  have hnamed : table.schema.IsPlainlyNamed := by
    intro c hc
    obtain ⟨s, hs⟩ := (hsimple.columns c hc).name
    have hmarks := hobject.unmarked (c.name, .ofFields c.toFields) (List.mem_map_of_mem hc)
    rw [hs] at hmarks
    exact ⟨s, hs, fun heq => hmarks.1 (congrArg Value.text heq),
      fun heq => hmarks.2 (congrArg Value.text heq)⟩
  refine ⟨hnamed, fun c hc v hv => ?_, fun row hrow field hfield => ?_⟩
  · obtain ⟨u, hu⟩ := (Snapshot.isOk_restored_object hobject).mp ⟨w, hschema⟩
      (c.name, .ofFields c.toFields) (List.mem_map_of_mem hc)
    have hmem : ((Value.text "defaultValue", v) : Value × Value) ∈ c.description := by
      rw [Column.description, Column.toFields, Option.mem_def.mp hv]
      simp
    have hdefault := (Snapshot.isOk_restored_object c.objectKeys_description).mp ⟨u, hu⟩ _ hmem
    exact (Snapshot.isOk_restored_scalar_iff ((hsimple.columns c hc).defaultValue v hv)).mp hdefault
  · have hobjects : ∀ entry ∈ records, ObjectKeys entry.2 := fun entry hentry =>
      hnamed.objectKeys h.built.sound (h.orders hentry)
    obtain ⟨next, records', -, hrecords, -⟩ := (hstored.restored_dataValue h hobjects).mp hdata
    rw [h.settled.lists.rows] at hrow
    obtain ⟨entry, hentry, rfl⟩ := List.mem_map.mp hrow
    obtain ⟨entry', -, -, hrecord⟩ := Snapshot.exists_right_of_forall₂ hrecords hentry
    obtain ⟨field', -, -, hvalue⟩ := Snapshot.exists_right_of_forall₂ hrecord hfield
    exact (Snapshot.isOk_restored_scalar_iff
      (h.holdsSimple hsimple hentry field hfield)).mp ⟨field'.2, hvalue⟩

/-- A tidy table of simple values that is stored in its files can be loaded from them just if it is
readable. -/
theorem StoredIn.isOk_load_iff (hstored : table.StoredIn disk) (h : table.Tidy records)
    (hsimple : table.IsSimple) :
    (∃ notices table', load table.name table.directory disk = (notices, .ok table')) ↔
      table.IsReadable :=
  ⟨fun ⟨_, _, hload⟩ => hstored.isReadable_of_load h hsimple hload,
    hstored.load_of_isReadable h hsimple⟩

end Table

end RecordStore
