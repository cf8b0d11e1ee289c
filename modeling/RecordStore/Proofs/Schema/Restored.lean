import RecordStore.Proofs.Schema.Description

/-!
# Schemas in snapshots

The snapshot of a schema comes back as the description of a schema with the same columns, apart from
the defaults and references, which come back as they can, as long as the columns have texts for names
that are no marks.  So a schema whose defaults and references come back as they are comes back whole.
-/

namespace RecordStore

open Snapshot (ObjectKeys ValueRestored restored)

namespace Column

/-- A column comes back as another one: the same apart from its default and its reference, which are
what those become. -/
structure RestoredAs (column column' : Column) : Prop where
  name : column'.name = column.name
  kind : column'.kind = column.kind
  required : column'.required = column.required
  primaryKey : column'.primaryKey = column.primaryKey
  unique : column'.unique = column.unique
  autoIncrement : column'.autoIncrement = column.autoIncrement
  defaultValue : Option.Rel (fun v w => restored v = .ok w) column.defaultValue column'.defaultValue
  foreignKey : restored column.foreignKey = .ok column'.foreignKey
  size : column'.size = column.size

/-- The description of a column has the keys of an object. -/
lemma objectKeys_description (column : Column) : ObjectKeys column.description := by
  have hnames : column.toFields.map (·.1) =
      ["type", "required", "primaryKey", "unique", "autoIncrement", "foreignKey"] ++
        (if column.defaultValue.isSome then ["defaultValue"] else []) ++
          (if column.size.isNull then [] else ["size"]) := by
    rw [toFields, Value.present?]
    cases column.defaultValue <;> cases column.size.isNull <;> rfl
  refine Snapshot.objectKeys_ofFields ?_ ?_
  · rw [hnames]
    cases column.defaultValue.isSome <;> cases column.size.isNull <;> decide
  · rw [hnames]
    cases column.defaultValue.isSome <;> cases column.size.isNull <;> decide

/-- The description of a column comes back as that of the column that it comes back as. -/
lemma restored_toFields {column column' : Column} (h : column.Canonical)
    (hrestored : column.RestoredAs column') :
    restored (.ofFields column.toFields) = .ok (.ofFields column'.toFields) := by
  refine (Snapshot.restored_object column.objectKeys_description).mpr ⟨column'.description, ?_, rfl⟩
  have hflag : ∀ (name : String) {v w : Value}, (∃ b, v = .bool b) → w = v →
      ValueRestored (.text name, v) (.text name, w) := by
    rintro name v w ⟨b, rfl⟩ rfl
    exact ⟨rfl, rfl⟩
  have hbase : List.Forall₂ ValueRestored
      [(.text "type", .text column.kind.name), (.text "required", column.required),
        (.text "primaryKey", column.primaryKey), (.text "unique", column.unique),
        (.text "autoIncrement", column.autoIncrement), (.text "foreignKey", column.foreignKey)]
      [(.text "type", .text column'.kind.name), (.text "required", column'.required),
        (.text "primaryKey", column'.primaryKey), (.text "unique", column'.unique),
        (.text "autoIncrement", column'.autoIncrement), (.text "foreignKey", column'.foreignKey)] := by
    refine .cons ⟨rfl, by rw [hrestored.kind]; rfl⟩ (.cons (hflag _ h.required hrestored.required)
      (.cons (hflag _ h.primaryKey hrestored.primaryKey) (.cons (hflag _ h.unique hrestored.unique)
        (.cons (hflag _ h.autoIncrement hrestored.autoIncrement) (.cons ⟨rfl, ?_⟩ .nil)))))
    exact hrestored.foreignKey
  have hdefault : List.Forall₂ ValueRestored
      ((column.defaultValue.elim [] fun v => [("defaultValue", v)]).map fun field =>
        (.text field.1, field.2))
      ((column'.defaultValue.elim [] fun v => [("defaultValue", v)]).map fun field =>
        (.text field.1, field.2)) := by
    have hrel := hrestored.defaultValue
    generalize column.defaultValue = d at hrel ⊢
    generalize column'.defaultValue = d' at hrel ⊢
    cases hrel with
    | none => exact .nil
    | some hv => exact .cons ⟨rfl, hv⟩ .nil
  have hsize : List.Forall₂ ValueRestored
      ((column.size.present?.elim [] fun v => [("size", v)]).map fun field =>
        (.text field.1, field.2))
      ((column'.size.present?.elim [] fun v => [("size", v)]).map fun field =>
        (.text field.1, field.2)) := by
    rw [hrestored.size]
    rcases h.size with heq | heq | ⟨i, -, heq⟩
    · rw [heq]
      exact .nil
    · rw [heq]
      exact .cons ⟨rfl, rfl⟩ .nil
    · rw [heq]
      exact .cons ⟨rfl, rfl⟩ .nil
  rw [description, description, toFields, toFields, List.map_append, List.map_append,
    List.map_append, List.map_append]
  exact List.rel_append (List.rel_append hbase hdefault) hsize

end Column

namespace Schema

variable {schema schema' : Schema}

/-- The names of the columns are texts, none of which is a mark. -/
def IsPlainlyNamed (schema : Schema) : Prop :=
  ∀ c ∈ schema.columns, ∃ s, c.name = .text s ∧ s ≠ Snapshot.timestampMark ∧ s ≠ Snapshot.dateMark

instance (schema : Schema) : Decidable schema.IsPlainlyNamed :=
  decidable_of_iff (∀ c ∈ schema.columns, (c.name.text?.any fun s =>
      s ≠ Snapshot.timestampMark ∧ s ≠ Snapshot.dateMark) = true) <| by
    refine forall₂_congr fun c _ => ?_
    cases c.name <;> simp [Value.text?]

/-- Entries under different names of columns have the keys of an object. -/
lemma IsPlainlyNamed.objectKeys {P : Column → Prop} (h : schema.IsPlainlyNamed)
    (hschema : schema.Sound P) {entries : List (Value × Value)}
    (hkeys : (Entries.keys entries).Sublist schema.names) : ObjectKeys entries := by
  have hnamed : ∀ entry ∈ entries, ∃ s, entry.1 = .text s ∧ s ≠ Snapshot.timestampMark ∧
      s ≠ Snapshot.dateMark := by
    intro entry hentry
    obtain ⟨c, hc, hname⟩ := List.mem_map.mp (hkeys.subset (List.mem_map_of_mem hentry))
    rw [← hname]
    exact h c hc
  refine ⟨?_, ?_, ?_⟩
  · intro entry hentry
    obtain ⟨s, hs, -⟩ := hnamed entry hentry
    exact ⟨s, hs⟩
  · have hnames : schema.names.Pairwise fun a b => (a == b) = false :=
      List.pairwise_map.mpr hschema.distinct
    exact List.pairwise_map.mp (hnames.sublist hkeys)
  · intro entry hentry
    obtain ⟨s, hs, htimestamp, hdate⟩ := hnamed entry hentry
    rw [hs]
    exact ⟨fun heq => htimestamp (Value.text.inj heq), fun heq => hdate (Value.text.inj heq)⟩

/-- The keys in the description of a schema are the names of its columns. -/
lemma keys_toRecord (schema : Schema) : Entries.keys schema.toRecord = schema.names := by
  rw [toRecord, Entries.keys, List.map_map]
  rfl

/-- The description of a schema comes back column by column. -/
theorem restored_toValue {P : Column → Prop} (hschema : schema.Sound P) (hbuilt : schema.Built)
    (hnamed : schema.IsPlainlyNamed)
    (hcolumns : List.Forall₂ Column.RestoredAs schema.columns schema'.columns) :
    restored schema.toValue = .ok schema'.toValue := by
  have hkeys : ObjectKeys schema.toRecord :=
    hnamed.objectKeys hschema (keys_toRecord schema ▸ List.Sublist.refl _)
  refine (Snapshot.restored_object hkeys).mpr ⟨schema'.toRecord, ?_, rfl⟩
  rw [toRecord, toRecord, List.forall₂_map_left_iff, List.forall₂_map_right_iff]
  refine List.forall₂_iff_get.mpr ⟨hcolumns.length_eq, fun i hi hi' => ?_⟩
  have hcolumn := (List.forall₂_iff_get.mp hcolumns).2 i hi hi'
  exact ⟨hcolumn.name, Column.restored_toFields (hbuilt.canonical _ (List.get_mem _ _)) hcolumn⟩

end Schema

end RecordStore
