import RecordStore.Proofs.Schema.Restored

/-!
# Schemas that are accepted again

A schema is written as the descriptions of its columns, and a description is checked when it is read.
Columns that have been described pass again; one that has been declared outright may not.  If all do, the
columns that are read act as the declared ones, and a default in a column that can be indexed is a single
value, so that it can be a key.
-/

namespace RecordStore

namespace Kind

/-- A default that a kind takes which can be indexed can be a key. -/
lemma isHashable_of_coerceDefault {kind : Kind} {v w : Value} (hkind : kind.isIndexable = true)
    (h : kind.coerceDefault v = .ok w) : v.isHashable = true := by
  obtain ⟨u, hu, h⟩ := Outcome.seq_eq_ok.mp h
  obtain ⟨accepted, haccepts, h⟩ := Outcome.seq_eq_ok.mp h
  cases accepted with
  | false => cases h
  | true =>
    -- a list, a tuple or a mapping is not converted, and none of these kinds accepts it
    have hrefuse : ∀ {x : Value}, kind.convertDefault x = .ok x → kind.accepts x = .ok false →
        v ≠ x := by
      rintro x hsame hrefused rfl
      obtain rfl : v = u := Except.ok.inj (hsame.symm.trans hu)
      cases hrefused.symm.trans haccepts
    cases v with
    | list items =>
      exact absurd rfl (hrefuse (by cases kind <;> rfl) (by cases kind <;> first | rfl | cases hkind))
    | tuple items =>
      exact absurd rfl (hrefuse (by cases kind <;> rfl) (by cases kind <;> first | rfl | cases hkind))
    | map entries =>
      exact absurd rfl (hrefuse (by cases kind <;> rfl) (by cases kind <;> first | rfl | cases hkind))
    | _ => rfl

end Kind

namespace Column

/-- A column acts as another one does in the indexes of a table. -/
structure ActsAs (column column' : Column) : Prop where
  name : column'.name = column.name
  kind : column'.kind = column.kind
  unique : column'.isUnique = column.isUnique

/-- A column acts as itself. -/
lemma ActsAs.refl (column : Column) : column.ActsAs column :=
  ⟨rfl, rfl, rfl⟩

/-- A column acts as the one that it comes back as. -/
lemma RestoredAs.actsAs {column column' : Column} (h : column.RestoredAs column') :
    column.ActsAs column' :=
  ⟨h.name, h.kind, congrArg Value.isTruthy h.unique⟩

/-- What the description of a column is read as acts as the column, whose default can be a key if it can
be indexed. -/
theorem actsAs_of_ofValue {column column' : Column}
    (h : ofValue column.name (.ofFields column.toFields) = .ok column') :
    column.ActsAs column' ∧ column.HasKeyDefault := by
  obtain ⟨htype, -, hprimary, hunique, -, -, hdefault, -⟩ := column.entry_description
  rw [ofValue_description] at h
  obtain ⟨kind, hkind, h⟩ := Outcome.seq_eq_ok.mp h
  obtain ⟨size, -, h⟩ := Outcome.seq_eq_ok.mp h
  obtain ⟨read, hread, h⟩ := Outcome.seq_eq_ok.mp h
  obtain ⟨-, h⟩ := Outcome.unless_eq_ok.mp h
  obtain ⟨-, h⟩ := Outcome.unless_eq_ok.mp h
  obtain rfl := Outcome.pure_eq_ok.mp h
  obtain rfl : kind = column.kind := by
    rw [htype, Option.getD_some, Kind.ofName_name] at hkind
    exact (Except.ok.inj hkind).symm
  refine ⟨⟨rfl, rfl, ?_⟩, fun hindexable v hv => ?_⟩
  · change Value.isTruthy (if (Value.entry "primaryKey" column.description).isTruthy = true then
      .bool true else .bool (Value.entry "unique" column.description).isTruthy) = column.isUnique
    rw [hprimary, hunique]
    cases hkey : column.primaryKey.isTruthy with
    | false => rfl
    | true => exact (column.primary_declared hkey).2.symm
  · rw [hdefault, hv, Value.ofOption, defaultOf] at hread
    split at hread
    · rename_i hnull
      cases v <;> first | rfl | cases hnull
    · split at hread
      · rename_i hcoerce
        exact Kind.isHashable_of_coerceDefault hindexable hcoerce
      · split at hread <;> cases hread

end Column

namespace Schema

variable {schema schema' : Schema}

/-- If no rule is broken, the columns of the sources have been added at the end. -/
lemma forall₂_of_addAll {sources : List (Value × ColumnSource)} {broken : List Violation}
    (hsources : ∀ entry ∈ sources, ∃ properties, entry.2 = .described properties)
    (h : addAll schema broken sources = .ok (schema', [])) :
    broken = [] ∧ ∃ added, schema'.columns = schema.columns ++ added ∧
      List.Forall₂ (fun entry c => columnOf entry.1 entry.2 = .ok c) sources added := by
  induction sources generalizing schema broken with
  | nil =>
    cases h
    exact ⟨rfl, [], (List.append_nil _).symm, .nil⟩
  | cons entry rest ih =>
    obtain ⟨name, source⟩ := entry
    obtain ⟨⟨properties, hproperties⟩, hrest⟩ := List.forall_mem_cons.mp hsources
    dsimp only at hproperties
    subst hproperties
    obtain ⟨outcome, hfirst, h⟩ := Outcome.seq_eq_ok.mp h
    rcases addSource_cases hfirst with ⟨column, next, hcolumn, -, hadd, rfl⟩ |
      ⟨violation, more, rfl⟩
    · obtain ⟨hbroken, added, hcolumns, hadded⟩ := ih hrest h
      refine ⟨hbroken, column :: added, ?_, .cons hcolumn hadded⟩
      rw [hcolumns, columns_add hadd, List.append_assoc]
      rfl
    · obtain ⟨hbroken, -⟩ := ih hrest h
      simp at hbroken

/-- The description of a schema is accepted. -/
def IsAccepted (schema : Schema) : Prop :=
  ∃ schema', ofValue schema.toValue = .ok schema'

/-- What the description of a schema is read as has columns that act as those of the schema, whose
defaults can be keys where they have to be. -/
theorem forall₂_actsAs_of_ofValue (h : ofValue schema.toValue = .ok schema') :
    List.Forall₂ Column.ActsAs schema.columns schema'.columns ∧
      ∀ c ∈ schema.columns, c.HasKeyDefault := by
  unfold ofValue at h
  split at h
  · obtain ⟨-, h⟩ := Outcome.unless_eq_ok.mp h
    obtain ⟨⟨made, broken⟩, hadd, h⟩ := Outcome.seq_eq_ok.mp h
    dsimp only at h
    split at h
    · rename_i hnone
      obtain rfl := Outcome.pure_eq_ok.mp h
      obtain rfl : broken = [] := List.isEmpty_iff.mp hnone
      obtain ⟨-, added, hcolumns, hadded⟩ := forall₂_of_addAll (fun entry hentry => by
        obtain ⟨pair, -, rfl⟩ := List.mem_map.mp hentry
        exact ⟨pair.2, rfl⟩) hadd
      obtain rfl : made.columns = added := hcolumns
      rw [toRecord, List.map_map, List.forall₂_map_left_iff] at hadded
      refine ⟨hadded.imp fun _ _ hc => (Column.actsAs_of_ofValue hc).1, fun c hc => ?_⟩
      obtain ⟨c', -, hread⟩ := Snapshot.exists_right_of_forall₂ hadded hc
      exact (Column.actsAs_of_ofValue hread).2
    · cases h
  · cases h

/-- A schema that is made from descriptions is accepted again. -/
theorem isAccepted_of_isDescribed {source : SchemaSource} (hsource : source.IsDescribed)
    (h : ofSource source = .ok schema) : schema.IsAccepted :=
  ⟨schema, ofValue_toValue_of_isDescribed hsource h⟩

/-- The description of a schema that has been read is accepted. -/
theorem isAccepted_of_ofValue {v : Value} (h : ofValue v = .ok schema) : schema.IsAccepted :=
  isAccepted_of_isDescribed (show SchemaSource.IsDescribed (.value v) from trivial) h

/-- A schema that has been built by adding columns and that is accepted again has defaults that can be
keys where they have to be. -/
lemma IsAccepted.sound {P : Column → Prop} (h : schema.IsAccepted) (hsound : schema.Sound P) :
    schema.Sound Column.HasKeyDefault := by
  obtain ⟨schema', hread⟩ := h
  exact ⟨hsound.hashable, hsound.distinct, hsound.key, (forall₂_actsAs_of_ofValue hread).2⟩

end Schema

end RecordStore
