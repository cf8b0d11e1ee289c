import RecordStore.Proofs.Schema
import RecordStore.Proofs.Snapshot.Lasting

/-!
# Descriptions of schemas

A column that has been made from a description has all its properties in canonical form, and its own
description gives the column again: the default, which is converted a second time, stays as it is.  A
schema that has been built from such columns is given again by the descriptions of its columns.
-/

namespace RecordStore

open Snapshot (ObjectKeys restored restored_object_self)

/-! ## Defaults -/

namespace Kind

/-- A value in canonical form is accepted, numbers apart, which may be too great. -/
lemma accepts_of_isCanonical {kind : Kind} (hkind : kind ≠ .number) {v : Value}
    (h : kind.isCanonical v = true) : kind.accepts v = .ok true := by
  cases kind with
  | number => exact absurd rfl hkind
  | _ => cases v <;> first | exact absurd h Bool.false_ne_true | rfl

/-- A value in canonical form is left as it is when it is read as a default. -/
lemma convertDefault_of_isCanonical {kind : Kind} {v : Value} (h : kind.isCanonical v = true) :
    kind.convertDefault v = .ok v := by
  cases kind <;> cases v <;> first | exact absurd h Bool.false_ne_true | rfl

/-- A default that has been converted is accepted: a number has been tested, and the other kinds accept
every value in canonical form. -/
lemma accepts_of_coerceDefault {kind : Kind} {v w : Value} (h : kind.coerceDefault v = .ok w) :
    kind.accepts w = .ok true := by
  by_cases hkind : kind = .number
  · obtain ⟨u, -, h⟩ := Outcome.seq_eq_ok.mp h
    obtain ⟨accepted, haccepts, h⟩ := Outcome.seq_eq_ok.mp h
    cases accepted with
    | false => cases h
    | true =>
      obtain rfl := Outcome.pure_eq_ok.mp h
      subst hkind
      cases u <;> exact haccepts
  · exact accepts_of_isCanonical hkind (isCanonical_of_coerceDefault h)

/-- A default that has been converted stays as it is when it is converted again. -/
theorem coerceDefault_coerceDefault {kind : Kind} {v w : Value}
    (h : kind.coerceDefault v = .ok w) : kind.coerceDefault w = .ok w := by
  have hcanonical := isCanonical_of_coerceDefault h
  rw [coerceDefault, convertDefault_of_isCanonical hcanonical]
  refine Outcome.seq_eq_ok.mpr
    ⟨w, rfl, Outcome.seq_eq_ok.mpr ⟨true, accepts_of_coerceDefault h, ?_⟩⟩
  rw [if_pos rfl, coerce_eq_self hcanonical]
  rfl

/-- A kind is read from its name. -/
lemma ofName_name (kind : Kind) : ofName (.text kind.name) = .ok kind := by
  cases kind <;> rfl

end Kind

/-! ## Columns -/

namespace Column

/-- The properties of a column are in the form in which a description gives them. -/
structure Canonical (column : Column) : Prop where
  required : ∃ b, column.required = .bool b
  primaryKey : ∃ b, column.primaryKey = .bool b
  unique : ∃ b, column.unique = .bool b
  autoIncrement : ∃ b, column.autoIncrement = .bool b
  /-- The default stays as it is when it is converted. -/
  defaultValue : ∀ v, column.defaultValue = some v → column.kind.coerceDefault v = .ok v
  /-- A reference is there or absent. -/
  foreignKey : column.foreignKey.isTruthy = true ∨ column.foreignKey = .null
  /-- A size is a positive integer, or the truth value that counts as one. -/
  size : column.size = .null ∨ column.size = .bool true ∨ ∃ i : Int, 1 ≤ i ∧ column.size = .int i
  described : column.Described

/-- The size that a column is described with is in canonical form. -/
lemma canonical_of_sizeOf {name : String} {v w : Value} (h : sizeOf name v = .ok w) :
    w = .null ∨ w = .bool true ∨ ∃ i : Int, 1 ≤ i ∧ w = .int i := by
  have hother : ∀ {u : Value},
      (u.display.bind fun shown => (.error (.violation (.badSize name shown)) : Except Fault Value)) ≠
        .ok w := by
    intro u
    cases u.display <;> exact nofun
  unfold sizeOf at h
  split at h
  · exact Or.inl (Except.ok.inj h).symm
  · exact Or.inr (Or.inl (Except.ok.inj h).symm)
  · split at h
    · rename_i i hi
      exact Or.inr (Or.inr ⟨i, hi, (Except.ok.inj h).symm⟩)
    · exact absurd h hother
  · exact absurd h hother

/-- The default that a column is described with stays as it is when it is converted. -/
lemma coerceDefault_of_defaultOf {name : String} {kind : Kind} {v w : Value}
    (h : defaultOf name kind v = .ok (some w)) : kind.coerceDefault w = .ok w := by
  rw [defaultOf] at h
  split at h
  · cases h
  · split at h
    · rename_i hcoerce
      cases h
      exact Kind.coerceDefault_coerceDefault hcoerce
    · split at h <;> cases h

/-- A column that is made from a mapping is in canonical form. -/
theorem canonical_ofEntries {name : Value} {entries : List (Value × Value)} {column : Column}
    (h : ofEntries name entries = .ok column) : column.Canonical ∧ column.name = name := by
  have hdescribed := described_ofEntries h
  obtain ⟨kind, -, h⟩ := Outcome.seq_eq_ok.mp h
  obtain ⟨size, hsize, h⟩ := Outcome.seq_eq_ok.mp h
  obtain ⟨defaultValue, hdefault, h⟩ := Outcome.seq_eq_ok.mp h
  obtain ⟨-, h⟩ := Outcome.unless_eq_ok.mp h
  obtain ⟨-, h⟩ := Outcome.unless_eq_ok.mp h
  obtain rfl := Outcome.pure_eq_ok.mp h
  refine ⟨⟨?_, ⟨_, rfl⟩, ?_, ⟨_, rfl⟩, ?_, ?_, canonical_of_sizeOf hsize, hdescribed⟩, rfl⟩
  · rw [make]
    split <;> exact ⟨_, rfl⟩
  · rw [make]
    split <;> exact ⟨_, rfl⟩
  · intro v hv
    obtain rfl : defaultValue = some v := hv
    exact coerceDefault_of_defaultOf hdefault
  · rw [make]
    dsimp only
    split
    · rename_i hthere
      exact Or.inl hthere
    · exact Or.inr rfl

/-- A column that is made from a value is in canonical form. -/
theorem canonical_ofValue {name v : Value} {column : Column} (h : ofValue name v = .ok column) :
    column.Canonical ∧ column.name = name := by
  unfold ofValue at h
  split at h
  · split at h
    · exact canonical_ofEntries h
    · cases h
  · exact canonical_ofEntries h

/-- A size in canonical form is read as itself. -/
lemma sizeOf_self {column : Column} (h : column.Canonical) (name : String) :
    sizeOf name column.size = .ok column.size := by
  rcases h.size with hsize | hsize | ⟨i, hi, hsize⟩
  · rw [hsize, sizeOf]
  · rw [hsize, sizeOf]
  · rw [hsize, sizeOf, if_pos hi]

/-- A default in canonical form is read as itself. -/
lemma defaultOf_self {column : Column} (h : column.Canonical) (name : String) :
    defaultOf name column.kind (.ofOption column.defaultValue) = .ok column.defaultValue := by
  cases hdefault : column.defaultValue with
  | none => rfl
  | some v =>
    have hcoerce := h.defaultValue v hdefault
    have hpresent : v.isNull = false :=
      Kind.isNull_of_isCanonical (Kind.isCanonical_of_coerceDefault hcoerce)
    rw [defaultOf, Value.ofOption, hpresent, if_neg Bool.false_ne_true, hcoerce]

/-- The description of a column as entries. -/
abbrev description (column : Column) : List (Value × Value) :=
  column.toFields.map fun field => (.text field.1, field.2)

/-- What stands under the names of the properties in the description of a column. -/
lemma entry_description (column : Column) :
    Value.lookup? "type" column.description = some (.text column.kind.name) ∧
    Value.entry "required" column.description = column.required ∧
    Value.entry "primaryKey" column.description = column.primaryKey ∧
    Value.entry "unique" column.description = column.unique ∧
    Value.entry "autoIncrement" column.description = column.autoIncrement ∧
    Value.entry "foreignKey" column.description = column.foreignKey ∧
    Value.entry "defaultValue" column.description = .ofOption column.defaultValue ∧
    Value.entry "size" column.description = column.size := by
  have hsize : ∀ v : Value, v.isNull = true → v = .null := by
    intro v hv
    cases v <;> first | rfl | cases hv
  simp only [description, toFields, Value.entry, Value.lookup?, Value.present?]
  cases hdefault : column.defaultValue with
  | none =>
    cases hnull : column.size.isNull with
    | true => simp [Value.text?, Value.ofOption, hsize _ hnull]
    | false => simp [Value.text?, Value.ofOption]
  | some v =>
    cases hnull : column.size.isNull with
    | true => simp [Value.text?, Value.ofOption, hsize _ hnull]
    | false => simp [Value.text?, Value.ofOption]

/-- A column in canonical form is made again from its own properties. -/
lemma make_self {column : Column} (h : column.Canonical) :
    make column.name column.kind (.bool column.required.isTruthy)
      (.bool column.primaryKey.isTruthy) (.bool column.unique.isTruthy)
      (.bool column.autoIncrement.isTruthy) column.defaultValue
      (if column.foreignKey.isTruthy then column.foreignKey else .null) column.size = column := by
  obtain ⟨r, hrequired⟩ := h.required
  obtain ⟨p, hprimary⟩ := h.primaryKey
  obtain ⟨u, hunique⟩ := h.unique
  obtain ⟨a, hnumbered⟩ := h.autoIncrement
  have hreference : (if column.foreignKey.isTruthy then column.foreignKey else .null) =
      column.foreignKey := by
    rcases h.foreignKey with hthere | hnone
    · rw [if_pos hthere]
    · rw [hnone]
      rfl
  rw [hreference]
  obtain ⟨name, kind, required, primaryKey, unique, autoIncrement, defaultValue, foreignKey, size,
    hdeclared⟩ := column
  dsimp only at hrequired hprimary hunique hnumbered
  subst hrequired hprimary hunique hnumbered
  cases p with
  | false => rfl
  | true =>
    obtain ⟨rfl, rfl⟩ : r = true ∧ u = true := hdeclared rfl
    rfl

/-- The description of a column is read from its entries. -/
lemma ofValue_description (name : Value) (column : Column) :
    ofValue name (.ofFields column.toFields) = ofEntries name column.description := by
  have htruthy : (Value.ofFields column.toFields).isTruthy = true := by
    simp [Value.ofFields, Value.isTruthy, toFields]
  unfold ofValue
  rw [if_pos htruthy, Value.ofFields]

/-- The description of a column in canonical form gives the column. -/
theorem ofValue_toFields {column : Column} (h : column.Canonical) :
    ofValue column.name (.ofFields column.toFields) = .ok column := by
  obtain ⟨htype, hrequired, hprimary, hunique, hnumbered, hreference, hdefault, hsize⟩ :=
    column.entry_description
  rw [ofValue_description, ofEntries, htype, hsize, hdefault]
  simp only [hrequired, hprimary, hunique, hnumbered, hreference, Option.getD_some]
  refine Outcome.seq_eq_ok.mpr ⟨_, Kind.ofName_name _, ?_⟩
  refine Outcome.seq_eq_ok.mpr ⟨_, sizeOf_self h _, ?_⟩
  refine Outcome.seq_eq_ok.mpr ⟨_, defaultOf_self h _, ?_⟩
  rw [make_self h]
  refine Outcome.unless_eq_ok.mpr ⟨?_, Outcome.unless_eq_ok.mpr ⟨?_, rfl⟩⟩
  · rw [Bool.and_eq_true, not_and]
    intro hu
    simp [h.described.unique hu]
  · rw [Bool.and_eq_true, not_and]
    intro hn
    simp [h.described.numbered hn]

end Column

/-! ## Faults of descriptions -/

/-- Every fault with which a step ends names a rule if it is about rules. -/
def NamesRules {α : Type} (step : Except Fault α) : Prop :=
  step ≠ .error (.violations [])

namespace NamesRules

variable {α β : Type}

/-- A chain of steps names rules if each of them does. -/
lemma seq {step : Except Fault α} {next : α → Except Fault β} (h : NamesRules step)
    (hnext : ∀ a, NamesRules (next a)) : NamesRules (step >>= next) := by
  cases step with
  | error fault => exact fun heq => h (congrArg Except.error (Except.error.inj heq))
  | ok a => exact hnext a

/-- A check before a step names its rule. -/
lemma check {c : Prop} [Decidable c] {v : Violation} {step : Except Fault α}
    (h : NamesRules step) : NamesRules
      (if c then (throw (.violation v) : Except Fault PUnit) >>= fun _ => step else step) := by
  split
  · exact fun heq => absurd (Except.error.inj heq) (by simp [Fault.violation])
  · exact h

/-- A text names no rules at all. -/
lemma display (v : Value) : NamesRules v.display := by
  rw [Value.display]
  cases v.display? <;> exact nofun

/-- The reading of a kind names rules. -/
lemma ofName (v : Value) : NamesRules (Kind.ofName v) := by
  refine (display v).seq fun shown => ?_
  split
  · exact nofun
  · exact fun heq => absurd (Except.error.inj heq) (by simp [Fault.violation])

/-- The reading of a size names rules. -/
lemma sizeOf (name : String) (v : Value) : NamesRules (Column.sizeOf name v) := by
  have hbad : ∀ u : Value, NamesRules
      (u.display.bind fun shown => (.error (.violation (.badSize name shown)) : Except Fault Value)) :=
    fun u => (display u).seq fun shown heq =>
      absurd (Except.error.inj heq) (by simp [Fault.violation])
  unfold Column.sizeOf
  split
  · exact nofun
  · exact nofun
  · split
    · exact nofun
    · exact hbad _
  · exact hbad _

/-- The conversion of a default names no rules. -/
lemma convertDefault (kind : Kind) (v : Value) : NamesRules (kind.convertDefault v) := by
  have hshown : ∀ u : Value, NamesRules (u.display.map Value.text) := by
    intro u
    rw [Value.display]
    cases u.display? <;> exact nofun
  unfold Kind.convertDefault
  split
  · split
    · rename_i numeral _
      rw [Value.ofNumeral]
      split <;> exact nofun
    · exact nofun
  · dsimp only
    split
    · exact nofun
    · split <;> exact nofun
  · exact nofun
  · exact nofun
  · exact nofun
  · exact hshown _
  · exact nofun

/-- The reading of a default names rules. -/
lemma defaultOf (name : String) (kind : Kind) (v : Value) :
    NamesRules (Column.defaultOf name kind v) := by
  have haccepts : ∀ u, NamesRules (kind.accepts u) := by
    intro u
    unfold Kind.accepts
    split <;> try split
    all_goals
      intro heq
      cases heq
  have hcoerce : NamesRules (kind.coerceDefault v) :=
    (convertDefault kind v).seq fun u => (haccepts u).seq fun accepted => by
      split
      · intro heq
        cases heq
      · intro heq
        cases heq
  rw [Column.defaultOf]
  split
  · intro heq
    cases heq
  · split
    · intro heq
      cases heq
    · rename_i fault hfault
      split
      · exact fun heq => absurd (Except.error.inj heq) (by simp [Fault.violation])
      · rw [hfault] at hcoerce
        exact fun heq => hcoerce (congrArg Except.error (Except.error.inj heq))

/-- The reading of a column names rules. -/
lemma ofEntries (name : Value) (entries : List (Value × Value)) :
    NamesRules (Column.ofEntries name entries) := by
  refine (ofName _).seq fun kind => (sizeOf _ _).seq fun size => (defaultOf _ _ _).seq fun d => ?_
  exact check (check nofun)

/-- The reading of a column names rules. -/
lemma ofValue (name v : Value) : NamesRules (Column.ofValue name v) := by
  unfold Column.ofValue
  split
  · split
    · exact ofEntries _ _
    · exact nofun
  · exact ofEntries _ _

end NamesRules

/-! ## Schemas -/

namespace Schema

/-- A schema is built by adding columns in canonical form one after the other. -/
inductive Built : Schema → Prop where
  | empty : Built empty
  | added {schema schema' : Schema} {column : Column} (h : Built schema)
      (hcolumn : column.Canonical) (hname : column.name.isHashable = true)
      (hadd : schema.add column = .ok schema') : Built schema'

variable {schema schema' : Schema}

/-- A column that is added comes last. -/
lemma columns_add {column : Column} (h : schema.add column = .ok schema') :
    schema'.columns = schema.columns ++ [column] := by
  rw [add] at h
  split at h
  · cases h
  · split at h
    · split at h
      · cases h
      · exact congrArg columns (Except.ok.inj h).symm
    · exact congrArg columns (Except.ok.inj h).symm

/-- The columns of a schema that is built are in canonical form. -/
lemma Built.canonical (h : schema.Built) : ∀ c ∈ schema.columns, c.Canonical := by
  induction h with
  | empty => exact nofun
  | added _ hcolumn _ hadd ih =>
    intro c hc
    rw [columns_add hadd, List.mem_append, List.mem_singleton] at hc
    rcases hc with hc | rfl
    · exact ih c hc
    · exact hcolumn

/-- A source is added as a column, or some rules are broken. -/
lemma addSource_cases {name properties : Value} {outcome : Except (List Violation) Schema}
    (h : schema.addSource name (.described properties) = .ok outcome) :
    (∃ column schema', Column.ofValue name properties = .ok column ∧
        column.name.isHashable = true ∧ schema.add column = .ok schema' ∧ outcome = .ok schema') ∨
      ∃ violation rest, outcome = .error (violation :: rest) := by
  have hrules := NamesRules.ofValue name properties
  rw [addSource, columnOf] at h
  split at h
  · rename_i column hcolumn
    split at h
    · rename_i hname
      obtain rfl := Except.ok.inj h
      cases hadd : schema.add column with
      | error violation => exact Or.inr ⟨violation, [], rfl⟩
      | ok added => exact Or.inl ⟨column, added, hcolumn, hname, hadd, rfl⟩
    · cases h
  · rename_i all hall
    obtain rfl := Except.ok.inj h
    cases all with
    | nil => exact absurd hall hrules
    | cons violation rest => exact Or.inr ⟨violation, rest, rfl⟩
  · cases h

/-- If no rule is broken, one column for each source has been added. -/
lemma Built.addAll {sources : List (Value × ColumnSource)} {broken : List Violation}
    (hsources : ∀ entry ∈ sources, ∃ properties, entry.2 = .described properties)
    (hbuilt : schema.Built) (h : addAll schema broken sources = .ok (schema', [])) :
    broken = [] ∧ schema'.Built ∧
      schema'.columns.length = schema.columns.length + sources.length := by
  induction sources generalizing schema broken with
  | nil =>
    cases h
    exact ⟨rfl, hbuilt, rfl⟩
  | cons entry rest ih =>
    obtain ⟨name, source⟩ := entry
    obtain ⟨⟨properties, hproperties⟩, hrest⟩ := List.forall_mem_cons.mp hsources
    dsimp only at hproperties
    subst hproperties
    obtain ⟨outcome, hfirst, h⟩ := Outcome.seq_eq_ok.mp h
    rcases addSource_cases hfirst with ⟨column, added, hcolumn, hname, hadd, rfl⟩ |
      ⟨violation, more, rfl⟩
    · obtain ⟨hcanonical, -⟩ := Column.canonical_ofValue hcolumn
      obtain ⟨hbroken, hdone, hlength⟩ := ih hrest (.added hbuilt hcanonical hname hadd) h
      refine ⟨hbroken, hdone, ?_⟩
      rw [hlength, columns_add hadd, List.length_append, List.length_singleton, List.length_cons]
      omega
    · obtain ⟨hbroken, -, -⟩ := ih hrest hbuilt h
      simp at hbroken

/-- A schema that is made from descriptions is built from columns in canonical form, and has at least
one. -/
theorem built_ofSource {source : SchemaSource} (hsource : source.IsDescribed)
    (h : ofSource source = .ok schema) : schema.Built ∧ schema.columns ≠ [] := by
  have hcolumns : ∀ sources : List (Value × ColumnSource),
      (∀ entry ∈ sources, ∃ properties, entry.2 = .described properties) →
        ofColumns sources = .ok schema → schema.Built ∧ schema.columns ≠ [] := by
    intro sources hsources h
    obtain ⟨hthere, h⟩ := Outcome.unless_eq_ok.mp h
    obtain ⟨⟨added, broken⟩, hadd, h⟩ := Outcome.seq_eq_ok.mp h
    dsimp only at h
    split at h
    · rename_i hnone
      obtain rfl := Outcome.pure_eq_ok.mp h
      obtain rfl : broken = [] := List.isEmpty_iff.mp hnone
      obtain ⟨-, hbuilt, hlength⟩ := Built.empty.addAll hsources hadd
      refine ⟨hbuilt, fun hempty => hthere ?_⟩
      rw [hempty] at hlength
      exact List.isEmpty_iff.mpr (List.eq_nil_of_length_eq_zero (Nat.add_eq_zero_iff.mp hlength.symm).2)
    · cases h
  cases source with
  | schema declared => cases hsource
  | columns sources => exact hcolumns sources hsource h
  | value v =>
    rw [ofSource] at h
    unfold ofValue at h
    split at h
    · split at h
      · refine hcolumns _ (fun entry hentry => ?_) h
        obtain ⟨⟨name, properties⟩, -, rfl⟩ := List.mem_map.mp hentry
        exact ⟨properties, rfl⟩
      · cases h
    · cases h

/-- Columns are added in two parts one part after the other. -/
lemma addAll_append (schema : Schema) (broken : List Violation)
    (first second : List (Value × ColumnSource)) :
    addAll schema broken (first ++ second) =
      addAll schema broken first >>= fun done => addAll done.1 done.2 second := by
  induction first generalizing schema broken with
  | nil => rfl
  | cons entry rest ih =>
    obtain ⟨name, source⟩ := entry
    rw [List.cons_append, addAll, addAll]
    cases schema.addSource name source with
    | error fault => rfl
    | ok outcome =>
      cases outcome with
      | error all => exact ih schema (broken ++ all)
      | ok added => exact ih added broken

/-- The descriptions of the columns of a schema that is built build it again. -/
lemma Built.addAll_descriptions (h : schema.Built) :
    Schema.addAll .empty [] (schema.columns.map fun c => (c.name, .described (.ofFields c.toFields))) =
      .ok (schema, []) := by
  induction h with
  | empty => rfl
  | @added before after column _ hcolumn hname hadd ih =>
    rw [columns_add hadd, List.map_append, addAll_append, ih]
    have hsource : before.addSource column.name (.described (.ofFields column.toFields)) =
        .ok (.ok after) := by
      rw [addSource, columnOf, Column.ofValue_toFields hcolumn]
      dsimp only
      rw [if_pos hname, hadd]
      rfl
    have hlast : Schema.addAll before []
        [(column.name, .described (.ofFields column.toFields))] = .ok (after, []) := by
      rw [Schema.addAll, hsource]
      rfl
    exact Outcome.seq_eq_ok.mpr ⟨_, rfl, hlast⟩

/-- The description of a schema that is built gives the schema. -/
theorem ofValue_toValue (h : schema.Built) (hcolumns : schema.columns ≠ []) :
    ofValue schema.toValue = .ok schema := by
  have hthere : schema.toRecord.isEmpty = false := by
    rw [List.isEmpty_eq_false_iff]
    exact mt List.map_eq_nil_iff.mp hcolumns
  have hsources : (schema.toRecord.map fun entry => (entry.1, ColumnSource.described entry.2)) =
      schema.columns.map fun c => (c.name, .described (.ofFields c.toFields)) := by
    rw [toRecord, List.map_map]
    rfl
  have hsome : (schema.toRecord.map fun entry =>
      (entry.1, ColumnSource.described entry.2)).isEmpty = false := by
    rw [List.isEmpty_map, hthere]
  have htruthy : schema.toValue.isTruthy = true := by
    rw [toValue, Value.isTruthy, hthere]
    rfl
  unfold ofValue
  rw [if_pos htruthy, toValue]
  refine Outcome.unless_eq_ok.mpr ⟨Bool.eq_false_iff.mp hsome, ?_⟩
  rw [hsources]
  exact Outcome.seq_eq_ok.mpr ⟨_, h.addAll_descriptions, rfl⟩

/-- A schema that is made from descriptions is given again by its own description. -/
theorem ofValue_toValue_of_isDescribed {source : SchemaSource} (hsource : source.IsDescribed)
    (h : ofSource source = .ok schema) : ofValue schema.toValue = .ok schema := by
  obtain ⟨hbuilt, hcolumns⟩ := built_ofSource hsource h
  exact ofValue_toValue hbuilt hcolumns

/-- Descriptions are in normal form.  A schema that is made from descriptions of its columns, however
loosely they are written, is given again by its own description; and a default that a kind takes, however
freely it is converted, is a value that the kind accepts and takes as it is. -/
theorem ofSource_normal :
    (∀ (source : SchemaSource) (schema : Schema), source.IsDescribed → ofSource source = .ok schema →
      ofValue schema.toValue = .ok schema) ∧
    ∀ (kind : Kind) (v w : Value), kind.coerceDefault v = .ok w →
      kind.accepts w = .ok true ∧ kind.coerceDefault w = .ok w := by
  constructor
  · intro source schema hsource hschema
    exact ofValue_toValue_of_isDescribed hsource hschema
  · intro kind v w hcoerce
    exact ⟨Kind.accepts_of_coerceDefault hcoerce, Kind.coerceDefault_coerceDefault hcoerce⟩

/-- Loose descriptions: a key by its spelling in queries, a number that is given as text, a word for a truth
value, a reference that counts as absent, and a column of which nothing is said. -/
def looseColumns : SchemaSource :=
  .columns
    [(.text "id", .described (.map
      [(.text "type", .text " Integer "), (.text "primaryKey", .int 1),
        (.text "autoIncrement", .text "yes")])),
      (.text "age", .described (.map
        [(.text "type", .text "int"), (.text "defaultValue", .text " 18 "),
          (.text "foreignKey", .map [])])),
      (.text "active", .described (.map
        [(.text "type", .text "bool"), (.text "defaultValue", .text "no")])),
      (.text "name", .described (.map
        [(.text "type", .text "varchar"), (.text "size", .int 5), (.text "defaultValue", .bool true)])),
      (.text "note", .described .null)]

/-- What the loose descriptions stand for is written in canonical form, and read as the same schema; the
number that a text stands for is taken as it is. -/
theorem ofSource_normal_looseColumns : ∃ schema,
    looseColumns.IsDescribed ∧ ofSource looseColumns = .ok schema ∧
      schema.columns.map (·.defaultValue) =
        [none, some (.int 18), some (.bool false), some (.text "True"), none] ∧
      ofValue schema.toValue = .ok schema ∧
      Kind.number.coerceDefault (.text " 18 ") = .ok (.int 18) ∧
      Kind.number.accepts (.int 18) = .ok true ∧ Kind.number.coerceDefault (.int 18) = .ok (.int 18) := by
  have hdescribed : looseColumns.IsDescribed := by
    simp [looseColumns, SchemaSource.IsDescribed]
  exact ⟨_, hdescribed, rfl, rfl, ofSource_normal.1 looseColumns _ hdescribed rfl, rfl,
    ofSource_normal.2 .number (.text " 18 ") (.int 18) rfl⟩

end Schema

end RecordStore
