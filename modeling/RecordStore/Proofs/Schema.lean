import RecordStore.Proofs.Kind
import RecordStore.Schema.Basic

/-!
# What schemas are made of

A schema that has been built by adding columns has columns whose names can be keys and are distinct,
and its primary key names a column that is one.  Columns that are described by a mapping are checked
when they are made: a unique one can be indexed, a numbered one holds numbers, and a default is in
canonical form.  Columns that are declared outright are not checked.
-/

namespace RecordStore

namespace Column

/-! ## Columns -/

/-- What is checked of a column that is described by a mapping. -/
structure Described (column : Column) : Prop where
  /-- A unique column can be indexed. -/
  unique : column.isUnique = true → column.kind.isIndexable = true
  /-- A numbered column holds numbers. -/
  numbered : column.isNumbered = true → column.kind = .number
  /-- The default is in canonical form. -/
  canonical : ∀ v, column.defaultValue = some v → column.kind.isCanonical v = true

/-- The default of a column that can be indexed can be a key. -/
def HasKeyDefault (column : Column) : Prop :=
  column.kind.isIndexable = true → ∀ v, column.defaultValue = some v → v.isHashable = true

/-- The default of a described column can be a key if the column can be indexed. -/
lemma Described.hasKeyDefault {column : Column} (h : column.Described) : column.HasKeyDefault :=
  fun hkind v hv => Value.isHashable_of_isPlain
    (Kind.isPlain_of_isCanonical hkind (h.canonical v hv))

/-- A primary key is unique. -/
lemma isUnique_of_isPrimaryKey {column : Column} (h : column.isPrimaryKey = true) :
    column.isUnique = true :=
  (column.primary_declared h).2

/-- The default that a column is described with is in canonical form. -/
lemma isCanonical_of_defaultOf {name : String} {kind : Kind} {v w : Value}
    (h : defaultOf name kind v = .ok (some w)) : kind.isCanonical w = true := by
  rw [defaultOf] at h
  split at h
  · cases h
  · split at h
    · rename_i hcoerce
      cases h
      exact Kind.isCanonical_of_coerceDefault hcoerce
    · split at h <;> cases h

/-- A column that is made from a mapping has been checked. -/
theorem described_ofEntries {name : Value} {entries : List (Value × Value)} {column : Column}
    (h : ofEntries name entries = .ok column) : column.Described := by
  obtain ⟨kind, -, h⟩ := Outcome.seq_eq_ok.mp h
  obtain ⟨size, -, h⟩ := Outcome.seq_eq_ok.mp h
  obtain ⟨defaultValue, hdefault, h⟩ := Outcome.seq_eq_ok.mp h
  obtain ⟨hunique, h⟩ := Outcome.unless_eq_ok.mp h
  obtain ⟨hnumbered, h⟩ := Outcome.unless_eq_ok.mp h
  obtain rfl := Outcome.pure_eq_ok.mp h
  refine ⟨fun hu => ?_, fun hn => ?_, fun v hv => ?_⟩
  · change kind.isIndexable = true
    simpa [hu] using hunique
  · change kind = .number
    simpa [hn] using hnumbered
  · obtain rfl : defaultValue = some v := hv
    exact isCanonical_of_defaultOf hdefault

/-- A column that is made from a value has been checked. -/
theorem described_ofValue {name v : Value} {column : Column} (h : ofValue name v = .ok column) :
    column.Described := by
  unfold ofValue at h
  split at h
  · split at h
    · exact described_ofEntries h
    · cases h
  · exact described_ofEntries h

end Column

namespace Schema

/-! ## Schemas -/

/-- The invariants of a schema that has been built by adding columns that have a property. -/
structure Sound (P : Column → Prop) (schema : Schema) : Prop where
  /-- The names of the columns can be keys. -/
  hashable : ∀ c ∈ schema.columns, c.name.isHashable = true
  /-- No two columns have the same name. -/
  distinct : schema.columns.Pairwise fun a b => (a.name == b.name) = false
  /-- The primary key names a column that is one. -/
  key : ∀ k, schema.primaryKey = some k → ∃ c ∈ schema.columns, c.name = k ∧ c.isPrimaryKey = true
  /-- Every column has the property. -/
  each : ∀ c ∈ schema.columns, P c

variable {P Q : Column → Prop}

/-- A weaker property of the columns may take the place of a stronger one. -/
lemma Sound.mono {schema : Schema} (h : schema.Sound P) (hPQ : ∀ c, P c → Q c) : schema.Sound Q :=
  ⟨h.hashable, h.distinct, h.key, fun c hc => hPQ c (h.each c hc)⟩

/-- The schema without columns satisfies the invariants. -/
lemma sound_empty : empty.Sound P :=
  ⟨by simp [empty], List.Pairwise.nil, by simp [empty], by simp [empty]⟩

/-- Columns of the same name are the same column. -/
lemma Sound.eq_of_beq {schema : Schema} (h : schema.Sound P) {a b : Column}
    (ha : a ∈ schema.columns) (hb : b ∈ schema.columns) (hab : (a.name == b.name) = true) :
    a = b := by
  refine List.Pairwise.forall_of_forall_of_flip
    (R := fun a b : Column => (a.name == b.name) = true → a = b) (fun _ _ _ => rfl) ?_ ?_ ha hb hab
  · refine h.distinct.imp fun hne heq => ?_
    rw [hne] at heq
    cases heq
  · refine h.distinct.imp_of_mem fun {c d} _ hd hne heq => ?_
    rw [Value.beq_comm (h.hashable d hd), hne] at heq
    cases heq

/-- A column is found under its name. -/
lemma Sound.column?_eq {schema : Schema} (h : schema.Sound P) {c : Column} (hc : c ∈ schema.columns) :
    schema.column? c.name = some c := by
  obtain ⟨found, hfound⟩ : ∃ found, schema.column? c.name = some found :=
    Option.isSome_iff_exists.mp (List.find?_isSome.mpr ⟨c, hc, Value.beq_self _⟩)
  have hname : (found.name == c.name) = true :=
    List.find?_some (p := fun other : Column => other.name == c.name) hfound
  rw [hfound, h.eq_of_beq (List.mem_of_find?_eq_some hfound) hc hname]

/-- Adding a column keeps the invariants. -/
lemma Sound.add {schema schema' : Schema} {column : Column} (h : schema.Sound P)
    (hname : column.name.isHashable = true) (hcolumn : P column)
    (hadd : schema.add column = .ok schema') : schema'.Sound P := by
  rw [Schema.add] at hadd
  split at hadd
  · cases hadd
  rename_i hnew
  have hcolumns : schema'.columns = schema.columns ++ [column] := by
    split at hadd
    · split at hadd <;> cases hadd
      rfl
    · cases hadd
      rfl
  have hmem : ∀ c, c ∈ schema'.columns ↔ c ∈ schema.columns ∨ c = column := fun c => by
    rw [hcolumns, List.mem_append, List.mem_singleton]
  have hfresh : ∀ c ∈ schema.columns, (c.name == column.name) = false := fun c hc => by
    have hnone := List.any_eq_false.mp (Bool.eq_false_iff.mpr hnew) c hc
    exact Bool.eq_false_iff.mpr hnone
  refine ⟨fun c hc => ?_, ?_, fun k hk => ?_, fun c hc => ?_⟩
  · rcases (hmem c).mp hc with hc | rfl
    · exact h.hashable c hc
    · exact hname
  · rw [hcolumns, List.pairwise_append]
    refine ⟨h.distinct, List.pairwise_singleton _ _, fun a ha b hb => ?_⟩
    obtain rfl := List.mem_singleton.mp hb
    exact hfresh a ha
  · split at hadd
    · rename_i hprimary
      split at hadd <;> cases hadd
      rw [Value.present?] at hk
      split at hk <;> cases hk
      exact ⟨column, (hmem column).mpr (Or.inr rfl), rfl, hprimary⟩
    · cases hadd
      obtain ⟨c, hc, hck⟩ := h.key k hk
      exact ⟨c, (hmem c).mpr (Or.inl hc), hck⟩
  · rcases (hmem c).mp hc with hc | rfl
    · exact h.each c hc
    · exact hcolumn

/-- Adding the column of a source keeps the invariants. -/
lemma Sound.addSource {schema schema' : Schema} {name : Value} {source : ColumnSource}
    (h : schema.Sound P) (hsource : ∀ c, columnOf name source = .ok c → P c)
    (hadd : addSource schema name source = .ok (.ok schema')) : schema'.Sound P := by
  rw [Schema.addSource] at hadd
  split at hadd
  · rename_i column hcolumn
    split at hadd
    · rename_i hname
      cases hok : schema.add column with
      | error violation => simp [hok, Except.mapError] at hadd
      | ok added =>
        obtain rfl : added = schema' := by simpa [hok, Except.mapError] using hadd
        exact h.add hname (hsource column hcolumn) hok
    · cases hadd
  · cases hadd
  · cases hadd

/-- Adding the columns of sources keeps the invariants. -/
lemma Sound.addAll {sources : List (Value × ColumnSource)} {schema schema' : Schema}
    {broken broken' : List Violation} (h : schema.Sound P)
    (hsources : ∀ entry ∈ sources, ∀ c, columnOf entry.1 entry.2 = .ok c → P c)
    (hadd : addAll schema broken sources = .ok (schema', broken')) : schema'.Sound P := by
  induction sources generalizing schema broken with
  | nil =>
    cases hadd
    exact h
  | cons entry rest ih =>
    obtain ⟨name, source⟩ := entry
    have hrest : ∀ entry ∈ rest, ∀ c, columnOf entry.1 entry.2 = .ok c → P c :=
      fun entry hentry => hsources entry (List.mem_cons_of_mem _ hentry)
    obtain ⟨outcome, hfirst, hadd⟩ := Outcome.seq_eq_ok.mp hadd
    cases outcome with
    | error violations => exact ih h hrest hadd
    | ok added =>
      exact ih (h.addSource (hsources (name, source) List.mem_cons_self) hfirst) hrest hadd

/-- A schema with columns from sources satisfies the invariants. -/
theorem sound_ofColumns {sources : List (Value × ColumnSource)} {schema : Schema}
    (hsources : ∀ entry ∈ sources, ∀ c, columnOf entry.1 entry.2 = .ok c → P c)
    (h : ofColumns sources = .ok schema) : schema.Sound P := by
  obtain ⟨-, h⟩ := Outcome.unless_eq_ok.mp h
  obtain ⟨⟨added, broken⟩, hadd, h⟩ := Outcome.seq_eq_ok.mp h
  dsimp only at h
  split at h
  · obtain rfl := Outcome.pure_eq_ok.mp h
    exact sound_empty.addAll hsources hadd
  · cases h

/-- A schema that a value describes satisfies the invariants, and its columns have been checked. -/
theorem sound_ofValue {v : Value} {schema : Schema} (h : ofValue v = .ok schema) :
    schema.Sound Column.Described := by
  unfold ofValue at h
  split at h
  · split at h
    · refine sound_ofColumns (fun entry hentry c hc => ?_) h
      obtain ⟨⟨name, properties⟩, -, rfl⟩ := List.mem_map.mp hentry
      exact Column.described_ofValue hc
    · cases h
  · cases h

end Schema

namespace SchemaSource

/-! ## Sources -/

/-- A source that only describes columns by mappings. -/
def IsDescribed : SchemaSource → Prop
  | .schema _ => False
  | .columns sources => ∀ entry ∈ sources, ∃ properties, entry.2 = .described properties
  | .value _ => True

/-- A source whose columns have defaults that can be keys if the columns can be indexed. -/
def HasKeyDefaults : SchemaSource → Prop
  | .schema declared => declared.Sound Column.HasKeyDefault
  | .columns sources =>
    ∀ entry ∈ sources, ∀ column, entry.2 = .declared column → column.HasKeyDefault
  | .value _ => True

/-- A source whose declared columns have a property. -/
def Declares (P : Column → Prop) : SchemaSource → Prop
  | .schema declared => declared.Sound P
  | .columns sources => ∀ entry ∈ sources, ∀ column, entry.2 = .declared column → P column
  | .value _ => True

/-- A source that only describes columns declares none. -/
lemma IsDescribed.declares {P : Column → Prop} {source : SchemaSource} (h : source.IsDescribed) :
    source.Declares P := by
  cases source with
  | schema declared => cases h
  | columns sources =>
    intro entry hentry column hcolumn
    obtain ⟨properties, hproperties⟩ := h entry hentry
    rw [hproperties] at hcolumn
    cases hcolumn
  | value v => trivial

/-- A source whose declared columns have defaults that can be keys where they have to be has such
defaults. -/
lemma hasKeyDefaults_iff_declares {source : SchemaSource} :
    source.HasKeyDefaults ↔ source.Declares Column.HasKeyDefault := by
  cases source <;> exact Iff.rfl

/-- A source that only describes columns has defaults that can be keys where they have to be. -/
lemma IsDescribed.hasKeyDefaults {source : SchemaSource} (h : source.IsDescribed) :
    source.HasKeyDefaults :=
  hasKeyDefaults_iff_declares.mpr h.declares

/-- The columns of a schema from a source that describes them have been checked. -/
theorem IsDescribed.sound {source : SchemaSource} (hsource : source.IsDescribed) {schema : Schema}
    (h : Schema.ofSource source = .ok schema) : schema.Sound Column.Described := by
  cases source with
  | schema declared => cases hsource
  | columns sources =>
    refine Schema.sound_ofColumns (fun entry hentry c hc => ?_) h
    obtain ⟨properties, hproperties⟩ := hsource entry hentry
    rw [hproperties] at hc
    exact Column.described_ofValue hc
  | value v => exact Schema.sound_ofValue h

/-- The columns of a schema from a source have a property of described columns that the declared ones
have. -/
theorem Declares.sound {P : Column → Prop} (hdescribed : ∀ c : Column, c.Described → P c)
    {source : SchemaSource} (hsource : source.Declares P) {schema : Schema}
    (h : Schema.ofSource source = .ok schema) : schema.Sound P := by
  cases source with
  | schema declared =>
    obtain rfl : declared = schema := by simpa [Schema.ofSource] using h
    exact hsource
  | columns sources =>
    refine Schema.sound_ofColumns (fun entry hentry c hc => ?_) h
    cases hentrySource : entry.2 with
    | declared column =>
      rw [hentrySource] at hc
      obtain rfl : column = c := by simpa [Schema.columnOf] using hc
      exact hsource entry hentry column hentrySource
    | described properties =>
      rw [hentrySource] at hc
      exact hdescribed c (Column.described_ofValue hc)
  | value v => exact (Schema.sound_ofValue h).mono hdescribed

/-- The columns of a schema from a source with defaults that can be keys have such defaults. -/
theorem HasKeyDefaults.sound {source : SchemaSource} (hsource : source.HasKeyDefaults)
    {schema : Schema} (h : Schema.ofSource source = .ok schema) :
    schema.Sound Column.HasKeyDefault :=
  (hasKeyDefaults_iff_declares.mp hsource).sound (fun _ hc => hc.hasKeyDefault) h

end SchemaSource

end RecordStore
