import RecordStore.Proofs.Number.Order
import RecordStore.Proofs.Table.Tidy

/-!
# Conformance of rows

In every state of a table whose columns have been described by mappings, what is stored conforms to
the schema: a record has only columns of the schema, in their order, and no absent values, every
required column and every numbered one is there, and a value is in the canonical form of its column
and, if it is a text, not longer than the column allows.

Values get into a row in three ways, and each is held to the limit of a column differently: a value
that is supplied is measured, a default never is, and the number of a numbered column is no text.
This is why the texts among the defaults have to fit.
-/

namespace RecordStore

/-! ## Limits -/

namespace Column

variable {column : Column} {isTaken : TakenTest} {updating : Bool}

/-- The greatest number of characters that the size of a column allows, if there is a limit; a truth
value counts as zero or one. -/
def limit? (column : Column) : Option Int :=
  match column.size with
  | .int i => some i
  | .bool b => some (if b then 1 else 0)
  | _ => none

/-- A value that is a text has no more characters than a column allows. -/
def Fits (column : Column) (v : Value) : Prop :=
  ∀ s, v = .text s → ∀ limit, column.limit? = some limit → (s.length : Int) ≤ limit

/-- What a column may store: a value in canonical form that fits. -/
structure Stores (column : Column) (v : Value) : Prop where
  canonical : column.kind.isCanonical v = true
  fits : column.Fits v

/-- A column that has been described has no limit only if it has no size. -/
theorem Canonical.limit?_eq_none_iff (h : column.Canonical) :
    column.limit? = none ↔ column.size = .null := by
  rw [limit?]
  rcases h.size with hsize | hsize | ⟨i, -, hsize⟩ <;> simp [hsize]

/-- The limit of a column is the value of its size. -/
lemma exists_size_of_limit? {limit : Int} (h : column.limit? = some limit) :
    ∃ size, column.size.number? = some size ∧ size.value? = some (limit : Rat) := by
  rw [limit?] at h
  split at h
  · rename_i i hsize
    obtain rfl := Option.some.inj h
    rw [hsize]
    exact ⟨_, rfl, rfl⟩
  · rename_i b hsize
    obtain rfl := Option.some.inj h
    rw [hsize]
    refine ⟨_, rfl, ?_⟩
    cases b <;> rfl
  · cases h

/-- A text is found to be too long if it is longer than the limit of its column. -/
lemma exceeds_text {limit : Int} (h : column.limit? = some limit) (s : String) :
    exceeds (.text s) column.size = .ok (decide (limit < s.length)) := by
  obtain ⟨size, hsize, hvalue⟩ := exists_size_of_limit? h
  have hlength : (Number.whole s.length).value? = some ((s.length : Int) : Rat) := rfl
  rw [exceeds, hsize]
  refine congrArg Except.ok (Bool.eq_iff_iff.mpr ?_)
  rw [Number.less_iff hvalue hlength, decide_eq_true_iff, Int.cast_lt]

/-- A value that is not found to be too long fits. -/
lemma fits_of_exceeds {v : Value} (h : exceeds v column.size = .ok false) : column.Fits v := by
  rintro s rfl limit hlimit
  rw [exceeds_text hlimit] at h
  simpa using h

/-- A value that passes with its size is one that fits. -/
lemma fits_of_sizeVerdict {v w : Value} (h : column.sizeVerdict v = .ok (.stored w)) :
    column.Fits v := by
  rw [sizeVerdict] at h
  split at h
  · rename_i hnull
    intro s _ limit hlimit
    rw [limit?] at hlimit
    cases hsize : column.size <;> simp [hsize, Value.isNull] at hnull hlimit
  · obtain ⟨long, hlong, hverdict⟩ := Outcome.map_eq_ok.mp h
    cases long with
    | true => cases hverdict
    | false => exact fits_of_exceeds hlong

/-- A value that passes is stored in a form that the column may store. -/
lemma stores_of_passes {v : Value} {verdict : Verdict} (hpresent : v.isNull = false)
    (h : column.Passes isTaken updating v verdict) :
    verdict = .stored (column.kind.coerce v) ∧ column.Stores (column.kind.coerce v) := by
  obtain ⟨rfl, haccepts, -⟩ := passes_present hpresent h
  have hverdict := h.1
  rw [Column.verdict, if_neg (by simp [hpresent]), haccepts] at hverdict
  exact ⟨rfl, Kind.isCanonical_coerce haccepts, fits_of_sizeVerdict hverdict⟩

/-- A value has to be there: the column requires it, or numbers its rows. -/
def IsNeeded (column : Column) : Prop :=
  column.isRequired = true ∨ column.isNumbered = true

/-- What passes for a needed column is there, unless it is yet to be numbered. -/
lemma isSome_of_passes {v : Value} {verdict : Verdict} (hneeded : column.IsNeeded)
    (hlast : updating = true ∨ column.isNumbered = false)
    (h : column.Passes isTaken updating v verdict) : verdict.value?.isSome = true := by
  cases hnull : v.isNull with
  | false =>
    obtain ⟨rfl, -⟩ := stores_of_passes hnull h
    rfl
  | true =>
    obtain ⟨hverdict, hbroken⟩ := h
    have hmissing : column.absentVerdict updating = .missing := by
      rw [absentVerdict]
      rcases hlast with rfl | hplain
      · rcases hneeded with hrequired | hnumbered <;> simp [*]
      · have hrequired : column.isRequired = true := hneeded.resolve_right (by simp [hplain])
        simp [hrequired, hplain]
    rw [Column.verdict, if_pos hnull, hmissing] at hverdict
    obtain rfl := Except.ok.inj hverdict
    simp [Verdict.broken] at hbroken

end Column

/-! ## Records -/

namespace Schema

variable {schema : Schema} {isTaken : TakenTest} {updating : Bool}

/-- The texts among the defaults of the columns fit. -/
def DefaultsFit (schema : Schema) : Prop :=
  ∀ c ∈ schema.columns, ∀ v, c.defaultValue = some v → c.Fits v

/-- What a record of a schema has to be to be stored. -/
structure Conforms (schema : Schema) (record : Record) : Prop where
  /-- There are only columns of the schema, in their order. -/
  ordered : (Entries.keys record).Sublist schema.names
  /-- No value is absent. -/
  present : ∀ entry ∈ record, entry.2.isNull = false
  /-- Every value may be stored in its column. -/
  stores : ∀ entry ∈ record, ∃ c ∈ schema.columns, c.name = entry.1 ∧ c.Stores entry.2
  /-- Every required column and every numbered one is there. -/
  complete : ∀ c ∈ schema.columns, c.IsNeeded → (record.lookup c.name).isSome = true

/-- What a column holds in a record whose columns are distinct it holds in the entry of its name. -/
lemma Orders.distinct {P : Column → Prop} (hschema : schema.Sound P) {record : Record}
    (h : schema.Orders record) : Entries.Distinct record := by
  have hnames : schema.names.Pairwise fun a b => (a == b) = false :=
    List.pairwise_map.mpr hschema.distinct
  exact List.pairwise_map.mp (hnames.sublist h)

/-- A record in the order of the columns conforms if every column may store what it holds, and what
is needed is there. -/
lemma conforms_of_holds {P : Column → Prop} (hschema : schema.Sound P) {record : Record}
    (horders : schema.Orders record) (hholds : schema.Holds Column.Stores record)
    (hcomplete : ∀ c ∈ schema.columns, c.IsNeeded → (record.lookup c.name).isSome = true) :
    schema.Conforms record := by
  have hstores : ∀ entry ∈ record, ∃ c ∈ schema.columns, c.name = entry.1 ∧ c.Stores entry.2 := by
    intro entry hentry
    obtain ⟨c, hc, hname⟩ := List.mem_map.mp (horders.subset (List.mem_map_of_mem hentry))
    refine ⟨c, hc, hname, hholds c hc _ ?_⟩
    rw [hname]
    exact (horders.distinct hschema).lookup_eq_some (hname ▸ hschema.hashable c hc) hentry
  refine ⟨horders, fun entry hentry => ?_, hstores, hcomplete⟩
  obtain ⟨c, -, -, hstored⟩ := hstores entry hentry
  exact Kind.isNull_of_isCanonical hstored.canonical

/-- A described column may store its default if that fits. -/
lemma DefaultsFit.stores (hfits : schema.DefaultsFit) (hschema : schema.Sound Column.Described)
    {c : Column} (hc : c ∈ schema.columns) {v : Value} (hv : c.defaultValue = some v) :
    c.Stores v :=
  ⟨(hschema.each c hc).canonical v hv, hfits c hc v hv⟩

/-- Every column may store what a validated record holds. -/
lemma stores_of_validate (hschema : schema.Sound Column.Described) (hfits : schema.DefaultsFit)
    {given record : Record} (h : schema.validate isTaken updating given = .ok record) :
    schema.Holds Column.Stores record := by
  intro c hc v hv
  obtain ⟨verdict, hpasses, hlookup⟩ := lookup_of_validate hschema h c hc
  rw [hlookup] at hv
  cases hnull : (given.value c.name).isNull with
  | true =>
    rcases Column.passes_absent hnull hpasses with rfl | ⟨d, rfl, hd, -, -⟩
    · cases hv
    · obtain rfl : d = v := Option.some.inj hv
      exact hfits.stores hschema hc hd
  | false =>
    obtain ⟨rfl, hstores⟩ := Column.stores_of_passes hnull hpasses
    obtain rfl : c.kind.coerce (given.value c.name) = v := Option.some.inj hv
    exact hstores

/-- A needed column is there in a validated record, unless it is yet to be numbered. -/
lemma isSome_of_validate {P : Column → Prop} (hschema : schema.Sound P) {given record : Record}
    (h : schema.validate isTaken updating given = .ok record) {c : Column}
    (hc : c ∈ schema.columns) (hneeded : c.IsNeeded)
    (hlast : updating = true ∨ c.isNumbered = false) : (record.lookup c.name).isSome = true := by
  obtain ⟨verdict, hpasses, hlookup⟩ := lookup_of_validate hschema h c hc
  rw [hlookup]
  exact Column.isSome_of_passes hneeded hlast hpasses

end Schema

/-! ## Numbered columns -/

namespace Table

variable {table table' : Table}

/-- Numbered columns that are filled are there. -/
lemma isSome_lookup_fillNumbers {columns : List Value} {record filled : Record}
    (hcolumns : ∀ column ∈ columns, column.isHashable = true)
    (h : table.fillNumbers record columns = .ok filled) {k : Value}
    (hthere : (record.lookup k).isSome = true ∨ k ∈ columns) :
    (filled.lookup k).isSome = true := by
  induction columns generalizing record with
  | nil =>
    obtain rfl := Except.ok.inj h
    exact hthere.resolve_right List.not_mem_nil
  | cons column rest ih =>
    obtain ⟨v, -, h⟩ := Outcome.seq_eq_ok.mp h
    refine ih (fun c hc => hcolumns c (List.mem_cons_of_mem _ hc)) h ?_
    rw [Entries.has_eq_isSome_lookup (hcolumns column List.mem_cons_self)]
    rcases hthere with hrecord | hmem
    · left
      split
      · exact hrecord
      · rw [List.lookup_append, Option.isSome_or, hrecord, Bool.true_or]
    · rcases List.mem_cons.mp hmem with rfl | hrest
      · left
        split
        · assumption
        · simp [List.lookup_append]
      · exact Or.inr hrest

/-- A numbered column is there in a completed record. -/
lemma isSome_lookup_complete {P : Column → Prop} (hschema : table.schema.Sound P)
    {record completed : Record} (h : table.complete record = .ok completed) {c : Column}
    (hc : c ∈ table.schema.columns) (hnumbered : c.isNumbered = true) :
    (completed.lookup c.name).isSome = true := by
  have hname : c.name ∈ table.schema.autoNames :=
    List.mem_map_of_mem (List.mem_filter.mpr ⟨hc, hnumbered⟩)
  have hhash := hschema.hashable c hc
  rw [complete] at h
  split at h
  · rename_i hall
    obtain rfl := Except.ok.inj h
    rw [← Entries.has_eq_isSome_lookup hhash]
    exact List.all_eq_true.mp hall _ hname
  · obtain ⟨filled, hfilled, rfl⟩ := Outcome.map_eq_ok.mp h
    rw [lookup_inOrder hschema _ hc]
    refine isSome_lookup_fillNumbers (fun column hcolumn => ?_) hfilled (Or.inr hname)
    obtain ⟨d, hd, rfl⟩ := List.mem_map.mp hcolumn
    exact hschema.hashable d (List.mem_filter.mp hd).1

/-- Every column may store its next number. -/
lemma IsCanonical.stores_nextNumber (h : table.IsCanonical)
    (hschema : table.schema.Sound Column.Described) {c : Column} (hc : c ∈ table.schema.columns)
    (hnumbered : c.isNumbered = true) {v : Value} (hnext : table.nextNumber c.name = .ok v) :
    c.Stores v := by
  refine ⟨h.nextNumber hschema hc hnumbered hnext, ?_⟩
  rintro s rfl
  obtain ⟨n, hn⟩ := nextNumber_eq hnext
  cases n <;> cases hn

/-! ## Steps -/

/-- A needed column is there in a record that has been admitted. -/
lemma isSome_of_admits {P : Column → Prop} (hschema : table.schema.Sound P) {v : Value}
    {record : Record} (hadmits : table.Admits v record) {c : Column}
    (hc : c ∈ table.schema.columns) (hneeded : c.IsNeeded) :
    (record.lookup c.name).isSome = true := by
  obtain ⟨checked, hchecked, hcomplete⟩ := exists_validate_of_admits hadmits
  cases hnumbered : c.isNumbered with
  | true => exact isSome_lookup_complete hschema hcomplete hc hnumbered
  | false =>
    rcases lookup_complete hschema hcomplete hc with hsame | ⟨-, hnumbered', -⟩
    · rw [hsame]
      exact Schema.isSome_of_validate hschema hchecked hc hneeded (Or.inr hnumbered)
    · rw [hnumbered] at hnumbered'
      cases hnumbered'

/-- A record that has been admitted conforms to the schema. -/
theorem IsCanonical.conforms_of_admits (h : table.IsCanonical)
    (hschema : table.schema.Sound Column.Described) (hfits : table.schema.DefaultsFit) {v : Value}
    {record : Record} (hadmits : table.Admits v record) : table.schema.Conforms record := by
  refine Schema.conforms_of_holds hschema (orders_of_admits hadmits) ?_
    fun c hc => isSome_of_admits hschema hadmits hc
  obtain ⟨checked, hchecked, hcomplete⟩ := exists_validate_of_admits hadmits
  exact holds_of_complete hschema
    (fun c hc hnumbered _ hnext => h.stores_nextNumber hschema hc hnumbered hnext)
    (Schema.stores_of_validate hschema hfits hchecked) hcomplete

/-- A needed column is there in the records of a prepared update. -/
lemma isSome_of_prepareUpdate {P : Column → Prop} (hschema : table.schema.Sound P)
    {conditions patch : Value} {staged : List (RowId × Record)}
    (h : table.prepareUpdate conditions patch = .ok staged) {c : Column}
    (hc : c ∈ table.schema.columns) (hneeded : c.IsNeeded) :
    ∀ entry ∈ staged, (entry.2.lookup c.name).isSome = true := by
  intro entry hentry
  obtain ⟨isTaken, given, hvalid⟩ := exists_validate_of_prepareUpdate h entry hentry
  exact Schema.isSome_of_validate hschema hvalid hc hneeded (Or.inl rfl)

/-- The records of a prepared update conform to the schema. -/
theorem conforms_of_prepareUpdate (hschema : table.schema.Sound Column.Described)
    (hfits : table.schema.DefaultsFit) {conditions patch : Value} {staged : List (RowId × Record)}
    (h : table.prepareUpdate conditions patch = .ok staged) :
    ∀ entry ∈ staged, table.schema.Conforms entry.2 := by
  intro entry hentry
  obtain ⟨isTaken, given, hvalid⟩ := exists_validate_of_prepareUpdate h entry hentry
  exact Schema.conforms_of_holds hschema (Schema.orders_of_validate hvalid)
    (Schema.stores_of_validate hschema hfits hvalid)
    fun c hc hneeded => Schema.isSome_of_validate hschema hvalid hc hneeded (Or.inl rfl)

/-- A step keeps rows that conform to the schema. -/
theorem Settled.conforms_step {records : List (Int × Record)} (h : table.Settled records)
    (hfits : table.schema.DefaultsFit) (hrows : table.EachRecord table.schema.Conforms)
    (hstep : Step table table') : table'.EachRecord table'.schema.Conforms := by
  rw [hstep.schema_eq]
  exact hstep.eachRecord hrows
    (fun _ _ hadmits => h.canonical.conforms_of_admits h.described hfits hadmits)
    fun _ _ _ hstaged => conforms_of_prepareUpdate h.described hfits hstaged

/-- Steps keep rows that conform to the schema. -/
theorem Settled.conforms_reaches {records : List (Int × Record)} (h : table.Settled records)
    (hfits : table.schema.DefaultsFit) (hrows : table.EachRecord table.schema.Conforms)
    (hreaches : Reaches table table') : table'.EachRecord table'.schema.Conforms := by
  induction hreaches with
  | refl => exact hrows
  | tail hmany hstep ih =>
    obtain ⟨records', hsettled⟩ := h.reaches hmany
    exact hsettled.conforms_step (Reaches.schema_eq hmany ▸ hfits) ih hstep

/-! ## Every state -/

/-- In every state of a table whose columns have been described by mappings with defaults that fit,
whatever has been asked of it and with whatever outcome, every row is a record that conforms to the
schema. -/
theorem conforms_run {source : SchemaSource} (hsource : source.IsDescribed) {schema : Schema}
    (hschema : Schema.ofSource source = .ok schema) (hfits : schema.DefaultsFit)
    {name directory : String} {created : Table} {effects : List Effect}
    (hcreate : Table.create name (.schema schema) directory = .ok (created, effects))
    (requests : List Request) : (created.run requests).EachRecord schema.Conforms := by
  have hsettled := settled_of_create hsource hschema hcreate
  have hcreated : created.schema = schema := by
    obtain ⟨hreaches, -⟩ :=
      lists_of_create ((hsource.sound hschema).mono fun _ hc => hc.hasKeyDefault) rfl hcreate
    exact hreaches.schema_eq
  have hreaches := hsettled.steady.reaches_run requests
  have hrun : (created.run requests).schema = schema := hreaches.schema_eq.trans hcreated
  have hempty : created.EachRecord created.schema.Conforms := by
    intro entry hentry
    rw [hsettled.lists.rows] at hentry
    cases hentry
  have hrows := hsettled.conforms_reaches (hcreated ▸ hfits) hempty hreaches
  rwa [hrun] at hrows

/-- A key that numbers the rows, a required text, and a text of at most four characters with a
default. -/
def sizedColumns : SchemaSource :=
  .columns
    [(.text "id", .described
        (.map [(.text "type", .text "number"), (.text "primaryKey", .bool true),
          (.text "autoIncrement", .bool true)])),
      (.text "name", .described (.map [(.text "required", .bool true)])),
      (.text "tag", .described
        (.map [(.text "size", .int 4), (.text "defaultValue", .text "none")]))]

/-- The columns are described. -/
lemma isDescribed_sizedColumns : sizedColumns.IsDescribed := by
  simp [sizedColumns, SchemaSource.IsDescribed]

/-- What such a table stores conforms after an insertion, one that fails because the name is missing
and the tag is too long, and an update that clears the tag. -/
theorem conforms_run_sizedColumns : ∃ schema created effects,
    Schema.ofSource sizedColumns = .ok schema ∧ schema.DefaultsFit ∧
      Table.create "t" (.schema schema) "d" = .ok (created, effects) ∧
      (created.run
        [.insert (.map [(.text "name", .text "x")]), .insert (.map [(.text "tag", .text "longer")]),
          .update (.map []) (.map [(.text "tag", .null)])]).EachRecord schema.Conforms := by
  obtain ⟨schema, hschema⟩ : ∃ schema, Schema.ofSource sizedColumns = .ok schema := ⟨_, rfl⟩
  have hfits : schema.DefaultsFit := by
    cases hschema
    intro c hc v hv s hs limit hlimit
    fin_cases hc <;> cases hv
    cases hs
    cases hlimit
    decide
  obtain ⟨created, effects, hcreate⟩ : ∃ created effects,
      Table.create "t" (.schema schema) "d" = .ok (created, effects) := by
    cases hschema
    exact ⟨_, _, rfl⟩
  exact ⟨schema, created, effects, hschema, hfits, hcreate,
    conforms_run isDescribed_sizedColumns hschema hfits hcreate _⟩

end Table

end RecordStore
