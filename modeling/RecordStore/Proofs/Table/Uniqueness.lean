import RecordStore.Proofs.Table.Consistency
import RecordStore.Proofs.Table.Guarding
import RecordStore.Proofs.Table.Saving

/-!
# Unique columns

Values come into a unique column in four ways.  A value that is given is looked up in the index of
the column and refused if a row holds it; a value that a patch gives is looked up too, among the rows
that are not being updated, and the updated rows are compared with each other.  A default and a next
number are not looked up at all.  So the rows of a table stay apart in its unique columns exactly as
long as no insertion fills a unique column with a value that a row holds already.

A default is held already as soon as it has been filled in once.  A next number is greater than all
that are there, unless it is so large that adding one does not change it.
-/

namespace RecordStore.Table

variable {table : Table} {records : List (Int × Record)}

/-! ## Rows that are apart -/

/-- The records under different ids hold different values in a column. -/
def ApartIn (column : Value) (records : List (Int × Record)) : Prop :=
  ∀ a ∈ records, ∀ b ∈ records, a.1 ≠ b.1 → (a.2.value column).isNull = false →
    (a.2.value column == b.2.value column) = false

/-- The records under different ids hold different values in unique columns. -/
def Apart (schema : Schema) (records : List (Int × Record)) : Prop :=
  ∀ c ∈ schema.columns, c.isUnique = true → ApartIn c.name records

/-- Inserting a value fills no unique column with what a row holds already. -/
def FillsFresh (table : Table) (v : Value) : Prop :=
  ∀ record, table.Admits v record → ∀ c ∈ table.schema.columns, c.isUnique = true →
    ((given v).value c.name).isNull = true → (record.value c.name).isNull = false →
      ∀ row ∈ table.rows, (row.2.held c.name).equals (record.value c.name) = false

/-- A unique column of a settled table can be indexed. -/
lemma Settled.isIndexable (h : table.Settled records) {c : Column} (hc : c ∈ table.schema.columns)
    (hunique : c.isUnique = true) : c.kind.isIndexable = true :=
  (h.described.each c hc).unique hunique

/-- The rows of a settled table have distinct keys exactly if its records are apart: nothing that it
holds in a unique column is not a number. -/
lemma Settled.keysDistinct_iff (h : table.Settled records) :
    table.KeysDistinct ↔ Apart table.schema records := by
  rw [keysDistinct_iff_differ h.described h.lists.rows]
  refine forall₂_congr fun c hc => forall_congr' fun hunique => forall₂_congr fun a ha => ?_
  have hplain := (isHashable_value (h.holds ha) hc (h.isIndexable hc hunique)).2
  refine forall₂_congr fun b hb => ?_
  rw [Value.equals_eq_beq hplain]

/-! ## What is looked up -/

/-- What an admitted record holds in a column for which a value has been given is what has passed. -/
lemma passes_of_admits {P : Column → Prop} (hschema : table.schema.Sound P) {v : Value}
    {record : Record} (hadmits : table.Admits v record) {c : Column}
    (hc : c ∈ table.schema.columns) (hgiven : ((given v).value c.name).isNull = false) :
    ∃ verdict, c.Passes (table.isTaken []) false ((given v).value c.name) verdict ∧
      record.lookup c.name = verdict.value? := by
  obtain ⟨checked, hchecked, hcomplete⟩ := exists_validate_of_admits hadmits
  obtain ⟨verdict, hpasses, hlookup⟩ := Schema.lookup_of_validate hschema hchecked c hc
  refine ⟨verdict, hpasses, ?_⟩
  rcases lookup_complete hschema hcomplete hc with hsame | ⟨hnone, -⟩
  · rw [hsame, hlookup]
  · obtain ⟨rfl, -, -⟩ := Column.passes_present hgiven hpasses
    rw [hlookup] at hnone
    cases hnone

/-- What an admitted record holds in a unique column has been filled in, or is held by no row. -/
lemma not_taken_of_admits {P : Column → Prop} (hschema : table.schema.Sound P) {v : Value}
    {record : Record} (hadmits : table.Admits v record) {c : Column}
    (hc : c ∈ table.schema.columns) (hunique : c.isUnique = true)
    (hgiven : ((given v).value c.name).isNull = false) :
    table.isTaken [] c.name (record.value c.name) = false := by
  obtain ⟨verdict, hpasses, hlookup⟩ := passes_of_admits hschema hadmits hc hgiven
  obtain ⟨rfl, -, hfree⟩ := Column.passes_present hgiven hpasses
  rw [Record.value, hlookup]
  exact hfree hunique

/-! ## Insertion -/

/-- Appending a record that holds nothing that is held already keeps records apart. -/
lemma ApartIn.append {column : Value} (h : ApartIn column records) {record : Record} {next : Int}
    (hhash : (record.value column).isHashable = true)
    (hnew : (record.value column).isNull = false →
      ∀ a ∈ records, (a.2.value column == record.value column) = false) :
    ApartIn column (records ++ [(next, record)]) := by
  intro a ha b hb hab hpresent
  rw [List.mem_append, List.mem_singleton] at ha hb
  rcases ha with ha | rfl
  · rcases hb with hb | rfl
    · exact h a ha b hb hab hpresent
    · rw [Bool.eq_false_iff]
      intro hsame
      rw [hnew ((Value.isNull_congr hsame).symm.trans hpresent) a ha] at hsame
      cases hsame
  · rcases hb with hb | rfl
    · rw [Value.beq_comm hhash]
      exact hnew hpresent b hb
    · exact absurd rfl hab

/-- An insertion that fills unique columns with fresh values keeps records apart. -/
lemma Settled.apart_append (h : table.Settled records) (hapart : Apart table.schema records)
    {v : Value} (hfresh : table.FillsFresh v) {record : Record} (hadmits : table.Admits v record)
    (next : Int) : Apart table.schema (records ++ [(next, record)]) := by
  have hholds := h.canonical.holds_of_admits h.described hadmits
  intro c hc hunique
  have hhash := (isHashable_value hholds hc (h.isIndexable hc hunique)).1
  refine (hapart c hc hunique).append hhash fun hpresent a ha => ?_
  cases hgiven : ((given v).value c.name).isNull with
  | true =>
    rw [← Value.equals_eq_beq (isHashable_value (h.holds ha) hc (h.isIndexable hc hunique)).2]
    exact hfresh record hadmits c hc hunique hgiven hpresent _ (h.lists.mem_rows ha)
  | false =>
    have hfree : table.isTaken (([] : List Int).map .int) c.name (record.value c.name) = false :=
      not_taken_of_admits h.described hadmits hc hunique hgiven
    rw [Bool.eq_false_iff]
    intro hsame
    cases h.guarded.excluded_of_isTaken hc hunique hhash hpresent hfree ha hsame

/-! ## Runs -/

/-- Records that are left after others have been removed are apart. -/
lemma Apart.subset {schema : Schema} {records' : List (Int × Record)} (h : Apart schema records)
    (hsub : ∀ entry ∈ records', entry ∈ records) : Apart schema records' :=
  fun c hc hunique a ha b hb => h c hc hunique a (hsub a ha) b (hsub b hb)

/-- Distinct keys are a matter of the schema and the rows. -/
lemma KeysDistinct.congr {other : Table} (h : table.KeysDistinct)
    (hschema : other.schema = table.schema) (hrows : other.rows = table.rows) :
    other.KeysDistinct := by
  rw [KeysDistinct, hschema, hrows]
  exact h

/-- After a step the keys are distinct if the records that are listed then are apart. -/
lemma Settled.keysDistinct_of_step (h : table.Settled records) {table' : Table}
    (hstep : Step table table') {records' : List (Int × Record)} (hlists : table'.Lists records')
    (hapart : Apart table.schema records') : table'.KeysDistinct := by
  obtain ⟨listed, hsettled⟩ := h.reaches (.single hstep)
  obtain rfl : listed = records' := hsettled.lists.records_eq hlists rfl
  refine hsettled.keysDistinct_iff.mpr ?_
  rw [hstep.schema_eq]
  exact hapart

/-- An insertion appends the record that it admits. -/
lemma Settled.table_insert (h : table.Settled records) {v : Value} {record : Record}
    (hadmits : table.Admits v record) : (table.insert v).table = table.appended record := by
  have hbind : (table.schema.validateValue (table.isTaken []) v).bind table.complete =
      .ok record := Outcome.bind_eq_ok.mpr hadmits
  simp only [insert, hbind, h.steady.append_eq (h.steady.holds_of_admits hadmits)]

/-- An insertion keeps keys distinct exactly if it fills unique columns with fresh values. -/
theorem Settled.keysDistinct_insert_iff (h : table.Settled records) (hdistinct : table.KeysDistinct)
    (v : Value) : (table.insert v).table.KeysDistinct ↔ table.FillsFresh v := by
  have hapart := h.keysDistinct_iff.mp hdistinct
  constructor
  · intro hafter record hadmits c hc hunique hgiven hpresent row hrow
    rw [h.table_insert hadmits] at hafter
    have hholds := h.steady.holds_of_admits hadmits
    obtain ⟨next, -, hbelow, hlists⟩ := h.lists.appended h.steady hholds
    obtain ⟨listed, hsettled⟩ := h.reaches (.single (.append hadmits))
    obtain rfl : listed = records ++ [(next, record)] := hsettled.lists.records_eq hlists rfl
    rw [h.lists.rows] at hrow
    obtain ⟨entry, hentry, rfl⟩ := List.mem_map.mp hrow
    have hne : entry.1 ≠ next := (hbelow _ (List.mem_map_of_mem hentry)).ne
    have hcanonical := h.canonical.holds_of_admits h.described hadmits
    have hkind := h.isIndexable hc hunique
    change (entry.2.value c.name).equals (record.value c.name) = false
    rw [Value.equals_eq_beq (isHashable_value (h.holds hentry) hc hkind).2,
      ← Value.beq_comm (isHashable_value hcanonical hc hkind).1]
    exact hsettled.keysDistinct_iff.mp hafter c hc hunique (next, record) (by simp) entry
      (by simp [hentry]) hne.symm hpresent
  · intro hfresh
    rcases h.steady.insert_cases v with ⟨fault, heq⟩ | ⟨record, effects, hadmits, heq⟩
    · rw [heq]
      exact hdistinct
    · rw [heq]
      obtain ⟨next, -, -, hlists⟩ :=
        h.lists.appended h.steady (h.steady.holds_of_admits hadmits)
      exact h.keysDistinct_of_step (.append hadmits) hlists
        (h.apart_append hapart hfresh hadmits next)

/-- An update keeps keys distinct. -/
theorem Settled.keysDistinct_update (h : table.Settled records) (hdistinct : table.KeysDistinct)
    (conditions patch : Value) : (table.update conditions patch).table.KeysDistinct := by
  rcases h.steady.update_cases conditions patch with
    ⟨fault, heq⟩ | heq | ⟨staged, effects, hstaged, heq⟩
  · rw [heq]
    exact hdistinct
  · rw [heq]
    exact hdistinct
  · rw [heq]
    have hholds := h.steady.holds_of_prepareUpdate hstaged
    obtain ⟨entries, rfl, hnodup, hids⟩ := h.lists.prepareUpdate_eq_ok h.steady hstaged
    have hdiffer := (keysDistinct_iff_differ h.described h.lists.rows).mp hdistinct
    have hlists := h.lists.replacedAll h.steady
      (fun entry hentry => hholds (.int entry.1, entry.2) (List.mem_map_of_mem hentry))
      fun entry hentry => hids _ (List.mem_map_of_mem hentry)
    have hschema := (Step.replace hstaged).schema_eq
    refine (keysDistinct_iff_differ (hschema ▸ h.described) hlists.rows).mpr ?_
    rw [hschema]
    exact h.guarded.differ_replace hdiffer hstaged hnodup

/-- A deletion keeps keys distinct. -/
theorem Settled.keysDistinct_delete (h : table.Settled records) (hdistinct : table.KeysDistinct)
    (conditions : Value) : (table.delete conditions).table.KeysDistinct := by
  rcases h.steady.delete_cases conditions with ⟨fault, heq⟩ | ⟨targets, htargets, hdone | hstopped⟩
  · rw [heq]
    exact hdistinct
  · obtain ⟨effects, heq⟩ := hdone
    rw [heq]
    have hstep := Step.remove htargets (List.prefix_refl targets)
    obtain ⟨is, rfl, -, -⟩ := h.lists.matching_eq_ok h.steady htargets
    exact h.keysDistinct_of_step hstep (h.lists.removedAll h.steady)
      ((h.keysDistinct_iff.mp hdistinct).subset fun entry hentry =>
        (Entries.mem_foldl_drop_iff.mp hentry).1)
  · obtain ⟨before, hstops, -⟩ := hstopped
    exact absurd hstops (h.lists.not_stopsAfter h.steady htargets before)

/-- A request keeps keys distinct, unless it is an insertion that fills a unique column with what is
held already. -/
theorem Settled.keysDistinct_reply (h : table.Settled records) (hdistinct : table.KeysDistinct)
    {request : Request} (hfresh : ∀ v, request = .insert v → table.FillsFresh v) :
    (table.reply request).table.KeysDistinct := by
  have hschema := (h.steady.step_reply request).schema_eq
  cases request with
  | insert v => exact (h.keysDistinct_insert_iff hdistinct v).mpr (hfresh v rfl)
  | update conditions patch => exact h.keysDistinct_update hdistinct conditions patch
  | delete conditions => exact h.keysDistinct_delete hdistinct conditions
  | createIndex column => exact hdistinct.congr hschema (rows_createIndex table column).1
  | rebuildIndex column => exact hdistinct.congr hschema (rows_rebuildIndex table column).1
  | dropIndex column => exact hdistinct.congr hschema (rows_dropIndex table column).1

/-- The table after requests and one more. -/
lemma run_append_singleton (table : Table) (done : List Request) (request : Request) :
    table.run (done ++ [request]) = ((table.run done).reply request).table := by
  rw [run, List.foldl_append]
  rfl

/-- What no request takes away unless it is an insertion, and an insertion just if it is not of some kind,
holds after all requests of a run exactly if all insertions of the run are of that kind. -/
lemma forall_run_iff (Good : Table → Prop) (Fine : Table → Value → Prop) {created : Table}
    (hcreated : Good created)
    (hinsert : ∀ done, Good (created.run done) → ∀ v,
      (Good ((created.run done).insert v).table ↔ Fine (created.run done) v))
    (hother : ∀ done, Good (created.run done) → ∀ request, (∀ v, request ≠ .insert v) →
      Good ((created.run done).reply request).table)
    (requests : List Request) :
    (∀ done, done <+: requests → Good (created.run done)) ↔
      ∀ done v rest, requests = done ++ .insert v :: rest → Fine (created.run done) v := by
  constructor
  · rintro hall done v rest rfl
    have hbefore := hall done (List.prefix_append _ _)
    have hafter := hall (done ++ [.insert v]) ⟨rest, by simp⟩
    rw [run_append_singleton] at hafter
    exact (hinsert done hbefore v).mp hafter
  · intro hfine done
    induction done using List.reverseRecOn with
    | nil => exact fun _ => hcreated
    | append_singleton done request ih =>
      rintro ⟨rest, hrest⟩
      rw [List.append_assoc] at hrest
      have hbefore := ih ⟨_, hrest⟩
      rw [run_append_singleton]
      cases request with
      | insert v => exact (hinsert done hbefore v).mpr (hfine done v rest hrest.symm)
      | _ => exact hother done hbefore _ nofun

/-- In the states of a table whose columns have been described by mappings the rows hold different
values in unique columns, whatever has been asked of it and with whatever outcome, exactly as long
as no insertion fills a unique column with what a row holds already. -/
theorem keysDistinct_run_iff {source : SchemaSource} (hsource : source.IsDescribed)
    {schema : Schema} (hschema : Schema.ofSource source = .ok schema) {name directory : String}
    {created : Table} {effects : List Effect}
    (hcreate : Table.create name (.schema schema) directory = .ok (created, effects))
    (requests : List Request) :
    (∀ done, done <+: requests → (created.run done).KeysDistinct) ↔
      ∀ done v rest, requests = done ++ .insert v :: rest → (created.run done).FillsFresh v := by
  have hsettled := settled_of_create hsource hschema hcreate
  refine forall_run_iff KeysDistinct FillsFresh ?_ (fun done hbefore v => ?_)
    (fun done hbefore request hother => ?_) requests
  · refine hsettled.keysDistinct_iff.mpr fun c _ _ a ha => ?_
    cases ha
  · obtain ⟨listed, hdone⟩ := hsettled.run done
    exact hdone.keysDistinct_insert_iff hbefore v
  · obtain ⟨listed, hdone⟩ := hsettled.run done
    exact hdone.keysDistinct_reply hbefore fun v hv => absurd hv (hother v)

/-- In a table with a unique column of numbers and a column of texts the numbers stay different as
long as no insertion fills the first one with a number that is there. -/
theorem keysDistinct_run_iff_twoColumns : ∃ schema created effects,
    Schema.ofSource twoColumns = .ok schema ∧
      Table.create "t" (.schema schema) "d" = .ok (created, effects) ∧
      ((∀ done, done <+: requestsOnTwo → (created.run done).KeysDistinct) ↔
        ∀ done v rest, requestsOnTwo = done ++ .insert v :: rest →
          (created.run done).FillsFresh v) :=
  ⟨_, _, _, rfl, rfl, keysDistinct_run_iff isDescribed_twoColumns rfl rfl requestsOnTwo⟩

/-! ## Defaults of unique columns -/

/-- The columns of a small table: a unique number with a default, and a number. -/
def defaultKey : SchemaSource :=
  .columns
    [(.text "a", .described (.map
        [(.text "type", .text "number"), (.text "unique", .bool true),
          (.text "defaultValue", .int 1)])),
      (.text "b", .described (.map [(.text "type", .text "number")]))]

/-- Two insertions that leave a unique column with a default out give two rows the same value
there. -/
theorem not_keysDistinct_run_defaultKey : ∃ schema created effects,
    defaultKey.IsDescribed ∧ Schema.ofSource defaultKey = .ok schema ∧
      Table.create "t" (.schema schema) "d" = .ok (created, effects) ∧
      ¬(created.run
        [.insert (.map [(.text "b", .int 1)]),
          .insert (.map [(.text "b", .int 2)])]).KeysDistinct := by
  refine ⟨_, _, _, by simp [defaultKey, SchemaSource.IsDescribed], rfl, rfl, fun hdistinct => ?_⟩
  have hdifferent : (Value.int 1).equals (.int 1) = false :=
    hdistinct (.text "a") (Or.inl List.mem_cons_self)
      (.int 1, .record [(.text "a", .int 1), (.text "b", .int 1)]) List.mem_cons_self
      (.int 2, .record [(.text "a", .int 1), (.text "b", .int 2)])
      (List.mem_cons_of_mem _ List.mem_cons_self) (by simp) rfl
  exact absurd hdifferent (by decide)

end RecordStore.Table
