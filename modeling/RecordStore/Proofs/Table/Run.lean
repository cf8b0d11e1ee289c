import RecordStore.Proofs.Table.Step

/-!
# Runs of a table

A table is made from a schema without rows, with an index on every unique column, and operations
follow one another, each with any arguments.  Whether they succeed or not, they are steps, so that
every table of a run is reached from the empty one; and the indexes on unique columns stay.
-/

namespace RecordStore

/-- How an operation ends if its result does not matter. -/
def Reply.forget {α : Type} (reply : Reply α) : Reply Unit :=
  ⟨reply.result.map fun _ => (), reply.table, reply.effects⟩

namespace Table

variable {table table' : Table}

/-! ## Operations on indexes -/

/-- Building an index on request is refused, or puts an index that is built from the rows on a column that
can be indexed. -/
lemma createIndex_cases (table : Table) (column : Value) :
    (∃ fault, table.createIndex column = .refused table fault) ∨
      ∃ index effects, column.isHashable = true ∧
        (∃ c ∈ table.schema.columns, (column == c.name) = true ∧ c.kind.isIndexable = true) ∧
        Index.ofRows column table.rows = .ok index ∧
        table.createIndex column = ⟨.ok (), table.withIndex column index, effects⟩ := by
  rw [createIndex]
  cases hcolumn : column.isHashable with
  | false => exact Or.inl ⟨_, rfl⟩
  | true =>
    cases hbuild : table.buildIndex column with
    | error fault => exact Or.inl ⟨fault, rfl⟩
    | ok built =>
      obtain ⟨built, notice⟩ := built
      obtain ⟨index, rfl, hindexable, hindex⟩ := buildIndex_eq_ok hcolumn hbuild
      exact Or.inr ⟨index, _, rfl, hindexable, hindex, rfl⟩

/-- A column that has an index is one of the columns that can be indexed. -/
lemma Named.exists_column_of_has (h : table.Named) {column : Value}
    (hhas : Entries.has column table.indexes = true) :
    ∃ c ∈ table.schema.columns, (column == c.name) = true ∧ c.kind.isIndexable = true := by
  obtain ⟨entry, hentry, hkey⟩ := List.any_eq_true.mp hhas
  obtain ⟨hhash, hname, c, hc, hsame, hkind⟩ := h entry hentry
  have hentrykey : entry.1.isHashable = true := (Value.isHashable_congr hname).trans hhash
  refine ⟨c, hc, ?_, hkind⟩
  rw [← Value.beq_congr_left hentrykey hkey, Value.beq_congr_left hentrykey hname]
  exact hsame

/-- Rebuilding an index on request is refused, or puts an index that is built from the rows on a column
that can be indexed. -/
lemma Named.rebuildIndex_cases (h : table.Named) (column : Value) :
    (∃ fault, table.rebuildIndex column = .refused table fault) ∨
      ∃ index effects, column.isHashable = true ∧
        (∃ c ∈ table.schema.columns, (column == c.name) = true ∧ c.kind.isIndexable = true) ∧
        Index.ofRows column table.rows = .ok index ∧
        table.rebuildIndex column = ⟨.ok (), table.withIndex column index, effects⟩ := by
  rw [rebuildIndex]
  cases hcolumn : column.isHashable with
  | false => exact Or.inl ⟨_, rfl⟩
  | true =>
    cases hhas : Entries.has column table.indexes with
    | false => exact Or.inl ⟨_, rfl⟩
    | true =>
      cases hindex : Index.ofRows column table.rows with
      | error fault => exact Or.inl ⟨fault, rfl⟩
      | ok index => exact Or.inr ⟨index, _, rfl, h.exists_column_of_has hhas, rfl, rfl⟩

/-- Dropping an index on request is refused, or takes an index off a column that is not unique. -/
lemma dropIndex_cases (table : Table) (column : Value) :
    (∃ fault, table.dropIndex column = .refused table fault) ∨
      ∃ effects, column.isHashable = true ∧ table.schema.uniqueNames.contains column = false ∧
        table.dropIndex column = ⟨.ok (), table.withoutIndex column, effects⟩ := by
  rw [dropIndex]
  cases hfree : table.schema.uniqueNames.contains column with
  | true => exact Or.inl ⟨_, rfl⟩
  | false =>
    cases hcolumn : column.isHashable with
    | false => exact Or.inl ⟨_, rfl⟩
    | true =>
      cases Entries.has column table.indexes with
      | false => exact Or.inl ⟨_, rfl⟩
      | true => exact Or.inr ⟨_, rfl, rfl, rfl⟩

/-! ## Requests -/

/-- An operation on a table with its arguments. -/
inductive Request where
  | insert (v : Value)
  | update (conditions patch : Value)
  | delete (conditions : Value)
  | createIndex (column : Value)
  | rebuildIndex (column : Value)
  | dropIndex (column : Value)

/-- How a request to a table ends. -/
def reply (table : Table) : Request → Reply Unit
  | .insert v => (table.insert v).forget
  | .update conditions patch => (table.update conditions patch).forget
  | .delete conditions => (table.delete conditions).forget
  | .createIndex column => table.createIndex column
  | .rebuildIndex column => table.rebuildIndex column
  | .dropIndex column => table.dropIndex column

/-- The table after some requests, one after the other. -/
def run (table : Table) (requests : List Request) : Table :=
  requests.foldl (fun table request => (table.reply request).table) table

/-- A request to a steady table is refused and changes nothing, or is a step that succeeds, or is a
deletion that comes upon an id without a row. -/
theorem Steady.reply_cases (h : table.Steady) (request : Request) :
    (∃ fault, table.reply request = .refused table fault) ∨
      (∃ table' effects, Step table table' ∧ table.reply request = ⟨.ok (), table', effects⟩) ∨
      ∃ conditions targets before, request = .delete conditions ∧
        table.matching conditions = .ok targets ∧ table.StopsAfter targets before ∧
          table.reply request = ⟨.error .missingRow, table.removedAll before, []⟩ := by
  cases request with
  | insert v =>
    rcases h.insert_cases v with ⟨fault, heq⟩ | ⟨record, effects, hadmits, heq⟩
    · refine Or.inl ⟨fault, ?_⟩
      rw [reply, heq]
      rfl
    · refine Or.inr (Or.inl ⟨_, effects, .append hadmits, ?_⟩)
      rw [reply, heq]
      rfl
  | update conditions patch =>
    rcases h.update_cases conditions patch with ⟨fault, heq⟩ | heq | ⟨staged, effects, hstaged, heq⟩
    · refine Or.inl ⟨fault, ?_⟩
      rw [reply, heq]
      rfl
    · refine Or.inr (Or.inl ⟨table, [], .idle, ?_⟩)
      rw [reply, heq]
      rfl
    · refine Or.inr (Or.inl ⟨_, effects, .replace hstaged, ?_⟩)
      rw [reply, heq]
      rfl
  | delete conditions =>
    rcases h.delete_cases conditions with ⟨fault, heq⟩ | ⟨targets, hmatching, hdone | hstopped⟩
    · refine Or.inl ⟨fault, ?_⟩
      rw [reply, heq]
      rfl
    · obtain ⟨effects, heq⟩ := hdone
      refine Or.inr (Or.inl ⟨_, effects, .remove hmatching (List.prefix_refl targets), ?_⟩)
      rw [reply, heq]
      rfl
    · obtain ⟨before, hstops, heq⟩ := hstopped
      refine Or.inr (Or.inr ⟨conditions, targets, before, rfl, hmatching, hstops, ?_⟩)
      rw [reply, heq]
      rfl
  | createIndex column =>
    rcases createIndex_cases table column with
      hrefused | ⟨index, effects, hcolumn, hindexable, hindex, heq⟩
    · exact Or.inl hrefused
    · exact Or.inr (Or.inl ⟨_, effects, .index hcolumn hindexable hindex, heq⟩)
  | rebuildIndex column =>
    rcases h.named.rebuildIndex_cases column with
      hrefused | ⟨index, effects, hcolumn, hindexable, hindex, heq⟩
    · exact Or.inl hrefused
    · exact Or.inr (Or.inl ⟨_, effects, .index hcolumn hindexable hindex, heq⟩)
  | dropIndex column =>
    rcases dropIndex_cases table column with hrefused | ⟨effects, hcolumn, hfree, heq⟩
    · exact Or.inl hrefused
    · exact Or.inr (Or.inl ⟨_, effects, .unindex hcolumn hfree, heq⟩)

/-- A request to a steady table is a step, whether it succeeds or not. -/
theorem Steady.step_reply (h : table.Steady) (request : Request) :
    Step table (table.reply request).table := by
  rcases h.reply_cases request with ⟨fault, heq⟩ | ⟨table', effects, hstep, heq⟩ |
    ⟨conditions, targets, before, -, hmatching, hstops, heq⟩
  · rw [heq]
    exact .idle
  · rw [heq]
    exact hstep
  · rw [heq]
    exact .remove hmatching hstops.isPrefix

/-- The table after a run is reached from the one before. -/
theorem Steady.reaches_run (h : table.Steady) (requests : List Request) :
    Reaches table (table.run requests) := by
  induction requests generalizing table with
  | nil => exact .refl
  | cons request rest ih =>
    have hstep := h.step_reply request
    exact .head hstep (ih (h.step hstep))

/-! ## Indexes on unique columns -/

/-- Every unique column has an index. -/
def KeyIndexed (table : Table) : Prop :=
  ∀ column ∈ table.schema.uniqueNames, Entries.has column table.indexes = true

/-- The names of unique columns can be keys. -/
lemma isHashable_of_mem_uniqueNames {P : Column → Prop} {schema : Schema} (h : schema.Sound P)
    {column : Value} (hcolumn : column ∈ schema.uniqueNames) : column.isHashable = true := by
  obtain ⟨c, hc, rfl⟩ := List.mem_map.mp hcolumn
  exact h.hashable c (List.mem_filter.mp hc).1

/-- The name of a unique column is among the names of unique columns. -/
lemma mem_uniqueNames {schema : Schema} {c : Column} (hc : c ∈ schema.columns)
    (hunique : c.isUnique = true) : c.name ∈ schema.uniqueNames :=
  List.mem_map_of_mem (List.mem_filter.mpr ⟨hc, hunique⟩)

/-- The primary key is a unique column. -/
lemma key_mem_uniqueNames {P : Column → Prop} {schema : Schema} (h : schema.Sound P) {key : Value}
    (hkey : schema.primaryKey = some key) : key ∈ schema.uniqueNames := by
  obtain ⟨c, hc, rfl, hprimary⟩ := h.key key hkey
  exact mem_uniqueNames hc (Column.isUnique_of_isPrimaryKey hprimary)

/-- A step keeps the indexes on unique columns. -/
theorem KeyIndexed.step {P : Column → Prop} (hindexed : table.KeyIndexed)
    (hschema : table.schema.Sound P) (hstep : Step table table') : table'.KeyIndexed := by
  intro column hcolumn
  rw [hstep.schema_eq] at hcolumn
  have hold := hindexed column hcolumn
  have hhash := isHashable_of_mem_uniqueNames hschema hcolumn
  cases hstep with
  | idle => exact hold
  | append _ =>
    rw [← hold]
    refine Entries.has_congr ?_ column
    simp [Entries.keys, appended, entered, withRow]
  | replace _ =>
    rw [← hold]
    exact Entries.has_congr (replacedAll_frame _ _).2.2 column
  | remove _ _ =>
    rw [← hold]
    exact Entries.has_congr (removedAll_frame _ _).2.2 column
  | index hindexed _ _ =>
    rw [withIndex, Entries.has_put hindexed hhash, hold, Bool.or_true]
  | @unindex other hother hfree =>
    rw [withoutIndex, Entries.has_drop hother hhash, hold, Bool.and_true, Bool.not_eq_true']
    rw [Bool.eq_false_iff]
    intro hsame
    rw [List.contains_iff_exists_mem_beq.mpr ⟨column, hcolumn, hsame⟩] at hfree
    cases hfree

/-- Steps keep the indexes on unique columns. -/
theorem KeyIndexed.reaches (hindexed : table.KeyIndexed) (h : table.Steady)
    (hreaches : Reaches table table') : table'.KeyIndexed := by
  induction hreaches with
  | refl => exact hindexed
  | tail hmany hstep ih => exact ih.step (h.reaches hmany).schema hstep

/-! ## Making tables -/

/-- Building indexes one after the other is a sequence of steps that leaves the rows as they are;
after it all the columns have indexes, and those that had one before. -/
lemma buildIndexes_eq_ok {columns : List Value} {notices : List Notice}
    (hcolumns : ∀ column ∈ columns, column.isHashable = true)
    (h : table.buildIndexes columns = .ok (table', notices)) :
    Reaches table table' ∧ table'.rows = table.rows ∧ ∀ column, column.isHashable = true →
      (∃ c ∈ columns, (c == column) = true) ∨ Entries.has column table.indexes = true →
        Entries.has column table'.indexes = true := by
  induction columns generalizing table notices with
  | nil =>
    cases h
    exact ⟨.refl, rfl, fun column _ hhas => hhas.resolve_left (by simp)⟩
  | cons first rest ih =>
    obtain ⟨⟨built, notice⟩, hbuilt, h⟩ := Outcome.seq_eq_ok.mp h
    obtain ⟨⟨done, more⟩, hdone, h⟩ := Outcome.seq_eq_ok.mp h
    obtain ⟨rfl, -⟩ := Prod.mk.injEq .. ▸ Outcome.pure_eq_ok.mp h
    have hfirst := hcolumns first List.mem_cons_self
    obtain ⟨index, rfl, hindexable, hindex⟩ := buildIndex_eq_ok hfirst hbuilt
    have hstep : Step table (table.withIndex first index) := .index hfirst hindexable hindex
    obtain ⟨hreaches, hrows, hkept⟩ := ih (fun c hc => hcolumns c (List.mem_cons_of_mem _ hc)) hdone
    refine ⟨.head hstep hreaches, hrows, fun column hcolumn hhas => hkept column hcolumn ?_⟩
    rw [withIndex, Entries.has_put hfirst hcolumn, Bool.or_eq_true]
    rcases hhas with ⟨c, hc, hsame⟩ | hhas
    · rcases List.mem_cons.mp hc with rfl | hc
      · exact Or.inr (Or.inl hsame)
      · exact Or.inl ⟨c, hc, hsame⟩
    · exact Or.inr (Or.inr hhas)

/-- Building the indexes on unique columns that are not there is a sequence of steps, after which
every unique column has an index. -/
theorem ensureKeyIndexes_eq_ok {P : Column → Prop} (hschema : table.schema.Sound P)
    {notices : List Notice} (h : table.ensureKeyIndexes = .ok (table', notices)) :
    Reaches table table' ∧ table'.rows = table.rows ∧ table'.KeyIndexed := by
  have hhash : ∀ column ∈ table.schema.uniqueNames, column.isHashable = true :=
    fun column hcolumn => isHashable_of_mem_uniqueNames hschema hcolumn
  obtain ⟨hreaches, hrows, hkept⟩ := buildIndexes_eq_ok
    (fun column hcolumn => hhash column (List.mem_filter.mp hcolumn).1) h
  refine ⟨hreaches, hrows, fun column hcolumn => ?_⟩
  rw [hreaches.schema_eq] at hcolumn
  refine hkept column (hhash column hcolumn) ?_
  cases hhas : Entries.has column table.indexes with
  | true => exact Or.inr rfl
  | false =>
    exact Or.inl ⟨column, List.mem_filter.mpr ⟨hcolumn, by simp [hhas]⟩, Value.beq_self column⟩

/-- A new table is reached from the empty one and has no rows, and every unique column has an
index. -/
theorem create_eq_ok {name directory : String} {source : SchemaSource} {effects : List Effect}
    (h : Table.create name source directory = .ok (table, effects)) :
    ∃ schema, Schema.ofSource source = .ok schema ∧
      (schema.Sound (fun _ => True) →
        Reaches (empty name schema directory) table ∧ table.rows = [] ∧ table.KeyIndexed) := by
  obtain ⟨schema, hschema, h⟩ := Outcome.seq_eq_ok.mp h
  obtain ⟨⟨made, notices⟩, hmade, h⟩ := Outcome.seq_eq_ok.mp h
  obtain ⟨rfl, -⟩ := Prod.mk.injEq .. ▸ Outcome.pure_eq_ok.mp h
  refine ⟨schema, hschema, fun hsound => ?_⟩
  exact ensureKeyIndexes_eq_ok hsound hmade

/-- The columns of a small table: a unique number and a text. -/
def twoColumns : SchemaSource :=
  .columns
    [(.text "a", .described (.map [(.text "type", .text "number"), (.text "unique", .bool true)])),
      (.text "b", .described (.map []))]

/-- The columns of the small table are described. -/
lemma isDescribed_twoColumns : twoColumns.IsDescribed := by
  simp [twoColumns, SchemaSource.IsDescribed]

/-- Two insertions into such a table, and an update that would make the numbers the same. -/
def requestsOnTwo : List Request :=
  [.insert (.map [(.text "a", .int 1), (.text "b", .text "x")]),
    .insert (.map [(.text "a", .int 2)]),
    .update (.map []) (.map [(.text "a", .int 3)])]

end Table

end RecordStore
