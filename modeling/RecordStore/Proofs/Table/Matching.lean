import RecordStore.Proofs.Table.Agreement

/-!
# Indexes do not decide what matches

A single equality on an indexed column is answered by the index, and everything else by a scan.  In
a table whose indexes agree with its rows both give the same ids in the same order, so that finding,
updating and deleting act on the same rows whatever indexes there are.

The one exception is a comparison with what is not a number: it equals nothing, but a row that holds
it is found under it as a key.
-/

namespace RecordStore.Table

variable {table other : Table} {records : List (Int × Record)}

/-! ## The index path and the scan -/

/-- Without predicates a scan finds all rows. -/
lemma scanFor_nil (rows : List (RowId × Row)) : scanFor [] rows = .ok (rows.map (·.1)) := by
  induction rows with
  | nil => rfl
  | cons entry rest ih =>
    obtain ⟨id, row⟩ := entry
    rw [scanFor, ih]
    rfl

/-- A scan for a single comparison that has an answer for some values, and fails in the same way for all
others, finds the records for whose value the answer is yes; if a record holds one of the others, it
fails. -/
lemma scanFor_answered (records : List (Int × Record)) (column : Value) {operator : Operator}
    {operand : Value} {answered : Value → Prop} [DecidablePred answered] {p : Value → Bool}
    {fault : Fault}
    (hholds : ∀ v, operator.holds v operand = if answered v then .ok (p v) else .error fault) :
    scanFor [⟨column, operator, operand⟩] (rowsOf records) =
      if ∀ entry ∈ records, answered (entry.2.value column) then
        .ok ((Entries.keys (records.filter fun entry => p (entry.2.value column))).map .int)
      else .error fault := by
  induction records with
  | nil => simp [rowsOf, scanFor, Entries.keys]
  | cons entry rest ih =>
    obtain ⟨i, record⟩ := entry
    have hrow : Predicate.allHold (.record record) [⟨column, operator, operand⟩] =
        if answered (record.value column) then .ok (p (record.value column)) else .error fault := by
      change (operator.holds (record.value column) operand >>= _) = _
      rw [hholds]
      split
      · cases p (record.value column) <;> rfl
      · rfl
    rw [rowsOf, List.map_cons, ← rowsOf, scanFor, hrow, ih, List.filter_cons]
    simp only [List.forall_mem_cons]
    by_cases hfirst : answered (record.value column)
    · by_cases hrest : ∀ entry ∈ rest, answered (entry.2.value column)
      · rw [if_pos hfirst, if_pos hrest, if_pos ⟨hfirst, hrest⟩]
        cases p (record.value column) <;> rfl
      · have hnot : ¬(answered (record.value column) ∧
            ∀ entry ∈ rest, answered (entry.2.value column)) := fun hall => hrest hall.2
        rw [if_pos hfirst, if_neg hrest, if_neg hnot]
        rfl
    · have hnot : ¬(answered (record.value column) ∧
          ∀ entry ∈ rest, answered (entry.2.value column)) := fun hall => hfirst hall.1
      rw [if_neg hfirst, if_neg hnot]
      rfl

/-- A scan for a single comparison that has an answer for every value finds the records for whose value the
answer is yes. -/
lemma scanFor_single (records : List (Int × Record)) (column : Value) {operator : Operator}
    {operand : Value} {p : Value → Bool} (hholds : ∀ v, operator.holds v operand = .ok (p v)) :
    scanFor [⟨column, operator, operand⟩] (rowsOf records) =
      .ok ((Entries.keys (records.filter fun entry => p (entry.2.value column))).map .int) := by
  have hanswered : ∀ v, operator.holds v operand =
      if True then .ok (p v) else .error Fault.longInteger := by simpa using hholds
  rw [scanFor_answered records column hanswered, if_pos fun _ _ => trivial]

/-- A scan for a single equality finds the records that hold a value equal to the operand. -/
lemma scanFor_equal (records : List (Int × Record)) (column operand : Value) :
    scanFor [⟨column, .equal, operand⟩] (rowsOf records) =
      .ok ((Entries.keys
        (records.filter fun entry => (entry.2.value column).equals operand)).map .int) := by
  have hholds : ∀ v, Operator.equal.holds v operand = .ok (v.equals operand) := fun _ => rfl
  exact scanFor_single records column hholds

/-- The index path and the scan find the same rows in the same order. -/
theorem Lists.matchPredicates_eq (h : table.Lists records) (hsteady : table.Steady)
    {predicates : List Predicate}
    (hoperands : ∀ predicate ∈ predicates, predicate.operand.isNotNumber = false) :
    table.matchPredicates predicates = scanFor predicates table.rows := by
  rw [matchPredicates]
  cases hindexed : table.indexed? predicates with
  | none => rfl
  | some ids =>
    obtain ⟨column, operand, index, rfl, hindex, rfl⟩ := h.indexed?_eq_some hsteady hindexed
    have hoperand := hoperands _ List.mem_cons_self
    simp only [h.rows, scanFor_equal, idsOf, Value.equals_eq_beq_of_operand _ hoperand]

/-- What conditions are matched by is found by a scan for the predicates that they state. -/
theorem Lists.matching_eq (h : table.Lists records) (hsteady : table.Steady)
    {entries : List (Value × Value)}
    (hoperands : ∀ predicate ∈ predicatesOf table.schema entries,
      predicate.operand.isNotNumber = false) :
    table.matching (.map entries) = scanFor (predicatesOf table.schema entries) table.rows := by
  cases entries with
  | nil => exact (scanFor_nil table.rows).symm
  | cons entry rest => exact h.matchPredicates_eq hsteady hoperands

/-! ## Tables with the same rows -/

/-- Two tables list the same records under the same schema, and have indexes on the unique columns;
what other indexes they have may differ. -/
structure Alike (records : List (Int × Record)) (table other : Table) : Prop where
  schema : other.schema = table.schema
  steady : table.Steady
  steady' : other.Steady
  lists : table.Lists records
  lists' : other.Lists records
  indexed : table.KeyIndexed
  indexed' : other.KeyIndexed

/-- Tables that are alike have the same rows. -/
lemma Alike.rows_eq (h : Alike records table other) : other.rows = table.rows := by
  rw [h.lists.rows, h.lists'.rows]

/-- Tables that are alike find the same rows by a scan. -/
lemma Alike.matching_eq (h : Alike records table other) {entries : List (Value × Value)}
    (hoperands : ∀ predicate ∈ predicatesOf table.schema entries,
      predicate.operand.isNotNumber = false) :
    other.matching (.map entries) = table.matching (.map entries) := by
  rw [h.lists.matching_eq h.steady hoperands,
    h.lists'.matching_eq h.steady' (by rwa [h.schema]), h.schema, h.rows_eq]

/-- A unique column has an index in each of two tables that are alike. -/
lemma Alike.exists_indexes (h : Alike records table other) {column : Value}
    (hcolumn : column ∈ table.schema.uniqueNames) :
    ∃ index index', table.index? column = some index ∧ other.index? column = some index' := by
  have hhash := isHashable_of_mem_uniqueNames h.steady.schema hcolumn
  have hhas := h.indexed column hcolumn
  have hhas' := h.indexed' column (h.schema ▸ hcolumn)
  rw [Entries.has_eq_isSome_lookup hhash] at hhas hhas'
  obtain ⟨index, hindex⟩ := Option.isSome_iff_exists.mp hhas
  obtain ⟨index', hindex'⟩ := Option.isSome_iff_exists.mp hhas'
  exact ⟨index, index', hindex, hindex'⟩

/-- Tables that are alike agree on which values of a unique column are taken. -/
lemma Alike.isTaken_eq (h : Alike records table other) {column : Value}
    (hcolumn : column ∈ table.schema.uniqueNames) (excluded : List RowId) (v : Value) :
    other.isTaken excluded column v = table.isTaken excluded column v := by
  obtain ⟨index, index', hindex, hindex'⟩ := h.exists_indexes hcolumn
  rw [isTaken, isTaken, hindex, hindex']
  simp only [h.lists.ids_of_index? h.steady hindex, h.lists'.ids_of_index? h.steady' hindex']

/-- Tables that are alike find the same rows for conditions on a unique column. -/
lemma Alike.matching_key_eq (h : Alike records table other) {key : Value}
    (hkey : key ∈ table.schema.uniqueNames) (v : Value) :
    other.matching (.map [(key, v)]) = table.matching (.map [(key, v)]) := by
  obtain ⟨index, index', hindex, hindex'⟩ := h.exists_indexes hkey
  have hindexed : ∀ predicates : List Predicate, (∀ p ∈ predicates, p.column = key) →
      other.indexed? predicates = table.indexed? predicates := by
    intro predicates hcolumns
    unfold indexed?
    split
    · rename_i column operand
      obtain rfl : column = key := hcolumns _ List.mem_cons_self
      rw [hindex, hindex']
      simp only [Option.map_some, h.lists.ids_of_index? h.steady hindex,
        h.lists'.ids_of_index? h.steady' hindex']
    · rfl
  change other.matchPredicates (predicatesOf other.schema [(key, v)]) =
    table.matchPredicates (predicatesOf table.schema [(key, v)])
  rw [matchPredicates, matchPredicates, h.schema, h.rows_eq, hindexed]
  intro p hp
  simp only [predicatesOf, List.flatMap_cons, List.flatMap_nil, List.append_nil,
    List.mem_map] at hp
  obtain ⟨comparison, -, rfl⟩ := hp
  rfl

/-! ## Operations on tables with the same rows -/

/-- Validation only asks for the values of unique columns whether they are taken. -/
lemma checkColumns_congr {isTaken isTaken' : TakenTest} {columns : List Column}
    (h : ∀ c ∈ columns, c.isUnique = true → ∀ v, isTaken' c.name v = isTaken c.name v)
    (updating : Bool) (valueOf : Value → Value) :
    Schema.checkColumns isTaken' updating valueOf columns =
      Schema.checkColumns isTaken updating valueOf columns := by
  induction columns with
  | nil => rfl
  | cons c rest ih =>
    obtain ⟨hfirst, hrest⟩ := List.forall_mem_cons.mp h
    have hbroken : ∀ verdict : Verdict, verdict.broken c isTaken' = verdict.broken c isTaken := by
      intro verdict
      cases verdict with
      | stored v =>
        simp only [Verdict.broken]
        cases hunique : c.isUnique with
        | false => rfl
        | true => rw [hfirst hunique v]
      | _ => rfl
    simp only [Schema.checkColumns, hbroken, ih hrest]

/-- Tables that are alike validate records alike. -/
lemma Alike.validate_eq (h : Alike records table other) (excluded : List RowId) (updating : Bool)
    (record : Record) : other.schema.validate (other.isTaken excluded) updating record =
      table.schema.validate (table.isTaken excluded) updating record := by
  rw [Schema.validate, Schema.validate, Schema.validateValues, Schema.validateValues, h.schema]
  rw [checkColumns_congr fun c hc hunique v => ?_]
  exact h.isTaken_eq (mem_uniqueNames hc hunique) excluded v

/-- Tables that are alike have the same records under ids. -/
lemma Alike.recordAt_eq (h : Alike records table other) (id : RowId) :
    other.recordAt id = table.recordAt id := by
  rw [recordAt, recordAt, rowAt, rowAt, row?, row?, h.rows_eq]

/-- Tables that are alike stage the same records. -/
lemma Alike.stage_eq (h : Alike records table other) (patch : Value) (excluded ids : List RowId) :
    other.stage patch (other.isTaken excluded) ids =
      table.stage patch (table.isTaken excluded) ids := by
  induction ids with
  | nil => rfl
  | cons id rest ih => simp only [stage, h.recordAt_eq, h.validate_eq, ih]

/-- Tables that are alike let the same patches of the primary key through. -/
lemma Alike.checkKeyChange_eq (h : Alike records table other) (patch : Value)
    (targets : List RowId) :
    other.checkKeyChange patch targets = table.checkKeyChange patch targets := by
  rw [checkKeyChange, checkKeyChange, h.schema]
  cases hkey : table.schema.primaryKey with
  | none => rfl
  | some key => simp only [h.matching_key_eq (key_mem_uniqueNames h.steady.schema hkey)]

/-- Tables that are alike prepare the same updates. -/
lemma Alike.prepareUpdate_eq (h : Alike records table other) {conditions : Value}
    (hmatching : other.matching conditions = table.matching conditions) (patch : Value) :
    other.prepareUpdate conditions patch = table.prepareUpdate conditions patch := by
  simp only [prepareUpdate, hmatching, h.schema, h.checkKeyChange_eq, h.stage_eq]

/-- The rows after rows have been replaced only depend on the rows before. -/
lemma rows_replacedAll_congr {staged : List (RowId × Record)} (h : other.rows = table.rows) :
    (other.replacedAll staged).rows = (table.replacedAll staged).rows := by
  induction staged generalizing table other with
  | nil => exact h
  | cons entry rest ih =>
    refine ih ?_
    simp only [replaced, entered, withRow, left, h]

/-- The rows after rows have been removed only depend on the rows before. -/
lemma rows_removedAll_congr {ids : List RowId} (h : other.rows = table.rows) :
    (other.removedAll ids).rows = (table.removedAll ids).rows := by
  induction ids generalizing table other with
  | nil => exact h
  | cons id rest ih =>
    refine ih ?_
    simp only [removed, withoutRow, left, h]

/-- Tables that are alike are updated alike. -/
lemma Alike.update_eq (h : Alike records table other) {conditions : Value}
    (hmatching : other.matching conditions = table.matching conditions) (patch : Value) :
    (other.update conditions patch).result = (table.update conditions patch).result ∧
      (other.update conditions patch).table.rows = (table.update conditions patch).table.rows := by
  have hprepare := h.prepareUpdate_eq hmatching patch
  unfold update
  rw [hprepare]
  split
  · exact ⟨rfl, h.rows_eq⟩
  · exact ⟨rfl, h.rows_eq⟩
  · rename_i staged _ hstaged
    have hrecords := h.steady.holds_of_prepareUpdate hstaged
    rw [h.steady.replaceRows_eq hrecords, h.steady'.replaceRows_eq (h.schema ▸ hrecords)]
    exact ⟨rfl, rows_replacedAll_congr h.rows_eq⟩

/-- Rows are deleted from tables that are alike alike. -/
lemma Alike.delete_eq (h : Alike records table other) {conditions : Value}
    (hmatching : other.matching conditions = table.matching conditions) :
    (other.delete conditions).result = (table.delete conditions).result ∧
      (other.delete conditions).table.rows = (table.delete conditions).table.rows := by
  unfold delete
  rw [hmatching]
  split
  · exact ⟨rfl, h.rows_eq⟩
  · exact ⟨rfl, h.rows_eq⟩
  · rename_i targets _ htargets
    rw [h.lists.removeRows_eq h.steady htargets,
      h.lists'.removeRows_eq h.steady' (hmatching.trans htargets)]
    exact ⟨rfl, rows_removedAll_congr h.rows_eq⟩

/-- Two tables act on the same rows for some conditions: they find the same records, and updates and
deletions have the same results and leave the same rows. -/
structure ActsAlike (conditions : Value) (table other : Table) : Prop where
  find : other.find conditions = table.find conditions
  findOne : other.findOne conditions = table.findOne conditions
  update : ∀ patch, (other.update conditions patch).result =
      (table.update conditions patch).result ∧
    (other.update conditions patch).table.rows = (table.update conditions patch).table.rows
  delete : (other.delete conditions).result = (table.delete conditions).result ∧
    (other.delete conditions).table.rows = (table.delete conditions).table.rows

/-- Tables that are alike act on the same rows for conditions that match the same rows. -/
lemma Alike.actsAlike (h : Alike records table other) {conditions : Value}
    (hmatching : other.matching conditions = table.matching conditions) :
    ActsAlike conditions table other := by
  have hrecord := funext h.recordAt_eq
  refine ⟨?_, ?_, h.update_eq hmatching, h.delete_eq hmatching⟩
  · rw [find, find, hmatching, hrecord]
  · rw [findOne, findOne, hmatching, hrecord]

/-! ## Every state of a table -/

/-- In every state of a table, whatever has been asked of it and with whatever outcome, conditions
that compare with nothing that is not a number are matched by the rows that a scan finds, and any
other state with the same rows acts on the same rows, whatever its indexes are. -/
theorem matching_run_eq_scanFor {source : SchemaSource} (hsource : source.HasKeyDefaults)
    {name directory : String} {created : Table} {effects : List Effect}
    (hcreate : Table.create name source directory = .ok (created, effects))
    (requests : List Request) {entries : List (Value × Value)}
    (hoperands : ∀ predicate ∈ predicatesOf created.schema entries,
      predicate.operand.isNotNumber = false) :
    (created.run requests).matching (.map entries) =
        scanFor (predicatesOf created.schema entries) (created.run requests).rows ∧
      ∀ requests', (created.run requests').rows = (created.run requests).rows →
        ActsAlike (.map entries) (created.run requests) (created.run requests') := by
  obtain ⟨schema, hschema, -⟩ := create_eq_ok hcreate
  obtain ⟨-, hsteady, hindexed, hlists⟩ := lists_of_create (hsource.sound hschema) hschema hcreate
  have hreaches := hsteady.reaches_run requests
  have hkept := Reaches.schema_eq hreaches
  have hsteady₁ := hsteady.reaches hreaches
  obtain ⟨records₁, hlists₁⟩ := hlists.reaches hsteady hreaches
  refine ⟨?_, fun requests' hrows => ?_⟩
  · rw [← hkept] at hoperands ⊢
    exact hlists₁.matching_eq hsteady₁ hoperands
  · have hreaches' := hsteady.reaches_run requests'
    obtain ⟨records₂, hlists₂⟩ := hlists.reaches hsteady hreaches'
    obtain rfl : records₂ = records₁ := hlists₂.records_eq hlists₁ hrows
    have halike : Alike records₂ (created.run requests) (created.run requests') :=
      ⟨(Reaches.schema_eq hreaches').trans hkept.symm, hsteady₁, hsteady.reaches hreaches',
        hlists₁, hlists₂, hindexed.reaches hsteady hreaches, hindexed.reaches hsteady hreaches'⟩
    exact halike.actsAlike (halike.matching_eq (by rwa [hkept]))

/-- A single equality on a unique column is matched as by a scan after two insertions and an update
that fails because it would make two values the same. -/
theorem matching_run_twoColumns : ∃ created effects,
    Table.create "t" twoColumns "d" = .ok (created, effects) ∧
      (created.run requestsOnTwo).matching (.map [(.text "a", .bool true)]) =
        scanFor (predicatesOf created.schema [(.text "a", .bool true)])
          (created.run requestsOnTwo).rows ∧
      ∀ requests', (created.run requests').rows = (created.run requestsOnTwo).rows →
        ActsAlike (.map [(.text "a", .bool true)]) (created.run requestsOnTwo)
          (created.run requests') :=
  ⟨_, _, rfl, matching_run_eq_scanFor isDescribed_twoColumns.hasKeyDefaults rfl requestsOnTwo
    (by decide)⟩

/-! ## Defaults that cannot be keys -/

/-- The columns of a small table: a unique text that has been declared outright, with a list for its
default, and a number. -/
def listDefault : SchemaSource :=
  .columns
    [(.text "a", .declared (.make (.text "a") .string (.bool false) (.bool false) (.bool true)
        (.bool false) (some (.list [.int 1])) .null .null)),
      (.text "b", .described (.map [(.text "type", .text "number")]))]

/-- If a default cannot be a key, an insertion fails after the row has been stored, and the indexes
that come later do not list it: there a scan finds the row and the index does not. -/
theorem matching_run_ne_scanFor_listDefault : ∃ created effects,
    Table.create "t" listDefault "d" = .ok (created, effects) ∧
      (created.run
        [.createIndex (.text "b"), .insert (.map [(.text "b", .int 2)])]).matching
          (.map [(.text "b", .int 2)]) ≠
      scanFor (predicatesOf created.schema [(.text "b", .int 2)])
        (created.run [.createIndex (.text "b"), .insert (.map [(.text "b", .int 2)])]).rows := by
  refine ⟨_, _, rfl, fun heq => ?_⟩
  have hindex : (Except.ok [] : Except Fault (List RowId)) = .ok [.int 1] := heq
  simp at hindex

end RecordStore.Table
