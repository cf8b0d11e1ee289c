import RecordStore.Proofs.Table.Canonical
import RecordStore.Proofs.Table.Matching

/-!
# What a deletion leaves

A deletion whose conditions can be evaluated removes the rows that a scan finds for them and nothing
else.  The other rows stay under their ids in their order, no id is given back, every index gives what
it gave without the ids that are gone, and nothing satisfies the conditions any more.

The one condition under which a deletion does otherwise is a single equality with what is not a number
on an indexed column that holds it: the index finds rows that no scan finds.
-/

namespace RecordStore

namespace Table

variable {table : Table} {records : List (Int × Record)}

/-! ## What a scan finds -/

/-- Whether a row is known to satisfy all predicates. -/
def satisfies (predicates : List Predicate) (row : Row) : Bool :=
  match Predicate.allHold row predicates with
  | .ok held => held
  | .error _ => false

/-- A scan that ends finds the rows that satisfy the predicates, which can be told of every row. -/
lemma scanFor_eq_ok {predicates : List Predicate} {rows : List (RowId × Row)} {ids : List RowId}
    (h : scanFor predicates rows = .ok ids) :
    (∀ entry ∈ rows,
        Predicate.allHold entry.2 predicates = .ok (satisfies predicates entry.2)) ∧
      ids = (rows.filter fun entry => satisfies predicates entry.2).map (·.1) := by
  induction rows generalizing ids with
  | nil =>
    cases h
    exact ⟨by simp, rfl⟩
  | cons entry rest ih =>
    obtain ⟨id, row⟩ := entry
    obtain ⟨matched, hmatched, h⟩ := Outcome.seq_eq_ok.mp h
    obtain ⟨others, hothers, h⟩ := Outcome.seq_eq_ok.mp h
    obtain rfl := Outcome.pure_eq_ok.mp h
    obtain ⟨htold, rfl⟩ := ih hothers
    have hsatisfies : satisfies predicates row = matched := by rw [satisfies, hmatched]
    refine ⟨List.forall_mem_cons.mpr ⟨?_, htold⟩, ?_⟩
    · rw [hsatisfies]
      exact hmatched
    · rw [List.filter_cons, hsatisfies]
      cases matched <;> rfl

/-- A scan finds nothing among rows that do not satisfy the predicates. -/
lemma scanFor_eq_nil {predicates : List Predicate} {rows : List (RowId × Row)}
    (h : ∀ entry ∈ rows, Predicate.allHold entry.2 predicates = .ok false) :
    scanFor predicates rows = .ok [] := by
  induction rows with
  | nil => rfl
  | cons entry rest ih =>
    obtain ⟨hfirst, hrest⟩ := List.forall_mem_cons.mp h
    rw [scanFor, hfirst, ih hrest]
    rfl

/-- Of rows under different ids, those that a scan does not find do not satisfy the predicates. -/
lemma scanFor_filter_eq_nil {predicates : List Predicate} {rows : List (RowId × Row)}
    {ids : List RowId} (h : scanFor predicates rows = .ok ids) :
    scanFor predicates (rows.filter fun entry => !ids.contains entry.1) = .ok [] := by
  obtain ⟨htold, rfl⟩ := scanFor_eq_ok h
  refine scanFor_eq_nil fun entry hentry => ?_
  obtain ⟨hrow, hnot⟩ := List.mem_filter.mp hentry
  rw [htold entry hrow]
  cases hsatisfies : satisfies predicates entry.2 with
  | false => rfl
  | true =>
    have hfound : entry.1 ∈
        (rows.filter fun entry => satisfies predicates entry.2).map (·.1) :=
      List.mem_map_of_mem (List.mem_filter.mpr ⟨hrow, hsatisfies⟩)
    rw [List.contains_iff_exists_mem_beq.mpr ⟨entry.1, hfound, Value.beq_self _⟩] at hnot
    cases hnot

/-! ## Equality with what is not a number -/

/-- Predicates that the index finds rows for and no scan does: they are a single equality, on an
indexed column, with what is not a number, and some row holds it. -/
def FindsUnequal (table : Table) (predicates : List Predicate) : Prop :=
  ∃ column operand, predicates = [⟨column, .equal, operand⟩] ∧ operand.isNotNumber = true ∧
    (table.index? column).isSome = true ∧
      ∃ entry ∈ table.rows, (entry.2.held column == operand) = true

/-- What is not a number is equal to nothing. -/
lemma equals_eq_false {operand : Value} (h : operand.isNotNumber = true) (v : Value) :
    v.equals operand = false := by
  cases hsame : v.same operand with
  | false => rw [Value.equals, hsame, Bool.false_and]
  | true =>
    have hv : v.isNotNumber = true := (Value.isNotNumber_congr hsame).trans h
    rw [Value.equals, hv, Bool.not_true, Bool.and_false]

/-- What is not a number can be a key and is there. -/
lemma isKey_of_isNotNumber {operand : Value} (h : operand.isNotNumber = true) :
    (operand.isNull || !operand.isHashable) = false := by
  cases operand <;> first | rfl | simp [Value.isNotNumber] at h

/-- A scan finds no rows for what is not a number. -/
lemma Lists.scanFor_unequal (h : table.Lists records) {operand : Value}
    (hoperand : operand.isNotNumber = true) (column : Value) :
    scanFor [⟨column, .equal, operand⟩] table.rows = .ok [] := by
  rw [h.rows, scanFor_equal]
  simp [equals_eq_false hoperand, Entries.keys]

/-- A scan finds no rows for predicates that the index finds rows for and no scan does. -/
lemma Lists.scanFor_of_findsUnequal (h : table.Lists records) {predicates : List Predicate}
    (hfinds : table.FindsUnequal predicates) : scanFor predicates table.rows = .ok [] := by
  obtain ⟨column, operand, rfl, hoperand, -, -⟩ := hfinds
  exact h.scanFor_unequal hoperand column

/-- An index has ids under a value exactly if some row holds what is the same. -/
lemma Lists.idsOf_ne_nil_iff (h : table.Lists records) (column v : Value) :
    idsOf records column v ≠ [] ↔
      ∃ entry ∈ table.rows, (entry.2.held column == v) = true := by
  rw [h.rows, idsOf, Entries.keys, ne_eq, List.map_eq_nil_iff, List.filter_eq_nil_iff]
  simp only [rowsOf, List.mem_map, exists_exists_and_eq_and, not_forall, not_not, exists_prop]
  rfl

/-- The index path and the scan find the same rows exactly if the index does not find rows that hold
what is not a number. -/
theorem Lists.matchPredicates_eq_iff (h : table.Lists records) (hsteady : table.Steady)
    (predicates : List Predicate) :
    table.matchPredicates predicates = scanFor predicates table.rows ↔
      ¬table.FindsUnequal predicates := by
  constructor
  · rintro heq ⟨column, operand, rfl, hoperand, hindexed, hheld⟩
    obtain ⟨index, hindex⟩ := Option.isSome_iff_exists.mp hindexed
    have hkey := isKey_of_isNotNumber hoperand
    have hids : index.ids operand = (idsOf records column operand).map .int := by
      rw [h.ids_of_index? hsteady hindex, hkey]
      rfl
    have hpath : table.matchPredicates [⟨column, .equal, operand⟩] =
        .ok ((idsOf records column operand).map .int) := by
      simp [matchPredicates, indexed?, hkey, hindex, hids]
    rw [hpath, h.scanFor_unequal hoperand] at heq
    exact (h.idsOf_ne_nil_iff column operand).mpr hheld (by simpa using heq)
  · intro hnot
    rw [matchPredicates]
    cases hindexed : table.indexed? predicates with
    | none => rfl
    | some ids =>
      obtain ⟨column, operand, index, rfl, hindex, rfl⟩ := h.indexed?_eq_some hsteady hindexed
      cases hoperand : operand.isNotNumber with
      | false => simp only [h.rows, scanFor_equal, idsOf, Value.equals_eq_beq_of_operand _ hoperand]
      | true =>
        have hempty : idsOf records column operand = [] := by
          by_contra hsome
          refine hnot ⟨column, operand, rfl, hoperand, ?_, ?_⟩
          · rw [hindex]
            rfl
          · exact (h.idsOf_ne_nil_iff column operand).mp hsome
        rw [hempty, h.scanFor_unequal hoperand]
        rfl

/-- Conditions are matched by the rows that a scan finds exactly if the index does not find rows that
hold what is not a number. -/
lemma Lists.matching_eq_iff (h : table.Lists records) (hsteady : table.Steady)
    (conditions : List (Value × Value)) :
    table.matching (.map conditions) = scanFor (predicatesOf table.schema conditions) table.rows ↔
      ¬table.FindsUnequal (predicatesOf table.schema conditions) := by
  cases conditions with
  | nil =>
    have hnone : ¬table.FindsUnequal (predicatesOf table.schema []) := by
      rintro ⟨column, operand, hpredicates, -⟩
      cases hpredicates
    exact iff_of_true (scanFor_nil table.rows).symm hnone
  | cons entry rest => exact h.matchPredicates_eq_iff hsteady _

/-! ## Deletions -/

/-- What a deletion does that removes the rows under some ids, which are the ones that a scan finds for
its conditions. -/
structure Deletes (table : Table) (conditions : List (Value × Value)) (ids : List RowId)
    (reply : Reply Nat) : Prop where
  found : scanFor (predicatesOf table.schema conditions) table.rows = .ok ids
  result : reply.result = .ok ids.length
  /-- The rows under other ids are left, as they were and in their order. -/
  rows : reply.table.rows = table.rows.filter fun entry => !ids.contains entry.1
  nextRowId : reply.table.nextRowId = table.nextRowId
  columns : Entries.keys reply.table.indexes = Entries.keys table.indexes
  /-- Every index gives what it gave, without the ids that are gone. -/
  lookups : ∀ column, Option.Rel
    (fun index index' => ∀ v, index'.lookup v =
      (index.lookup v).map fun listed => listed.filter fun id => !ids.contains id)
    (table.index? column) (reply.table.index? column)
  gone : reply.table.find (.map conditions) = .ok []

/-- The rows under ids other than some integers are the records under other integers. -/
lemma filter_rowsOf (records : List (Int × Record)) (is : List Int) :
    ((rowsOf records).filter fun entry => !(is.map Value.int).contains entry.1) =
      rowsOf (records.filter fun entry => !is.contains entry.1) := by
  rw [rowsOf, rowsOf, List.filter_map]
  congr 1
  exact List.filter_congr fun entry _ => by rw [Function.comp_apply, Value.contains_map_int]

/-- Removing rows lists the records under other ids. -/
lemma Lists.removedAll_filter (h : table.Lists records) (hsteady : table.Steady) (is : List Int) :
    (table.removedAll (is.map .int)).Lists
      (records.filter fun entry => !is.contains entry.1) := by
  rw [← Entries.foldl_drop_eq_filter]
  exact h.removedAll hsteady

/-- The ids of the records that hold a value and are left are those of the records that hold it,
without the ones that are gone. -/
lemma idsOf_filter (records : List (Int × Record)) (is : List Int) (column v : Value) :
    idsOf (records.filter fun entry => !is.contains entry.1) column v =
      (idsOf records column v).filter fun i => !is.contains i := by
  rw [idsOf, idsOf, Entries.keys, Entries.keys, List.filter_map, List.filter_filter,
    List.filter_filter]
  congr 1
  exact List.filter_congr fun entry _ => Bool.and_comm _ _

/-- What an index of a table that lists records gives under a key: all ids are integers, so that they
compare. -/
lemma Lists.lookup_eq (h : table.Lists records) (hsteady : table.Steady) {column : Value}
    {index : Index} (hindex : table.index? column = some index) (v : Value) :
    index.lookup v = if v.isHashable then
      .ok (if v.isNull then [] else (idsOf records column v).map .int) else .error .wrongType := by
  rw [Index.lookup, h.ids_of_index? hsteady hindex]
  cases v.isHashable with
  | false => rfl
  | true =>
    cases v.isNull with
    | true => rfl
    | false => simp [Index.areComparable_int]

/-- After rows have been removed every index gives what it gave, without the ids that are gone. -/
lemma Lists.lookups_removedAll (h : table.Lists records) (hsteady : table.Steady) (is : List Int)
    (column : Value) :
    Option.Rel
      (fun index index' => ∀ v, index'.lookup v =
        (index.lookup v).map fun listed => listed.filter fun id => !(is.map Value.int).contains id)
      (table.index? column) ((table.removedAll (is.map .int)).index? column) := by
  refine Entries.rel_lookup (removedAll_frame (is.map .int) table).2.2 fun index index' hindex hindex' v => ?_
  rw [h.lookup_eq hsteady hindex,
    (h.removedAll_filter hsteady is).lookup_eq (hsteady.removedAll _) hindex', idsOf_filter]
  cases v.isHashable with
  | false => rfl
  | true =>
    cases v.isNull with
    | true => rfl
    | false =>
      have hfilter : ∀ js : List Int,
          (js.map Value.int).filter (fun id => !(is.map Value.int).contains id) =
            (js.filter fun j => !is.contains j).map Value.int := by
        intro js
        rw [List.filter_map]
        congr 1
        exact List.filter_congr fun j _ => by rw [Function.comp_apply, Value.contains_map_int]
      simp only [if_true, Bool.false_eq_true, if_false, Except.map, hfilter]

/-- A table finds no rows for conditions after the rows that a scan finds for them have been
removed. -/
lemma Lists.find_removedAll (h : table.Lists records) (hsteady : table.Steady) {is : List Int}
    {conditions : List (Value × Value)}
    (hscan : scanFor (predicatesOf table.schema conditions) table.rows = .ok (is.map .int))
    (hnot : ¬table.FindsUnequal (predicatesOf table.schema conditions)) :
    (table.removedAll (is.map .int)).find (.map conditions) = .ok [] := by
  have hframe := removedAll_frame (is.map .int) table
  have hlists := h.removedAll_filter hsteady is
  have hrows : (table.removedAll (is.map .int)).rows =
      table.rows.filter fun entry => !(is.map Value.int).contains entry.1 := by
    rw [hlists.rows, h.rows, filter_rowsOf]
  have hnot' : ¬(table.removedAll (is.map .int)).FindsUnequal
      (predicatesOf (table.removedAll (is.map .int)).schema conditions) := by
    rintro ⟨column, operand, hpredicates, hoperand, hindexed, entry, hentry, hheld⟩
    refine hnot ⟨column, operand, hframe.1 ▸ hpredicates, hoperand, ?_, entry, ?_, hheld⟩
    · rw [index?, ← Entries.isSome_lookup_congr hframe.2.2 column]
      exact hindexed
    · rw [hrows] at hentry
      exact (List.mem_filter.mp hentry).1
  rw [find, (hlists.matching_eq_iff (hsteady.removedAll _) conditions).mpr hnot', hframe.1, hrows,
    scanFor_filter_eq_nil hscan]
  rfl

/-- A deletion whose conditions can be evaluated removes all rows that they are matched by. -/
lemma Lists.delete_eq (h : table.Lists records) (hsteady : table.Steady) {conditions : Value}
    {targets : List RowId} (hmatching : table.matching conditions = .ok targets) :
    ∃ effects, table.delete conditions =
      ⟨.ok targets.length, table.removedAll targets, effects⟩ := by
  cases targets with
  | nil =>
    rw [delete, hmatching]
    exact ⟨[], rfl⟩
  | cons id rest =>
    rw [delete, hmatching]
    simp only [h.removeRows_eq hsteady hmatching]
    exact ⟨_, rfl⟩

/-- A deletion whose conditions can be evaluated removes what a scan finds exactly if the index does
not find rows that hold what is not a number. -/
theorem Lists.deletes_iff (h : table.Lists records) (hsteady : table.Steady)
    {conditions : List (Value × Value)} {targets : List RowId}
    (hmatching : table.matching (.map conditions) = .ok targets) :
    (∃ ids, Deletes table conditions ids (table.delete (.map conditions))) ↔
      ¬table.FindsUnequal (predicatesOf table.schema conditions) := by
  obtain ⟨effects, hdelete⟩ := h.delete_eq hsteady hmatching
  rw [hdelete]
  constructor
  · rintro ⟨ids, hdeletes⟩ hfinds
    -- the scan finds nothing, so that nothing has been removed
    have hscan := h.scanFor_of_findsUnequal hfinds
    obtain rfl : [] = ids := Except.ok.inj (hscan.symm.trans hdeletes.found)
    have hlength : targets.length = 0 := Except.ok.inj hdeletes.result
    obtain rfl := List.length_eq_zero_iff.mp hlength
    exact (h.matching_eq_iff hsteady conditions).mp (hmatching.trans hscan.symm) hfinds
  · intro hnot
    have hscan := (h.matching_eq_iff hsteady conditions).mpr hnot
    rw [hmatching] at hscan
    obtain ⟨is, rfl, -, -⟩ := h.matching_eq_ok hsteady hmatching
    have hframe := removedAll_frame (is.map .int) table
    refine ⟨is.map .int, hscan.symm, rfl, ?_, hframe.2.1, hframe.2.2,
      h.lookups_removedAll hsteady is, h.find_removedAll hsteady hscan.symm hnot⟩
    rw [(h.removedAll_filter hsteady is).rows, h.rows, filter_rowsOf]

/-! ## Every state of a table -/

/-- A table whose columns have been described holds nothing in an indexed column that is not a
number. -/
lemma Settled.not_findsUnequal (h : table.Settled records) (predicates : List Predicate) :
    ¬table.FindsUnequal predicates := by
  rintro ⟨column, operand, -, hoperand, hindexed, entry, hentry, hheld⟩
  obtain ⟨index, hindex⟩ := Option.isSome_iff_exists.mp hindexed
  obtain ⟨k, hmem, hhash, hsame⟩ := h.steady.named.index?_eq_some hindex
  obtain ⟨-, -, c, hc, hname, hkind⟩ := h.steady.indexes _ hmem
  obtain ⟨record, hrecord, hholds⟩ := h.canonical entry hentry
  have hvalue : entry.2.held column = record.value c.name := by
    rw [hrecord, ← value_congr hhash (Value.beq_trans hhash hsame hname)]
    rfl
  have hnumber := Value.isNotNumber_congr hheld
  rw [hvalue, (isHashable_value hholds hc hkind).2, hoperand] at hnumber
  cases hnumber

/-- In every state of a table whose columns have been described, a deletion whose conditions can be
evaluated removes exactly the rows that a scan finds for them. -/
theorem exists_deletes_run {source : SchemaSource} (hsource : source.IsDescribed) {schema : Schema}
    (hschema : Schema.ofSource source = .ok schema) {name directory : String} {created : Table}
    {effects : List Effect}
    (hcreate : Table.create name (.schema schema) directory = .ok (created, effects))
    (requests : List Request) {conditions : List (Value × Value)} {targets : List RowId}
    (hmatching : (created.run requests).matching (.map conditions) = .ok targets) :
    ∃ ids, Deletes (created.run requests) conditions ids
      ((created.run requests).delete (.map conditions)) := by
  obtain ⟨records, hsettled⟩ := (settled_of_create hsource hschema hcreate).run requests
  exact (hsettled.lists.deletes_iff hsettled.steady hmatching).mpr (hsettled.not_findsUnequal _)

/-- In every state of a table, whatever has been asked of it and with whatever outcome, a deletion whose
conditions can be evaluated removes exactly the rows that a scan finds for them, exactly if the
conditions are not a single equality with what is not a number on an indexed column that holds it. -/
theorem deletes_run_iff {source : SchemaSource} (hsource : source.HasKeyDefaults)
    {name directory : String} {created : Table} {effects : List Effect}
    (hcreate : Table.create name source directory = .ok (created, effects))
    (requests : List Request) {conditions : List (Value × Value)} {targets : List RowId}
    (hmatching : (created.run requests).matching (.map conditions) = .ok targets) :
    (∃ ids, Deletes (created.run requests) conditions ids
        ((created.run requests).delete (.map conditions))) ↔
      ¬(created.run requests).FindsUnequal (predicatesOf created.schema conditions) := by
  obtain ⟨schema, hschema, -⟩ := create_eq_ok hcreate
  obtain ⟨-, hsteady, -, hlists⟩ := lists_of_create (hsource.sound hschema) hschema hcreate
  have hreaches := hsteady.reaches_run requests
  obtain ⟨records, hrecords⟩ := hlists.reaches hsteady hreaches
  rw [← Reaches.schema_eq hreaches]
  exact hrecords.deletes_iff (hsteady.reaches hreaches) hmatching

/-- After two insertions and an update that fails, a deletion by the value of the unique column removes
the row that holds it. -/
theorem deletes_run_iff_twoColumns : ∃ created effects,
    Table.create "t" twoColumns "d" = .ok (created, effects) ∧
      (created.run requestsOnTwo).matching (.map [(.text "a", .bool true)]) = .ok [.int 1] ∧
      ((∃ ids, Deletes (created.run requestsOnTwo) [(.text "a", .bool true)] ids
          ((created.run requestsOnTwo).delete (.map [(.text "a", .bool true)]))) ↔
        ¬(created.run requestsOnTwo).FindsUnequal
          (predicatesOf created.schema [(.text "a", .bool true)])) :=
  ⟨_, _, rfl, rfl,
    deletes_run_iff isDescribed_twoColumns.hasKeyDefaults rfl requestsOnTwo rfl⟩

/-- If a default cannot be a key, an insertion fails after the row has been stored, and the deletion of
the row fails after it has been removed. -/
theorem not_deletes_listDefault : ∃ created effects,
    Table.create "t" listDefault "d" = .ok (created, effects) ∧
      (created.run [.insert (.map [(.text "b", .int 2)])]).matching
          (.map [(.text "b", .int 2)]) = .ok [.int 1] ∧
      ¬∃ ids, Deletes (created.run [.insert (.map [(.text "b", .int 2)])]) [(.text "b", .int 2)] ids
        ((created.run [.insert (.map [(.text "b", .int 2)])]).delete
          (.map [(.text "b", .int 2)])) := by
  refine ⟨_, _, rfl, rfl, ?_⟩
  rintro ⟨ids, hdeletes⟩
  have hresult : (Except.error Fault.wrongType : Except Fault Nat) = .ok ids.length :=
    hdeletes.result
  cases hresult

end Table

end RecordStore
