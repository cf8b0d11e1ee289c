import RecordStore.Proofs.Table.Run

/-!
# Rows and indexes agree

A table that has been made empty and changed step by step lists records under ascending integer ids,
all below the id of the next row, and every index denotes the pairs of an id and a value such that
the record under the id holds the value in the column of the index.  Every step keeps this: a record
is appended under the next id, records are put in the places of others, or records are removed, and
the indexes follow.
-/

namespace RecordStore

namespace Table

/-! ## The records of a table -/

/-- Records under integer ids as rows. -/
def rowsOf (records : List (Int × Record)) : List (RowId × Row) :=
  records.map fun entry => (.int entry.1, .record entry.2)

/-- The record under an id holds a value that is there in a column. -/
def HeldIn (records : List (Int × Record)) (column : Value) (i : Int) (w : Value) : Prop :=
  ∃ record, (i, record) ∈ records ∧ record.value column = w ∧ w.isNull = false

/-- A table lists records, and its indexes agree with them. -/
structure Lists (table : Table) (records : List (Int × Record)) : Prop where
  /-- The rows are the records. -/
  rows : table.rows = rowsOf records
  /-- The ids are ascending. -/
  ascending : (Entries.keys records).Pairwise (· < ·)
  /-- The ids are below the one of the next row. -/
  next : ∃ next : Int, table.nextRowId = .whole next ∧ ∀ i ∈ Entries.keys records, i < next
  /-- Every index denotes what the records hold. -/
  denotes : ∀ entry ∈ table.indexes, entry.2.Denotes (HeldIn records entry.2.column)

/-- A table has records for rows, under ascending ids below the one of the next row, whatever its indexes
are. -/
structure Numbers (table : Table) (records : List (Int × Record)) : Prop where
  rows : table.rows = rowsOf records
  ascending : (Entries.keys records).Pairwise (· < ·)
  next : ∃ next : Int, table.nextRowId = .whole next ∧ ∀ i ∈ Entries.keys records, i < next

variable {table : Table} {records : List (Int × Record)}

/-- A table that lists records has them for rows. -/
lemma Lists.numbers (h : table.Lists records) : table.Numbers records :=
  ⟨h.rows, h.ascending, h.next⟩

/-- A table without indexes lists the records that it numbers. -/
lemma Numbers.lists (h : table.Numbers records) (hnone : table.indexes = []) :
    table.Lists records := by
  refine ⟨h.rows, h.ascending, h.next, fun entry hentry => ?_⟩
  rw [hnone] at hentry
  cases hentry

/-- No id stands twice. -/
lemma Numbers.nodup (h : table.Numbers records) : (Entries.keys records).Nodup :=
  h.ascending.imp fun hlt => hlt.ne

/-- No id stands twice. -/
lemma Lists.nodup (h : table.Lists records) : (Entries.keys records).Nodup :=
  h.numbers.nodup

/-- Every record is a row under its id. -/
lemma Lists.mem_rows (h : table.Lists records) {entry : Int × Record} (hentry : entry ∈ records) :
    (Value.int entry.1, Row.record entry.2) ∈ table.rows := by
  rw [h.rows]
  exact List.mem_map_of_mem hentry

/-- The row under an integer is the record under it. -/
lemma lookup_rowsOf (records : List (Int × Record)) (i : Int) :
    (rowsOf records).lookup (.int i) = (records.lookup i).map .record := by
  induction records with
  | nil => rfl
  | cons entry rest ih =>
    obtain ⟨j, record⟩ := entry
    rw [rowsOf, List.map_cons, List.lookup_cons, List.lookup_cons, ← rowsOf, ih,
      Value.int_beq_int, ← beq_eq_decide]
    cases i == j <;> rfl

/-- The record under an integer id is one of the records. -/
lemma mem_of_recordAt (hrows : table.rows = rowsOf records) {i : Int} {record : Record}
    (h : table.recordAt (.int i) = .ok record) : (i, record) ∈ records := by
  obtain ⟨row, hrow, hrecord⟩ := Outcome.bind_eq_ok.mp h
  unfold rowAt at hrow
  rw [row?, hrows, lookup_rowsOf] at hrow
  cases hlookup : records.lookup i with
  | none =>
    rw [hlookup] at hrow
    cases hrow
  | some found =>
    rw [hlookup] at hrow
    obtain rfl : Row.record found = row := Except.ok.inj hrow
    obtain rfl : found = record := Except.ok.inj hrecord
    obtain ⟨before, after, rfl, -⟩ := List.lookup_eq_some_iff.mp hlookup
    simp

/-- A record is the one under its id. -/
lemma recordAt_of_mem (hrows : table.rows = rowsOf records) (hnodup : (Entries.keys records).Nodup)
    {i : Int} {record : Record} (h : (i, record) ∈ records) :
    table.recordAt (.int i) = .ok record := by
  rw [recordAt, rowAt, row?, hrows, lookup_rowsOf, Entries.lookup_eq_some_of_mem hnodup h]
  rfl

/-- Every listed id has its record. -/
lemma Lists.recordAt_eq (h : table.Lists records) {i : Int} (hi : i ∈ Entries.keys records) :
    ∃ record, table.recordAt (.int i) = .ok record := by
  obtain ⟨entry, hentry, rfl⟩ := List.mem_map.mp hi
  exact ⟨entry.2, recordAt_of_mem h.rows h.nodup hentry⟩

/-- Putting a record under an integer, in rows and in records. -/
lemma put_rowsOf (records : List (Int × Record)) (i : Int) (record : Record) :
    Entries.put (.int i) (.record record) (rowsOf records) =
      rowsOf (Entries.put i record records) := by
  induction records with
  | nil => rfl
  | cons entry rest ih =>
    obtain ⟨j, other⟩ := entry
    rw [rowsOf, List.map_cons, Entries.put, Entries.put, ← rowsOf, ih, Value.int_beq_int]
    by_cases hij : j = i
    · simp [hij, rowsOf]
    · simp [hij, rowsOf]

/-- Removing what is under an integer, in rows and in records. -/
lemma drop_rowsOf (records : List (Int × Record)) (i : Int) :
    Entries.drop (.int i) (rowsOf records) = rowsOf (Entries.drop i records) := by
  rw [Entries.drop, Entries.drop, rowsOf, rowsOf, List.filter_map]
  congr 1
  refine List.filter_congr fun entry _ => ?_
  rw [Function.comp_apply, Value.int_beq_int, ← beq_eq_decide]

/-- Rows that are the rows of records are so of no other records. -/
lemma rowsOf_injective : Function.Injective rowsOf := by
  refine List.map_injective_iff.mpr fun a b hab => ?_
  simp only [Prod.mk.injEq, Value.int.injEq, Row.record.injEq] at hab
  exact Prod.ext hab.1 hab.2

/-- Tables with the same rows list the same records. -/
lemma Lists.records_eq {other : Table} {records' : List (Int × Record)} (h : table.Lists records)
    (h' : other.Lists records') (hrows : table.rows = other.rows) : records = records' := by
  rw [h.rows, h'.rows] at hrows
  exact rowsOf_injective hrows

/-- The record that an id stands for is the only one under it. -/
lemma getD_lookup_eq {i : Int} {record : Record} (hnd : (Entries.keys records).Nodup)
    (hmem : (i, record) ∈ records) : (records.lookup i).getD [] = record := by
  rw [Entries.lookup_eq_some_of_mem hnd hmem]
  rfl

/-- What stands for the row under an integer is the record under it, or the empty one. -/
lemma Lists.getD_row? (h : table.Lists records) (i : Int) :
    (table.row? (.int i)).getD (.record []) = .record ((records.lookup i).getD []) := by
  rw [row?, h.rows, lookup_rowsOf]
  cases records.lookup i <;> rfl

/-! ## Indexes that follow the records -/

/-- Entering a record under a new id adds what it holds. -/
lemma denotes_enterRow {index : Index} {record : Record} {i : Int}
    (h : index.Denotes (HeldIn records index.column))
    (hkey : (Row.record record).HasKey index.column) :
    (index.enterRow (.int i) (.record record)).Denotes
      (HeldIn (records ++ [(i, record)]) index.column) := by
  refine (h.enter hkey.isHashable i).congr fun j w => ?_
  simp only [HeldIn, List.mem_append, List.mem_singleton, Prod.mk.injEq]
  constructor
  · rintro ⟨record', hmem | ⟨rfl, rfl⟩, rfl, hpresent⟩
    · exact Or.inl ⟨record', hmem, rfl, hpresent⟩
    · exact Or.inr ⟨rfl, rfl, hpresent⟩
  · rintro (⟨record', hmem, hvalue, hpresent⟩ | ⟨rfl, rfl, hpresent⟩)
    · exact ⟨record', Or.inl hmem, hvalue, hpresent⟩
    · exact ⟨record, Or.inr ⟨rfl, rfl⟩, rfl, hpresent⟩

/-- Taking the record under an id out removes what it held. -/
lemma denotes_leaveRow {index : Index} {i : Int} (hnd : (Entries.keys records).Nodup)
    (h : index.Denotes (HeldIn records index.column))
    (hkey : (Row.record ((records.lookup i).getD [])).HasKey index.column) :
    (index.leaveRow (.int i) (.record ((records.lookup i).getD []))).Denotes
      (HeldIn (Entries.drop i records) index.column) := by
  refine (h.leave hkey.isHashable i).congr fun j w => ?_
  have hmem : ∀ record, (j, record) ∈ Entries.drop i records ↔ (j, record) ∈ records ∧ j ≠ i := by
    simp [Entries.drop]
  simp only [HeldIn, hmem]
  constructor
  · rintro ⟨record, ⟨hold, hne⟩, hvalue, hpresent⟩
    exact ⟨⟨record, hold, hvalue, hpresent⟩, fun hboth => hne hboth.1⟩
  · rintro ⟨⟨record, hold, rfl, hpresent⟩, hnot⟩
    refine ⟨record, ⟨hold, fun hj => hnot ⟨hj, ?_⟩⟩, rfl, hpresent⟩
    subst hj
    rw [getD_lookup_eq hnd hold]
    exact Value.beq_self _

/-- Taking the record under an id out and entering another one under the id replaces what it
held. -/
lemma denotes_replaceRow {index : Index} {record : Record} {i : Int}
    (hnd : (Entries.keys records).Nodup) (h : index.Denotes (HeldIn records index.column))
    (hold : (Row.record ((records.lookup i).getD [])).HasKey index.column)
    (hkey : (Row.record record).HasKey index.column) :
    ((index.leaveRow (.int i) (.record ((records.lookup i).getD []))).enterRow (.int i)
      (.record record)).Denotes (HeldIn (Entries.put i record records) index.column) := by
  have hleft := denotes_leaveRow hnd h hold
  rw [← Index.leaveRow_column index (.int i) (.record ((records.lookup i).getD []))] at hleft hkey
  have hentered := denotes_enterRow (i := i) hleft hkey
  rw [Index.leaveRow_column] at hentered
  refine hentered.congr fun j w => ?_
  have hmem : ∀ r, (j, r) ∈ Entries.put i record records ↔
      (j, r) ∈ Entries.drop i records ++ [(i, record)] := fun r => by
    rw [Entries.mem_put_iff hnd, Entries.drop, List.mem_append, List.mem_filter,
      List.mem_singleton, or_comm]
    simp
  simp only [HeldIn, hmem]

/-- The index that is built from records denotes what they hold. -/
lemma denotes_ofRows {column : Value} {index : Index}
    (h : Index.ofRows column (rowsOf records) = .ok index) :
    index.column = column ∧ index.Denotes (HeldIn records column) := by
  obtain ⟨hkeys, hfold⟩ := Index.ofRows_eq_ok.mp h
  -- the records that have been entered so far are `done`
  have hmain : ∀ (rest done : List (Int × Record)) (index : Index), index.column = column →
      index.Denotes (HeldIn done column) →
      (∀ entry ∈ rowsOf rest, entry.2.HasKey column) →
      ((rowsOf rest).foldl (fun index entry => index.enterRow entry.1 entry.2) index).Denotes
        (HeldIn (done ++ rest) column) := by
    intro rest
    induction rest with
    | nil =>
      intro done index _ hdenotes _
      rw [List.append_nil]
      exact hdenotes
    | cons entry rest ih =>
      intro done index hcolumn hdenotes hrest
      obtain ⟨i, record⟩ := entry
      obtain ⟨hfirst, hrest⟩ := List.forall_mem_cons.mp hrest
      have hcons : done ++ (i, record) :: rest = (done ++ [(i, record)]) ++ rest := by simp
      rw [hcons]
      subst hcolumn
      exact ih (done ++ [(i, record)]) _ (Index.enterRow_column _ _ _)
        (denotes_enterRow hdenotes hfirst) hrest
  refine ⟨?_, ?_⟩
  · rw [← hfold]
    exact Index.foldl_enterRow_column _ _
  · rw [← hfold]
    refine hmain records [] _ rfl ?_ hkeys
    exact (Index.denotes_empty column).congr fun _ _ => by simp [HeldIn]

/-! ## Steps -/

/-- The empty table lists nothing. -/
lemma lists_empty (name : String) (schema : Schema) (directory : String) :
    (empty name schema directory).Lists [] :=
  ⟨rfl, List.Pairwise.nil, ⟨1, rfl, by simp [Entries.keys]⟩, by simp [empty]⟩

/-- Appending a record lists it under the next id. -/
lemma Lists.appended (h : table.Lists records) (hsteady : table.Steady) {record : Record}
    (hrecord : table.schema.Holds KeyIn record) :
    ∃ next : Int, table.nextRowId = .whole next ∧ (∀ i ∈ Entries.keys records, i < next) ∧
      (table.appended record).Lists (records ++ [(next, record)]) := by
  obtain ⟨next, hnext, hbelow⟩ := h.next
  have hkeys : Entries.keys (records ++ [(next, record)]) = Entries.keys records ++ [next] := by
    simp [Entries.keys]
  have hfresh : next ∉ Entries.keys records := fun hmem => lt_irrefl _ (hbelow next hmem)
  refine ⟨next, hnext, hbelow, ?_, ?_, ⟨next + 1, ?_, ?_⟩, ?_⟩
  · simp only [Table.appended, entered, withRow, hnext, h.rows]
    rw [← Entries.put_of_not_mem hfresh]
    exact put_rowsOf records next record
  · rw [hkeys, List.pairwise_append]
    refine ⟨h.ascending, List.pairwise_singleton _ _, fun i hi j hj => ?_⟩
    rw [List.mem_singleton.mp hj]
    exact hbelow i hi
  · simp only [Table.appended, entered, withRow, hnext]
    rfl
  · intro i hi
    rw [hkeys, List.mem_append, List.mem_singleton] at hi
    rcases hi with hi | rfl
    · exact (hbelow i hi).trans (Int.lt_succ next)
    · exact Int.lt_succ i
  · intro entry hentry
    obtain ⟨old, hold, rfl⟩ := List.mem_map.mp hentry
    rw [hnext]
    simp only [Index.enterRow_column]
    exact denotes_enterRow (h.denotes old hold) (hsteady.hasKey_record hrecord old hold)

/-- Replacing the row under an id lists the new record in its place. -/
lemma Lists.replaced (h : table.Lists records) (hsteady : table.Steady) {record : Record}
    (hrecord : table.schema.Holds KeyIn record) {i : Int} (hi : i ∈ Entries.keys records) :
    (table.replaced (.int i) record).Lists (Entries.put i record records) := by
  have hkeys := Entries.keys_put_of_mem (v := record) hi
  refine ⟨?_, ?_, ?_, ?_⟩
  · simp only [Table.replaced, entered, withRow, left, h.rows]
    exact put_rowsOf records i record
  · rw [hkeys]
    exact h.ascending
  · rw [hkeys]
    exact h.next
  · intro entry hentry
    obtain ⟨between, hbetween, rfl⟩ := List.mem_map.mp hentry
    obtain ⟨old, hold, rfl⟩ := List.mem_map.mp hbetween
    have hkeyold := hsteady.hasKey_row? (.int i) old hold
    rw [h.getD_row?] at hkeyold ⊢
    simp only [Index.enterRow_column, Index.leaveRow_column]
    exact denotes_replaceRow h.nodup (h.denotes old hold) hkeyold
      (hsteady.hasKey_record hrecord old hold)

/-- Removing the row under an id lists the other records. -/
lemma Lists.removed (h : table.Lists records) (hsteady : table.Steady) (i : Int) :
    (table.removed (.int i)).Lists (Entries.drop i records) := by
  have hsub : (Entries.keys (Entries.drop i records)).Sublist (Entries.keys records) :=
    List.filter_sublist.map _
  refine ⟨?_, h.ascending.sublist hsub, ?_, ?_⟩
  · simp only [Table.removed, withoutRow, left, h.rows]
    exact drop_rowsOf records i
  · obtain ⟨next, hnext, hbelow⟩ := h.next
    exact ⟨next, hnext, fun j hj => hbelow j (hsub.subset hj)⟩
  · intro entry hentry
    obtain ⟨old, hold, rfl⟩ := List.mem_map.mp hentry
    have hkeyold := hsteady.hasKey_row? (.int i) old hold
    rw [h.getD_row?] at hkeyold ⊢
    simp only [Index.leaveRow_column]
    exact denotes_leaveRow h.nodup (h.denotes old hold) hkeyold

/-- Records under integer ids as they are staged. -/
def stagedOf (staged : List (Int × Record)) : List (RowId × Record) :=
  staged.map fun entry => (.int entry.1, entry.2)

/-- Replacing rows lists the new records in their places. -/
lemma Lists.replacedAll {staged : List (Int × Record)} (h : table.Lists records)
    (hsteady : table.Steady) (hrecords : ∀ entry ∈ staged, table.schema.Holds KeyIn entry.2)
    (hids : ∀ entry ∈ staged, entry.1 ∈ Entries.keys records) :
    (table.replacedAll (stagedOf staged)).Lists
      (staged.foldl (fun records entry => Entries.put entry.1 entry.2 records) records) := by
  induction staged generalizing table records with
  | nil => exact h
  | cons entry rest ih =>
    obtain ⟨hfirst, hrest⟩ := List.forall_mem_cons.mp hrecords
    obtain ⟨hid, hids⟩ := List.forall_mem_cons.mp hids
    refine ih (h.replaced hsteady hfirst hid) (hsteady.replaced hfirst _) hrest fun e he => ?_
    rw [Entries.keys_put_of_mem hid]
    exact hids e he

/-- Removing rows lists the other records. -/
lemma Lists.removedAll {is : List Int} (h : table.Lists records) (hsteady : table.Steady) :
    (table.removedAll (is.map .int)).Lists
      (is.foldl (fun records i => Entries.drop i records) records) := by
  induction is generalizing table records with
  | nil => exact h
  | cons i rest ih => exact ih (h.removed hsteady i) (hsteady.removed _)

/-- Putting an index that has been built from the rows on a column lists the same records. -/
lemma Lists.withIndex (h : table.Lists records) {column : Value} {index : Index}
    (hindex : Index.ofRows column table.rows = .ok index) :
    (table.withIndex column index).Lists records := by
  refine ⟨h.rows, h.ascending, h.next, fun entry hentry => ?_⟩
  rcases Entries.mem_put hentry with hentry | ⟨hnew, -⟩
  · exact h.denotes entry hentry
  · rw [h.rows] at hindex
    obtain ⟨hcolumn, hdenotes⟩ := denotes_ofRows hindex
    rw [hnew, hcolumn]
    exact hdenotes

/-- Removing an index lists the same records. -/
lemma Lists.withoutIndex (h : table.Lists records) (column : Value) :
    (table.withoutIndex column).Lists records :=
  ⟨h.rows, h.ascending, h.next, fun entry hentry => h.denotes entry (List.mem_filter.mp hentry).1⟩

/-! ## What an index lists -/

/-- The ids of the records that hold what is the same as a value in a column, in order. -/
def idsOf (records : List (Int × Record)) (column v : Value) : List Int :=
  Entries.keys (records.filter fun entry => entry.2.value column == v)

/-- Ascending integers are known by their members. -/
lemma eq_of_ascending {is js : List Int} (his : is.Pairwise (· < ·)) (hjs : js.Pairwise (· < ·))
    (h : ∀ i, i ∈ is ↔ i ∈ js) : is = js := by
  have hperm : is.Perm js :=
    (List.perm_ext_iff_of_nodup (his.imp fun hlt => hlt.ne) (hjs.imp fun hlt => hlt.ne)).mpr h
  refine hperm.eq_of_pairwise (fun a b _ _ hab hba => ?_) his hjs
  exact absurd (hab.trans hba) (lt_irrefl a)

/-- The ids under a key that is there are those of the records that hold it, in order. -/
theorem Lists.ids_eq (h : table.Lists records) {entry : Value × Index}
    (hentry : entry ∈ table.indexes) {v : Value} (hv : v.isHashable = true)
    (hpresent : v.isNull = false) :
    entry.2.ids v = (idsOf records entry.2.column v).map .int := by
  have hdenotes := h.denotes entry hentry
  obtain ⟨is, his, hascending⟩ := hdenotes.regular.ids_ascending v
  rw [his]
  congr 1
  refine eq_of_ascending hascending (h.ascending.sublist (List.filter_sublist.map _)) fun i => ?_
  have hmem : i ∈ is ↔ Value.int i ∈ entry.2.ids v := by
    rw [his]
    simp
  rw [hmem, hdenotes.mem_ids i v hv, idsOf, Entries.keys, List.mem_map]
  constructor
  · rintro ⟨w, ⟨record, hrecord, rfl, -⟩, hsame⟩
    exact ⟨(i, record), List.mem_filter.mpr ⟨hrecord, hsame⟩, rfl⟩
  · rintro ⟨⟨j, record⟩, hfiltered, rfl⟩
    obtain ⟨hrecord, hsame⟩ := List.mem_filter.mp hfiltered
    exact ⟨_, ⟨record, hrecord, rfl, (Value.isNull_congr hsame).trans hpresent⟩, hsame⟩

/-- The index of a column is on what is the same as the name that it is found under. -/
lemma Named.index?_eq_some (h : table.Named) {column : Value} {index : Index}
    (hindex : table.index? column = some index) :
    ∃ k, (k, index) ∈ table.indexes ∧ column.isHashable = true ∧
      (column == index.column) = true := by
  obtain ⟨k, hmem, hsame⟩ := Entries.mem_of_lookup_eq_some hindex
  obtain ⟨hhash, hname, -⟩ := h _ hmem
  have hk : k.isHashable = true := (Value.isHashable_congr hname).trans hhash
  have hcolumn : column.isHashable = true := (Value.isHashable_congr hsame).trans hk
  exact ⟨k, hmem, hcolumn, Value.beq_trans hcolumn hsame hname⟩

/-- A unique column that has an index can be indexed, and the index is on it. -/
lemma Named.exists_index (h : table.Named) {P : Column → Prop} (hschema : table.schema.Sound P)
    (hkeyed : table.KeyIndexed) {c : Column} (hc : c ∈ table.schema.columns)
    (hunique : c.isUnique = true) :
    ∃ k index, (k, index) ∈ table.indexes ∧ table.index? c.name = some index ∧
      (c.name == index.column) = true ∧ c.kind.isIndexable = true := by
  have hhas := hkeyed c.name (mem_uniqueNames hc hunique)
  rw [Entries.has_eq_isSome_lookup (hschema.hashable c hc)] at hhas
  obtain ⟨index, hindex⟩ := Option.isSome_iff_exists.mp hhas
  obtain ⟨k, hmem, hhash, hsame⟩ := h.index?_eq_some hindex
  obtain ⟨-, -, d, hd, hname, hkind⟩ := h _ hmem
  obtain rfl := hschema.eq_of_beq hc hd (Value.beq_trans hhash hsame hname)
  exact ⟨k, index, hmem, hindex, hsame, hkind⟩

/-- What a record holds under names that are the same is the same. -/
lemma value_congr {a b : Value} (ha : a.isHashable = true) (h : (a == b) = true)
    (record : Record) : record.value a = record.value b := by
  rw [Record.value, Record.value, Entries.lookup_congr ha h]

/-- What an index gives for any value: nothing for one that is absent or cannot be a key, and else
the ids of the records that hold the same, in order. -/
theorem Lists.ids_of_index? (h : table.Lists records) (hsteady : table.Steady) {column : Value}
    {index : Index} (hindex : table.index? column = some index) (v : Value) :
    index.ids v =
      if v.isNull || !v.isHashable then [] else (idsOf records column v).map .int := by
  obtain ⟨k, hmem, hhash, hsame⟩ := hsteady.named.index?_eq_some hindex
  have hregular := (h.denotes _ hmem).regular
  cases hnull : v.isNull with
  | true => exact hregular.ids_null hnull
  | false =>
    cases hv : v.isHashable with
    | true =>
      simp only [Bool.not_true, Bool.or_self, Bool.false_eq_true, if_false, idsOf]
      simp only [value_congr hhash hsame]
      exact h.ids_eq hmem hv hnull
    | false =>
      simp only [Bool.not_false, Bool.or_true, if_true]
      rw [Index.ids, Index.bucket?]
      cases hids : index.buckets.lookup v with
      | none => rfl
      | some ids =>
        obtain ⟨key, hbucket, hkey⟩ := Entries.mem_of_lookup_eq_some hids
        rw [Value.isHashable_congr hkey, hregular.hashable _ hbucket] at hv
        cases hv

/-- Only a single equality with a value that can be a key is answered by an index. -/
lemma exists_of_indexed? {predicates : List Predicate} {ids : List RowId}
    (h : table.indexed? predicates = some ids) :
    ∃ column operand index, predicates = [⟨column, .equal, operand⟩] ∧
      (operand.isNull || !operand.isHashable) = false ∧
        table.index? column = some index ∧ index.ids operand = ids := by
  unfold indexed? at h
  split at h
  · rename_i column operand
    split at h
    · cases h
    · rename_i hkey
      obtain ⟨index, hindex, rfl⟩ := Option.map_eq_some_iff.mp h
      exact ⟨column, operand, index, rfl, Bool.eq_false_iff.mpr hkey, hindex, rfl⟩
  · cases h

/-- The answer of an index is the ids of the records that hold the value, in order. -/
lemma Lists.indexed?_eq_some (h : table.Lists records) (hsteady : table.Steady)
    {predicates : List Predicate} {ids : List RowId} (hids : table.indexed? predicates = some ids) :
    ∃ column operand index, predicates = [⟨column, .equal, operand⟩] ∧
      table.index? column = some index ∧ ids = (idsOf records column operand).map .int := by
  obtain ⟨column, operand, index, rfl, hkey, hindex, rfl⟩ := exists_of_indexed? hids
  refine ⟨column, operand, index, rfl, hindex, ?_⟩
  rw [h.ids_of_index? hsteady hindex, hkey]
  rfl

/-! ## Matching ids -/

/-- The ids that a scan finds are ids of the rows, in order. -/
lemma sublist_of_scanFor {predicates : List Predicate} {rows : List (RowId × Row)}
    {ids : List RowId} (h : scanFor predicates rows = .ok ids) :
    ids.Sublist (rows.map (·.1)) := by
  induction rows generalizing ids with
  | nil =>
    cases h
    exact List.Sublist.slnil
  | cons entry rest ih =>
    obtain ⟨id, row⟩ := entry
    obtain ⟨matched, -, h⟩ := Outcome.seq_eq_ok.mp h
    obtain ⟨others, hothers, h⟩ := Outcome.seq_eq_ok.mp h
    obtain rfl := Outcome.pure_eq_ok.mp h
    cases matched with
    | true => exact (ih hothers).cons_cons id
    | false => exact (ih hothers).cons id

/-- The ids of rows are integers. -/
lemma map_fst_rowsOf (records : List (Int × Record)) :
    (rowsOf records).map (·.1) = (Entries.keys records).map .int := by
  simp [rowsOf, Entries.keys]

/-- Ids that are found among the integers that rows have for ids are ascending ids of records. -/
lemma Numbers.of_sublist (h : table.Numbers records) {ids : List RowId}
    (hids : ids.Sublist (table.rows.map (·.1))) :
    ∃ is : List Int, ids = is.map .int ∧ is.Pairwise (· < ·) ∧
      ∀ i ∈ is, i ∈ Entries.keys records := by
  rw [h.rows, map_fst_rowsOf] at hids
  obtain ⟨is, his, rfl⟩ := List.sublist_map_iff.mp hids
  exact ⟨is, rfl, h.ascending.sublist his, fun i hi => his.subset hi⟩

/-- The ids of matching rows are ascending ids of records. -/
theorem Lists.matching_eq_ok (h : table.Lists records) (hsteady : table.Steady)
    {conditions : Value} {targets : List RowId} (htargets : table.matching conditions = .ok targets) :
    ∃ is : List Int, targets = is.map .int ∧ is.Pairwise (· < ·) ∧
      ∀ i ∈ is, i ∈ Entries.keys records := by
  unfold matching at htargets
  split at htargets
  · split at htargets
    · rw [matchPredicates] at htargets
      split at htargets
      · rename_i ids hindexed
        obtain rfl : ids = targets := by simpa using htargets
        obtain ⟨column, operand, index, -, -, rfl⟩ := h.indexed?_eq_some hsteady hindexed
        have hsub : (idsOf records column operand).Sublist (Entries.keys records) :=
          List.filter_sublist.map _
        exact ⟨_, rfl, h.ascending.sublist hsub, fun i hi => hsub.subset hi⟩
      · exact h.numbers.of_sublist (sublist_of_scanFor htargets)
    · cases htargets
  · obtain rfl : table.rows.map (·.1) = targets := by simpa using htargets
    exact h.numbers.of_sublist (List.Sublist.refl _)

/-- No deletion comes upon an id without a record. -/
theorem Lists.not_stopsAfter (h : table.Lists records) (hsteady : table.Steady)
    {conditions : Value} {targets : List RowId} (htargets : table.matching conditions = .ok targets)
    (before : List RowId) : ¬table.StopsAfter targets before := by
  rintro ⟨-, id, after, hsplit, hnone⟩
  obtain ⟨is, rfl, hascending, hrecords⟩ := h.matching_eq_ok hsteady htargets
  obtain ⟨done, rest, rfl, rfl, hrest⟩ := List.map_eq_append_iff.mp hsplit
  obtain ⟨i, left, rfl, rfl, -⟩ := List.map_eq_cons_iff.mp hrest
  have hlisted : (table.removedAll (done.map .int)).Lists _ := h.removedAll hsteady
  rw [row?, hlisted.rows, lookup_rowsOf, Option.map_eq_none_iff, List.lookup_eq_none_iff] at hnone
  obtain ⟨record, hrecord⟩ : ∃ record, (i, record) ∈ records := by
    obtain ⟨entry, hentry, rfl⟩ := List.mem_map.mp (hrecords i (by simp))
    exact ⟨entry.2, hentry⟩
  have hnot : i ∉ done := fun hi =>
    lt_irrefl i ((List.pairwise_append.mp hascending).2.2 i hi i (by simp))
  have hleft := Entries.mem_foldl_drop_iff.mpr ⟨hrecord, hnot⟩
  simpa using hnone _ hleft

/-- All rows that a deletion is about are removed. -/
lemma Lists.removeRows_eq (h : table.Lists records) (hsteady : table.Steady) {conditions : Value}
    {targets : List RowId} (htargets : table.matching conditions = .ok targets) :
    table.removeRows targets = (table.removedAll targets, none) := by
  rcases hsteady.removeRows_cases targets with hdone | ⟨before, hstops⟩
  · exact hdone
  · exact absurd hstops (h.not_stopsAfter hsteady htargets before)

/-- Ids of records that are staged are integers. -/
lemma exists_stagedOf {staged : List (RowId × Record)} {is : List Int}
    (h : staged.map (·.1) = is.map .int) :
    ∃ entries : List (Int × Record), staged = stagedOf entries ∧ Entries.keys entries = is := by
  induction staged generalizing is with
  | nil =>
    obtain rfl : is = [] := by simpa using h.symm
    exact ⟨[], rfl, rfl⟩
  | cons entry rest ih =>
    obtain ⟨id, record⟩ := entry
    obtain ⟨i, js, rfl, hi, hjs⟩ := List.map_eq_cons_iff.mp h.symm
    obtain ⟨entries, rfl, rfl⟩ := ih hjs.symm
    obtain rfl : Value.int i = id := hi
    exact ⟨(i, record) :: entries, rfl, rfl⟩

/-- An update prepares records to be put in the places of records, of which none stands twice. -/
theorem Lists.prepareUpdate_eq_ok (h : table.Lists records) (hsteady : table.Steady)
    {conditions patch : Value} {staged : List (RowId × Record)}
    (hstaged : table.prepareUpdate conditions patch = .ok staged) :
    ∃ entries : List (Int × Record), staged = stagedOf entries ∧ (Entries.keys entries).Nodup ∧
      ∀ i ∈ Entries.keys entries, i ∈ Entries.keys records := by
  rcases Table.prepareUpdate_eq_ok hstaged with rfl | ⟨targets, changes, htargets, -, -, -, hstage, -⟩
  · exact ⟨[], rfl, List.nodup_nil, by simp [Entries.keys]⟩
  · obtain ⟨is, rfl, hascending, hrecords⟩ := h.matching_eq_ok hsteady htargets
    obtain ⟨entries, rfl, rfl⟩ := exists_stagedOf (stage_eq_ok_iff.mp hstage).1
    exact ⟨entries, rfl, hascending.imp fun hlt => hlt.ne, hrecords⟩

/-- After a step a table lists records again. -/
theorem Lists.step {table' : Table} (h : table.Lists records) (hsteady : table.Steady)
    (hstep : Step table table') : ∃ records', table'.Lists records' := by
  cases hstep with
  | idle => exact ⟨records, h⟩
  | append hadmits =>
    obtain ⟨next, -, -, hlists⟩ := h.appended hsteady (hsteady.holds_of_admits hadmits)
    exact ⟨_, hlists⟩
  | replace hstaged =>
    have hholds := hsteady.holds_of_prepareUpdate hstaged
    obtain ⟨entries, rfl, -, hids⟩ := h.prepareUpdate_eq_ok hsteady hstaged
    refine ⟨_, h.replacedAll hsteady (fun entry hentry => ?_) fun entry hentry => ?_⟩
    · exact hholds (.int entry.1, entry.2) (List.mem_map_of_mem hentry)
    · exact hids _ (List.mem_map_of_mem hentry)
  | remove htargets hprefix =>
    obtain ⟨is, rfl, -, -⟩ := h.matching_eq_ok hsteady htargets
    obtain ⟨js, rfl⟩ : ∃ js : List Int, _ = js.map Value.int := by
      obtain ⟨js, -, hjs⟩ := List.sublist_map_iff.mp hprefix.sublist
      exact ⟨js, hjs⟩
    exact ⟨_, h.removedAll hsteady⟩
  | index _ _ hindex => exact ⟨records, h.withIndex hindex⟩
  | unindex _ _ => exact ⟨records, h.withoutIndex _⟩

/-- Every table that is reached from one that lists records lists records. -/
theorem Lists.reaches {table' : Table} (h : table.Lists records) (hsteady : table.Steady)
    (hreaches : Reaches table table') : ∃ records', table'.Lists records' := by
  induction hreaches with
  | refl => exact ⟨records, h⟩
  | tail hmany hstep ih =>
    obtain ⟨records', hlists⟩ := ih
    exact hlists.step (hsteady.reaches hmany) hstep

/-- A table that is reached without a change to the rows lists the same records. -/
lemma Lists.of_reaches {table' : Table} (h : table.Lists records) (hsteady : table.Steady)
    (hreaches : Reaches table table') (hrows : table'.rows = table.rows) :
    table'.Lists records := by
  obtain ⟨records', h'⟩ := h.reaches hsteady hreaches
  obtain rfl := h'.records_eq h hrows
  exact h'

/-- A table that has been made from columns whose defaults can be keys where they have to be is
steady, lists no records and has indexes on all unique columns. -/
theorem lists_of_create {schema : Schema} (hschema : schema.Sound Column.HasKeyDefault)
    {source : SchemaSource} (hsource : Schema.ofSource source = .ok schema)
    {name directory : String} {created : Table} {effects : List Effect}
    (hcreate : Table.create name source directory = .ok (created, effects)) :
    Reaches (empty name schema directory) created ∧ created.Steady ∧ created.KeyIndexed ∧
      created.Lists [] := by
  obtain ⟨made, hmade, hall⟩ := create_eq_ok hcreate
  obtain rfl : made = schema := by
    rw [hsource] at hmade
    exact (Except.ok.inj hmade).symm
  obtain ⟨hreaches, hrows, hindexed⟩ := hall (hschema.mono fun _ _ => trivial)
  have hempty := steady_empty hschema name directory
  have hlists := (lists_empty name made directory).of_reaches hempty hreaches hrows
  exact ⟨hreaches, hempty.reaches hreaches, hindexed, hlists⟩

end Table

end RecordStore
