import RecordStore.Proofs.Table.Tracking

/-!
# Rows that are written again

Writing records in the places of rows takes each row out of the indexes and enters its record.  Whatever
comes of it, an index lists nothing new under other ids than those that have been written.  If every
record stands in its place already, taking it out and entering it goes through and leaves what can be
seen of the table as it was: the rows, the id of the next row and what every index answers.
-/

namespace RecordStore

/-- What is found among entries whose values have been changed is what was found, changed. -/
lemma Entries.lookup_map_snd {κ α β : Type} [BEq κ] (change : α → β) (key : κ)
    (entries : List (κ × α)) :
    (entries.map fun entry => (entry.1, change entry.2)).lookup key =
      (entries.lookup key).map change := by
  induction entries with
  | nil => rfl
  | cons entry rest ih =>
    rw [List.map_cons, List.lookup_cons, List.lookup_cons, ih]
    split <;> rfl

/-! ## What an index lists after changes -/

namespace Index

variable {index index' index'' : Index} {is : List Int} {row : Row}

/-- A regular index that lists nothing that another one does not list, except under some ids. -/
structure Gains (index index' : Index) (is : List Int) : Prop where
  regular : index'.Regular
  among : ∀ j v, Value.int j ∈ index'.ids v → j ∈ is ∨ Value.int j ∈ index.ids v

/-- Nothing new is listed by the same index. -/
lemma Regular.gains (h : index.Regular) (is : List Int) : index.Gains index is :=
  ⟨h, fun _ _ => Or.inr⟩

/-- What is new after two changes is new after one of them. -/
lemma Gains.trans (h : index.Gains index' is) (h' : index'.Gains index'' is) :
    index.Gains index'' is :=
  ⟨h'.regular, fun j v hmem => (h'.among j v hmem).elim Or.inl (h.among j v)⟩

/-- Under keys that are the same an index lists the same ids. -/
lemma ids_congr (index : Index) {v w : Value} (hv : v.isHashable = true) (h : (v == w) = true) :
    index.ids w = index.ids v := by
  rw [ids, ids, bucket?, bucket?, Entries.lookup_congr hv h]

/-- Taking a row out adds nothing. -/
lemma Regular.gains_leaveRow (h : index.Regular) (hkey : row.HasKey index.column) (i : Int)
    (is : List Int) : index.Gains (index.leaveRow (.int i) row) is := by
  refine ⟨h.leave hkey.isHashable i, fun j v hmem => Or.inr ?_⟩
  rw [leaveRow, ids_leave h hkey.isHashable] at hmem
  split at hmem
  · rename_i hsame
    rw [index.ids_congr hkey.isHashable hsame]
    exact (List.mem_filter.mp hmem).1
  · exact hmem

/-- Entering a row under an id adds nothing under others. -/
lemma Regular.gains_enterRow (h : index.Regular) (hkey : row.HasKey index.column) {i : Int}
    (hi : i ∈ is) : index.Gains (index.enterRow (.int i) row) is := by
  refine ⟨h.enter hkey.isHashable i, fun j v hmem => ?_⟩
  rw [enterRow] at hmem
  cases hpresent : (row.held index.column).isNull with
  | true =>
    rw [Index.enter, if_pos hpresent] at hmem
    exact Or.inr hmem
  | false =>
    rw [ids_enter hkey.isHashable hpresent] at hmem
    split at hmem
    · rename_i hsame
      obtain ⟨listed, hlisted, hascending⟩ := h.ids_ascending (row.held index.column)
      obtain ⟨after, hafter, -, hmem_after⟩ := insertId_int hascending i
      rw [hlisted, hafter, Value.int_mem_map_int, hmem_after] at hmem
      rcases hmem with rfl | hold
      · exact Or.inl hi
      · right
        rw [index.ids_congr hkey.isHashable hsame, hlisted]
        exact List.mem_map_of_mem hold
    · exact Or.inr hmem

/-! ## Indexes that denote the same -/

/-- Indexes that denote the same answer alike. -/
lemma Denotes.lookup_eq {holds : Int → Value → Prop} (h : index.Denotes holds)
    (h' : index'.Denotes holds) (v : Value) : index'.lookup v = index.lookup v := by
  cases hv : v.isHashable with
  | false => simp [lookup, hv]
  | true =>
    obtain ⟨is, his, hascending⟩ := h.regular.ids_ascending v
    obtain ⟨js, hjs, hascending'⟩ := h'.regular.ids_ascending v
    rw [h.regular.lookup_eq hv, h'.regular.lookup_eq hv, his, hjs]
    have hsame : js = is := by
      refine Table.eq_of_ascending hascending' hascending fun i => ?_
      have hmem := (h'.mem_ids i v hv).trans (h.mem_ids i v hv).symm
      rw [his, hjs] at hmem
      simpa only [Value.int_mem_map_int] using hmem
    rw [hsame]

/-- An index answers as before once an id has been taken out from under all that it is paired with and
entered there again. -/
lemma Denotes.lookup_enter_leave {holds : Int → Value → Prop} (h : index.Denotes holds) {key : Value}
    (hkey : key.isHashable = true) {i : Int} (hheld : ∀ w, holds i w → w = key)
    (hfound : key.isNull = false → holds i key) (v : Value) :
    ((index.leave key (.int i)).enter key (.int i)).lookup v = index.lookup v := by
  cases hpresent : key.isNull with
  | true => simp [Index.leave, Index.enter, hpresent]
  | false =>
    refine h.lookup_eq (((h.leave hkey i).enter hkey i).congr fun j w => ?_) v
    constructor
    · intro hw
      by_cases hj : j = i
      · subst hj
        exact Or.inr ⟨rfl, hheld w hw, hpresent⟩
      · exact Or.inl ⟨hw, fun hboth => hj hboth.1⟩
    · rintro (⟨hw, -⟩ | ⟨rfl, rfl, -⟩)
      · exact hw
      · exact hfound hpresent

end Index

namespace Table

variable {table table' table'' : Table} {records entries : List (Int × Record)} {schema : Schema}
  {next i : Int} {is : List Int}

/-- Two tables have indexes on the same columns, and those of the second list nothing, except under some
ids, that those of the first do not list. -/
def Gains (table table' : Table) (is : List Int) : Prop :=
  ∀ column, Option.Rel (fun index index' => index.Regular → index.Gains index' is)
    (table.index? column) (table'.index? column)

/-- Nothing new is listed by the same indexes. -/
lemma Gains.refl (table : Table) (is : List Int) : table.Gains table is := by
  intro column
  cases table.index? column with
  | none => exact .none
  | some index => exact .some fun hregular => hregular.gains is

/-- The index on a column after changes comes from the one before. -/
lemma Gains.exists_index (h : table.Gains table' is) {column : Value} {index' : Index}
    (hindex' : table'.index? column = some index') :
    ∃ index, table.index? column = some index ∧ (index.Regular → index.Gains index' is) := by
  have hrel := h column
  rw [hindex'] at hrel
  generalize table.index? column = found at hrel ⊢
  cases hrel with
  | some hgains => exact ⟨_, rfl, hgains⟩

/-- There is an index on a column after changes exactly if there was one. -/
lemma Gains.isSome_index? (h : table.Gains table' is) (column : Value) :
    (table'.index? column).isSome = (table.index? column).isSome := by
  have hrel := h column
  generalize table.index? column = found at hrel ⊢
  generalize table'.index? column = found' at hrel ⊢
  cases hrel <;> rfl

/-- What is new after two changes of a table is new after one of them. -/
lemma Gains.trans (h : table.Gains table' is) (h' : table'.Gains table'' is) :
    table.Gains table'' is := by
  intro column
  have hfirst := h column
  have hsecond := h' column
  generalize table.index? column = found at hfirst ⊢
  generalize table'.index? column = found' at hfirst hsecond
  generalize table''.index? column = found'' at hsecond ⊢
  cases hfirst with
  | none =>
    cases hsecond
    exact .none
  | some hfirst =>
    cases hsecond with
    | some hsecond =>
      exact .some fun hregular => (hfirst hregular).trans (hsecond (hfirst hregular).regular)

/-- The index on a column after changes is the one before, changed or not. -/
lemma lookup_changeIndexes (change : Index → Except Fault Index) (column : Value)
    (indexes : List (Value × Index)) :
    Option.Rel (fun index index' => change index = .ok index' ∨ index' = index)
      (indexes.lookup column) ((changeIndexes change indexes).1.lookup column) := by
  induction indexes with
  | nil => exact .none
  | cons entry rest ih =>
    obtain ⟨name, index⟩ := entry
    rw [changeIndexes]
    split
    · rename_i changed hchanged
      rw [List.lookup_cons, List.lookup_cons]
      split
      · exact .some (Or.inl hchanged)
      · exact ih
    · generalize ((name, index) :: rest).lookup column = found
      cases found with
      | none => exact .none
      | some found => exact .some (Or.inr rfl)

/-- If a change of a single index adds nothing except under some ids, neither does a change of all. -/
lemma gains_changeIndexes {change : Index → Except Fault Index}
    (hchange : ∀ index index', index.Regular → change index = .ok index' → index.Gains index' is)
    (hindexes : table'.indexes = (changeIndexes change table.indexes).1) : table.Gains table' is := by
  intro column
  have hrel := lookup_changeIndexes change column table.indexes
  rw [index?, index?, hindexes]
  generalize table.indexes.lookup column = found at hrel ⊢
  generalize (changeIndexes change table.indexes).1.lookup column = found' at hrel ⊢
  cases hrel with
  | none => exact .none
  | some hchanged =>
    refine .some fun hregular => ?_
    rcases hchanged with hchanged | rfl
    · exact hchange _ _ hregular hchanged
    · exact hregular.gains is

/-- Taking a row out of the indexes adds nothing to them. -/
lemma gains_unindexRow (table : Table) (i : Int) (row : Row) (is : List Int) :
    table.Gains (table.unindexRow (.int i) row).1 is := by
  refine gains_changeIndexes (fun index index' hregular hremoved => ?_) rfl
  have hkey := hasKey_of_removeRow hremoved
  rw [Index.removeRow_eq hkey] at hremoved
  rw [← Except.ok.inj hremoved]
  exact hregular.gains_leaveRow hkey i is

/-- Entering a row into the indexes adds nothing to them under other ids. -/
lemma gains_indexRow (table : Table) (hi : i ∈ is) (row : Row) :
    table.Gains (table.indexRow (.int i) row).1 is := by
  refine gains_changeIndexes (fun index index' hregular hadded => ?_) rfl
  have hkey := Index.hasKey_of_addRow hadded
  rw [Index.addRow_eq hkey] at hadded
  rw [← Except.ok.inj hadded]
  exact hregular.gains_enterRow hkey hi

/-- Putting records in the places of rows adds nothing to the indexes under other ids, also if it breaks
off. -/
theorem gains_replaceRows (table : Table) (hentries : ∀ entry ∈ entries, entry.1 ∈ is) :
    table.Gains (table.replaceRows (stagedOf entries)).1 is := by
  induction entries generalizing table with
  | nil => exact Gains.refl table is
  | cons entry rest ih =>
    obtain ⟨i, record⟩ := entry
    obtain ⟨hi, hrest⟩ := List.forall_mem_cons.mp hentries
    have hleft := table.gains_unindexRow i ((table.row? (.int i)).getD (.record [])) is
    rw [stagedOf, List.map_cons, ← stagedOf, replaceRows]
    generalize table.unindexRow (.int i) ((table.row? (.int i)).getD (.record [])) = left at hleft ⊢
    obtain ⟨between, _ | fault⟩ := left
    · have hput : table.Gains (between.withRow (.int i) (.record record)) is := hleft
      have hentered := hput.trans (gains_indexRow _ hi (.record record))
      dsimp only
      generalize (between.withRow (.int i) (.record record)).indexRow (.int i) (.record record) =
        entered at hentered ⊢
      obtain ⟨after, _ | fault⟩ := entered
      · exact hentered.trans (ih after hrest)
      · exact hentered
    · exact hleft

/-! ## Records that stand in their places -/

/-- What can be seen of two tables is the same: the rows, the id of the next row and what the index on any
column answers to any value. -/
structure SameState (table table' : Table) : Prop where
  rows : table'.rows = table.rows
  nextRowId : table'.nextRowId = table.nextRowId
  lookups : ∀ column v, (table'.index? column).map (fun index => index.lookup v) =
    (table.index? column).map fun index => index.lookup v

/-- A table is in the same state as itself. -/
lemma SameState.refl (table : Table) : table.SameState table :=
  ⟨rfl, rfl, fun _ _ => rfl⟩

/-- Being in the same state is transitive. -/
lemma SameState.trans (h : table.SameState table') (h' : table'.SameState table'') :
    table.SameState table'' :=
  ⟨h'.rows.trans h.rows, h'.nextRowId.trans h.nextRowId,
    fun column v => (h'.lookups column v).trans (h.lookups column v)⟩

/-- An index answers as before once a record that it follows has been taken out and entered again. -/
lemma Follows.lookup_rewritten {index : Index} {holds : Int → Value → Prop}
    (h : Follows index schema next records holds) {record : Record} (hmem : (i, record) ∈ records)
    (hrecord : schema.Holds KeyIn record) (hkey : (Row.record record).HasKey index.column)
    (v : Value) :
    ((index.leaveRow (.int i) (.record record)).enterRow (.int i) (.record record)).lookup v =
      index.lookup v := by
  rw [Index.enterRow, Index.leaveRow_column, Index.leaveRow]
  exact h.denotes.lookup_enter_leave hkey.isHashable
    (fun w hw => (h.held i w record hw hmem).symm) (h.found _ hmem hrecord) v

/-- Writing a record where it stands goes through if its values are keys where they have to be. -/
lemma Tracks.replaceRows_cons_self (h : table.Tracks next records) {record : Record}
    (hmem : (i, record) ∈ records) (hrecord : table.schema.Holds KeyIn record)
    (rest : List (RowId × Record)) :
    table.replaceRows ((.int i, record) :: rest) =
      (table.replaced (.int i) record).replaceRows rest := by
  have hkeys := h.named.hasKey_record hrecord
  have hleft : ∀ entry ∈ ((table.left (.int i) (.record record)).withRow (.int i)
      (.record record)).indexes, (Row.record record).HasKey entry.2.column := by
    intro entry hentry
    obtain ⟨old, hold, rfl⟩ := List.mem_map.mp hentry
    rw [Index.leaveRow_column]
    exact hkeys old hold
  rw [Table.replaceRows, replaced, h.toStands.row?_eq hmem, Option.getD_some]
  simp only [unindexRow_eq hkeys, indexRow_eq hleft]

/-- When a record is written where it stands, an index loses its row and enters it again. -/
lemma Tracks.index?_replaced_self (h : table.Tracks next records) {record : Record}
    (hmem : (i, record) ∈ records) (column : Value) :
    (table.replaced (.int i) record).index? column = (table.index? column).map fun index =>
      (index.leaveRow (.int i) (.record record)).enterRow (.int i) (.record record) := by
  rw [replaced, h.toStands.row?_eq hmem, Option.getD_some, index?, index?, ← Entries.lookup_map_snd]
  exact congrArg (List.lookup column) List.map_map

/-- If the row under an id is a record and all its values are keys where they have to be, writing the
record there leaves the state of the table as it was. -/
lemma Tracks.replaced_self (h : table.Tracks next records) {record : Record}
    (hmem : (i, record) ∈ records) (hrecord : table.schema.Holds KeyIn record) :
    (table.replaced (.int i) record).Tracks next records ∧
      table.SameState (table.replaced (.int i) record) := by
  have hput : Entries.put i record records = records :=
    Entries.put_of_lookup_eq_some (Entries.lookup_eq_some_of_mem h.nodup hmem)
  refine ⟨?_, ?_, rfl, fun column v => ?_⟩
  · have htracks := (h.replaceRows (List.forall_mem_singleton.mpr hrecord)
      (List.forall_mem_singleton.mpr (List.mem_map_of_mem hmem))).2
    rw [stagedOf, List.map_singleton, h.replaceRows_cons_self hmem hrecord, List.foldl_cons,
      List.foldl_nil, hput] at htracks
    exact htracks rfl
  · change Entries.put (.int i) (.record record) table.rows = table.rows
    rw [h.rows, put_rowsOf, hput]
  · rw [h.index?_replaced_self hmem, Option.map_map, index?]
    cases hindex : table.indexes.lookup column with
    | none => rfl
    | some index =>
      obtain ⟨k, hmem_index, -⟩ := Entries.mem_of_lookup_eq_some hindex
      obtain ⟨holds, hfollows⟩ := h.follows _ hmem_index
      have hkeys := h.named.hasKey_record hrecord
      exact congrArg some (hfollows.lookup_rewritten hmem hrecord (hkeys _ hmem_index) v)

/-- If records stand in their places already and their values are keys where they have to be, writing them
goes through and leaves the state of the table as it was. -/
theorem Tracks.replaceRows_self (h : table.Tracks next records)
    (hentries : ∀ entry ∈ entries, entry ∈ records)
    (hholds : ∀ entry ∈ entries, table.schema.Holds KeyIn entry.2) :
    (table.replaceRows (stagedOf entries)).2 = none ∧
      table.SameState (table.replaceRows (stagedOf entries)).1 := by
  induction entries generalizing table with
  | nil => exact ⟨rfl, .refl table⟩
  | cons entry rest ih =>
    obtain ⟨i, record⟩ := entry
    obtain ⟨hmem, hrest⟩ := List.forall_mem_cons.mp hentries
    obtain ⟨hrecord, hlater⟩ := List.forall_mem_cons.mp hholds
    have hstep := h.replaceRows_cons_self hmem hrecord (stagedOf rest)
    obtain ⟨htracks, hsame⟩ := h.replaced_self hmem hrecord
    obtain ⟨hdone, hsame_rest⟩ := ih htracks hrest hlater
    rw [stagedOf, List.map_cons, ← stagedOf, hstep]
    exact ⟨hdone, hsame.trans hsame_rest⟩

end Table

end RecordStore
