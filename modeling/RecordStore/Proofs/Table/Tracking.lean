import RecordStore.Proofs.Table.Agreement

/-!
# Indexes in any state

The default of a column that has been declared outright is not checked, and one that cannot be a key
breaks an operation off after it has begun.  An insertion then leaves a row that some of the indexes do
not list, and a deletion leaves ids in indexes whose rows are gone.  What is left of the agreement
between indexes and rows in every state: an index lists only ids that have been given, it lists a row
that is there under nothing but what the row holds, and it lists every row whose values are keys where
they have to be.

The schema only has to have been built by adding columns.
-/

namespace RecordStore.Table

variable {table table' : Table} {records : List (Int × Record)} {schema : Schema} {next i : Int}

/-! ## Indexes that follow records -/

/-- An index follows records under ids below a bound: what it denotes has come from them, and from
others that are gone. -/
structure Follows (index : Index) (schema : Schema) (next : Int) (records : List (Int × Record))
    (holds : Int → Value → Prop) : Prop where
  denotes : index.Denotes holds
  /-- Only ids that have been given are listed. -/
  given : ∀ i w, holds i w → i < next
  /-- A record that is there is listed under nothing but what it holds. -/
  held : ∀ i w record, holds i w → (i, record) ∈ records → record.value index.column = w
  /-- A record whose values are keys where they have to be is listed. -/
  found : ∀ entry ∈ records, schema.Holds KeyIn entry.2 →
    (entry.2.value index.column).isNull = false → holds entry.1 (entry.2.value index.column)

namespace Follows

variable {index : Index} {holds : Int → Value → Prop} {record : Record}

/-- The bound may be raised. -/
lemma mono (h : Follows index schema next records holds) {next' : Int} (hle : next ≤ next') :
    Follows index schema next' records holds :=
  ⟨h.denotes, fun i w hw => (h.given i w hw).trans_le hle, h.held, h.found⟩

/-- An index that follows records follows those that are left after one has been dropped. -/
lemma drop (h : Follows index schema next records holds) (i : Int) :
    Follows index schema next (Entries.drop i records) holds :=
  ⟨h.denotes, h.given,
    fun j w record hw hrecord => h.held j w record hw (Entries.mem_drop_iff.mp hrecord).1,
    fun entry hentry => h.found entry (Entries.mem_drop_iff.mp hentry).1⟩

/-- A record that is taken out is not listed any more. -/
lemma leaveRow (h : Follows index schema next records holds) (hmem : (i, record) ∈ records)
    (hkey : (Row.record record).HasKey index.column) :
    Follows (index.leaveRow (.int i) (.record record)) schema next (Entries.drop i records)
      fun j w => holds j w ∧ j ≠ i := by
  refine ⟨(h.denotes.leave hkey.isHashable i).congr fun j w => ?_, fun j w hw => h.given j w hw.1,
    ?_, ?_⟩
  · refine and_congr_right fun hw => not_congr ⟨fun hj => ⟨hj, ?_⟩, And.left⟩
    subst hj
    rw [← h.held j w record hw hmem]
    exact Value.beq_self _
  · intro j w other hw hother
    rw [Index.leaveRow_column]
    exact h.held j w other hw.1 (Entries.mem_drop_iff.mp hother).1
  · intro entry hentry hholds hpresent
    rw [Index.leaveRow_column] at hpresent ⊢
    obtain ⟨hold, hne⟩ := Entries.mem_drop_iff.mp hentry
    exact ⟨h.found entry hold hholds hpresent, hne⟩

/-- A record that is entered under an id that is not listed is listed. -/
lemma enterRow (h : Follows index schema next (Entries.drop i records) holds)
    (habsent : ∀ w, ¬holds i w) (hi : i < next) (honly : ∀ r, (i, r) ∈ records → r = record)
    (hkey : (Row.record record).HasKey index.column) :
    Follows (index.enterRow (.int i) (.record record)) schema next records
      fun j w => holds j w ∨
        j = i ∧ w = record.value index.column ∧ (record.value index.column).isNull = false := by
  refine ⟨h.denotes.enter hkey.isHashable i, ?_, ?_, ?_⟩
  · rintro j w (hw | ⟨rfl, -⟩)
    · exact h.given j w hw
    · exact hi
  · intro j w other hw hother
    rw [Index.enterRow_column]
    rcases hw with hw | ⟨rfl, rfl, -⟩
    · have hne : j ≠ i := by
        rintro rfl
        exact habsent w hw
      exact h.held j w other hw (Entries.mem_drop_iff.mpr ⟨hother, hne⟩)
    · rw [honly other hother]
  · rintro ⟨j, other⟩ hentry hholds hpresent
    rw [Index.enterRow_column] at hpresent ⊢
    by_cases hj : j = i
    · subst hj
      obtain rfl := honly other hentry
      exact Or.inr ⟨rfl, rfl, hpresent⟩
    · exact Or.inl (h.found _ (Entries.mem_drop_iff.mpr ⟨hentry, hj⟩) hholds hpresent)

/-- A record that has no key where it needs one may go unlisted. -/
lemma restore (h : Follows index schema next (Entries.drop i records) holds)
    (habsent : ∀ w, ¬holds i w) (hkeyless : ∀ r, (i, r) ∈ records → ¬schema.Holds KeyIn r) :
    Follows index schema next records holds := by
  refine ⟨h.denotes, h.given, fun j w other hw hother => ?_, fun entry hentry hholds => ?_⟩
  · have hne : j ≠ i := by
      rintro rfl
      exact habsent w hw
    exact h.held j w other hw (Entries.mem_drop_iff.mpr ⟨hother, hne⟩)
  · have hne : entry.1 ≠ i := by
      rintro rfl
      exact hkeyless _ hentry hholds
    exact h.found entry (Entries.mem_drop_iff.mpr ⟨hentry, hne⟩) hholds

end Follows

/-- An index follows the records but one, and lists nothing under the id of that one. -/
def Misses (index : Index) (schema : Schema) (next : Int) (records : List (Int × Record)) (i : Int) :
    Prop :=
  ∃ holds, Follows index schema next (Entries.drop i records) holds ∧ ∀ w, ¬holds i w

/-! ## Changes of indexes -/

variable {change : Index → Except Fault Index} {indexes indexes' : List (Value × Index)}
  {fault : Option Fault}

/-- Changes leave the columns under which the indexes are found. -/
lemma keys_changeIndexes (change : Index → Except Fault Index) (indexes : List (Value × Index)) :
    Entries.keys (changeIndexes change indexes).1 = Entries.keys indexes := by
  induction indexes with
  | nil => rfl
  | cons entry rest ih =>
    rw [changeIndexes]
    split
    · simp only [Entries.keys, List.map_cons] at ih ⊢
      rw [ih]
    · rfl

/-- Every index after changes is an old one that has been changed, or one behind the first that could
not be. -/
lemma exists_of_mem_changeIndexes (h : changeIndexes change indexes = (indexes', fault)) :
    ∀ entry ∈ indexes', ∃ old, (entry.1, old) ∈ indexes ∧
      (change old = .ok entry.2 ∨ entry.2 = old ∧ fault.isSome = true) := by
  induction indexes generalizing indexes' with
  | nil =>
    obtain ⟨rfl, -⟩ := Prod.mk.inj h
    exact nofun
  | cons first rest ih =>
    obtain ⟨column, index⟩ := first
    rw [changeIndexes] at h
    split at h
    · rename_i changed hchanged
      obtain ⟨rfl, rfl⟩ := Prod.mk.inj h
      refine List.forall_mem_cons.mpr ⟨⟨index, List.mem_cons_self, Or.inl hchanged⟩, ?_⟩
      intro entry hentry
      obtain ⟨old, hold, hcases⟩ := ih rfl entry hentry
      exact ⟨old, List.mem_cons_of_mem _ hold, hcases⟩
    · obtain ⟨rfl, rfl⟩ := Prod.mk.inj h
      exact fun entry hentry => ⟨entry.2, hentry, Or.inr ⟨rfl, rfl⟩⟩

/-- Changes break off at an index that cannot be changed. -/
lemma exists_error_of_changeIndexes (h : changeIndexes change indexes = (indexes', fault))
    (hfault : fault.isSome = true) : ∃ entry ∈ indexes, ∀ index, change entry.2 ≠ .ok index := by
  induction indexes generalizing indexes' with
  | nil =>
    obtain ⟨-, rfl⟩ := Prod.mk.inj h
    cases hfault
  | cons first rest ih =>
    obtain ⟨column, index⟩ := first
    rw [changeIndexes] at h
    split at h
    · obtain ⟨rfl, rfl⟩ := Prod.mk.inj h
      obtain ⟨entry, hentry, herror⟩ := ih rfl
      exact ⟨entry, List.mem_cons_of_mem _ hentry, herror⟩
    · rename_i hchange
      refine ⟨_, List.mem_cons_self, fun index' hok => ?_⟩
      rw [hchange] at hok
      cases hok

/-- Only a row that has a key can be taken out. -/
lemma hasKey_of_removeRow {index index' : Index} {id : RowId} {row : Row}
    (h : index.removeRow id row = .ok index') : row.HasKey index.column := by
  obtain ⟨v, hv, hremove⟩ := Outcome.bind_eq_ok.mp h
  refine ⟨v, hv, ?_⟩
  rw [Index.remove] at hremove
  split at hremove
  · rename_i hnull
    cases v <;> first | rfl | cases hnull
  · split at hremove
    · assumption
    · cases hremove

/-- Indexes stay on columns that can be indexed if each of them stays on its column. -/
lemma Named.of_mem (h : table.Named) (hschema : table'.schema = table.schema)
    (hindexes : ∀ entry ∈ table'.indexes, ∃ old, (entry.1, old) ∈ table.indexes ∧
      entry.2.column = old.column) : table'.Named := by
  intro entry hentry
  obtain ⟨old, hold, hcolumn⟩ := hindexes entry hentry
  rw [hcolumn, hschema]
  exact h _ hold

/-- After a record has been taken out of indexes, each of them misses it or stands behind the first that
does not hold it under a key. -/
lemma misses_of_changeIndexes {record : Record} (hmem : (i, record) ∈ records)
    (hfollows : ∀ entry ∈ indexes, ∃ holds, Follows entry.2 schema next records holds)
    (h : changeIndexes (fun index => index.removeRow (.int i) (.record record)) indexes =
      (indexes', fault)) :
    ∀ entry ∈ indexes', ∃ old, (entry.1, old) ∈ indexes ∧ entry.2.column = old.column ∧
      (Misses entry.2 schema next records i ∨ entry.2 = old ∧ fault.isSome = true) := by
  intro entry hentry
  obtain ⟨old, hold, hremoved | ⟨rfl, hfault⟩⟩ := exists_of_mem_changeIndexes h entry hentry
  · have hkey := hasKey_of_removeRow hremoved
    rw [Index.removeRow_eq hkey] at hremoved
    obtain ⟨holds, hholds⟩ := hfollows _ hold
    rw [← Except.ok.inj hremoved]
    refine ⟨old, hold, Index.leaveRow_column _ _ _, Or.inl ⟨_, hholds.leaveRow hmem hkey, ?_⟩⟩
    exact fun w hw => hw.2 rfl
  · exact ⟨_, hold, rfl, Or.inr ⟨rfl, hfault⟩⟩

/-- After a record has been entered into indexes that miss it, they follow the records with it. -/
lemma follows_of_changeIndexes {record : Record} (hi : i < next)
    (honly : ∀ r, (i, r) ∈ records → r = record)
    (hkeyless : fault.isSome = true → ¬schema.Holds KeyIn record)
    (hmisses : ∀ entry ∈ indexes, Misses entry.2 schema next records i)
    (h : changeIndexes (fun index => index.addRow (.int i) (.record record)) indexes =
      (indexes', fault)) :
    ∀ entry ∈ indexes', ∃ old, (entry.1, old) ∈ indexes ∧ entry.2.column = old.column ∧
      ∃ holds, Follows entry.2 schema next records holds := by
  intro entry hentry
  obtain ⟨old, hold, hadded | ⟨rfl, hfault⟩⟩ := exists_of_mem_changeIndexes h entry hentry
  · have hkey := Index.hasKey_of_addRow hadded
    rw [Index.addRow_eq hkey] at hadded
    obtain ⟨holds, hholds, habsent⟩ := hmisses _ hold
    rw [← Except.ok.inj hadded]
    exact ⟨old, hold, Index.enterRow_column _ _ _, _, hholds.enterRow habsent hi honly hkey⟩
  · obtain ⟨holds, hholds, habsent⟩ := hmisses _ hold
    refine ⟨_, hold, rfl, holds, hholds.restore habsent fun r hr => ?_⟩
    rw [honly r hr]
    exact hkeyless hfault

/-- A change of the indexes for a record only breaks off if the record has no key where it needs
one. -/
lemma Named.keyless_of_changeIndexes (h : table.Named) {record : Record}
    (htotal : ∀ index : Index, (Row.record record).HasKey index.column →
      ∃ index', change index = .ok index')
    (hfault : (changeIndexes change table.indexes).2.isSome = true) :
    ¬table.schema.Holds KeyIn record := by
  intro hholds
  obtain ⟨entry, hentry, herror⟩ := exists_error_of_changeIndexes rfl hfault
  obtain ⟨index', hindex'⟩ := htotal _ (h.hasKey_record hholds entry hentry)
  exact herror _ hindex'

/-! ## Tables whose indexes follow the rows -/

/-- What holds of the rows of a table in every state, and of the columns of its indexes. -/
structure Stands (table : Table) (next : Int) (records : List (Int × Record)) : Prop where
  /-- The schema has been built by adding columns. -/
  sound : table.schema.Sound fun _ => True
  /-- The rows are the records. -/
  rows : table.rows = rowsOf records
  /-- The ids are ascending. -/
  ascending : (Entries.keys records).Pairwise (· < ·)
  /-- The id of the next row. -/
  next_eq : table.nextRowId = .whole next
  /-- The ids are below the one of the next row. -/
  below : ∀ i ∈ Entries.keys records, i < next
  /-- The indexes are on columns that can be indexed. -/
  named : table.Named
  /-- Every unique column has an index. -/
  keyed : table.KeyIndexed

/-- What holds of the rows of a table and of its indexes in every state. -/
structure Tracks (table : Table) (next : Int) (records : List (Int × Record)) : Prop extends
    Stands table next records where
  /-- Every index follows the records. -/
  follows : ∀ entry ∈ table.indexes, ∃ holds, Follows entry.2 table.schema next records holds

/-- The records are numbered. -/
lemma Stands.numbers (h : table.Stands next records) : table.Numbers records :=
  ⟨h.rows, h.ascending, next, h.next_eq, h.below⟩

/-- No id stands twice. -/
lemma Stands.nodup (h : table.Stands next records) : (Entries.keys records).Nodup :=
  h.numbers.nodup

/-- The row under the id of a record is the record. -/
lemma Stands.row?_eq (h : table.Stands next records) {record : Record} (hmem : (i, record) ∈ records) :
    table.row? (.int i) = some (.record record) := by
  rw [row?, h.rows, lookup_rowsOf, Entries.lookup_eq_some_of_mem h.nodup hmem]
  rfl

/-- A change of the indexes that leaves each on its column leaves the rows. -/
lemma Stands.changeIndexes (h : table.Stands next records)
    (hkeys : Entries.keys indexes = Entries.keys table.indexes)
    (hindexes : ∀ entry ∈ indexes, ∃ old, (entry.1, old) ∈ table.indexes ∧
      entry.2.column = old.column) : ({ table with indexes } : Table).Stands next records := by
  refine ⟨h.sound, h.rows, h.ascending, h.next_eq, h.below, h.named.of_mem rfl hindexes, ?_⟩
  exact fun column hcolumn => (Entries.has_congr hkeys column).trans (h.keyed column hcolumn)

/-- A record put in the place of another one stands there. -/
lemma Stands.withRow (h : table.Stands next records) (hi : i ∈ Entries.keys records)
    (record : Record) :
    (table.withRow (.int i) (.record record)).Stands next (Entries.put i record records) := by
  have hkeys := Entries.keys_put_of_mem (v := record) hi
  refine ⟨h.sound, ?_, hkeys ▸ h.ascending, h.next_eq, hkeys ▸ h.below, h.named, h.keyed⟩
  rw [Table.withRow, h.rows]
  exact put_rowsOf records i record

/-- A record that has been put among the rows is entered into the indexes that miss it; where it needs
a key and has none, they are left as they are from there on. -/
lemma Stands.indexRow (h : table.Stands next records) {record : Record}
    (hmem : (i, record) ∈ records)
    (hmisses : ∀ entry ∈ table.indexes, Misses entry.2 table.schema next records i) :
    (table.indexRow (.int i) (.record record)).1.Tracks next records := by
  have hfollows := follows_of_changeIndexes (h.below i (List.mem_map_of_mem hmem))
    (fun r hr => Entries.eq_of_mem h.nodup hmem hr)
    (h.named.keyless_of_changeIndexes fun index hkey => ⟨_, Index.addRow_eq hkey (.int i)⟩)
    hmisses rfl
  refine ⟨h.changeIndexes (keys_changeIndexes _ _) fun entry hentry => ?_, fun entry hentry => ?_⟩
  · obtain ⟨old, hold, hcolumn, -⟩ := hfollows entry hentry
    exact ⟨old, hold, hcolumn⟩
  · obtain ⟨-, -, -, hholds⟩ := hfollows entry hentry
    exact hholds

/-- A record that has a key where it needs one is entered into all indexes. -/
lemma Named.indexRow_snd (h : table.Named) {record : Record}
    (hrecord : table.schema.Holds KeyIn record) (id : RowId) :
    (table.indexRow id (.record record)).2 = none := by
  rw [indexRow_eq (h.hasKey_record hrecord)]

/-- A record that is there is taken out of all indexes, or, if it has no key where it needs one, of the
first of them. -/
lemma Tracks.unindexRow (h : table.Tracks next records) {record : Record}
    (hmem : (i, record) ∈ records) {fault : Option Fault}
    (hunindex : table.unindexRow (.int i) (.record record) = (table', fault)) :
    table'.Stands next records ∧ table'.schema = table.schema ∧
      (fault = none → ∀ entry ∈ table'.indexes, Misses entry.2 table.schema next records i) ∧
      (fault.isSome = true → table'.Tracks next records) := by
  obtain ⟨rfl, rfl⟩ := Prod.mk.inj hunindex
  have hmisses := misses_of_changeIndexes hmem h.follows rfl
  have hstands := h.toStands.changeIndexes (keys_changeIndexes _ _) fun entry hentry => by
    obtain ⟨old, hold, hcolumn, -⟩ := hmisses entry hentry
    exact ⟨old, hold, hcolumn⟩
  refine ⟨hstands, rfl, fun hnone entry hentry => ?_, fun hfault => ⟨hstands, fun entry hentry => ?_⟩⟩
  · obtain ⟨old, -, -, hmissed | ⟨-, hfault⟩⟩ := hmisses entry hentry
    · exact hmissed
    · rw [hnone] at hfault
      cases hfault
  · have hkeyless := h.named.keyless_of_changeIndexes
      (fun index hkey => ⟨_, Index.removeRow_eq hkey (.int i)⟩) hfault
    obtain ⟨old, hold, -, ⟨holds, hholds, habsent⟩ | ⟨heq, -⟩⟩ := hmisses entry hentry
    · refine ⟨holds, hholds.restore habsent fun r hr => ?_⟩
      rw [Entries.eq_of_mem h.nodup hmem hr]
      exact hkeyless
    · rw [heq]
      exact h.follows _ hold

/-! ## Matching -/

/-- The ids of matching rows are ascending integers. -/
lemma Tracks.matching_eq_ok (h : table.Tracks next records) {conditions : Value}
    {targets : List RowId} (htargets : table.matching conditions = .ok targets) :
    ∃ is : List Int, targets = is.map .int ∧ is.Pairwise (· < ·) := by
  have hscanned : ∀ {ids : List RowId}, ids.Sublist (table.rows.map (·.1)) →
      ∃ is : List Int, ids = is.map .int ∧ is.Pairwise (· < ·) := by
    intro ids hids
    obtain ⟨is, his, hascending, -⟩ := h.numbers.of_sublist hids
    exact ⟨is, his, hascending⟩
  unfold matching at htargets
  split at htargets
  · split at htargets
    · rw [matchPredicates] at htargets
      split at htargets
      · rename_i ids hindexed
        obtain rfl : ids = targets := Except.ok.inj htargets
        obtain ⟨column, operand, index, -, -, hindex, rfl⟩ := exists_of_indexed? hindexed
        obtain ⟨k, hmem, -, -⟩ := h.named.index?_eq_some hindex
        obtain ⟨holds, hholds⟩ := h.follows _ hmem
        exact hholds.denotes.regular.ids_ascending operand
      · exact hscanned (sublist_of_scanFor htargets)
    · cases htargets
  · obtain rfl : table.rows.map (·.1) = targets := Except.ok.inj htargets
    exact hscanned (List.Sublist.refl _)

/-! ## Insertion -/

/-- Appending a record keeps the indexes following the rows, whether all of them take it or not. -/
lemma Tracks.append (h : table.Tracks next records) (record : Record) :
    (table.append record).table.Tracks (next + 1) (Entries.put next record records) := by
  have hfresh : next ∉ Entries.keys records := fun hmem => lt_irrefl _ (h.below next hmem)
  have hput := Entries.put_of_not_mem (v := record) hfresh
  have hkeys : Entries.keys (Entries.put next record records) = Entries.keys records ++ [next] := by
    rw [hput]
    simp [Entries.keys]
  have hid : Value.ofNumber table.nextRowId = .int next := by
    rw [h.next_eq]
    rfl
  have htable : (table.append record).table =
      (({ table with nextRowId := table.nextRowId.successor }.withRow (.int next)
        (.record record)).indexRow (.int next) (.record record)).1 := by
    simp only [Table.append, hid]
    split <;> rename_i hindex <;> rw [hindex]
  rw [htable]
  have hstands : ({ table with nextRowId := table.nextRowId.successor }.withRow (.int next)
      (.record record)).Stands (next + 1) (Entries.put next record records) := by
    refine ⟨h.sound, ?_, ?_, ?_, ?_, h.named, h.keyed⟩
    · simp only [withRow, h.rows]
      exact put_rowsOf records next record
    · rw [hkeys, List.pairwise_append]
      refine ⟨h.ascending, List.pairwise_singleton _ _, fun i hi j hj => ?_⟩
      rw [List.mem_singleton.mp hj]
      exact h.below i hi
    · simp only [withRow, h.next_eq]
      rfl
    · rw [hkeys]
      intro i hi
      rcases List.mem_append.mp hi with hi | hi
      · exact (h.below i hi).trans (Int.lt_succ next)
      · rw [List.mem_singleton.mp hi]
        exact Int.lt_succ next
  refine hstands.indexRow (by rw [hput]; simp) fun entry hentry => ?_
  obtain ⟨holds, hholds⟩ := h.follows entry hentry
  have hmono := (hholds.drop next).mono (Int.lt_succ next).le
  rw [← Entries.drop_put next record] at hmono
  exact ⟨holds, hmono, fun w hw => lt_irrefl _ (hholds.given next w hw)⟩

/-- An insertion keeps the indexes following the rows. -/
lemma Tracks.insert (h : table.Tracks next records) (v : Value) :
    ∃ next records, (table.insert v).table.Tracks next records := by
  rw [Table.insert]
  split
  · exact ⟨_, _, h.append _⟩
  · exact ⟨_, _, h⟩

/-! ## Update -/

/-- Records with keys where they need them take the places of records.  This only breaks off at a row
without a key where it needs one, and keeps the indexes following the rows. -/
lemma Tracks.replaceRows {staged : List (Int × Record)} (h : table.Tracks next records)
    (hstaged : ∀ entry ∈ staged, table.schema.Holds KeyIn entry.2)
    (hids : ∀ entry ∈ staged, entry.1 ∈ Entries.keys records) :
    (∃ records', (table.replaceRows (stagedOf staged)).1.Tracks next records') ∧
      ((table.replaceRows (stagedOf staged)).2 = none →
        (table.replaceRows (stagedOf staged)).1.Tracks next
          (staged.foldl (fun records entry => Entries.put entry.1 entry.2 records) records)) := by
  induction staged generalizing table records with
  | nil => exact ⟨⟨records, h⟩, fun _ => h⟩
  | cons entry rest ih =>
    obtain ⟨i, record⟩ := entry
    obtain ⟨hfirst, hrest⟩ := List.forall_mem_cons.mp hstaged
    obtain ⟨hi, hlater⟩ := List.forall_mem_cons.mp hids
    obtain ⟨⟨j, old⟩, hmem, rfl⟩ := List.mem_map.mp hi
    rw [stagedOf, List.map_cons, ← stagedOf, Table.replaceRows, h.toStands.row?_eq hmem,
      Option.getD_some]
    cases hunindex : table.unindexRow (.int j) (.record old) with
    | mk between fault =>
      obtain ⟨hstands, hschema, hmisses, hbroken⟩ := h.unindexRow hmem hunindex
      cases fault with
      | some fault => exact ⟨⟨records, hbroken rfl⟩, fun hdone => by cases hdone⟩
      | none =>
        have hwith := hstands.withRow hi record
        have hnew : (j, record) ∈ Entries.put j record records :=
          (Entries.mem_put_iff h.nodup).mpr (Or.inl rfl)
        have htracks := hwith.indexRow hnew fun entry hentry => by
          rw [Misses, Entries.drop_put]
          exact hschema ▸ hmisses rfl entry hentry
        have hentered : ((between.withRow (.int j) (.record record)).indexRow (.int j)
            (.record record)).2 = none := hwith.named.indexRow_snd (hschema ▸ hfirst) _
        have hkeys := Entries.keys_put_of_mem (v := record) hi
        have hpair : (between.withRow (.int j) (.record record)).indexRow (.int j) (.record record) =
            (((between.withRow (.int j) (.record record)).indexRow (.int j) (.record record)).1,
              none) := by rw [← hentered]
        dsimp only
        rw [hpair]
        exact ih htracks (fun entry hentry => hschema ▸ hrest entry hentry)
          fun entry hentry => hkeys ▸ hlater entry hentry

/-- What an update stages are records with keys where they need them, for records that are there. -/
lemma Tracks.prepareUpdate_eq_ok (h : table.Tracks next records) {conditions patch : Value}
    {staged : List (RowId × Record)} (hstaged : table.prepareUpdate conditions patch = .ok staged) :
    ∃ entries : List (Int × Record), staged = stagedOf entries ∧ (Entries.keys entries).Nodup ∧
      (∀ entry ∈ entries, entry.1 ∈ Entries.keys records) ∧
      ∀ entry ∈ entries, table.schema.Holds KeyIn entry.2 := by
  have hholds := holds_of_prepareUpdate h.sound keyIn_of_accepts hstaged
  rcases Table.prepareUpdate_eq_ok hstaged with rfl | ⟨targets, changes, htargets, -, -, -, hstage, -⟩
  · exact ⟨[], rfl, List.nodup_nil, nofun, nofun⟩
  obtain ⟨is, rfl, hascending⟩ := h.matching_eq_ok htargets
  obtain ⟨hids, hrecords⟩ := stage_eq_ok_iff.mp hstage
  obtain ⟨entries, rfl, rfl⟩ := exists_stagedOf hids
  have hmem : ∀ entry ∈ entries, ((.int entry.1, entry.2) : RowId × Record) ∈ stagedOf entries :=
    fun entry hentry => List.mem_map_of_mem hentry
  refine ⟨entries, rfl, hascending.imp fun hlt => hlt.ne, fun entry hentry => ?_,
    fun entry hentry => hholds _ (hmem entry hentry)⟩
  obtain ⟨old, -, hold, -⟩ := hrecords _ (hmem entry hentry)
  exact List.mem_map.mpr ⟨_, mem_of_recordAt h.rows hold, rfl⟩

/-- An update keeps the indexes following the rows. -/
lemma Tracks.update (h : table.Tracks next records) (conditions patch : Value) :
    ∃ records, (table.update conditions patch).table.Tracks next records := by
  unfold Table.update
  split
  · exact ⟨_, h⟩
  · exact ⟨_, h⟩
  · rename_i staged _ hstaged
    obtain ⟨entries, rfl, -, hids, hholds⟩ := h.prepareUpdate_eq_ok hstaged
    obtain ⟨htracks, -⟩ := h.replaceRows hholds hids
    split <;> rename_i hreplaced <;> rwa [hreplaced] at htracks

/-! ## Deletion -/

/-- A row that is removed is taken out of indexes, of all or of the first of them; what the others list of
it is gone. -/
lemma Tracks.removeRow (h : table.Tracks next records) {record : Record}
    (hmem : (i, record) ∈ records) :
    ((table.withoutRow (.int i)).unindexRow (.int i) (.record record)).1.Tracks next
      (Entries.drop i records) := by
  have hsub : (Entries.keys (Entries.drop i records)).Sublist (Entries.keys records) :=
    List.filter_sublist.map _
  have hmisses := misses_of_changeIndexes hmem h.follows rfl
  have hstands : (table.withoutRow (.int i)).Stands next (Entries.drop i records) := by
    refine ⟨h.sound, ?_, h.ascending.sublist hsub, h.next_eq, fun j hj => h.below j (hsub.subset hj),
      h.named, h.keyed⟩
    rw [withoutRow, h.rows]
    exact drop_rowsOf records i
  refine ⟨hstands.changeIndexes (keys_changeIndexes _ _) fun entry hentry => ?_,
    fun entry hentry => ?_⟩
  · obtain ⟨old, hold, hcolumn, -⟩ := hmisses entry hentry
    exact ⟨old, hold, hcolumn⟩
  · obtain ⟨old, hold, -, ⟨holds, hholds, -⟩ | ⟨heq, -⟩⟩ := hmisses entry hentry
    · exact ⟨holds, hholds⟩
    · obtain ⟨holds, hholds⟩ := h.follows _ hold
      rw [heq]
      exact ⟨holds, hholds.drop i⟩

/-- Removing rows keeps the indexes following them, also if it breaks off. -/
lemma Tracks.removeRows (h : table.Tracks next records) (is : List Int) :
    ∃ records, (table.removeRows (is.map .int)).1.Tracks next records := by
  induction is generalizing table records with
  | nil => exact ⟨_, h⟩
  | cons i rest ih =>
    rw [List.map_cons, Table.removeRows, rowAt, row?, h.rows, lookup_rowsOf]
    cases hlookup : records.lookup i with
    | none => exact ⟨_, h⟩
    | some record =>
      obtain ⟨before, after, hsplit, -⟩ := List.lookup_eq_some_iff.mp hlookup
      have hmem : (i, record) ∈ records := by
        rw [hsplit]
        simp
      have htracks := h.removeRow hmem
      have hpair : (table.withoutRow (.int i)).unindexRow (.int i) (.record record) =
        (((table.withoutRow (.int i)).unindexRow (.int i) (.record record)).1,
          ((table.withoutRow (.int i)).unindexRow (.int i) (.record record)).2) := rfl
      dsimp only [Option.map_some]
      rw [hpair]
      cases ((table.withoutRow (.int i)).unindexRow (.int i) (.record record)).2 with
      | some fault => exact ⟨_, htracks⟩
      | none => exact ih htracks

/-- A deletion keeps the indexes following the rows. -/
lemma Tracks.delete (h : table.Tracks next records) (conditions : Value) :
    ∃ records, (table.delete conditions).table.Tracks next records := by
  unfold Table.delete
  split
  · exact ⟨_, h⟩
  · exact ⟨_, h⟩
  · rename_i targets _ htargets
    obtain ⟨is, rfl, -⟩ := h.matching_eq_ok htargets
    have htracks := h.removeRows is
    split <;> rename_i hremoved <;> rwa [hremoved] at htracks

/-! ## Operations on indexes -/

/-- An index that is built from records under ids below a bound follows them. -/
lemma follows_ofRows {column : Value} {index : Index} (hnodup : (Entries.keys records).Nodup)
    (hbelow : ∀ i ∈ Entries.keys records, i < next)
    (hindex : Index.ofRows column (rowsOf records) = .ok index) :
    ∃ holds, Follows index schema next records holds := by
  obtain ⟨rfl, hdenotes⟩ := denotes_ofRows hindex
  refine ⟨_, hdenotes, ?_, ?_, fun entry hentry _ hpresent => ⟨_, hentry, rfl, hpresent⟩⟩
  · rintro i w ⟨record, hmem, -⟩
    exact hbelow i (List.mem_map_of_mem hmem)
  · rintro i w record ⟨other, hother, rfl, -⟩ hrecord
    rw [Entries.eq_of_mem hnodup hother hrecord]

/-- Putting an index that is built from the rows on a column keeps the indexes following the rows. -/
lemma Tracks.withIndex (h : table.Tracks next records) {column : Value} {index : Index}
    (hcolumn : column.isHashable = true)
    (hindexable : ∃ c ∈ table.schema.columns, (column == c.name) = true ∧ c.kind.isIndexable = true)
    (hindex : Index.ofRows column table.rows = .ok index) :
    (table.withIndex column index).Tracks next records := by
  refine ⟨⟨h.sound, h.rows, h.ascending, h.next_eq, h.below,
    h.named.withIndex hcolumn hindexable hindex,
    h.keyed.step h.sound (.index hcolumn hindexable hindex)⟩, fun entry hentry => ?_⟩
  rcases Entries.mem_put hentry with hold | ⟨hnew, -⟩
  · exact h.follows entry hold
  · rw [h.rows] at hindex
    rw [hnew]
    exact follows_ofRows h.nodup h.below hindex

/-- Taking an index off a column that is not unique keeps the others following the rows. -/
lemma Tracks.withoutIndex (h : table.Tracks next records) {column : Value}
    (hcolumn : column.isHashable = true)
    (hfree : table.schema.uniqueNames.contains column = false) :
    (table.withoutIndex column).Tracks next records :=
  ⟨⟨h.sound, h.rows, h.ascending, h.next_eq, h.below,
    fun entry hentry => h.named entry (List.mem_filter.mp hentry).1,
    h.keyed.step h.sound (.unindex hcolumn hfree)⟩,
    fun entry hentry => h.follows entry (List.mem_filter.mp hentry).1⟩

/-! ## Every state -/

/-- A request keeps the indexes following the rows, whether it succeeds or not. -/
theorem Tracks.reply (h : table.Tracks next records) (request : Request) :
    ∃ next records, (table.reply request).table.Tracks next records := by
  cases request with
  | insert v => exact h.insert v
  | update conditions patch => exact ⟨_, h.update conditions patch⟩
  | delete conditions => exact ⟨_, h.delete conditions⟩
  | createIndex column =>
    rcases createIndex_cases table column with
      ⟨fault, heq⟩ | ⟨index, effects, hcolumn, hindexable, hindex, heq⟩
    · rw [Table.reply, heq]
      exact ⟨_, _, h⟩
    · rw [Table.reply, heq]
      exact ⟨_, _, h.withIndex hcolumn hindexable hindex⟩
  | rebuildIndex column =>
    rcases h.named.rebuildIndex_cases column with
      ⟨fault, heq⟩ | ⟨index, effects, hcolumn, hindexable, hindex, heq⟩
    · rw [Table.reply, heq]
      exact ⟨_, _, h⟩
    · rw [Table.reply, heq]
      exact ⟨_, _, h.withIndex hcolumn hindexable hindex⟩
  | dropIndex column =>
    rcases dropIndex_cases table column with ⟨fault, heq⟩ | ⟨effects, hcolumn, hfree, heq⟩
    · rw [Table.reply, heq]
      exact ⟨_, _, h⟩
    · rw [Table.reply, heq]
      exact ⟨_, _, h.withoutIndex hcolumn hfree⟩

/-- Requests keep the indexes following the rows, whatever their outcome. -/
theorem Tracks.run (h : table.Tracks next records) (requests : List Request) :
    ∃ next records, (table.run requests).Tracks next records := by
  induction requests generalizing table next records with
  | nil => exact ⟨_, _, h⟩
  | cons request rest ih =>
    obtain ⟨next, records, hnext⟩ := h.reply request
    exact ih hnext

/-- The indexes that are built for a table without rows are on columns that can be indexed and follow the
records, of which there are none. -/
lemma follows_of_buildIndexes {columns : List Value} {notices : List Notice}
    (hcolumns : ∀ column ∈ columns, column.isHashable = true) (hnamed : table.Named)
    (hrows : table.rows = [])
    (hfollows : ∀ entry ∈ table.indexes, ∃ holds, Follows entry.2 table.schema next [] holds)
    (h : table.buildIndexes columns = .ok (table', notices)) :
    table'.Named ∧ table'.nextRowId = table.nextRowId ∧
      ∀ entry ∈ table'.indexes, ∃ holds, Follows entry.2 table'.schema next [] holds := by
  induction columns generalizing table notices with
  | nil =>
    cases h
    exact ⟨hnamed, rfl, hfollows⟩
  | cons first rest ih =>
    obtain ⟨⟨built, notice⟩, hbuilt, h⟩ := Outcome.seq_eq_ok.mp h
    obtain ⟨⟨done, more⟩, hdone, h⟩ := Outcome.seq_eq_ok.mp h
    obtain ⟨rfl, -⟩ := Prod.mk.injEq .. ▸ Outcome.pure_eq_ok.mp h
    obtain ⟨hfirst, hrest⟩ := List.forall_mem_cons.mp hcolumns
    obtain ⟨index, rfl, hindexable, hindex⟩ := buildIndex_eq_ok hfirst hbuilt
    have hbuilds : ∀ entry ∈ (table.withIndex first index).indexes,
        ∃ holds, Follows entry.2 (table.withIndex first index).schema next [] holds := by
      intro entry hentry
      rcases Entries.mem_put hentry with hold | ⟨hnew, -⟩
      · exact hfollows entry hold
      · rw [hrows] at hindex
        rw [hnew]
        exact follows_ofRows List.nodup_nil nofun hindex
    have hmade := ih hrest (hnamed.withIndex hfirst hindexable hindex) hrows hbuilds hdone
    exact hmade

/-- The indexes of a table that has just been made follow the rows, of which there are none. -/
theorem tracks_of_create {schema : Schema} (hsound : schema.Sound fun _ => True)
    {source : SchemaSource} (hsource : Schema.ofSource source = .ok schema)
    {name directory : String} {created : Table} {effects : List Effect}
    (hcreate : Table.create name source directory = .ok (created, effects)) :
    created.schema = schema ∧ created.Tracks 1 [] := by
  obtain ⟨made, hmade, hall⟩ := create_eq_ok hcreate
  obtain rfl : made = schema := by
    rw [hsource] at hmade
    exact (Except.ok.inj hmade).symm
  obtain ⟨hreaches, hrows, hkeyed⟩ := hall hsound
  have hschema : created.schema = made := hreaches.schema_eq
  obtain ⟨other, hother, h⟩ := Outcome.seq_eq_ok.mp hcreate
  obtain rfl : other = made := by
    rw [hsource] at hother
    exact (Except.ok.inj hother).symm
  obtain ⟨⟨built, notices⟩, hbuilt, h⟩ := Outcome.seq_eq_ok.mp h
  obtain ⟨rfl, -⟩ := Prod.mk.injEq .. ▸ Outcome.pure_eq_ok.mp h
  have hnames : ∀ column ∈ other.uniqueNames.filter fun column =>
      !Entries.has column (empty name other directory).indexes, column.isHashable = true :=
    fun column hcolumn =>
      isHashable_of_mem_uniqueNames hsound (List.mem_filter.mp hcolumn).1
  obtain ⟨hnamed, hnext, hfollows⟩ :=
    follows_of_buildIndexes hnames (by simp [Named, empty]) rfl (by simp [empty]) hbuilt
  exact ⟨hschema, ⟨hschema.symm ▸ hsound, hrows, List.Pairwise.nil, hnext, by simp [Entries.keys],
    hnamed, hkeyed⟩, hfollows⟩

end RecordStore.Table
