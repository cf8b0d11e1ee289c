import RecordStore.Proofs.Number.Digits
import RecordStore.Proofs.Number.Order
import RecordStore.Proofs.Schema.Restored
import RecordStore.Proofs.Table.Loading
import RecordStore.Proofs.Table.Storing

/-!
# Rows in snapshots

The snapshot of a table holds its rows under their ids as texts.  What is read from it are the same
ids in the same order, each with its record as far as the values of the record come back, and the id
of the next row.
-/

namespace RecordStore

open Snapshot (ObjectKeys ValueRestored WrittenKeys EntryRestored keyText? restored)

namespace Table

variable {records records' : List (Int × Record)}

/-! ## Ids as texts -/

/-- An id as a text. -/
def idText (i : Int) : String :=
  (keyText? (.int i)).getD ""

/-- An id that can be written is read from its text. -/
lemma integerOfText?_idText {i : Int} (h : (keyText? (.int i)).isSome = true) :
    Number.integerOfText? (idText i) = some i := by
  obtain ⟨text, htext⟩ := Option.isSome_iff_exists.mp h
  rw [idText, htext]
  exact Number.integerOfText?_integerText? htext

/-- Records under their ids, as they are written. -/
def rowEntries (records : List (Int × Record)) : List (Value × Value) :=
  records.map fun entry => (.int entry.1, .map entry.2)

/-- Records under the texts of their ids, as they are read. -/
def idEntries (records : List (Int × Record)) : List (Value × Value) :=
  records.map fun entry => (.text (idText entry.1), .map entry.2)

/-- Records come back one by one under their ids. -/
def RecordsRestored (records records' : List (Int × Record)) : Prop :=
  List.Forall₂ (fun entry entry' => entry'.1 = entry.1 ∧
    List.Forall₂ ValueRestored entry.2 entry'.2) records records'

/-- Ids have texts of their own. -/
lemma writtenKeys_rowEntries (hids : (Entries.keys records).Nodup)
    (htexts : ∀ i ∈ Entries.keys records, (keyText? (.int i)).isSome = true) :
    WrittenKeys (rowEntries records) := by
  have hread : ∀ entry ∈ records, Number.integerOfText? (idText entry.1) = some entry.1 :=
    fun entry hentry => integerOfText?_idText (htexts _ (List.mem_map_of_mem hentry))
  constructor
  · refine List.pairwise_map.mpr ((List.pairwise_map.mp hids).imp_of_mem ?_)
    intro a b ha hb hne heq
    have hboth := congrArg Number.integerOfText? (show idText a.1 = idText b.1 from heq)
    rw [hread a ha, hread b hb] at hboth
    exact hne (Option.some.inj hboth)
  · intro entry hentry
    obtain ⟨row, hrow, rfl⟩ := List.mem_map.mp hentry
    have hmark : ∀ mark, Number.integerOfText? mark = none → idText row.1 ≠ mark := by
      intro mark hnone heq
      rw [← heq, hread row hrow] at hnone
      cases hnone
    exact ⟨hmark _ (by decide), hmark _ (by decide)⟩

/-- Values under the texts of ids, as they are read. -/
def foundEntries (found : List (Int × Value)) : List (Value × Value) :=
  found.map fun entry => (.text (idText entry.1), entry.2)

/-- Records come back one by one under their ids, as whatever values they become. -/
def RowsFound (records : List (Int × Record)) (found : List (Int × Value)) : Prop :=
  List.Forall₂ (fun entry value => value.1 = entry.1 ∧ restored (.map entry.2) = .ok value.2)
    records found

/-- What comes back of rows keeps their ids. -/
lemma RowsFound.keys_eq {found : List (Int × Value)} (h : RowsFound records found) :
    Entries.keys found = Entries.keys records :=
  Snapshot.map_eq_of_forall₂ h fun _ _ _ hentry => hentry.1

/-- Rows come back one by one. -/
lemma entriesRestored_rowEntries {entries' : List (Value × Value)} :
    List.Forall₂ EntryRestored (rowEntries records) entries' ↔
      ∃ found, RowsFound records found ∧ foundEntries found = entries' := by
  induction records generalizing entries' with
  | nil =>
    rw [rowEntries, List.map_nil, List.forall₂_nil_left_iff]
    constructor
    · rintro rfl
      exact ⟨[], .nil, rfl⟩
    · rintro ⟨found, hfound, rfl⟩
      rw [List.forall₂_nil_left_iff.mp hfound]
      rfl
  | cons entry rest ih =>
    rw [rowEntries, List.map_cons, ← rowEntries, List.forall₂_cons_left_iff]
    constructor
    · rintro ⟨⟨key, v⟩, more, ⟨hkey, hv⟩, hmore, rfl⟩
      obtain ⟨others, hothers, rfl⟩ := ih.mp hmore
      refine ⟨(entry.1, v) :: others, .cons ⟨rfl, hv⟩ hothers, ?_⟩
      dsimp only at hkey
      rw [hkey]
      rfl
    · rintro ⟨found, hfound, rfl⟩
      obtain ⟨value, others, ⟨hid, hv⟩, hothers, rfl⟩ := List.forall₂_cons_left_iff.mp hfound
      refine ⟨_, foundEntries others, ⟨?_, hv⟩, ih.mpr ⟨others, hothers, rfl⟩, rfl⟩
      exact congrArg (Value.text ∘ idText) hid

/-- What comes back of the rows of a table, whatever the records become. -/
theorem restored_rowEntries_eq_ok (hids : (Entries.keys records).Nodup)
    (htexts : ∀ i ∈ Entries.keys records, (keyText? (.int i)).isSome = true) {w : Value} :
    restored (.map (rowEntries records)) = .ok w ↔
      ∃ found, RowsFound records found ∧ .map (foundEntries found) = w := by
  rw [Snapshot.restored_map (writtenKeys_rowEntries hids htexts), Outcome.map_eq_ok]
  constructor
  · rintro ⟨entries', hrestored, rfl⟩
    obtain ⟨found, hfound, rfl⟩ :=
      entriesRestored_rowEntries.mp (Snapshot.restoredEntries_eq_ok.mp hrestored)
    exact ⟨found, hfound, rfl⟩
  · rintro ⟨found, hfound, rfl⟩
    exact ⟨_, Snapshot.restoredEntries_eq_ok.mpr
      (entriesRestored_rowEntries.mpr ⟨found, hfound, rfl⟩), rfl⟩

/-- Records as the values that they are written as. -/
def asValues (records : List (Int × Record)) : List (Int × Value) :=
  records.map fun entry => (entry.1, .map entry.2)

/-- Records as values under the texts of their ids. -/
lemma foundEntries_asValues (records : List (Int × Record)) :
    foundEntries (asValues records) = idEntries records := by
  rw [foundEntries, asValues, List.map_map]
  rfl

/-- Records with the keys of objects come back as records. -/
lemma rowsFound_iff (hkeys : ∀ entry ∈ records, ObjectKeys entry.2) {found : List (Int × Value)} :
    RowsFound records found ↔
      ∃ records', RecordsRestored records records' ∧ asValues records' = found := by
  induction records generalizing found with
  | nil =>
    rw [RowsFound, List.forall₂_nil_left_iff]
    constructor
    · rintro rfl
      exact ⟨[], .nil, rfl⟩
    · rintro ⟨records', hrecords, rfl⟩
      rw [List.forall₂_nil_left_iff.mp hrecords]
      rfl
  | cons entry rest ih =>
    obtain ⟨hfirst, hrest⟩ := List.forall_mem_cons.mp hkeys
    rw [RowsFound, List.forall₂_cons_left_iff]
    constructor
    · rintro ⟨⟨i, v⟩, more, ⟨hid, hv⟩, hmore, rfl⟩
      obtain ⟨record', hrecord, rfl⟩ := (Snapshot.restored_object hfirst).mp hv
      obtain ⟨others, hothers, rfl⟩ := (ih hrest).mp hmore
      exact ⟨(i, record') :: others, .cons ⟨hid, hrecord⟩ hothers, rfl⟩
    · rintro ⟨records', hrecords, rfl⟩
      obtain ⟨entry', others, ⟨hid, hrecord⟩, hothers, rfl⟩ := List.forall₂_cons_left_iff.mp hrecords
      exact ⟨_, asValues others,
        ⟨hid, (Snapshot.restored_object hfirst).mpr ⟨_, hrecord, rfl⟩⟩,
        (ih hrest).mpr ⟨others, hothers, rfl⟩, rfl⟩

/-- What has come back of records is determined. -/
lemma eq_of_rowsFound {found found' : List (Int × Value)} (h : RowsFound records found)
    (h' : RowsFound records found') : found' = found := by
  induction h generalizing found' with
  | nil => exact List.forall₂_nil_left_iff.mp h'
  | cons hfirst _ ih =>
    obtain ⟨value, others, hvalue, hothers, rfl⟩ := List.forall₂_cons_left_iff.mp h'
    rw [ih hothers]
    congr 1
    exact Prod.ext (hvalue.1.trans hfirst.1.symm) (Except.ok.inj (hvalue.2.symm.trans hfirst.2))

/-- Records are known by the values that they are written as. -/
lemma asValues_injective : Function.Injective asValues := by
  refine List.map_injective_iff.mpr fun a b hab => ?_
  simp only [Prod.mk.injEq, Value.map.injEq] at hab
  exact Prod.ext hab.1 hab.2

/-! ## Rows that are read -/

/-- Values as rows under integers. -/
def rowsRead (found : List (Int × Value)) : List (Int × Row) :=
  found.map fun entry => (entry.1, .ofValue entry.2)

/-- Values are read one after the other from under the texts of their ids. -/
lemma rowsOfEntries_foundEntries {found : List (Int × Value)} {done : List (Int × Row)}
    (hids : (Entries.keys done ++ Entries.keys found).Nodup)
    (htexts : ∀ i ∈ Entries.keys found, (keyText? (.int i)).isSome = true) :
    rowsOfEntries done (foundEntries found) = .ok (done ++ rowsRead found) := by
  induction found generalizing done with
  | nil => simp [foundEntries, rowsRead, rowsOfEntries]
  | cons entry rest ih =>
    obtain ⟨i, v⟩ := entry
    have hread := integerOfText?_idText (htexts i List.mem_cons_self)
    have hfresh : i ∉ Entries.keys done := fun hmem =>
      (List.nodup_append.mp hids).2.2 i hmem i List.mem_cons_self rfl
    have hput : Entries.put i (Row.ofValue v) done = done ++ [(i, .ofValue v)] :=
      Entries.put_of_not_mem hfresh
    have hnext : (Entries.keys (done ++ [(i, Row.ofValue v)]) ++ Entries.keys rest).Nodup := by
      have hsame : Entries.keys (done ++ [(i, Row.ofValue v)]) ++ Entries.keys rest =
          Entries.keys done ++ Entries.keys ((i, v) :: rest) := by
        simp [Entries.keys]
      rw [hsame]
      exact hids
    have hlater := ih hnext fun j hj => htexts j (List.mem_cons_of_mem _ hj)
    rw [foundEntries, List.map_cons, ← foundEntries, rowsOfEntries]
    simp only [Value.text?, Option.bind_some, hread, hput, hlater, rowsRead, List.map_cons,
      List.append_assoc, List.singleton_append]

/-- The last id is below every bound of the ids, if the bound is positive. -/
lemma lastId_lt {rows : List (Int × Row)} {next : Int} (hnext : 1 ≤ next)
    (h : ∀ i ∈ Entries.keys rows, i < next) : lastId rows < next := by
  have hfold : ∀ (rest : List (Int × Row)) (last : Int), last < next →
      (∀ i ∈ Entries.keys rest, i < next) →
        rest.foldl (fun last entry => max last entry.1) last < next := by
    intro rest
    induction rest with
    | nil => exact fun last hlast _ => hlast
    | cons entry rest ih =>
      intro last hlast hrest
      obtain ⟨hfirst, hlater⟩ := List.forall_mem_cons.mp hrest
      exact ih _ (max_lt hlast hfirst) hlater
  cases rows with
  | nil =>
    rw [lastId]
    omega
  | cons entry rest =>
    obtain ⟨hfirst, hrest⟩ := List.forall_mem_cons.mp h
    exact hfold rest entry.1 hfirst hrest

/-- The fields of a snapshot of rows. -/
def dataFields (next : Int) (entries : List (Value × Value)) : Fields :=
  [("next_row_id", .int next), ("rows", .map entries)]

/-- From the snapshot of rows the rows are read, and the id of the next one. -/
theorem rowsOfValue_data {found : List (Int × Value)} {next : Int}
    (hids : (Entries.keys found).Nodup)
    (htexts : ∀ i ∈ Entries.keys found, (keyText? (.int i)).isSome = true) (hnext : 1 ≤ next)
    (hbelow : ∀ i ∈ Entries.keys found, i < next) :
    rowsOfValue (.ofFields (dataFields next (foundEntries found))) =
      .ok (rowsRead found, .whole next) := by
  have hrows : rowsOfEntries [] (foundEntries found) = .ok (rowsRead found) :=
    rowsOfEntries_foundEntries hids htexts
  have hlast : lastId (rowsRead found) < next := by
    refine lastId_lt hnext fun i hi => hbelow i ?_
    rw [rowsRead, Entries.keys, List.map_map] at hi
    exact hi
  have hlarger : (Number.whole next).larger (.whole (lastId (rowsRead found) + 1)) =
      .whole next := by
    rw [Number.larger, Number.less_whole, if_neg]
    intro hless
    have hlt := of_decide_eq_true hless
    omega
  have htruthy : (Value.ofFields (dataFields next (foundEntries found))).isTruthy = true := rfl
  unfold rowsOfValue
  rw [if_pos htruthy]
  change (rowsOfEntries [] (foundEntries found) >>= fun rows => _) = _
  rw [hrows]
  change Except.ok (rowsRead found,
    (Number.whole next).larger (.whole (lastId (rowsRead found) + 1))) = _
  rw [hlarger]

/-! ## The rows of a table -/

variable {table : Table} {disk : Disk}

section

variable (hnumbers : table.Numbers records) (hcounts : table.CountsFromOne)

include hnumbers hcounts

/-- The snapshot of the rows of a table holds its records under their ids. -/
lemma Numbers.dataValue_eq :
    ∃ next : Int, table.nextRowId = .whole next ∧ 1 ≤ next ∧
      (∀ i ∈ Entries.keys records, i < next) ∧
        table.dataValue = .ofFields (dataFields next (rowEntries records)) := by
  obtain ⟨next, hnext, hone⟩ := hcounts
  obtain ⟨next', hnext', hbelow⟩ := hnumbers.next
  obtain rfl : next = next' := Number.whole.inj (hnext.symm.trans hnext')
  refine ⟨next, hnext, hone, hbelow, ?_⟩
  have hrows : (table.rows.map fun entry => (entry.1, entry.2.toValue)) = rowEntries records := by
    rw [hnumbers.rows, rowsOf, List.map_map]
    rfl
  rw [dataValue, hnext, hrows]
  rfl

/-- The ids of a table whose rows can be written have texts. -/
lemma Numbers.isSome_keyText? (hcomplete : (Snapshot.draft table.dataValue).complete = true) :
    ∀ i ∈ Entries.keys records, (keyText? (.int i)).isSome = true := by
  obtain ⟨next, -, -, -, hdata⟩ := hnumbers.dataValue_eq hcounts
  rw [hdata, Value.ofFields, Snapshot.complete_draft_map, List.all_eq_true] at hcomplete
  have hrows := hcomplete (.text "rows", .map (rowEntries records)) (by simp [dataFields])
  rw [Bool.and_eq_true, Snapshot.complete_draft_map, List.all_eq_true] at hrows
  intro i hi
  obtain ⟨entry, hentry, rfl⟩ := List.mem_map.mp hi
  have hentryWritten := hrows.2 (.int entry.1, .map entry.2) (List.mem_map_of_mem hentry)
  exact (Bool.and_eq_true _ _ ▸ hentryWritten).1

/-- What comes back of the snapshot of the rows of a table, whatever the records become. -/
theorem Numbers.restored_dataValue_eq_ok
    (hcomplete : (Snapshot.draft table.dataValue).complete = true) {w : Value} :
    restored table.dataValue = .ok w ↔ ∃ next found, table.nextRowId = .whole next ∧
      RowsFound records found ∧ .ofFields (dataFields next (foundEntries found)) = w := by
  obtain ⟨next, hnext, -, -, hdata⟩ := hnumbers.dataValue_eq hcounts
  have hobject : ObjectKeys ((dataFields next (rowEntries records)).map fun field =>
      (.text field.1, field.2)) := by
    apply Snapshot.objectKeys_ofFields
    · exact (by decide : ["next_row_id", "rows"].Nodup)
    · exact (by decide : ∀ name ∈ ["next_row_id", "rows"], name ≠ Snapshot.timestampMark ∧
        name ≠ Snapshot.dateMark)
  have hrows := fun v : Value => restored_rowEntries_eq_ok (w := v) hnumbers.nodup
    (hnumbers.isSome_keyText? hcounts hcomplete)
  rw [hdata, Value.ofFields, Snapshot.restored_object hobject]
  constructor
  · rintro ⟨entries', hentries, rfl⟩
    obtain ⟨⟨name, i⟩, more, ⟨hname, hi⟩, hmore, rfl⟩ := List.forall₂_cons_left_iff.mp hentries
    obtain ⟨⟨name', v⟩, none, ⟨hname', hv⟩, hnone, rfl⟩ := List.forall₂_cons_left_iff.mp hmore
    obtain rfl := List.forall₂_nil_left_iff.mp hnone
    obtain ⟨found, hfound, rfl⟩ := (hrows v).mp hv
    obtain rfl : Value.int next = i := Except.ok.inj hi
    dsimp only at hname hname'
    rw [hname, hname']
    exact ⟨next, found, hnext, hfound, rfl⟩
  · rintro ⟨next', found, hnext', hfound, rfl⟩
    obtain rfl : next = next' := Number.whole.inj (hnext.symm.trans hnext')
    refine ⟨_, ?_, rfl⟩
    exact .cons ⟨rfl, rfl⟩ (.cons ⟨rfl, (hrows _).mpr ⟨found, hfound, rfl⟩⟩ .nil)

/-- From the snapshot of the rows of a table the rows are read, as what comes back of them, under the
same ids, and the id of the next one. -/
theorem Numbers.rowsOfValue_eq (hcomplete : (Snapshot.draft table.dataValue).complete = true)
    {next : Int} (hnext : table.nextRowId = .whole next) {found : List (Int × Value)}
    (hfound : RowsFound records found) :
    rowsOfValue (.ofFields (dataFields next (foundEntries found))) =
      .ok (rowsRead found, table.nextRowId) := by
  obtain ⟨next', hnext', hone, hbelow, -⟩ := hnumbers.dataValue_eq hcounts
  obtain rfl : next = next' := Number.whole.inj (hnext.symm.trans hnext')
  have hids := hfound.keys_eq
  rw [hnext]
  apply rowsOfValue_data
  · rw [hids]
    exact hnumbers.nodup
  · rw [hids]
    exact hnumbers.isSome_keyText? hcounts hcomplete
  · exact hone
  · rw [hids]
    exact hbelow

end

/-- What comes back of the snapshot of the rows of a table whose records have the keys of objects. -/
theorem StoredIn.restored_dataValue (hstored : table.StoredIn disk) (h : table.Tidy records)
    (hkeys : ∀ entry ∈ records, ObjectKeys entry.2) {w : Value} :
    restored table.dataValue = .ok w ↔ ∃ next records', table.nextRowId = .whole next ∧
      RecordsRestored records records' ∧ .ofFields (dataFields next (idEntries records')) = w := by
  rw [h.settled.lists.numbers.restored_dataValue_eq_ok h.counts hstored.data.complete]
  constructor
  · rintro ⟨next, found, hnext, hfound, rfl⟩
    obtain ⟨records', hrecords, rfl⟩ := (rowsFound_iff hkeys).mp hfound
    exact ⟨next, records', hnext, hrecords, by rw [foundEntries_asValues]⟩
  · rintro ⟨next, records', hnext, hrecords, rfl⟩
    exact ⟨next, _, hnext, (rowsFound_iff hkeys).mpr ⟨records', hrecords, rfl⟩, by
      rw [foundEntries_asValues]⟩

/-! ## Loading rows -/

/-- The table with the schema and the records that have come back, without indexes. -/
def unindexed (table : Table) (schema : Schema) (records : List (Int × Record)) : Table :=
  { empty table.name schema table.directory with
    rows := rowsOf records, nextRowId := table.nextRowId }

/-- A table numbers what has come back of its records if it is under the same ids. -/
lemma Numbers.unindexed (h : table.Numbers records) (schema : Schema)
    (hkeys : Entries.keys records' = Entries.keys records) :
    (table.unindexed schema records').Numbers records' :=
  ⟨rfl, hkeys ▸ h.ascending, hkeys ▸ h.next⟩

/-- Records that are read are the rows of records. -/
lemma asRows_asValues (records : List (Int × Record)) :
    asRows (rowsRead (asValues records)) = rowsOf records := by
  rw [asRows, rowsRead, asValues, rowsOf, List.map_map, List.map_map]
  rfl

/-- From the files of a table its schema and its rows are loaded, as they have come back. -/
theorem StoredIn.loadRows_eq (hstored : table.StoredIn disk) (h : table.Tidy records)
    (hkeys : ∀ entry ∈ records, ObjectKeys entry.2) {schema : Schema}
    (hschema : restored table.schema.toValue = .ok schema.toValue) (hbuilt : schema.Built)
    (hcolumns : schema.columns ≠ []) {records' : List (Int × Record)}
    (hrecords : RecordsRestored records records') :
    loadRows table.name table.directory disk = .ok (table.unindexed schema records') := by
  obtain ⟨next, hnext, -⟩ := h.counts
  have hread : disk.readSnapshot (schemaPath table.directory table.name) = .ok schema.toValue := by
    rw [hstored.schema.readSnapshot, hschema]
  have hdata : disk.readSnapshot (dataPath table.directory table.name) =
      .ok (.ofFields (dataFields next (idEntries records'))) := by
    rw [hstored.data.readSnapshot,
      (hstored.restored_dataValue h hkeys).mpr ⟨next, records', hnext, hrecords, rfl⟩]
  have hrows : rowsOfValue (.ofFields (dataFields next (idEntries records'))) =
      .ok (rowsRead (asValues records'), table.nextRowId) := by
    rw [← foundEntries_asValues]
    exact h.settled.lists.numbers.rowsOfValue_eq h.counts hstored.data.complete hnext
      ((rowsFound_iff hkeys).mpr ⟨records', hrecords, rfl⟩)
  refine loadRows_eq_ok_iff.mpr ⟨_, schema, _, _, _, hread, rfl,
    Schema.ofValue_toValue hbuilt hcolumns, hdata, hrows, ?_⟩
  rw [asRows_asValues]
  rfl

end Table

end RecordStore
