import RecordStore.Proofs.Table.Descent

/-!
# Rows keep their ids

A row is known by its id for as long as it is there.  An insertion gives the id of the next row and goes
on to the one after it, and nothing else gives ids; an update puts a new record under the id of a row
that it has matched, and a deletion takes matching rows away.  When a table is loaded again the rows
come back under their ids, and the next id is the one that has been written, also if the rows with the
greatest ids are gone.  So an id that has been given once is never given again.

The files may be behind the table in one way: after a table has been loaded and only its indexes have
been saved, the file of rows still holds what the rows were before they came back from it.
-/

namespace RecordStore

open Snapshot (restored)

namespace Table

variable {schema : Schema} {table after : Table} {records records' : List (Int × Record)}

/-! ## What happens to a table -/

/-- Something that happens to a table: it is asked for something, it saves its rows and indexes, or it
is loaded again from its files. -/
inductive Event where
  | request (request : Request)
  | save
  | load

/-- A table, and the world with its files. -/
structure Scene where
  table : Table
  world : World

namespace Scene

/-- What something that happens makes of a table and of the world. A table that cannot be loaded is
kept. -/
def happens (scene : Scene) : Event → Scene
  | .request request =>
    let reply := scene.table.reply request
    ⟨reply.table, scene.world.performAll reply.effects⟩
  | .save => ⟨scene.table, scene.world.performAll scene.table.saveAll⟩
  | .load =>
    let (notices, loaded) := load scene.table.name scene.table.directory scene.world.disk
    ⟨loaded.toOption.getD scene.table, scene.world.noteAll notices⟩

/-- A table and the world after some events, one after the other. -/
def run (scene : Scene) (events : List Event) : Scene :=
  events.foldl happens scene

/-- Events that follow others happen to what these have left. -/
lemma run_append (scene : Scene) (done events : List Event) :
    scene.run (done ++ events) = (scene.run done).run events :=
  List.foldl_append

/-- Whatever happens adds notices. -/
lemma notices_prefix_happens (scene : Scene) (event : Event) :
    scene.world.notices <+: (scene.happens event).world.notices := by
  cases event with
  | request request => exact World.notices_prefix_performAll _ _
  | save => exact World.notices_prefix_performAll _ _
  | load => exact List.prefix_append _ _

/-- If everything has been saved after some events, it has been before them. -/
lemma allSaved_of_run {scene : Scene} {events : List Event}
    (h : (scene.run events).world.AllSaved) : scene.world.AllSaved := by
  induction events generalizing scene with
  | nil => exact h
  | cons event rest ih => exact World.AllSaved.of_prefix (ih h) (notices_prefix_happens scene event)

end Scene

/-! ## Ids -/

/-- What can become of a row under an id by something that happens: it stays, an update that matches it
puts another record in its place, a deletion that matches it takes it away, or it comes back from the
file. -/
inductive Fate (table : Table) (i : Int) : Row → Event → Option Row → Prop where
  | kept (row : Row) (event : Event) : Fate table i row event (some row)
  | updated {conditions patch : Value} {targets : List RowId} {old changes record : Record}
      (hmatching : table.matching conditions = .ok targets) (hid : .int i ∈ targets)
      (hchanges : patchRecord patch = .ok changes)
      (hrecord : table.schema.validate (table.isTaken targets) true (merge old changes) =
        .ok record) :
      Fate table i (.record old) (.request (.update conditions patch)) (some (.record record))
  | deleted {conditions : Value} {targets : List RowId} {row : Row}
      (hmatching : table.matching conditions = .ok targets) (hid : .int i ∈ targets) :
      Fate table i row (.request (.delete conditions)) none
  | read {row row' : Row} (h : restored row.toValue = .ok row'.toValue) :
      Fate table i row .load (some row')

/-- What something that happens does to the rows and their ids. -/
structure Proceeds (table : Table) (event : Event) (after : Table) : Prop where
  /-- The next id never gets smaller. -/
  next : ∃ n n', table.nextRowId = .whole n ∧ after.nextRowId = .whole n' ∧ n ≤ n'
  /-- Every row stays under its id until it is deleted. -/
  fate : ∀ i row, table.row? (.int i) = some row → Fate table i row event (after.row? (.int i))
  /-- Only an insertion that succeeds brings a new row, under the next id. -/
  new : ∀ i, table.row? (.int i) = none → after.row? (.int i) ≠ none →
    table.nextRowId = .whole i ∧
      ∃ v record, event = .request (.insert v) ∧ (table.insert v).result = .ok record
  /-- An insertion that succeeds appends its record under the next id. -/
  inserted : ∀ v record, event = .request (.insert v) → (table.insert v).result = .ok record →
    after.rows = table.rows ++ [(.ofNumber table.nextRowId, .record record)] ∧
      after.nextRowId = table.nextRowId.successor

/-! ## Rows and records -/

/-- The rows of a table are the records that it lists. -/
lemma Lists.row?_eq_some_iff (h : table.Lists records) {i : Int} {row : Row} :
    table.row? (.int i) = some row ↔ ∃ record, (i, record) ∈ records ∧ .record record = row := by
  rw [row?, h.rows, lookup_rowsOf, Option.map_eq_some_iff]
  refine exists_congr fun record => and_congr_left fun _ => ⟨Entries.mem_of_lookup, fun hmem => ?_⟩
  exact Entries.lookup_eq_some_of_mem h.nodup hmem

/-- There is a row under the ids of the records and under no other integer. -/
lemma Lists.row?_ne_none_iff (h : table.Lists records) {i : Int} :
    table.row? (.int i) ≠ none ↔ i ∈ Entries.keys records := by
  rw [Option.ne_none_iff_exists', Entries.keys, List.mem_map]
  constructor
  · rintro ⟨row, hrow⟩
    obtain ⟨record, hmem, -⟩ := h.row?_eq_some_iff.mp hrow
    exact ⟨(i, record), hmem, rfl⟩
  · rintro ⟨⟨j, record⟩, hmem, rfl⟩
    exact ⟨.record record, h.row?_eq_some_iff.mpr ⟨record, hmem, rfl⟩⟩

/-- Something that happens and is not an insertion that succeeds is told by what becomes of every
record. -/
lemma proceeds_of_fate {event : Event} (h : table.Lists records) (h' : after.Lists records')
    (hevent : ∀ v record, event = .request (.insert v) → (table.insert v).result ≠ .ok record)
    (hnext : after.nextRowId = table.nextRowId)
    (hids : ∀ i ∈ Entries.keys records', i ∈ Entries.keys records)
    (hfate : ∀ i record, (i, record) ∈ records →
      Fate table i (.record record) event (after.row? (.int i))) : Proceeds table event after := by
  obtain ⟨n, hn, -⟩ := h.next
  refine ⟨⟨n, n, hn, hnext.trans hn, le_refl n⟩, fun i row hrow => ?_, fun i hnone hsome => ?_,
    fun v record heq hok => absurd hok (hevent v record heq)⟩
  · obtain ⟨record, hmem, rfl⟩ := h.row?_eq_some_iff.mp hrow
    exact hfate i record hmem
  · exact absurd hnone (h.row?_ne_none_iff.mpr (hids i (h'.row?_ne_none_iff.mp hsome)))

/-- If the rows stay, nothing happens to them. -/
lemma proceeds_of_rows_eq {event : Event} (h : table.Lists records)
    (hevent : ∀ v record, event = .request (.insert v) → (table.insert v).result ≠ .ok record)
    (hnext : after.nextRowId = table.nextRowId) (hrows : after.rows = table.rows) :
    Proceeds table event after := by
  obtain ⟨n, hn, -⟩ := h.next
  have hrow : ∀ i, after.row? i = table.row? i := fun i => by rw [row?, row?, hrows]
  refine ⟨⟨n, n, hn, hnext.trans hn, le_refl n⟩, fun i row hi => ?_, fun i hnone hsome => ?_,
    fun v record heq hok => absurd hok (hevent v record heq)⟩
  · rw [hrow, hi]
    exact .kept row event
  · rw [hrow] at hsome
    exact absurd hnone hsome

/-- Rows that have come back from a file stay under their ids. -/
lemma proceeds_of_rowsFound (h : table.Lists records) (h' : after.Lists records')
    (hnext : after.nextRowId = table.nextRowId) (hfound : RowsFound records (asValues records')) :
    Proceeds table .load after := by
  have hkeys := keys_eq_of_rowsFound hfound
  refine proceeds_of_fate h h' (fun v record heq => by cases heq) hnext (fun i hi => hkeys ▸ hi)
    fun i record hmem => ?_
  obtain ⟨value, hvalue, hid, hrestored⟩ := Snapshot.exists_right_of_forall₂ hfound hmem
  obtain ⟨⟨j, record'⟩, hmem', rfl⟩ := List.mem_map.mp hvalue
  obtain rfl : j = i := hid
  rw [h'.row?_eq_some_iff.mpr ⟨record', hmem', rfl⟩]
  exact .read hrestored

/-! ## Requests -/

/-- A record that has been prepared is what becomes of the row in whose place it is put. -/
lemma Lists.fate_of_prepareUpdate (h : table.Lists records) {conditions patch : Value}
    {staged : List (RowId × Record)} (hstaged : table.prepareUpdate conditions patch = .ok staged)
    {i : Int} {old record : Record} (hmem : (i, old) ∈ records) (hentry : (.int i, record) ∈ staged) :
    Fate table i (.record old) (.request (.update conditions patch)) (some (.record record)) := by
  rcases Table.prepareUpdate_eq_ok hstaged with
    hnone | ⟨targets, changes, hmatching, rfl, -, -, hstage, -⟩
  · rw [hnone] at hentry
    cases hentry
  · obtain ⟨htargets, hall⟩ := stage_eq_ok_iff.mp hstage
    obtain ⟨found, changes', hfound, hchanges, hvalid⟩ := hall _ hentry
    have hrow : table.row? (.int i) = some (.record old) := h.row?_eq_some_iff.mpr ⟨old, hmem, rfl⟩
    obtain rfl : found = old := by
      rw [recordAt, rowAt, hrow] at hfound
      exact (Except.ok.inj hfound).symm
    exact .updated hmatching (htargets ▸ List.mem_map_of_mem hentry) hchanges hvalid

section

variable (h : table.Lists records) (hsteady : table.Steady)

include h hsteady

/-- An insertion appends a record under the next id, or does nothing to the rows. -/
lemma Lists.proceeds_insert (v : Value) :
    Proceeds table (.request (.insert v)) (table.insert v).table := by
  rcases hsteady.insert_cases v with ⟨fault, heq⟩ | ⟨record, effects, hadmits, heq⟩
  · refine proceeds_of_rows_eq h (fun w record hw hok => ?_) ?_ ?_
    · cases hw
      rw [heq] at hok
      cases hok
    · rw [heq]
      rfl
    · rw [heq]
      rfl
  · obtain ⟨next, hnext, hbelow, hlists⟩ := h.appended hsteady (hsteady.holds_of_admits hadmits)
    have hsucc : (table.appended record).nextRowId = table.nextRowId.successor := rfl
    have hrows : (table.appended record).rows =
        table.rows ++ [(.ofNumber table.nextRowId, .record record)] := by
      rw [hlists.rows, h.rows, hnext, rowsOf, rowsOf, List.map_append]
      rfl
    rw [heq]
    refine ⟨⟨next, next + 1, hnext, ?_, by omega⟩, fun i row hrow => ?_, fun i hnone hsome => ?_,
      fun w other hw hok => ?_⟩
    · rw [hsucc, hnext]
      rfl
    · obtain ⟨old, hmem, rfl⟩ := h.row?_eq_some_iff.mp hrow
      have hstays : (table.appended record).row? (.int i) = some (.record old) :=
        hlists.row?_eq_some_iff.mpr ⟨old, List.mem_append_left _ hmem, rfl⟩
      rw [hstays]
      exact .kept _ _
    · have hnew := hlists.row?_ne_none_iff.mp hsome
      have hkeys : i ∈ Entries.keys records ∨ i = next := by
        simpa [Entries.keys] using hnew
      have hi : i = next := hkeys.resolve_left fun hold => h.row?_ne_none_iff.mpr hold hnone
      refine ⟨hi ▸ hnext, v, record, rfl, ?_⟩
      rw [heq]
    · cases hw
      rw [heq] at hok
      obtain rfl : record = other := Except.ok.inj hok
      exact ⟨hrows, hsucc⟩

/-- An update puts records in the places of rows that it matches, or does nothing to the rows. -/
lemma Lists.proceeds_update (conditions patch : Value) :
    Proceeds table (.request (.update conditions patch)) (table.update conditions patch).table := by
  have hevent : ∀ v record, Event.request (.update conditions patch) = .request (.insert v) →
      (table.insert v).result ≠ .ok record := fun v record heq => by cases heq
  rcases hsteady.update_cases conditions patch with ⟨fault, heq⟩ | heq | ⟨staged, effects, hstaged, heq⟩
  · rw [heq]
    exact proceeds_of_rows_eq h hevent rfl rfl
  · rw [heq]
    exact proceeds_of_rows_eq h hevent rfl rfl
  · rw [heq]
    have hholds := hsteady.holds_of_prepareUpdate hstaged
    obtain ⟨entries, rfl, hnodup, hids⟩ := h.prepareUpdate_eq_ok hsteady hstaged
    have hplaces : ∀ entry ∈ entries, entry.1 ∈ Entries.keys records :=
      fun entry hentry => hids _ (List.mem_map_of_mem hentry)
    have hlists := h.replacedAll hsteady
      (fun entry hentry => hholds (.int entry.1, entry.2) (List.mem_map_of_mem hentry)) hplaces
    refine proceeds_of_fate h hlists hevent (replacedAll_frame _ _).2.1 (fun i hi => ?_)
      fun i old hmem => ?_
    · obtain ⟨entry, hentry, rfl⟩ := List.mem_map.mp hi
      rcases (Entries.mem_foldl_put_iff h.nodup hnodup hplaces).mp hentry with hnew | ⟨hold, -⟩
      · exact hplaces entry hnew
      · exact List.mem_map_of_mem hold
    · by_cases hi : i ∈ Entries.keys entries
      · obtain ⟨⟨j, record⟩, hentry, rfl⟩ := List.mem_map.mp hi
        have hnew : (table.replacedAll (stagedOf entries)).row? (.int j) = some (.record record) :=
          hlists.row?_eq_some_iff.mpr ⟨record, (Entries.mem_foldl_put_iff h.nodup hnodup hplaces).mpr
            (Or.inl hentry), rfl⟩
        rw [hnew]
        exact h.fate_of_prepareUpdate hstaged hmem (List.mem_map_of_mem hentry)
      · have hstays : (table.replacedAll (stagedOf entries)).row? (.int i) = some (.record old) :=
          hlists.row?_eq_some_iff.mpr ⟨old, (Entries.mem_foldl_put_iff h.nodup hnodup hplaces).mpr
            (Or.inr ⟨hmem, hi⟩), rfl⟩
        rw [hstays]
        exact .kept _ _

/-- A deletion takes rows away that it matches, or does nothing to the rows. -/
lemma Lists.proceeds_delete (conditions : Value) :
    Proceeds table (.request (.delete conditions)) (table.delete conditions).table := by
  have hevent : ∀ v record, Event.request (.delete conditions) = .request (.insert v) →
      (table.insert v).result ≠ .ok record := fun v record heq => by cases heq
  rcases hsteady.delete_cases conditions with ⟨fault, heq⟩ | ⟨targets, hmatching, hdone | hstopped⟩
  · rw [heq]
    exact proceeds_of_rows_eq h hevent rfl rfl
  · obtain ⟨effects, heq⟩ := hdone
    rw [heq]
    obtain ⟨is, rfl, -, -⟩ := h.matching_eq_ok hsteady hmatching
    have hlists : (table.removedAll (is.map .int)).Lists _ := h.removedAll hsteady
    refine proceeds_of_fate h hlists hevent (removedAll_frame _ _).2.1 (fun i hi => ?_)
      fun i old hmem => ?_
    · obtain ⟨entry, hentry, rfl⟩ := List.mem_map.mp hi
      exact List.mem_map_of_mem (Entries.mem_foldl_drop_iff.mp hentry).1
    · by_cases hi : i ∈ is
      · have hgone : (table.removedAll (is.map .int)).row? (.int i) = none := by
          by_contra hsome
          obtain ⟨entry, hentry, rfl⟩ := List.mem_map.mp (hlists.row?_ne_none_iff.mp hsome)
          exact (Entries.mem_foldl_drop_iff.mp hentry).2 hi
        rw [hgone]
        exact .deleted hmatching (List.mem_map_of_mem hi)
      · have hstays : (table.removedAll (is.map .int)).row? (.int i) = some (.record old) :=
          hlists.row?_eq_some_iff.mpr ⟨old, Entries.mem_foldl_drop_iff.mpr ⟨hmem, hi⟩, rfl⟩
        rw [hstays]
        exact .kept _ _
  · obtain ⟨before, hstops, -⟩ := hstopped
    exact absurd hstops (h.not_stopsAfter hsteady hmatching before)

end

/-- Every request does to the rows and their ids what it may do. -/
theorem Lists.proceeds_reply (h : table.Lists records) (hsteady : table.Steady)
    (request : Request) : Proceeds table (.request request) (table.reply request).table := by
  cases request with
  | insert v => exact h.proceeds_insert hsteady v
  | update conditions patch => exact h.proceeds_update hsteady conditions patch
  | delete conditions => exact h.proceeds_delete hsteady conditions
  | createIndex column =>
    obtain ⟨hrows, hnext⟩ := rows_createIndex table column
    exact proceeds_of_rows_eq h (fun _ _ heq => by cases heq) hnext hrows
  | rebuildIndex column =>
    obtain ⟨hrows, hnext⟩ := rows_rebuildIndex table column
    exact proceeds_of_rows_eq h (fun _ _ heq => by cases heq) hnext hrows
  | dropIndex column =>
    obtain ⟨hrows, hnext⟩ := rows_dropIndex table column
    exact proceeds_of_rows_eq h (fun _ _ heq => by cases heq) hnext hrows

/-! ## Files and rows -/

/-- The files of a table hold the schema that it descends from, and rows that are its own or from which
its own have come back. -/
structure Backed (schema : Schema) (scene : Scene) (records : List (Int × Record)) : Prop where
  orderly : scene.table.Orderly schema records
  schemaFile : scene.world.disk.Stores (schemaPath scene.table.directory scene.table.name)
    schema.toValue
  rows : ∃ written old, Numbered schema written ∧ written.Numbers old ∧
    written.name = scene.table.name ∧
    written.directory = scene.table.directory ∧ written.nextRowId = scene.table.nextRowId ∧
      scene.world.disk.Stores (dataPath scene.table.directory scene.table.name) written.dataValue ∧
        (records = old ∨ RowsFound old (asValues records))

/-- Files that hold the rows of a table back it. -/
lemma Backed.of_stores {scene : Scene} (h : scene.table.Orderly schema records)
    (hschema : scene.world.disk.Stores (schemaPath scene.table.directory scene.table.name)
      schema.toValue)
    (hdata : scene.world.disk.Stores (dataPath scene.table.directory scene.table.name)
      scene.table.dataValue) : Backed schema scene records :=
  ⟨h, hschema, scene.table, records, h.numbered, h.lists.numbers, rfl, rfl, rfl, hdata, Or.inl rfl⟩

/-- Files that stay back a table with the same files and the same rows. -/
lemma Backed.of_rows_eq {scene scene' : Scene} (h : Backed schema scene records)
    (horderly : scene'.table.Orderly schema records')
    (hsame : scene.table.SameFiles scene'.table) (hrows : scene'.table.rows = scene.table.rows)
    (hnext : scene'.table.nextRowId = scene.table.nextRowId)
    (hschema : scene'.world.disk.find? (schemaPath scene.table.directory scene.table.name) =
      scene.world.disk.find? (schemaPath scene.table.directory scene.table.name))
    (hdata : scene'.world.disk.find? (dataPath scene.table.directory scene.table.name) =
      scene.world.disk.find? (dataPath scene.table.directory scene.table.name)) :
    Backed schema scene' records' := by
  obtain rfl := horderly.lists.records_eq h.orderly.lists hrows
  obtain ⟨written, old, hwritten, hold, hname, hdirectory, hwrittenNext, hfile, hback⟩ := h.rows
  refine ⟨horderly, ?_, written, old, hwritten, hold, ?_, ?_, ?_, ?_, hback⟩
  · rw [hsame.directory, hsame.name]
    exact h.schemaFile.congr hschema
  · rw [hsame.name, hname]
  · rw [hsame.directory, hdirectory]
  · rw [hnext, hwrittenNext]
  · rw [hsame.directory, hsame.name]
    exact hfile.congr hdata

/-- Saving rows and indexes lets the files of a table back it. -/
lemma Backed.of_saveAll {scene : Scene} (h : Backed schema scene records)
    (horderly : after.Orderly schema records') (hsame : scene.table.SameFiles after)
    (notices : List Notice)
    (hsaved : (scene.world.performAll (after.saveAll ++ notices.map .note)).AllSaved) :
    Backed schema ⟨after, scene.world.performAll (after.saveAll ++ notices.map .note)⟩ records' := by
  obtain ⟨hdata, -, hschema⟩ := stores_saveAll hsaved
  refine .of_stores horderly ?_ hdata
  rw [hsame.directory, hsame.name] at hschema ⊢
  exact h.schemaFile.congr hschema

/-- After a request the files back the table again, if everything has been saved. -/
lemma Backed.request {scene : Scene} (h : Backed schema scene records) (request : Request)
    (hsaved : (scene.happens (.request request)).world.AllSaved) :
    ∃ records', Backed schema (scene.happens (.request request)) records' := by
  obtain ⟨records', horderly⟩ := h.orderly.reply request
  have hfailed : ∀ fault after, scene.table.reply request = ⟨.error fault, after, []⟩ →
      after = scene.table := fun _ _ => h.orderly.lists.table_eq_of_error h.orderly.steady
  have hsaves := saves_reply scene.table request
  rw [Scene.happens] at hsaved ⊢
  generalize scene.table.reply request = reply at hsaves hfailed hsaved horderly ⊢
  cases hsaves with
  | refused fault => exact ⟨records, h⟩
  | unchanged a => exact ⟨records, h⟩
  | @broken fault after hsame =>
    rw [hfailed fault after rfl]
    exact ⟨records, h⟩
  | rows a notice hsame =>
    exact ⟨records', h.of_saveAll horderly hsame [notice] hsaved⟩
  | indexes a before later hsame hrows hnext =>
    obtain ⟨-, hschema, hdata⟩ := stores_saveIndexes hsaved
    rw [hsame.directory, hsame.name] at hschema hdata
    exact ⟨records', h.of_rows_eq horderly hsame hrows hnext hschema hdata⟩

/-- A table that is loaded again from the files that back it has its rows under their ids, as they were
or as they have come back. -/
lemma Backed.load {scene : Scene} (h : Backed schema scene records) :
    (∃ records', Backed schema (scene.happens .load) records') ∧
      Proceeds scene.table .load (scene.happens .load).table := by
  have hevent : ∀ v record, Event.load = .request (.insert v) →
      (scene.table.insert v).result ≠ .ok record := fun v record heq => by cases heq
  rw [Scene.happens]
  cases hload : Table.load scene.table.name scene.table.directory scene.world.disk with
  | mk notices loaded =>
    cases loaded with
    | error fault =>
      refine ⟨⟨records, h.of_rows_eq h.orderly (.refl _) rfl rfl rfl rfl⟩, ?_⟩
      exact proceeds_of_rows_eq h.orderly.lists hevent rfl rfl
    | ok table' =>
      obtain ⟨written, old, hwritten, hold, hname, hdirectory, hnext, hfile, hback⟩ := h.rows
      have hschema := h.schemaFile
      rw [← hname, ← hdirectory] at hload hfile hschema
      obtain ⟨records', horderly, hfound, hnext', hname', hdirectory'⟩ :=
        hwritten.load hold hschema hfile hload
      have hsameNext : table'.nextRowId = scene.table.nextRowId := hnext'.trans hnext
      refine ⟨⟨records', ⟨horderly, ?_, written, old, hwritten, hold, hname'.symm,
        hdirectory'.symm, hnext'.symm, ?_, Or.inr hfound⟩⟩, ?_⟩
      · dsimp only [Except.toOption, Option.getD]
        rw [hname', hdirectory']
        exact hschema
      · dsimp only [Except.toOption, Option.getD]
        rw [hname', hdirectory']
        exact hfile
      -- the rows are as they were if they had come back from the file before
      · rcases hback with rfl | hback
        · exact proceeds_of_rowsFound h.orderly.lists horderly.lists hsameNext hfound
        · obtain rfl := asValues_injective (eq_of_rowsFound hback hfound)
          refine proceeds_of_rows_eq h.orderly.lists hevent hsameNext ?_
          exact horderly.lists.rows.trans h.orderly.lists.rows.symm

/-- Whatever happens to a table whose files back it, they do so afterwards, and the rows keep their ids,
if everything has been saved. -/
theorem Backed.happens {scene : Scene} (h : Backed schema scene records) (event : Event)
    (hsaved : (scene.happens event).world.AllSaved) :
    (∃ records', Backed schema (scene.happens event) records') ∧
      Proceeds scene.table event (scene.happens event).table := by
  cases event with
  | request request =>
    exact ⟨h.request request hsaved, h.orderly.lists.proceeds_reply h.orderly.steady request⟩
  | save =>
    have heffects : scene.table.saveAll = scene.table.saveAll ++ ([] : List Notice).map .note :=
      (List.append_nil _).symm
    rw [Scene.happens] at hsaved ⊢
    rw [heffects] at hsaved ⊢
    refine ⟨⟨records, h.of_saveAll h.orderly (.refl _) [] hsaved⟩, ?_⟩
    exact proceeds_of_rows_eq h.orderly.lists (fun _ _ heq => by cases heq) rfl rfl
  | load => exact h.load

/-- The files back a table after whatever has happened, if everything has been saved. -/
lemma Backed.run {scene : Scene} (h : Backed schema scene records) {events : List Event}
    (hsaved : (scene.run events).world.AllSaved) :
    ∃ records', Backed schema (scene.run events) records' := by
  induction events generalizing scene records with
  | nil => exact ⟨records, h⟩
  | cons event rest ih =>
    obtain ⟨records', h'⟩ := (h.happens event (Scene.allSaved_of_run hsaved)).1
    exact ih h' hsaved

/-- The files of a table that has been made back it, if everything has been saved. -/
lemma backed_of_create {name directory : String} {source : SchemaSource} {effects : List Effect}
    {world : World} (hsource : source.HasKeyDefaults)
    (hcreate : Table.create name source directory = .ok (table, effects))
    (hsaved : (world.performAll effects).AllSaved) :
    Backed table.schema ⟨table, world.performAll effects⟩ [] := by
  obtain ⟨-, -, -, -, hschema, -⟩ := effects_of_create hcreate
  have hstored := storedIn_of_create hcreate hsaved
  exact .of_stores (.of_create (hsource.sound hschema) hcreate) hstored.schema hstored.data

/-! ## Ids that are never given again -/

/-- Through everything that happens to a table the rows are known by their ids. -/
structure KeepsIds (scene : Scene) (events : List Event) : Prop where
  /-- In every state the ids are ascending, below the next one. -/
  ascending : ∀ done, done <+: events → (scene.run done).table.HasAscendingIds
  /-- Whatever happens does to the rows and their ids what it may do. -/
  proceeds : ∀ done event, done ++ [event] <+: events →
    Proceeds (scene.run done).table event (scene.run (done ++ [event])).table
  /-- An id below the next one under which there is no row never gets one. -/
  gone : ∀ done more i n, done ++ more <+: events → (scene.run done).table.nextRowId = .whole n →
    i < n → (scene.run done).table.row? (.int i) = none →
      (scene.run (done ++ more)).table.row? (.int i) = none

/-- An id that has been passed and has no row has none after anything that may happen. -/
lemma Proceeds.gone {event : Event} (h : Proceeds table event after) {i n : Int}
    (hn : table.nextRowId = .whole n) (hi : i < n) (hnone : table.row? (.int i) = none) :
    after.row? (.int i) = none ∧ ∃ n', after.nextRowId = .whole n' ∧ i < n' := by
  constructor
  · by_contra hsome
    obtain ⟨hnext, -⟩ := h.new i hnone hsome
    have hsame : n = i := Number.whole.inj (hn.symm.trans hnext)
    omega
  · obtain ⟨m, n', hm, hn', hle⟩ := h.next
    have hsame : n = m := Number.whole.inj (hn.symm.trans hm)
    exact ⟨n', hn', by omega⟩

/-- Ids that have been passed and have no row have none ever after, if everything that happens does what
it may do. -/
lemma gone_of_proceeds {scene : Scene} {more : List Event}
    (h : ∀ done event, done ++ [event] <+: more →
      Proceeds (scene.run done).table event (scene.run (done ++ [event])).table) {i n : Int}
    (hn : scene.table.nextRowId = .whole n) (hi : i < n)
    (hnone : scene.table.row? (.int i) = none) : (scene.run more).table.row? (.int i) = none := by
  induction more generalizing scene n with
  | nil => exact hnone
  | cons event rest ih =>
    have hfirst : Proceeds scene.table event (scene.happens event).table :=
      h [] event (List.prefix_append [event] rest)
    obtain ⟨hnone', n', hn', hi'⟩ := hfirst.gone hn hi hnone
    have hmore : ∀ done later, done ++ [later] <+: rest →
        Proceeds ((scene.happens event).run done).table later
          ((scene.happens event).run (done ++ [later])).table :=
      fun done later hlater => h (event :: done) later ((List.prefix_cons_inj event).mpr hlater)
    exact ih hmore hn' hi' hnone'

/-- From a table that has been made out of columns whose defaults can be keys where they have to be, in
any world, through any requests, succeeding or failing, with its rows and indexes being saved and the
table being loaded from its files at any time: as long as everything is saved, every id is that of one
row, and no id is given twice. -/
theorem keepsIds_of_create {name directory : String} {source : SchemaSource}
    (hsource : source.HasKeyDefaults) {created : Table} {effects : List Effect}
    (hcreate : Table.create name source directory = .ok (created, effects)) (world : World)
    (events : List Event)
    (hsaved : (Scene.run ⟨created, world.performAll effects⟩ events).world.AllSaved) :
    KeepsIds ⟨created, world.performAll effects⟩ events := by
  have hstart := backed_of_create hsource hcreate (Scene.allSaved_of_run hsaved)
  generalize Scene.mk created (world.performAll effects) = scene at hsaved hstart ⊢
  have hbacked : ∀ done, done <+: events →
      ∃ records, Backed created.schema (scene.run done) records := by
    rintro done ⟨rest, rfl⟩
    rw [Scene.run_append] at hsaved
    exact hstart.run (Scene.allSaved_of_run hsaved)
  have hproceeds : ∀ done event, done ++ [event] <+: events →
      Proceeds (scene.run done).table event (scene.run (done ++ [event])).table := by
    rintro done event ⟨rest, rfl⟩
    obtain ⟨records, h⟩ := hbacked done ((List.prefix_append done [event]).trans
      (List.prefix_append (done ++ [event]) rest))
    rw [Scene.run_append] at hsaved ⊢
    rw [Scene.run_append] at hsaved
    exact (h.happens event (Scene.allSaved_of_run hsaved)).2
  refine ⟨fun done hdone => ?_, hproceeds, fun done more i n hmore hn hi hnone => ?_⟩
  · obtain ⟨records, h⟩ := hbacked done hdone
    exact h.orderly.lists.numbers.hasAscendingIds
  · rw [Scene.run_append]
    refine gone_of_proceeds (fun steps event hsteps => ?_) hn hi hnone
    have hlonger : (done ++ steps) ++ [event] <+: events := by
      rw [List.append_assoc]
      exact ((List.prefix_append_right_inj done).mpr hsteps).trans hmore
    have hlast := hproceeds (done ++ steps) event hlonger
    rwa [Scene.run_append, List.append_assoc, Scene.run_append] at hlast

/-- A column of texts. -/
def oneColumn : SchemaSource :=
  .columns [(.text "a", .described (.map []))]

/-- The column is described. -/
lemma isDescribed_oneColumn : oneColumn.IsDescribed := by
  simp [oneColumn, SchemaSource.IsDescribed]

/-- Two records are inserted, the second one is deleted, the table is loaded again, and another record
is inserted. -/
def eventsOnOne : List Event :=
  [.request (.insert (.map [(.text "a", .text "x")])),
    .request (.insert (.map [(.text "a", .text "y")])),
    .request (.delete (.map [(.text "a", .text "y")])), .load,
    .request (.insert (.map [(.text "a", .text "z")]))]

/-- Through these events the rows are known by their ids, and the last record is under the id after
that of the record that has been deleted. -/
theorem keepsIds_of_create_oneColumn : ∃ created effects,
    Table.create "t" oneColumn "" = .ok (created, effects) ∧
      KeepsIds ⟨created, World.performAll ⟨.empty, []⟩ effects⟩ eventsOnOne ∧
      ((Scene.run ⟨created, World.performAll ⟨.empty, []⟩ effects⟩ eventsOnOne).table.rows.map
        (·.1.number?)) = [some (.whole 1), some (.whole 3)] := by
  obtain ⟨created, effects, hcreate⟩ : ∃ created effects,
      Table.create "t" oneColumn "" = .ok (created, effects) := ⟨_, _, rfl⟩
  have hrun : (Scene.run ⟨created, World.performAll ⟨.empty, []⟩ effects⟩
        eventsOnOne).world.AllSaved ∧
      ((Scene.run ⟨created, World.performAll ⟨.empty, []⟩ effects⟩ eventsOnOne).table.rows.map
        (·.1.number?)) = [some (.whole 1), some (.whole 3)] := by
    cases hcreate
    decide +kernel
  exact ⟨created, effects, hcreate,
    keepsIds_of_create isDescribed_oneColumn.hasKeyDefaults hcreate _ _ hrun.1, hrun.2⟩

/-- A unique column of dates that is declared with a default that stands for a date in a snapshot, but is
none. -/
def markedDefault : SchemaSource :=
  .columns
    [(.text "a", .declared (.make (.text "a") .date (.bool false) (.bool false) (.bool true)
        (.bool false) (some (.map [(.text Snapshot.dateMark, .text "2020-01-01")])) .null .null))]

/-- An id can be given twice: with such a default an insertion fails after it has stored its row and has
moved the next id, and nothing of it is saved; after the table has been loaded, the next id is the one
that the row has had. -/
theorem not_keepsIds_markedDefault : ∃ created effects,
    Table.create "t" markedDefault "" = .ok (created, effects) ∧
      (Scene.run ⟨created, World.performAll ⟨.empty, []⟩ effects⟩
        [.request (.insert (.map [])), .load]).world.AllSaved ∧
      ¬KeepsIds ⟨created, World.performAll ⟨.empty, []⟩ effects⟩
        [.request (.insert (.map [])), .load] := by
  obtain ⟨created, effects, hcreate⟩ : ∃ created effects,
      Table.create "t" markedDefault "" = .ok (created, effects) := ⟨_, _, rfl⟩
  have hbefore : (Scene.run ⟨created, World.performAll ⟨.empty, []⟩ effects⟩
      [.request (.insert (.map []))]).table.nextRowId = .whole 2 := by
    cases hcreate
    decide +kernel
  have hafter : (Scene.run ⟨created, World.performAll ⟨.empty, []⟩ effects⟩
        [.request (.insert (.map [])), .load]).world.AllSaved ∧
      (Scene.run ⟨created, World.performAll ⟨.empty, []⟩ effects⟩
        [.request (.insert (.map [])), .load]).table.nextRowId = .whole 1 := by
    cases hcreate
    decide +kernel
  refine ⟨created, effects, hcreate, hafter.1, fun hkeeps => ?_⟩
  have hproceeds := hkeeps.proceeds [.request (.insert (.map []))] .load (List.prefix_refl _)
  obtain ⟨n, n', hn, hn', hle⟩ := hproceeds.next
  obtain rfl := Number.whole.inj (hn.symm.trans hbefore)
  obtain rfl := Number.whole.inj (hn'.symm.trans hafter.2)
  omega

end Table

end RecordStore
