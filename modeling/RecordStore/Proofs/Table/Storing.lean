import RecordStore.Proofs.Table.Saving
import RecordStore.Proofs.Table.Tidy

/-!
# The disk follows the table

Three files stand for a table: they hold its schema, its rows and its indexes.  They do so after the
table has been made, and after every request to it, whether it has gone through or not, as long as
everything that was to be saved has been saved.
-/

namespace RecordStore.Table

variable {table table' : Table} {world : World} {disk disk' : Disk}

/-- The three files of a table hold its schema, its rows and its indexes. -/
structure StoredIn (table : Table) (disk : Disk) : Prop where
  schema : disk.Stores (schemaPath table.directory table.name) table.schema.toValue
  data : disk.Stores (dataPath table.directory table.name) table.dataValue
  indexes : disk.Stores (indexPath table.directory table.name) table.indexesValue

/-- A table stays stored if its files stay. -/
lemma StoredIn.congr (h : table.StoredIn disk)
    (hfiles : ∀ path ∈ filePaths table.directory table.name, disk'.find? path = disk.find? path) :
    table.StoredIn disk' :=
  ⟨h.schema.congr (hfiles _ (schemaPath_mem _ _)), h.data.congr (hfiles _ (dataPath_mem _ _)),
    h.indexes.congr (hfiles _ (indexPath_mem _ _))⟩

/-- The files of a stored table are there. -/
lemma StoredIn.exists_file (h : table.StoredIn disk) {path : String}
    (hpath : path ∈ filePaths table.directory table.name) :
    ∃ content, disk.find? path = some (.file content) := by
  simp only [filePaths, fileNames, fileEndings, List.map_cons, List.map_nil, List.mem_cons,
    List.not_mem_nil, or_false] at hpath
  rcases hpath with rfl | rfl | rfl
  · exact ⟨_, h.schema.file⟩
  · exact ⟨_, h.data.file⟩
  · exact ⟨_, h.indexes.file⟩

/-- A table that has been made is stored, if everything has been saved. -/
theorem storedIn_of_create {name directory : String} {source : SchemaSource} {effects : List Effect}
    (h : Table.create name source directory = .ok (table, effects))
    (hsaved : (world.performAll effects).AllSaved) :
    table.StoredIn (world.performAll effects).disk := by
  obtain ⟨rfl, rfl, -, -, -, notices, rfl⟩ := effects_of_create h
  have hpaths : World.savedPaths (notices.map .note ++ table.saveSchema :: table.saveAll) =
      filePaths table.directory table.name := by
    simp [World.savedPaths, saveSchema, saveAll, saveIndexes, List.filterMap_map, filePaths,
      fileNames, fileEndings, schemaPath, dataPath, indexPath]
  have hapart : ((World.savedPaths (notices.map .note ++ table.saveSchema :: table.saveAll)).map
      Path.ofText).Nodup := by
    rw [hpaths]
    exact nodup_filePlaces _ _
  refine ⟨?_, ?_, ?_⟩
  · exact World.stores_performAll hsaved hapart (by simp [saveSchema])
  · exact World.stores_performAll hsaved hapart (by simp [saveAll])
  · exact World.stores_performAll hsaved hapart (by simp [saveAll, saveIndexes])

/-- The schema, the rows and the indexes of a table have places of their own. -/
lemma ofText_filePaths_ne (directory name : String) :
    Path.ofText (schemaPath directory name) ≠ Path.ofText (dataPath directory name) ∧
      Path.ofText (schemaPath directory name) ≠ Path.ofText (indexPath directory name) ∧
      Path.ofText (dataPath directory name) ≠ Path.ofText (indexPath directory name) := by
  have hplaces : [Path.ofText (schemaPath directory name), Path.ofText (dataPath directory name),
      Path.ofText (indexPath directory name)].Nodup := nodup_filePlaces _ _
  obtain ⟨hschema, hrest⟩ := List.nodup_cons.mp hplaces
  obtain ⟨hdata, -⟩ := List.nodup_cons.mp hrest
  exact ⟨List.ne_of_not_mem_cons hschema,
    List.ne_of_not_mem_cons (List.not_mem_of_not_mem_cons hschema), List.ne_of_not_mem_cons hdata⟩

/-- After the rows and the indexes of a table have been saved its files hold them, and the schema file is
as before. -/
lemma stores_saveAll {notices : List Notice}
    (hsaved : (world.performAll (table.saveAll ++ notices.map .note)).AllSaved) :
    let after := (world.performAll (table.saveAll ++ notices.map .note)).disk
    after.Stores (dataPath table.directory table.name) table.dataValue ∧
      after.Stores (indexPath table.directory table.name) table.indexesValue ∧
        after.find? (schemaPath table.directory table.name) =
          world.disk.find? (schemaPath table.directory table.name) := by
  obtain ⟨hschemaData, hschemaIndex, hdataIndex⟩ := ofText_filePaths_ne table.directory table.name
  have hpaths : World.savedPaths (table.saveAll ++ notices.map .note) =
      [dataPath table.directory table.name, indexPath table.directory table.name] := by
    simp [World.savedPaths, saveAll, saveIndexes, List.filterMap_map]
  have hapart : ((World.savedPaths (table.saveAll ++ notices.map .note)).map Path.ofText).Nodup := by
    rw [hpaths]
    exact List.nodup_cons.mpr ⟨mt List.mem_singleton.mp hdataIndex, List.nodup_singleton _⟩
  have hdiffers := World.differsWithin_savedPaths world (table.saveAll ++ notices.map .note)
  rw [hpaths] at hdiffers
  refine ⟨?_, ?_, ?_⟩
  · exact World.stores_performAll hsaved hapart (by simp [saveAll])
  · exact World.stores_performAll hsaved hapart (by simp [saveAll, saveIndexes])
  · refine hdiffers.find? ?_
    simp [hschemaData, hschemaIndex]

/-- After the indexes of a table have been saved the index file holds them, and the other files are as
before. -/
lemma stores_saveIndexes {before after : List Notice}
    (hsaved : (world.performAll
      (before.map .note ++ (table.saveIndexes :: after.map .note))).AllSaved) :
    let disk := (world.performAll (before.map .note ++ (table.saveIndexes :: after.map .note))).disk
    disk.Stores (indexPath table.directory table.name) table.indexesValue ∧
      disk.find? (schemaPath table.directory table.name) =
        world.disk.find? (schemaPath table.directory table.name) ∧
      disk.find? (dataPath table.directory table.name) =
        world.disk.find? (dataPath table.directory table.name) := by
  obtain ⟨-, hschemaIndex, hdataIndex⟩ := ofText_filePaths_ne table.directory table.name
  have hpaths : World.savedPaths (before.map .note ++ (table.saveIndexes :: after.map .note)) =
      [indexPath table.directory table.name] := by
    simp [World.savedPaths, saveIndexes, List.filterMap_map]
  have hapart : ((World.savedPaths (before.map .note ++
      (table.saveIndexes :: after.map .note))).map Path.ofText).Nodup := by
    rw [hpaths]
    exact List.nodup_singleton _
  have hdiffers := World.differsWithin_savedPaths world
    (before.map .note ++ (table.saveIndexes :: after.map .note))
  rw [hpaths] at hdiffers
  refine ⟨?_, ?_, ?_⟩
  · exact World.stores_performAll hsaved hapart (by simp [saveIndexes])
  · exact hdiffers.find? (mt List.mem_singleton.mp hschemaIndex)
  · exact hdiffers.find? (mt List.mem_singleton.mp hdataIndex)

/-- A stored table is stored after other rows and their indexes have been saved. -/
lemma StoredIn.savedAll (h : table.StoredIn world.disk) (hsame : table.SameFiles table')
    (notices : List Notice)
    (hsaved : (world.performAll (table'.saveAll ++ notices.map .note)).AllSaved) :
    table'.StoredIn (world.performAll (table'.saveAll ++ notices.map .note)).disk := by
  obtain ⟨hdata, hindexes, hschema⟩ := stores_saveAll hsaved
  refine ⟨?_, hdata, hindexes⟩
  rw [hsame.directory, hsame.name] at hschema ⊢
  rw [hsame.schema]
  exact h.schema.congr hschema

/-- A stored table is stored after other indexes of the same rows have been saved. -/
lemma StoredIn.savedIndexes (h : table.StoredIn world.disk) (hsame : table.SameFiles table')
    (hrows : table'.rows = table.rows) (hnext : table'.nextRowId = table.nextRowId)
    {before after : List Notice}
    (hsaved : (world.performAll
      (before.map .note ++ (table'.saveIndexes :: after.map .note))).AllSaved) :
    table'.StoredIn
      (world.performAll (before.map .note ++ (table'.saveIndexes :: after.map .note))).disk := by
  obtain ⟨hindexes, hschema, hdata⟩ := stores_saveIndexes hsaved
  have hvalue : table'.dataValue = table.dataValue := by
    rw [dataValue, dataValue, hrows, hnext]
  refine ⟨?_, ?_, hindexes⟩
  · rw [hsame.directory, hsame.name] at hschema ⊢
    rw [hsame.schema]
    exact h.schema.congr hschema
  · rw [hsame.directory, hsame.name] at hdata ⊢
    rw [hvalue]
    exact h.data.congr hdata

/-- A request that fails leaves a table whose indexes agree with its rows as it is. -/
lemma Lists.table_eq_of_error {records : List (Int × Record)} (h : table.Lists records)
    (hsteady : table.Steady) {request : Request} {fault : Fault}
    (hreply : table.reply request = ⟨.error fault, table', []⟩) : table' = table := by
  rcases hsteady.reply_cases request with ⟨other, heq⟩ | ⟨after, effects, -, heq⟩ |
    ⟨conditions, targets, before, -, hmatching, hstops, -⟩
  · rw [hreply] at heq
    exact congrArg Reply.table heq
  · rw [hreply] at heq
    cases congrArg Reply.result heq
  · exact absurd hstops (h.not_stopsAfter hsteady hmatching before)

/-- After a request to a stored table the table is stored, if everything has been saved. -/
theorem StoredIn.reply {records : List (Int × Record)} (h : table.StoredIn world.disk)
    (hsteady : table.Steady) (hlists : table.Lists records) (request : Request)
    (hsaved : (world.performAll (table.reply request).effects).AllSaved) :
    (table.reply request).table.StoredIn
      (world.performAll (table.reply request).effects).disk := by
  have hfailed : ∀ fault table', table.reply request = ⟨.error fault, table', []⟩ →
      table' = table := fun _ _ => hlists.table_eq_of_error hsteady
  have hsaves := saves_reply table request
  generalize table.reply request = reply at hsaves hfailed hsaved ⊢
  cases hsaves with
  | refused fault => exact h
  | unchanged a => exact h
  | @broken fault after hsame =>
    rw [hfailed fault after rfl]
    exact h
  | rows a notice hsame => exact h.savedAll hsame [notice] hsaved
  | indexes a before later hsame hrows hnext =>
    exact h.savedIndexes hsame hrows hnext hsaved

end RecordStore.Table
