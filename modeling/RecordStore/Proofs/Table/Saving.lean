import RecordStore.Proofs.Table.Files
import RecordStore.Proofs.World

/-!
# What operations write

An operation on a table that has changed rows and gone through ends with the rows and the indexes being
saved, and one that has changed indexes with the indexes.  Nothing else is saved, and a new table also
saves its schema; so the files of other tables stay.
-/

namespace RecordStore

/-- Two tables have the same files and the same schema. -/
structure Table.SameFiles (table table' : Table) : Prop where
  name : table'.name = table.name
  directory : table'.directory = table.directory
  schema : table'.schema = table.schema

/-- What an operation on a table saves: nothing, since nothing was changed or the change broke off, or
the rows and the indexes, or the indexes if the rows are as before. -/
inductive Reply.Saves {α : Type} (table : Table) : Reply α → Prop where
  | refused (fault : Fault) : Saves table (.refused table fault)
  | unchanged (a : α) : Saves table (.unchanged table a)
  | broken (fault : Fault) {table' : Table} (hsame : table.SameFiles table') :
      Saves table ⟨.error fault, table', []⟩
  | rows (a : α) {table' : Table} (notice : Notice) (hsame : table.SameFiles table') :
      Saves table ⟨.ok a, table', table'.saveAll ++ [.note notice]⟩
  | indexes (a : α) {table' : Table} (before after : List Notice) (hsame : table.SameFiles table')
      (hrows : table'.rows = table.rows) (hnext : table'.nextRowId = table.nextRowId) :
      Saves table ⟨.ok a, table', before.map .note ++ (table'.saveIndexes :: after.map .note)⟩

namespace Table

variable {table table' : Table}

/-- A table has the same files as itself. -/
lemma SameFiles.refl (table : Table) : table.SameFiles table :=
  ⟨rfl, rfl, rfl⟩

/-- Tables with the same files as a third one have the same files. -/
lemma SameFiles.trans {table'' : Table} (h : table.SameFiles table') (h' : table'.SameFiles table'') :
    table.SameFiles table'' :=
  ⟨h'.name.trans h.name, h'.directory.trans h.directory, h'.schema.trans h.schema⟩

/-! ## Changes of rows and indexes -/

/-- Replacing rows keeps the files of a table. -/
lemma sameFiles_replaceRows (table : Table) (staged : List (RowId × Record)) :
    table.SameFiles (table.replaceRows staged).1 := by
  induction staged generalizing table with
  | nil => exact .refl table
  | cons entry rest ih =>
    obtain ⟨id, record⟩ := entry
    have hleft : table.SameFiles (table.unindexRow id ((table.row? id).getD (.record []))).1 :=
      ⟨rfl, rfl, rfl⟩
    rw [replaceRows]
    generalize table.unindexRow id ((table.row? id).getD (.record [])) = left at hleft ⊢
    obtain ⟨between, _ | fault⟩ := left
    · have hentered : between.SameFiles
          ((between.withRow id (.record record)).indexRow id (.record record)).1 := ⟨rfl, rfl, rfl⟩
      dsimp only at hleft ⊢
      generalize (between.withRow id (.record record)).indexRow id (.record record) = entered
        at hentered ⊢
      obtain ⟨after, _ | fault⟩ := entered
      · exact (hleft.trans hentered).trans (ih after)
      · exact hleft.trans hentered
    · exact hleft

/-- Removing rows keeps the files of a table. -/
lemma sameFiles_removeRows (table : Table) (ids : List RowId) :
    table.SameFiles (table.removeRows ids).1 := by
  induction ids generalizing table with
  | nil => exact .refl table
  | cons id rest ih =>
    rw [removeRows]
    cases table.rowAt id with
    | error fault => exact .refl table
    | ok row =>
      have hleft : table.SameFiles ((table.withoutRow id).unindexRow id row).1 := ⟨rfl, rfl, rfl⟩
      dsimp only
      generalize (table.withoutRow id).unindexRow id row = left at hleft ⊢
      obtain ⟨between, _ | fault⟩ := left
      · exact hleft.trans (ih between)
      · exact hleft

/-- Building an index keeps the files and the rows of a table. -/
lemma sameFiles_buildIndex {column : Value} {notice : Notice}
    (h : table.buildIndex column = .ok (table', notice)) :
    table.SameFiles table' ∧ table'.rows = table.rows ∧ table'.nextRowId = table.nextRowId := by
  obtain ⟨⟨⟩, -, h⟩ := Outcome.seq_eq_ok.mp h
  obtain ⟨index, -, h⟩ := Outcome.seq_eq_ok.mp h
  obtain ⟨rfl, -⟩ := Prod.mk.injEq .. ▸ Outcome.pure_eq_ok.mp h
  exact ⟨⟨rfl, rfl, rfl⟩, rfl, rfl⟩

/-- Building indexes keeps the files and the rows of a table. -/
lemma sameFiles_buildIndexes {columns : List Value} {notices : List Notice}
    (h : table.buildIndexes columns = .ok (table', notices)) :
    table.SameFiles table' ∧ table'.rows = table.rows ∧ table'.nextRowId = table.nextRowId := by
  induction columns generalizing table notices with
  | nil =>
    cases h
    exact ⟨.refl _, rfl, rfl⟩
  | cons column rest ih =>
    obtain ⟨⟨built, notice⟩, hbuilt, h⟩ := Outcome.seq_eq_ok.mp h
    obtain ⟨⟨done, more⟩, hdone, h⟩ := Outcome.seq_eq_ok.mp h
    obtain ⟨rfl, -⟩ := Prod.mk.injEq .. ▸ Outcome.pure_eq_ok.mp h
    obtain ⟨hsame, hrows, hnext⟩ := sameFiles_buildIndex hbuilt
    obtain ⟨hsame', hrows', hnext'⟩ := ih hdone
    exact ⟨hsame.trans hsame', hrows'.trans hrows, hnext'.trans hnext⟩

/-! ## Requests -/

/-- An insertion saves rows and indexes if it goes through. -/
lemma saves_insert (table : Table) (v : Value) : (table.insert v).Saves table := by
  rw [insert]
  cases (table.schema.validateValue (table.isTaken []) v).bind table.complete with
  | error fault => exact .refused fault
  | ok record =>
    dsimp only
    rw [append]
    have hsame : table.SameFiles (({ table with nextRowId := table.nextRowId.successor }.withRow
        (.ofNumber table.nextRowId) (.record record)).indexRow (.ofNumber table.nextRowId)
          (.record record)).1 := ⟨rfl, rfl, rfl⟩
    generalize ({ table with nextRowId := table.nextRowId.successor }.withRow
      (.ofNumber table.nextRowId) (.record record)).indexRow (.ofNumber table.nextRowId)
        (.record record) = entered at hsame ⊢
    obtain ⟨after, _ | fault⟩ := entered
    · exact .rows record _ hsame
    · exact .broken fault hsame

/-- An update saves rows and indexes if it goes through and any row matches. -/
lemma saves_update (table : Table) (conditions patch : Value) :
    (table.update conditions patch).Saves table := by
  rw [update]
  cases table.prepareUpdate conditions patch with
  | error fault => exact .refused fault
  | ok staged =>
    cases staged with
    | nil => exact .unchanged 0
    | cons entry rest =>
      have hsame := sameFiles_replaceRows table (entry :: rest)
      dsimp only
      generalize table.replaceRows (entry :: rest) = replaced at hsame ⊢
      obtain ⟨after, _ | fault⟩ := replaced
      · exact .rows _ _ hsame
      · exact .broken fault hsame

/-- A deletion saves rows and indexes if it goes through and any row matches. -/
lemma saves_delete (table : Table) (conditions : Value) :
    (table.delete conditions).Saves table := by
  rw [delete]
  cases table.matching conditions with
  | error fault => exact .refused fault
  | ok targets =>
    cases targets with
    | nil => exact .unchanged 0
    | cons id rest =>
      have hsame := sameFiles_removeRows table (id :: rest)
      dsimp only
      generalize table.removeRows (id :: rest) = removed at hsame ⊢
      obtain ⟨after, _ | fault⟩ := removed
      · exact .rows _ _ hsame
      · exact .broken fault hsame

/-- Building an index on request saves the indexes. -/
lemma saves_createIndex (table : Table) (column : Value) :
    (table.createIndex column).Saves table := by
  rw [createIndex]
  split
  · exact .refused _
  · cases hbuild : table.buildIndex column with
    | error fault => exact .refused fault
    | ok built =>
      obtain ⟨hsame, hrows, hnext⟩ := sameFiles_buildIndex hbuild
      exact .indexes () [built.2] [.indexCreated built.1.name column.label] hsame hrows hnext

/-- Rebuilding an index saves the indexes. -/
lemma saves_rebuildIndex (table : Table) (column : Value) :
    (table.rebuildIndex column).Saves table := by
  rw [rebuildIndex]
  split
  · exact .refused _
  · split
    · cases Index.ofRows column table.rows with
      | error fault => exact .refused fault
      | ok index => exact .indexes () [] [] ⟨rfl, rfl, rfl⟩ rfl rfl
    · exact .refused _

/-- Dropping an index saves the indexes. -/
lemma saves_dropIndex (table : Table) (column : Value) :
    (table.dropIndex column).Saves table := by
  rw [dropIndex]
  split
  · exact .refused _
  · split
    · exact .refused _
    · split
      · exact .indexes () [] [] ⟨rfl, rfl, rfl⟩ rfl rfl
      · exact .refused _

/-- A reply whose result is forgotten has saved the same. -/
lemma saves_forget {α : Type} {reply : Reply α} (h : reply.Saves table) :
    reply.forget.Saves table := by
  cases h with
  | refused fault => exact .refused fault
  | unchanged a => exact .unchanged ()
  | broken fault hsame => exact .broken fault hsame
  | rows a notice hsame => exact .rows () notice hsame
  | indexes a before after hsame hrows hnext => exact .indexes () before after hsame hrows hnext

/-- What a request to a table saves. -/
theorem saves_reply (table : Table) (request : Request) : (table.reply request).Saves table := by
  cases request with
  | insert v => exact saves_forget (saves_insert table v)
  | update conditions patch => exact saves_forget (saves_update table conditions patch)
  | delete conditions => exact saves_forget (saves_delete table conditions)
  | createIndex column => exact saves_createIndex table column
  | rebuildIndex column => exact saves_rebuildIndex table column
  | dropIndex column => exact saves_dropIndex table column

/-- A request saves files of its table alone. -/
lemma mem_filePaths_of_saves {α : Type} {reply : Reply α} (h : reply.Saves table) :
    table.SameFiles reply.table ∧
      ∀ path ∈ World.savedPaths reply.effects, path ∈ filePaths table.directory table.name := by
  cases h with
  | refused fault => exact ⟨.refl table, by simp [Reply.refused, World.savedPaths]⟩
  | unchanged a => exact ⟨.refl table, by simp [Reply.unchanged, World.savedPaths]⟩
  | broken fault hsame => exact ⟨hsame, by simp [World.savedPaths]⟩
  | rows a notice hsame =>
    refine ⟨hsame, ?_⟩
    simp only [saveAll, saveIndexes, hsame.name, hsame.directory, World.savedPaths]
    simp [dataPath_mem, indexPath_mem]
  | indexes a before after hsame hrows hnext =>
    refine ⟨hsame, ?_⟩
    simp only [saveIndexes, hsame.name, hsame.directory, World.savedPaths]
    simp [indexPath_mem, List.filterMap_map]

/-- Requests keep the files and the schema of a table, whatever their outcome. -/
lemma sameFiles_run (table : Table) (requests : List Request) :
    table.SameFiles (table.run requests) := by
  induction requests generalizing table with
  | nil => exact .refl table
  | cons request rest ih => exact (mem_filePaths_of_saves (saves_reply table request)).1.trans (ih _)

/-- What a request saves are the rows and the indexes that the table has afterwards. -/
lemma eq_of_save_mem_reply {request : Request} {path : String} {v : Value}
    (h : .save path v ∈ (table.reply request).effects) :
    path = dataPath table.directory table.name ∧ v = (table.reply request).table.dataValue ∨
      path = indexPath table.directory table.name ∧
        v = (table.reply request).table.indexesValue := by
  have hsaves := saves_reply table request
  generalize table.reply request = reply at hsaves h ⊢
  cases hsaves with
  | refused fault => cases h
  | unchanged a => cases h
  | broken fault hsame => cases h
  | rows a notice hsame =>
    rw [← hsame.directory, ← hsame.name]
    simpa [saveAll, saveIndexes] using h
  | indexes a before later hsame hrows hnext =>
    rw [← hsame.directory, ← hsame.name]
    exact Or.inr (by simpa [saveIndexes] using h)

/-- A request for an index leaves the rows as they are. -/
lemma rows_createIndex (table : Table) (column : Value) :
    (table.createIndex column).table.rows = table.rows ∧
      (table.createIndex column).table.nextRowId = table.nextRowId := by
  rw [createIndex]
  split
  · exact ⟨rfl, rfl⟩
  · split
    · exact ⟨rfl, rfl⟩
    · rename_i hbuilt
      exact (sameFiles_buildIndex hbuilt).2

/-- A request to build an index again leaves the rows as they are. -/
lemma rows_rebuildIndex (table : Table) (column : Value) :
    (table.rebuildIndex column).table.rows = table.rows ∧
      (table.rebuildIndex column).table.nextRowId = table.nextRowId := by
  rw [rebuildIndex]
  split
  · exact ⟨rfl, rfl⟩
  · split
    · split <;> exact ⟨rfl, rfl⟩
    · exact ⟨rfl, rfl⟩

/-- A request to drop an index leaves the rows as they are. -/
lemma rows_dropIndex (table : Table) (column : Value) :
    (table.dropIndex column).table.rows = table.rows ∧
      (table.dropIndex column).table.nextRowId = table.nextRowId := by
  rw [dropIndex]
  split
  · exact ⟨rfl, rfl⟩
  · split
    · exact ⟨rfl, rfl⟩
    · split <;> exact ⟨rfl, rfl⟩

/-! ## Making and dropping tables -/

/-- A new table saves its schema, its rows and its indexes, after some notices. -/
lemma effects_of_create {name directory : String} {source : SchemaSource} {effects : List Effect}
    (h : Table.create name source directory = .ok (table, effects)) :
    table.name = name ∧ table.directory = directory ∧ table.rows = [] ∧
      table.nextRowId = .whole 1 ∧ Schema.ofSource source = .ok table.schema ∧
      ∃ notices : List Notice, effects = notices.map .note ++ table.saveSchema :: table.saveAll := by
  obtain ⟨schema, hschema, h⟩ := Outcome.seq_eq_ok.mp h
  obtain ⟨⟨made, notices⟩, hmade, h⟩ := Outcome.seq_eq_ok.mp h
  obtain ⟨rfl, rfl⟩ := Prod.mk.injEq .. ▸ Outcome.pure_eq_ok.mp h
  obtain ⟨hsame, hrows, hnext⟩ := sameFiles_buildIndexes hmade
  refine ⟨hsame.name, hsame.directory, hrows, hnext, ?_, notices, rfl⟩
  rw [hsame.schema]
  exact hschema

/-- A new table saves its own files alone. -/
lemma path_mem_of_create {name directory : String} {source : SchemaSource} {effects : List Effect}
    (h : Table.create name source directory = .ok (table, effects)) :
    ∀ path ∈ World.savedPaths effects, path ∈ filePaths directory name := by
  obtain ⟨rfl, rfl, -, -, -, notices, rfl⟩ := effects_of_create h
  simp only [saveAll, saveSchema, saveIndexes, World.savedPaths]
  simp [schemaPath_mem, dataPath_mem, indexPath_mem, List.filterMap_map]

/-- The disk after a table has been dropped is the one after the three files have been removed one
after the other. -/
lemma disk_drop (table : Table) (world : World) :
    (table.drop world).2.disk =
      ((((world.removeFile (dataPath table.directory table.name)).1.removeFile
        (indexPath table.directory table.name)).1.removeFile
          (schemaPath table.directory table.name)).1).disk := by
  rw [drop]
  dsimp only
  split <;> rfl

/-- Dropping a table changes the disk at the places of its files. -/
lemma differsWithin_drop (table : Table) (world : World) :
    world.disk.DiffersWithin (table.drop world).2.disk (filePlaces table.directory table.name) := by
  have hmem : ∀ path ∈ filePaths table.directory table.name,
      [Path.ofText path] ⊆ filePlaces table.directory table.name := fun path hpath place hplace =>
    List.mem_singleton.mp hplace ▸ List.mem_map_of_mem hpath
  rw [disk_drop]
  exact (((World.differsWithin_removeFile _ _).mono (hmem _ (dataPath_mem _ _))).trans
    ((World.differsWithin_removeFile _ _).mono (hmem _ (indexPath_mem _ _)))).trans
      ((World.differsWithin_removeFile _ _).mono (hmem _ (schemaPath_mem _ _)))

/-- The files of a table are gone after it has been dropped, directories in their places apart. -/
theorem find?_drop (table : Table) {world : World} {path : String}
    (hpath : path ∈ filePaths table.directory table.name)
    (h : world.disk.find? path ≠ some .directory) :
    (table.drop world).2.disk.find? path = none := by
  have hgone : ∀ {world : World} (other : String), world.disk.find? path = none →
      (world.removeFile other).1.disk.find? path = none := by
    intro world other hnone
    rcases World.find?_removeFile_or world other path with heq | heq
    · rw [heq, hnone]
    · exact heq
  have hfree : ∀ {world : World} (other : String), world.disk.find? path ≠ some .directory →
      (world.removeFile other).1.disk.find? path ≠ some .directory := by
    intro world other hnot
    rcases World.find?_removeFile_or world other path with heq | heq
    · rw [heq]
      exact hnot
    · rw [heq]
      exact nofun
  rw [disk_drop]
  simp only [filePaths, fileNames, fileEndings, List.map_cons, List.map_nil, List.mem_cons,
    List.not_mem_nil, or_false] at hpath
  rcases hpath with hschema | hdata | hindex
  · rw [hschema] at hfree h ⊢
    exact World.find?_removeFile (hfree _ (hfree _ h))
  · rw [hdata] at hgone h ⊢
    exact hgone _ (hgone _ (World.find?_removeFile h))
  · rw [hindex] at hfree hgone h ⊢
    exact hgone _ (World.find?_removeFile (hfree _ h))

/-- Dropping a table adds notices. -/
lemma notices_prefix_drop (table : Table) (world : World) :
    world.notices <+: (table.drop world).2.notices := by
  have hthree : ∀ first second third : String, world.notices <+:
      (((world.removeFile first).1.removeFile second).1.removeFile third).1.notices := by
    intro first second third
    have htwo := (World.notices_prefix_removeFile world first).trans
      (World.notices_prefix_removeFile (world.removeFile first).1 second)
    exact htwo.trans (World.notices_prefix_removeFile _ third)
  rw [drop]
  dsimp only
  split
  · exact hthree _ _ _
  · exact (hthree _ _ _).trans (List.prefix_append _ _)

end Table

end RecordStore
