import RecordStore.Proofs.Site.Opening
import RecordStore.Proofs.Table.Holding

/-!
# Crashes

An operation on a table writes whole files one after the other, and what has been written when it is
stopped may be of two generations: new rows beside an old index file, or a schema without rows.  If it
has changed rows, the indexes are on the same columns as before, and otherwise the rows are as before; so
every mixture keeps the table as it was before or as it is afterwards.  A table that is made comes into
the catalog with its schema, and files that are not yet there are read as those of an empty table.

A schema is checked again when it is read.  So a crash leaves a table that can be loaded just if its
schema is accepted again, which a column that has been declared outright may spoil.
-/

namespace RecordStore

open Snapshot (draft)

namespace Table

variable {schema : Schema} {table table' : Table} {records : List (Int × Record)} {disk : Disk}
  {world : World}

/-! ## What has been saved -/

/-- The last saves of a table have succeeded: its files hold the schema that it descends from, what is
read from a snapshot of its rows, and the names of the columns of its indexes. -/
structure SavedIn (schema : Schema) (table : Table) (disk : Disk) : Prop where
  schema : disk.Stores (schemaPath table.directory table.name) schema.toValue
  data : disk.Reads (dataPath table.directory table.name) table.dataValue
  indexes : table.NamesIndexes disk

/-- Files that save a table keep it. -/
lemma SavedIn.keptIn (h : table.SavedIn schema disk) (horderly : table.Orderly schema records)
    (hback : table.GivenBack) : table.KeptIn schema disk :=
  ⟨h.schema, hback.holdsRows horderly.lists.numbers horderly.numbered.counts h.data, h.indexes⟩

/-- A table that is stored in its files is saved in them, if what they hold comes back equal. -/
lemma StoredIn.savedIn (h : table.StoredIn disk) (horderly : table.Orderly table.schema records)
    (hback : table.GivenBack) : table.SavedIn table.schema disk := by
  obtain ⟨w, hw⟩ :=
    hback.exists_restored_dataValue horderly.lists.numbers horderly.numbered.counts
  exact ⟨h.schema, h.data.reads hw, hback.namesIndexes horderly.indexed h.indexes⟩

/-! ## Loading after a crash -/

/-- A table is loaded from its files as it is. -/
def LoadsAs (table : Table) (disk : Disk) : Prop :=
  ∃ notices loaded, Table.load table.name table.directory disk = (notices, .ok loaded) ∧
    table.Restates loaded

/-- If a table can be loaded from a schema file, its schema is accepted again. -/
lemma Numbered.isAccepted_of_load (h : table.Numbered schema)
    (hschema : disk.Stores (schemaPath table.directory table.name) schema.toValue)
    (hback : table.GivenBack) {notices : List Notice} {loaded : Table}
    (hload : Table.load table.name table.directory disk = (notices, .ok loaded)) :
    table.schema.IsAccepted := by
  rcases h.origin with heq | ⟨v, -, hread⟩
  · obtain ⟨plain, hplain, -⟩ := load_eq_ok_iff.mp hload
    obtain ⟨v, schema', -, -, -, hv, -, hschema', -⟩ := loadRows_eq_ok_iff.mp hplain
    have hself := (Snapshot.comesBackEqual_iff.mp hback.schema).1.2
    have hrestored := hschema.restored_eq_ok hv
    rw [← heq, hself] at hrestored
    exact ⟨schema', Except.ok.inj hrestored ▸ hschema'⟩
  · exact Schema.isAccepted_of_ofValue hread

/-! ## Writes that stop -/

/-- After some complete snapshots have been saved in files of a table, each of its files is as it was, or
holds one of them. -/
lemma node?_performAll_files (world : World) {directory name : String} {done : List Effect}
    (hpaths : ∀ path v, .save path v ∈ done → path ∈ filePaths directory name)
    (hcomplete : ∀ path v, .save path v ∈ done → (draft v).complete = true) :
    ∀ path ∈ filePaths directory name,
      (world.performAll done).disk.node? (Path.ofText path) =
          world.disk.node? (Path.ofText path) ∨
        ∃ v, .save path v ∈ done ∧ (world.performAll done).disk.Stores path v := by
  intro path hpath
  refine World.node?_performAll hcomplete fun other v hmem => ?_
  by_cases hplace : Path.ofText path = Path.ofText other
  · exact Or.inl (List.inj_on_of_nodup_map (nodup_filePlaces directory name) (hpaths other v hmem)
      hpath hplace.symm)
  · exact Or.inr hplace

/-- The files of a table have paths of their own. -/
lemma filePaths_ne (directory name : String) :
    schemaPath directory name ≠ dataPath directory name ∧
      schemaPath directory name ≠ indexPath directory name ∧
      dataPath directory name ≠ indexPath directory name := by
  obtain ⟨hschemaData, hschemaIndex, hdataIndex⟩ := ofText_filePaths_ne directory name
  exact ⟨fun heq => hschemaData (congrArg _ heq), fun heq => hschemaIndex (congrArg _ heq),
    fun heq => hdataIndex (congrArg _ heq)⟩

/-- A snapshot of the rows of an orderly table that is given back keeps them. -/
lemma GivenBack.holdsRows_of_stores (h : table.GivenBack) (horderly : table.Orderly schema records)
    (hstores : disk.Stores (dataPath table.directory table.name) table.dataValue) :
    table.HoldsRows disk := by
  have hnumbers := horderly.lists.numbers
  obtain ⟨w, hw⟩ := h.exists_restored_dataValue hnumbers horderly.numbered.counts
  exact h.holdsRows hnumbers horderly.numbered.counts (hstores.reads hw)

/-- A snapshot of a table is that of its schema, of its rows or of its indexes, at the path of the file. -/
def IsSnapshot (table : Table) (path : String) (v : Value) : Prop :=
  path = schemaPath table.directory table.name ∧ v = table.schema.toValue ∨
    path = dataPath table.directory table.name ∧ v = table.dataValue ∨
      path = indexPath table.directory table.name ∧ v = table.indexesValue

/-- What stands at the path of a file is as it was before some effects. -/
def IsUntouched (world : World) (done : List Effect) (path : String) : Prop :=
  (world.performAll done).disk.node? (Path.ofText path) = world.disk.node? (Path.ofText path)

/-- Wherever the saves of snapshots of an orderly table that is given back stop, each of its files is
untouched, or keeps what the table has saved in it. -/
theorem GivenBack.files_of_snapshots (h : table.GivenBack)
    (horderly : table.Orderly schema records) {done : List Effect}
    (hsaves : ∀ path v, .save path v ∈ done → table.IsSnapshot path v) (world : World) :
    (IsUntouched world done (schemaPath table.directory table.name) ∨
      (∃ v, .save (schemaPath table.directory table.name) v ∈ done) ∧
        (world.performAll done).disk.Stores (schemaPath table.directory table.name)
          table.schema.toValue) ∧
    (IsUntouched world done (dataPath table.directory table.name) ∨
      table.HoldsRows (world.performAll done).disk) ∧
    (IsUntouched world done (indexPath table.directory table.name) ∨
      table.NamesIndexes (world.performAll done).disk) := by
  obtain ⟨hschemaData, hschemaIndex, hdataIndex⟩ := filePaths_ne table.directory table.name
  have hfiles := node?_performAll_files world
    (fun path v hmem => by
      rcases hsaves path v hmem with ⟨rfl, -⟩ | ⟨rfl, -⟩ | ⟨rfl, -⟩
      · exact schemaPath_mem table.directory table.name
      · exact dataPath_mem table.directory table.name
      · exact indexPath_mem table.directory table.name)
    (fun path v hmem => by
      rcases hsaves path v hmem with ⟨-, rfl⟩ | ⟨-, rfl⟩ | ⟨-, rfl⟩
      · exact h.schema.1
      · exact h.written
      · exact h.indexes.1)
  refine ⟨(hfiles _ (schemaPath_mem _ _)).imp_right ?_, (hfiles _ (dataPath_mem _ _)).imp_right ?_,
    (hfiles _ (indexPath_mem _ _)).imp_right ?_⟩
  · rintro ⟨v, hmem, hstores⟩
    rcases hsaves _ v hmem with ⟨-, rfl⟩ | ⟨heq, -⟩ | ⟨heq, -⟩
    · exact ⟨⟨_, hmem⟩, hstores⟩
    · exact absurd heq hschemaData
    · exact absurd heq hschemaIndex
  · rintro ⟨v, hmem, hstores⟩
    rcases hsaves _ v hmem with ⟨heq, -⟩ | ⟨-, rfl⟩ | ⟨heq, -⟩
    · exact absurd heq.symm hschemaData
    · exact h.holdsRows_of_stores horderly hstores
    · exact absurd heq hdataIndex
  · rintro ⟨v, hmem, hstores⟩
    rcases hsaves _ v hmem with ⟨heq, -⟩ | ⟨heq, -⟩ | ⟨-, rfl⟩
    · exact absurd heq.symm hschemaIndex
    · exact absurd heq.symm hdataIndex
    · exact h.namesIndexes horderly.indexed hstores

/-- Files of two generations keep a table, if what has been done to it has left the columns of its indexes
or its rows as they were. -/
lemma keptIn_or_keptIn (hsame : table.SameFiles table')
    (hstep : Entries.keys table'.indexes = Entries.keys table.indexes ∨
      table'.rows = table.rows ∧ table'.nextRowId = table.nextRowId)
    (hschema : disk.Stores (schemaPath table.directory table.name) schema.toValue)
    (hrows : table.HoldsRows disk ∨ table'.HoldsRows disk)
    (hindexes : table.NamesIndexes disk ∨ table'.NamesIndexes disk) :
    table.KeptIn schema disk ∨ table'.KeptIn schema disk := by
  have hschema' : disk.Stores (schemaPath table'.directory table'.name) schema.toValue := by
    rw [hsame.directory, hsame.name]
    exact hschema
  have hback : table'.SameFiles table :=
    ⟨hsame.name.symm, hsame.directory.symm, hsame.schema.symm⟩
  rcases hrows with hold | hnew <;> rcases hindexes with hold' | hnew'
  · exact Or.inl ⟨hschema, hold, hold'⟩
  · rcases hstep with hkeys | ⟨hrows, hnext⟩
    · exact Or.inl ⟨hschema, hold, hnew'.congr hback hkeys.symm⟩
    · exact Or.inr ⟨hschema', hold.congr hsame hrows hnext, hnew'⟩
  · rcases hstep with hkeys | ⟨hrows, hnext⟩
    · exact Or.inr ⟨hschema', hnew, hold'.congr hsame hkeys⟩
    · exact Or.inl ⟨hschema, hnew.congr hback hrows.symm hnext.symm, hold'⟩
  · exact Or.inr ⟨hschema', hnew, hnew'⟩

/-! ## Requests -/

/-- Wherever the writes of a request stop, the files keep the table as it was before, or as it is
afterwards. -/
theorem SavedIn.keptIn_of_prefix (h : table.SavedIn schema world.disk)
    (horderly : table.Orderly schema records) (hback : table.GivenBack) {request : Request}
    (hback' : (table.reply request).table.GivenBack) {done : List Effect}
    (hdone : done <+: (table.reply request).effects) :
    table.KeptIn schema (world.performAll done).disk ∨
      (table.reply request).table.KeptIn schema (world.performAll done).disk := by
  obtain ⟨hschemaData, hschemaIndex, -⟩ := filePaths_ne table.directory table.name
  obtain ⟨records', horderly'⟩ := horderly.reply request
  have hstep := (horderly.steady.step_reply request).keys_or_rows
  obtain ⟨hsame, -⟩ := mem_filePaths_of_saves (saves_reply table request)
  have hsaves := fun path v (hmem : Effect.save path v ∈ done) =>
    eq_of_save_mem_reply (hdone.subset hmem)
  have hsnapshots : ∀ path v, .save path v ∈ done → (table.reply request).table.IsSnapshot path v := by
    intro path v hmem
    rw [IsSnapshot, hsame.directory, hsame.name]
    exact Or.inr (hsaves path v hmem)
  obtain ⟨hschema, hrows, hindexes⟩ := hback'.files_of_snapshots horderly' hsnapshots world
  rw [hsame.directory, hsame.name] at hschema hrows hindexes
  have hkept := h.keptIn horderly hback
  have hdirectories := (World.differsWithin_savedPaths world done).directories
  refine keptIn_or_keptIn hsame hstep ?_ (hrows.imp_left fun hnode => ?_)
    (hindexes.imp_left fun hnode => ?_)
  · rcases hschema with hnode | ⟨⟨v, hmem⟩, -⟩
    · exact h.schema.congr (Disk.SameDirectories.find? hdirectories hnode)
    · rcases hsaves _ v hmem with ⟨heq, -⟩ | ⟨heq, -⟩
      · exact absurd heq hschemaData
      · exact absurd heq hschemaIndex
  · exact hkept.rows.of_find? (Disk.SameDirectories.find? hdirectories hnode)
  · exact hkept.indexes.of_find? (Disk.SameDirectories.find? hdirectories hnode)

/-- Wherever the writes of a request stop, the table is loaded as it was before, or as it is
afterwards. -/
def SurvivesRequest (table : Table) (request : Request) (world : World) : Prop :=
  ∀ done, done <+: (table.reply request).effects →
    table.LoadsAs (world.performAll done).disk ∨
      (table.reply request).table.LoadsAs (world.performAll done).disk

/-- A saved table survives that a request is stopped just if its schema is accepted again. -/
lemma survivesRequest_iff (h : Descends schema table) (hmade : table.schema.Sound fun _ => True)
    (hsaved : table.SavedIn schema world.disk) (hback : table.GivenBack) {request : Request}
    (hback' : (table.reply request).table.GivenBack) :
    table.SurvivesRequest request world ↔ table.schema.IsAccepted := by
  obtain ⟨hsame, -⟩ := mem_filePaths_of_saves (saves_reply table request)
  constructor
  · intro hsurvives
    rcases hsurvives [] List.nil_prefix with ⟨notices, loaded, hload, -⟩ | ⟨notices, loaded, hload, -⟩
    · exact h.numbered.isAccepted_of_load hsaved.schema hback hload
    · rw [hsame.name, hsame.directory] at hload
      exact h.numbered.isAccepted_of_load hsaved.schema hback hload
  · intro haccepted done hdone
    obtain ⟨records, horderly⟩ := h.orderly (haccepted.sound hmade)
    obtain ⟨records', horderly'⟩ := horderly.reply request
    rcases hsaved.keptIn_of_prefix horderly hback hback' hdone with hkept | hkept
    · exact Or.inl (hkept.load horderly hback haccepted)
    · exact Or.inr (hkept.load horderly' hback' (by rwa [hsame.schema]))

/-! ## Making tables -/

section Creation

variable {name directory : String} {source : SchemaSource} {effects : List Effect}
  (hcreate : Table.create name source directory = .ok (table, effects))

include hcreate

/-- A table that is made saves snapshots of itself. -/
lemma isSnapshot_of_create {path : String} {v : Value} (h : .save path v ∈ effects) :
    table.IsSnapshot path v := by
  obtain ⟨-, -, -, -, -, notices, rfl⟩ := effects_of_create hcreate
  simpa [saveSchema, saveAll, saveIndexes, IsSnapshot] using h

/-- A table that has been made has indexes on its unique columns. -/
lemma keys_of_create {P : Column → Prop} (hsound : table.schema.Sound P) :
    Entries.keys table.indexes = uniqueBeside table.schema [] := by
  obtain ⟨schema, -, h⟩ := Outcome.seq_eq_ok.mp hcreate
  obtain ⟨⟨made, notices⟩, hmade, h⟩ := Outcome.seq_eq_ok.mp h
  obtain ⟨rfl, -⟩ := Prod.mk.injEq .. ▸ Outcome.pure_eq_ok.mp h
  have hschema : made.schema = schema := (sameFiles_buildIndexes hmade).1.schema
  rw [hschema] at hsound ⊢
  exact keys_buildIndexes hmade (keysApart_uniqueBeside hsound List.Pairwise.nil)

/-- Wherever the writes of a table that is made stop, it is not in the catalog, or the files keep it. -/
theorem keptIn_of_create_prefix (hsound : table.schema.Sound Column.HasKeyDefault)
    (hname : IsName name) (hdirectory : Path.EndsInName directory)
    (hfree : ∀ place ∈ filePlaces directory name, world.disk.node? place = none)
    (hback : table.GivenBack) {done : List Effect} (hdone : done <+: effects) :
    name ∉ Database.tableNames (world.performAll done).disk directory ∨
      table.KeptIn table.schema (world.performAll done).disk := by
  have horderly := Orderly.of_create hsound hcreate
  obtain ⟨rfl, rfl, hrows, hnext, -⟩ := effects_of_create hcreate
  obtain ⟨hschema, hdata, hindexes⟩ := hback.files_of_snapshots horderly
    (fun path v hmem => isSnapshot_of_create hcreate (hdone.subset hmem)) world
  -- a file that is untouched is not there
  have hmissing : ∀ path ∈ filePaths table.directory table.name, IsUntouched world done path →
      (world.performAll done).disk.node? (Path.ofText path) = none :=
    fun path hpath hnode => hnode.trans (hfree _ (List.mem_map_of_mem hpath))
  have hnull : ∀ path ∈ filePaths table.directory table.name, IsUntouched world done path →
      (world.performAll done).disk.readSnapshot path = .ok .null := by
    intro path hpath hnode
    rw [Disk.readSnapshot, Disk.find?_eq_none (hmissing path hpath hnode)]
  rcases hschema with hnode | ⟨-, hstores⟩
  · left
    have hnone := hmissing _ (schemaPath_mem _ _) hnode
    rw [schemaPath, Path.ofText_join hdirectory
      (isEntryName_of_mem_fileNames hname.slash (List.mem_map_of_mem List.mem_cons_self))] at hnone
    rw [Database.mem_tableNames]
    exact fun hcatalog => hcatalog.2 hnone
  · right
    refine ⟨hstores, ?_, ?_⟩
    · rcases hdata with hnode | hholds
      · refine ⟨.null, [], hnull _ (dataPath_mem _ _) hnode, ?_, hrows.symm⟩
        rw [hnext]
        rfl
      · exact hholds
    · rcases hindexes with hnode | hnames
      · exact ⟨.null, [], hnull _ (indexPath_mem _ _) hnode, rfl,
          (keys_of_create hcreate hsound).symm⟩
      · exact hnames

end Creation

/-- Wherever the writes of a table that is made stop, it is not in the catalog, or it is loaded as it has
been made. -/
def SurvivesCreation (table : Table) (effects : List Effect) (world : World) : Prop :=
  ∀ done, done <+: effects →
    table.name ∉ Database.tableNames (world.performAll done).disk table.directory ∨
      table.LoadsAs (world.performAll done).disk

/-- A table whose schema file has been written is in the catalog. -/
lemma mem_tableNames_of_stores {name directory : String} (hname : IsName name)
    (hdirectory : Path.EndsInName directory) {v : Value}
    (h : disk.Stores (schemaPath directory name) v) : name ∈ Database.tableNames disk directory := by
  have hentry : Path.IsEntryName (name ++ schemaEnding) :=
    isEntryName_of_mem_fileNames hname.slash (List.mem_map_of_mem List.mem_cons_self)
  refine Database.mem_tableNames.mpr ⟨Disk.hasDirectory_of_find?_join hdirectory hentry h.file, ?_⟩
  intro hnone
  rw [← Path.ofText_join hdirectory hentry] at hnone
  have hmissing := Disk.find?_eq_none hnone
  rw [← schemaPath, h.file] at hmissing
  cases hmissing

/-- A table survives that its creation is stopped just if its schema is accepted again. -/
lemma survivesCreation_iff {name directory : String} {source : SchemaSource} {effects : List Effect}
    (hcreate : Table.create name source directory = .ok (table, effects))
    (hmade : table.schema.Sound fun _ => True) (hname : IsName name)
    (hdirectory : Path.EndsInName directory)
    (hfree : ∀ place ∈ filePlaces directory name, world.disk.node? place = none)
    (hback : table.GivenBack) (hsaved : (world.performAll effects).AllSaved) :
    table.SurvivesCreation effects world ↔ table.schema.IsAccepted := by
  obtain ⟨hsameName, hsameDirectory, -⟩ := effects_of_create hcreate
  constructor
  · intro hsurvives
    have hstored := storedIn_of_create hcreate hsaved
    rcases hsurvives effects (List.prefix_refl _) with habsent | ⟨notices, loaded, hload, -⟩
    · refine absurd (mem_tableNames_of_stores ?_ ?_ hstored.schema) habsent
      · rwa [hsameName]
      · rwa [hsameDirectory]
    · exact (Numbered.of_create hcreate).isAccepted_of_load hstored.schema hback hload
  · intro haccepted done hdone
    have hsound := haccepted.sound hmade
    rw [hsameName, hsameDirectory]
    rcases keptIn_of_create_prefix hcreate hsound hname hdirectory hfree hback hdone with
      habsent | hkept
    · exact Or.inl habsent
    · exact Or.inr (hkept.load (.of_create hsound hcreate) hback haccepted)

/-! ## Crashes are repaired -/

/-- A crash between the writes of a request to a saved table, or of a table that is made where it has no
files yet, leaves the state before or the one after, if what is written comes back equal: just for the
tables whose schemas are accepted again. -/
theorem survives_iff_isAccepted (table : Table) (world : World)
    (hmade : table.schema.Sound fun _ => True) (hback : table.GivenBack) :
    (∀ (schema : Schema) (request : Request), Descends schema table →
      table.SavedIn schema world.disk → (table.reply request).table.GivenBack →
        (table.SurvivesRequest request world ↔ table.schema.IsAccepted)) ∧
    ∀ (name directory : String) (source : SchemaSource) (effects : List Effect),
      Table.create name source directory = .ok (table, effects) →
      IsName name → Path.EndsInName directory →
      (∀ place ∈ filePlaces directory name, world.disk.node? place = none) →
      (world.performAll effects).AllSaved →
        (table.SurvivesCreation effects world ↔ table.schema.IsAccepted) :=
  ⟨fun _ _ h hsaved hback' => survivesRequest_iff h hmade hsaved hback hback',
    fun _ _ _ _ hcreate hname hdirectory hfree hsaved =>
      survivesCreation_iff hcreate hmade hname hdirectory hfree hback hsaved⟩

/-- A world with an empty directory. -/
def worldWithDirectory : World :=
  ⟨⟨[(["d"], .directory)]⟩, []⟩

/-- The name of the directory ends in a name. -/
lemma endsInName_directory : Path.EndsInName "d" :=
  ⟨[], 'd', by decide, by decide⟩

/-- A record for a table with two columns. -/
def insertionOnTwo : Request :=
  .insert (.map [(.text "a", .int 1), (.text "b", .text "x")])

/-- A table with two columns survives that its creation is stopped, or the insertion of a record. -/
theorem survives_iff_isAccepted_twoColumns : ∃ created effects,
    Table.create "t" twoColumns "d" = .ok (created, effects) ∧
      created.SurvivesCreation effects worldWithDirectory ∧
      created.SurvivesRequest insertionOnTwo (worldWithDirectory.performAll effects) := by
  obtain ⟨created, effects, hcreate⟩ : ∃ created effects,
      Table.create "t" twoColumns "d" = .ok (created, effects) := ⟨_, _, rfl⟩
  obtain ⟨-, -, -, -, hschema, -⟩ := effects_of_create hcreate
  have haccepted := Schema.isAccepted_of_isDescribed isDescribed_twoColumns hschema
  have hsound := isDescribed_twoColumns.hasKeyDefaults.sound hschema
  have hmade : created.schema.Sound fun _ => True := hsound.mono fun _ _ => trivial
  have hback : created.GivenBack := by
    cases hcreate
    decide +kernel
  have hback' : (created.reply insertionOnTwo).table.GivenBack := by
    cases hcreate
    decide +kernel
  have hsaved : (worldWithDirectory.performAll effects).AllSaved := by
    cases hcreate
    decide +kernel
  have hstored := (storedIn_of_create hcreate hsaved).savedIn (.of_create hsound hcreate) hback
  refine ⟨created, effects, hcreate, ?_, ?_⟩
  · exact ((survives_iff_isAccepted created worldWithDirectory hmade hback).2 "t" "d" twoColumns effects
      hcreate (by decide) endsInName_directory (by decide +kernel) hsaved).mpr haccepted
  · exact ((survives_iff_isAccepted created (worldWithDirectory.performAll effects) hmade hback).1
      created.schema insertionOnTwo (.created hcreate rfl) hstored hback').mpr haccepted

/-- A column of numbers that is declared with a default that is none. -/
def uncheckedDefault : SchemaSource :=
  .columns
    [(.text "a", .declared (.make (.text "a") .number (.bool false) (.bool false) (.bool false)
        (.bool false) (some (.text "x")) .null .null))]

/-- A table with such a column is made and changed, and everything that is written of it comes back equal;
but its schema is refused when it is loaded, wherever the writes stop once the schema is there. -/
theorem not_survives_uncheckedDefault : ∃ created effects,
    Table.create "t" uncheckedDefault "d" = .ok (created, effects) ∧
      created.GivenBack ∧ (created.reply (.insert (.map []))).table.GivenBack ∧
      (worldWithDirectory.performAll effects).AllSaved ∧
      ¬created.SurvivesCreation effects worldWithDirectory ∧
      ¬created.SurvivesRequest (.insert (.map [])) (worldWithDirectory.performAll effects) := by
  obtain ⟨created, effects, hcreate⟩ : ∃ created effects,
      Table.create "t" uncheckedDefault "d" = .ok (created, effects) := ⟨_, _, rfl⟩
  have hback : created.GivenBack ∧ (created.reply (.insert (.map []))).table.GivenBack := by
    cases hcreate
    decide +kernel
  have hsaved : (worldWithDirectory.performAll effects).AllSaved := by
    cases hcreate
    decide +kernel
  have hrefused : (load "t" "d" (worldWithDirectory.performAll effects).disk).2.toOption.isNone =
      true := by
    cases hcreate
    decide +kernel
  have hfails : ∀ {notices : List Notice} {loaded : Table},
      load "t" "d" (worldWithDirectory.performAll effects).disk ≠ (notices, .ok loaded) := by
    intro notices loaded hload
    rw [hload] at hrefused
    cases hrefused
  obtain ⟨hname, hdirectory, -⟩ := effects_of_create hcreate
  obtain ⟨hsame, -⟩ := mem_filePaths_of_saves (saves_reply created (.insert (.map [])))
  refine ⟨created, effects, hcreate, hback.1, hback.2, hsaved, fun hsurvives => ?_,
    fun hsurvives => ?_⟩
  · rcases hsurvives effects (List.prefix_refl _) with habsent | ⟨notices, loaded, hload, -⟩
    · rw [hname, hdirectory] at habsent
      exact habsent (mem_tableNames_of_stores (by decide) endsInName_directory
        (hname ▸ hdirectory ▸ (storedIn_of_create hcreate hsaved).schema))
    · rw [hname, hdirectory] at hload
      exact hfails hload
  · rcases hsurvives [] List.nil_prefix with ⟨notices, loaded, hload, -⟩ | ⟨notices, loaded, hload, -⟩
    · rw [hname, hdirectory] at hload
      exact hfails hload
    · rw [hsame.name, hsame.directory, hname, hdirectory] at hload
      exact hfails hload

end Table

end RecordStore
