import RecordStore.Proofs.Site.Step
import RecordStore.Proofs.Table.Storing

/-!
# The disk follows the database

As long as everything that is to be saved is saved and no two tables have a file in common, the
directory of a database mirrors its catalog: every table in it is stored in its three files, and every
schema file belongs to a table in it.  Every step of the database keeps this.
-/

namespace RecordStore

namespace Site

variable {site after : Site} {name : String}

/-- The names of the tables in the catalog. -/
abbrev names (site : Site) : List String :=
  Entries.keys site.database.tables

/-- No two tables have a file in common. -/
def FilesApart (site : Site) : Prop :=
  ∀ a ∈ site.names, ∀ b ∈ site.names, a ≠ b → ¬Table.ShareFile a b

instance (site : Site) : Decidable site.FilesApart :=
  inferInstanceAs (Decidable (∀ a ∈ site.names, ∀ b ∈ site.names, a ≠ b → ¬Table.ShareFile a b))

/-- The place of a file in the directory of the database. -/
def placeOf (site : Site) (file : String) : Path :=
  Path.ofText site.database.directory ++ [file]

/-- The directory of an open database mirrors its catalog. -/
structure Mirrored (site : Site) : Prop where
  isOpen : site.database.closed = false
  placed : site.database.IsPlaced
  nodup : site.names.Nodup
  named : ∀ name ∈ site.names, IsName name
  directory : site.world.disk.hasDirectory site.database.directory = true
  /-- The files of every table hold what the table holds. -/
  stored : ∀ entry ∈ site.database.tables, entry.2.StoredIn site.world.disk
  tidy : ∀ entry ∈ site.database.tables, ∃ records, entry.2.Tidy records
  /-- A schema file in the directory is a file of a table. -/
  files : ∀ name, site.world.disk.node? (site.placeOf (name ++ Table.schemaEnding)) ≠ none →
    ∃ live ∈ site.names, name ++ Table.schemaEnding ∈ Table.fileNames live

namespace Mirrored

/-- A table in the catalog is found under its name. -/
lemma mem_of_table (h : site.Mirrored) {table : Table}
    (htable : site.database.table name = .ok table) :
    (name, table) ∈ site.database.tables ∧ name ∈ site.names ∧ IsName name := by
  have hentry := Entries.mem_of_lookup (Database.lookup_of_table htable)
  have hname : name ∈ site.names := List.mem_map_of_mem hentry
  exact ⟨hentry, hname, h.named name hname⟩

/-- The place of a file of a table. -/
lemma mem_filePlaces_iff (h : site.Mirrored) (hname : IsName name) {file : String} :
    site.placeOf file ∈ Table.filePlaces site.database.directory name ↔
      file ∈ Table.fileNames name :=
  Table.place_mem_filePlaces_iff h.placed.directory hname.slash

/-- Every file of a table is there, at its place. -/
lemma exists_file (h : site.Mirrored) (hname : name ∈ site.names) {file : String}
    (hfile : file ∈ Table.fileNames name) :
    ∃ content, site.world.disk.place? (Path.join site.database.directory file) =
        some (site.placeOf file) ∧
      site.world.disk.node? (site.placeOf file) = some (.file content) := by
  obtain ⟨entry, hentry, rfl⟩ := List.mem_map.mp hname
  obtain ⟨htableName, hdirectory⟩ := h.placed.tables entry hentry
  have hpath : Path.join site.database.directory file ∈
      Table.filePaths entry.2.directory entry.2.name := by
    rw [htableName, hdirectory]
    exact List.mem_map_of_mem hfile
  obtain ⟨content, hcontent⟩ := (h.stored entry hentry).exists_file hpath
  rw [Disk.find?_eq_bind] at hcontent
  obtain ⟨place, hplace, hnode⟩ := Option.bind_eq_some_iff.mp hcontent
  obtain rfl : place = site.placeOf file := by
    rw [Disk.eq_ofText_of_place? hplace, placeOf, Path.ofText_join h.placed.directory
      (Table.isEntryName_of_mem_fileNames (h.named _ hname).slash hfile)]
  exact ⟨content, hplace, hnode⟩

/-! ## Steps -/

section Step

variable {allowed : Operation → Prop} (h : site.Mirrored) (hstep : Step allowed name site after)

include h hstep

/-- A step keeps the directory. -/
lemma directory_step : after.world.disk.hasDirectory after.database.directory = true := by
  rw [hstep.frame.1, (hstep.differsWithin h.placed).directories.hasDirectory]
  exact h.directory

/-- A step keeps the files of a table that has none in common with the table of the step. -/
lemma storedIn_of_ne (hname : IsName name) {entry : String × Table}
    (hentry : entry ∈ site.database.tables) (hne : entry.1 ≠ name)
    (hshare : ¬Table.ShareFile name entry.1) : entry.2.StoredIn after.world.disk := by
  obtain ⟨hentryName, hdirectory⟩ := h.placed.tables entry hentry
  refine (h.stored entry hentry).congr fun path hpath => ?_
  rw [hentryName, hdirectory] at hpath
  exact Table.find?_of_differsWithin h.placed.directory hname
    (h.named _ (List.mem_map_of_mem hentry)) hne.symm hshare (hstep.differsWithin h.placed) hpath

/-- After a step every schema file that is no file of its table is a file of another table that has
been there before. -/
lemma files_of_ne (hname : IsName name) {other : String}
    (hnode : after.world.disk.node? (after.placeOf (other ++ Table.schemaEnding)) ≠ none)
    (hother : other ++ Table.schemaEnding ∉ Table.fileNames name) :
    ∃ live ∈ site.names, live ≠ name ∧ other ++ Table.schemaEnding ∈ Table.fileNames live := by
  have hplace : after.placeOf (other ++ Table.schemaEnding) =
      site.placeOf (other ++ Table.schemaEnding) := by
    rw [placeOf, placeOf, hstep.frame.1]
  have hsame := (hstep.differsWithin h.placed).others _ (mt (h.mem_filePlaces_iff hname).mp hother)
  rw [hplace, hsame] at hnode
  obtain ⟨live, hlive, hfile⟩ := h.files other hnode
  refine ⟨live, hlive, ?_, hfile⟩
  rintro rfl
  exact hother hfile

end Step

/-- A request to a table that ends with everything saved keeps the directory as a mirror. -/
lemma requested (h : site.Mirrored) (hapart : site.FilesApart) {table : Table}
    (htable : site.database.table name = .ok table) (request : Table.Request)
    (hsaved : (site.after name (table.reply request)).world.AllSaved) :
    (site.after name (table.reply request)).Mirrored := by
  have hstep : Step (fun _ => True) name site (site.after name (table.reply request)) :=
    .requested htable trivial
  obtain ⟨hentry, hmem, hname⟩ := h.mem_of_table htable
  obtain ⟨records, htidy⟩ := h.tidy _ hentry
  have hkeys : (site.after name (table.reply request)).names = site.names :=
    Entries.keys_put_of_mem hmem
  have hentries : ∀ entry ∈ (site.after name (table.reply request)).database.tables,
      entry = (name, (table.reply request).table) ∨
        entry ∈ site.database.tables ∧ entry.1 ≠ name :=
    fun entry => (Entries.mem_put_iff h.nodup).mp
  refine ⟨h.isOpen, hstep.isPlaced h.placed, hkeys ▸ h.nodup, fun other hother => ?_,
    h.directory_step hstep, fun entry hentry' => ?_, fun entry hentry' => ?_,
    fun other hother => ?_⟩
  · rw [hkeys] at hother
    exact h.named other hother
  · rcases hentries entry hentry' with rfl | ⟨hold, hne⟩
    · exact (h.stored _ hentry).reply htidy.settled.steady htidy.settled.lists request hsaved
    · exact h.storedIn_of_ne hstep hname hold hne
        (hapart name hmem _ (List.mem_map_of_mem hold) hne.symm)
  · rcases hentries entry hentry' with rfl | ⟨hold, -⟩
    · exact htidy.step (htidy.settled.steady.step_reply request)
    · exact h.tidy entry hold
  · rw [hkeys]
    by_cases hfile : other ++ Table.schemaEnding ∈ Table.fileNames name
    · exact ⟨name, hmem, hfile⟩
    · obtain ⟨live, hlive, -, hliveFile⟩ := h.files_of_ne hstep hname hother hfile
      exact ⟨live, hlive, hliveFile⟩

/-- Making a table with everything saved keeps the directory as a mirror. -/
lemma created (h : site.Mirrored) {source : SchemaSource} {table : Table} {effects : List Effect}
    (hsource : source.IsDescribed) (hname : IsName name)
    (hnew : site.database.hasTable name = false)
    (hcreate : Table.create name source site.database.directory = .ok (table, effects))
    {world : World} (hworld : world = (site.world.performAll effects).note
      (.tableCreated site.database.name name))
    (hapart : FilesApart ⟨site.database.withTable name table, world⟩) (hsaved : world.AllSaved) :
    Mirrored ⟨site.database.withTable name table, world⟩ := by
  subst hworld
  have hstep : Step (fun _ => True) name site ⟨site.database.withTable name table,
      (site.world.performAll effects).note (.tableCreated site.database.name name)⟩ :=
    .created trivial hname hnew hcreate
  have hkeys : ∀ other, other ∈ Entries.keys (site.database.withTable name table).tables ↔
      other = name ∨ other ∈ site.names := fun _ => Entries.mem_keys_put
  have hentries : ∀ entry ∈ (site.database.withTable name table).tables,
      entry = (name, table) ∨ entry ∈ site.database.tables ∧ entry.1 ≠ name :=
    fun entry => (Entries.mem_put_iff h.nodup).mp
  refine ⟨h.isOpen, hstep.isPlaced h.placed, Entries.nodup_keys_put h.nodup, fun other hother => ?_,
    h.directory_step hstep, fun entry hentry => ?_, fun entry hentry => ?_, fun other hother => ?_⟩
  · rcases (hkeys other).mp hother with rfl | hold
    · exact hname
    · exact h.named other hold
  · rcases hentries entry hentry with rfl | ⟨hold, hne⟩
    · exact Table.storedIn_of_create hcreate (hsaved.of_prefix (List.prefix_append _ _))
    · have hmem : entry.1 ∈ site.names := List.mem_map_of_mem hold
      exact h.storedIn_of_ne hstep hname hold hne (hapart name ((hkeys name).mpr (Or.inl rfl)) _
        ((hkeys entry.1).mpr (Or.inr hmem)) hne.symm)
  · rcases hentries entry hentry with rfl | ⟨hold, -⟩
    · exact ⟨[], Table.tidy_of_create hsource hcreate⟩
    · exact h.tidy entry hold
  · by_cases hfile : other ++ Table.schemaEnding ∈ Table.fileNames name
    · exact ⟨name, (hkeys name).mpr (Or.inl rfl), hfile⟩
    · obtain ⟨live, hlive, -, hliveFile⟩ := h.files_of_ne hstep hname hother hfile
      exact ⟨live, (hkeys live).mpr (Or.inr hlive), hliveFile⟩

/-- The places of the files of a table that has been dropped are empty. -/
lemma node?_dropped (h : site.Mirrored) {table : Table}
    (htable : site.database.table name = .ok table) {file : String}
    (hfile : file ∈ Table.fileNames name) :
    (table.drop site.world).2.disk.node? (site.placeOf file) = none := by
  obtain ⟨-, hmem, -⟩ := h.mem_of_table htable
  obtain ⟨htableName, hdirectory⟩ := h.placed.table htable
  have hpath : Path.join site.database.directory file ∈
      Table.filePaths table.directory table.name := by
    rw [htableName, hdirectory]
    exact List.mem_map_of_mem hfile
  obtain ⟨content, hplace, hnode⟩ := h.exists_file hmem hfile
  have hfree : site.world.disk.find? (Path.join site.database.directory file) ≠
      some .directory := by
    rw [Disk.find?_eq_bind, hplace, Option.bind_some, hnode]
    exact nofun
  have hgone := Table.find?_drop table hpath hfree
  rw [Disk.find?_eq_bind, (Table.differsWithin_drop table site.world).directories.place?,
    hplace] at hgone
  exact hgone

/-- Dropping a table keeps the directory as a mirror. -/
lemma dropped (h : site.Mirrored) (hapart : site.FilesApart) {table : Table}
    (htable : site.database.table name = .ok table) :
    Mirrored ⟨{ site.database with tables := Entries.drop name site.database.tables },
      (table.drop site.world).2.note (.tableDropped site.database.name name)⟩ := by
  have hstep : Step (fun _ => True) name site
      ⟨{ site.database with tables := Entries.drop name site.database.tables },
        (table.drop site.world).2.note (.tableDropped site.database.name name)⟩ := .dropped htable
  obtain ⟨-, hmem, hname⟩ := h.mem_of_table htable
  have hentries : ∀ entry ∈ Entries.drop name site.database.tables,
      entry ∈ site.database.tables ∧ entry.1 ≠ name := by
    intro entry hentry
    obtain ⟨hold, hne⟩ := List.mem_filter.mp hentry
    exact ⟨hold, by simpa using hne⟩
  refine ⟨h.isOpen, hstep.isPlaced h.placed, Entries.nodup_keys_drop name h.nodup,
    fun other hother => h.named other (Entries.mem_keys_drop.mp hother).1,
    h.directory_step hstep, fun entry hentry => ?_,
    fun entry hentry => h.tidy entry (hentries entry hentry).1, fun other hother => ?_⟩
  · obtain ⟨hold, hne⟩ := hentries entry hentry
    exact h.storedIn_of_ne hstep hname hold hne
      (hapart name hmem _ (List.mem_map_of_mem hold) hne.symm)
  · by_cases hfile : other ++ Table.schemaEnding ∈ Table.fileNames name
    · exact absurd (h.node?_dropped htable hfile) hother
    · obtain ⟨live, hlive, hne, hliveFile⟩ := h.files_of_ne hstep hname hother hfile
      exact ⟨live, Entries.mem_keys_drop.mpr ⟨hlive, hne⟩, hliveFile⟩

/-- A step that ends with everything saved, among tables without files in common, keeps the directory
as a mirror. -/
theorem step (h : site.Mirrored) (hapart : site.FilesApart)
    (hstep : Step (·.MakesFrom SchemaSource.IsDescribed) name site after)
    (hapart' : after.FilesApart)
    (hsaved : after.world.AllSaved) : after.Mirrored := by
  cases hstep with
  | requested htable _ => exact h.requested hapart htable _ hsaved
  | created hdescribed hname hnew hcreate =>
    exact h.created hdescribed hname hnew hcreate rfl hapart' hsaved
  | dropped htable => exact h.dropped hapart htable

end Mirrored

end Site

end RecordStore
