import RecordStore.Proofs.Query.Execution
import RecordStore.Proofs.Table.Saving

/-!
# Steps of a database

Whatever is asked of a database, by a query or directly, comes down to at most one of three things that
happen to the table of one name: it is made, it is dropped, or a request is made to it.  Such a step
leaves the tables of all other names, and on the disk it only touches the files of this name.
-/

namespace RecordStore

namespace Table

variable {table table' : Table}

/-- A step of a table keeps its files. -/
lemma Step.sameFiles (h : Step table table') : table.SameFiles table' := by
  have hreplaced : ∀ (staged : List (RowId × Record)) (table : Table),
      table.SameFiles (table.replacedAll staged) := by
    intro staged
    induction staged with
    | nil => exact .refl
    | cons entry rest ih =>
      intro table
      have hfirst : table.SameFiles (table.replaced entry.1 entry.2) := ⟨rfl, rfl, rfl⟩
      exact hfirst.trans (ih _)
  have hremoved : ∀ (ids : List RowId) (table : Table), table.SameFiles (table.removedAll ids) := by
    intro ids
    induction ids with
    | nil => exact .refl
    | cons id rest ih =>
      intro table
      have hfirst : table.SameFiles (table.removed id) := ⟨rfl, rfl, rfl⟩
      exact hfirst.trans (ih _)
  cases h with
  | replace _ => exact hreplaced _ table
  | remove _ _ => exact hremoved _ table
  | _ => exact ⟨rfl, rfl, rfl⟩

/-- Steps of a table keep its files. -/
lemma Reaches.sameFiles (h : Reaches table table') : table.SameFiles table' := by
  induction h with
  | refl => exact .refl table
  | tail _ hstep ih => exact ih.trans hstep.sameFiles

/-- A table that is loaded has the files from which it is loaded. -/
lemma sameFiles_of_load {name directory : String} {disk : Disk} {notices : List Notice}
    (h : Table.load name directory disk = (notices, .ok table)) :
    table.name = name ∧ table.directory = directory := by
  rw [load] at h
  split at h
  · rename_i unindexed hrows
    obtain ⟨hschema, hindexes⟩ := loadRows_eq_ok hrows
    have hsteady : unindexed.Steady :=
      steady_of_unindexed (hschema.mono fun _ hc => hc.hasKeyDefault) hindexes
    have hsame := (hsteady.loadIndexes_eq_ok h).1.sameFiles
    have hplace := place_of_loadRows hrows
    exact ⟨hsame.name.trans hplace.1, hsame.directory.trans hplace.2⟩
  · cases h

end Table

namespace Database

variable {database : Database}

/-- The files of all tables of a database are in its directory, each under the name by which the
database knows the table. -/
structure IsPlaced (database : Database) : Prop where
  directory : Path.EndsInName database.directory
  tables : ∀ entry ∈ database.tables,
    entry.2.name = entry.1 ∧ entry.2.directory = database.directory

/-- The files of a table that is found are under its name in the directory of the database. -/
lemma IsPlaced.table (h : database.IsPlaced) {name : String} {table : Table}
    (htable : database.table name = .ok table) :
    table.name = name ∧ table.directory = database.directory :=
  h.tables (name, table) (Entries.mem_of_lookup (lookup_of_table htable))

/-- Which table is found only depends on the entry under its name, in an open database. -/
lemma table_congr {other : Database} {name : String}
    (hopen : other.checkOpen = database.checkOpen)
    (hlookup : other.tables.lookup name = database.tables.lookup name) :
    other.table name = database.table name := by
  rw [Database.table, Database.table, hopen, hlookup]

/-- Putting a table in its place leaves the tables of other names. -/
lemma table_withTable_of_ne {name other : String} (h : other ≠ name) (table : Table) :
    (database.withTable name table).table other = database.table other :=
  table_congr rfl (Entries.lookup_put_of_ne h _ _)

end Database

namespace Site

/-! ## Operations -/

/-- An operation on the table of a name. -/
inductive Operation where
  | createTable (name : Value) (source : SchemaSource)
  | dropTable (name : String)
  | request (name : String) (request : Table.Request)

namespace Operation

/-- The name of the table that an operation is about. -/
def target : Operation → Value
  | .createTable name _ => name
  | .dropTable name => .text name
  | .request name _ => .text name

/-- A table is only made from a source with a property. -/
def MakesFrom (allowed : SchemaSource → Prop) : Operation → Prop
  | .createTable _ source => allowed source
  | _ => True

end Operation

/-! ## Steps -/

/-- What can happen to the table of a name: it is made, or it is dropped, or a request is made to it,
by an operation that is allowed. -/
inductive Step (allowed : Operation → Prop) (name : String) (site : Site) : Site → Prop where
  | requested {table : Table} (htable : site.database.table name = .ok table)
      {request : Table.Request} (hallowed : allowed (.request name request)) :
      Step allowed name site (site.after name (table.reply request))
  | created {source : SchemaSource} {table : Table} {effects : List Effect}
      (hallowed : allowed (.createTable (.text name) source)) (hname : IsName name)
      (hnew : site.database.hasTable name = false)
      (hcreate : Table.create name source site.database.directory = .ok (table, effects)) :
      Step allowed name site ⟨site.database.withTable name table,
        (site.world.performAll effects).note (.tableCreated site.database.name name)⟩
  | dropped {table : Table} (htable : site.database.table name = .ok table) :
      Step allowed name site
        ⟨{ site.database with tables := Entries.drop name site.database.tables },
          (table.drop site.world).2.note (.tableDropped site.database.name name)⟩

variable {allowed : Operation → Prop} {name : String} {site after : Site}

/-- Making a table is refused and changes nothing, or is a step. -/
lemma createTable_step {v : Value} {source : SchemaSource} (hallowed : allowed (.createTable v source))
    (site : Site) :
    ((createTable v source).perform site).2 = site ∨
      ∃ name, v = .text name ∧ Step allowed name site ((createTable v source).perform site).2 := by
  have hask : (askDatabase).perform site = (.ok site.database, site) := rfl
  rw [createTable, Work.perform_bind_ok hask]
  cases hopen : site.database.checkOpen with
  | error fault => exact Or.inl rfl
  | ok _ =>
    rw [Work.perform_bind_ok (Work.perform_ofExcept _ _)]
    cases hcheck : checkName .table v with
    | error fault => exact Or.inl rfl
    | ok name =>
      obtain ⟨hv, hname⟩ := checkName_eq_ok.mp hcheck
      rw [Work.perform_bind_ok (Work.perform_ofExcept _ _)]
      cases hnew : site.database.hasTable name with
      | true => exact Or.inl rfl
      | false =>
        cases hcreate : Table.create name source site.database.directory with
        | error fault => exact Or.inl rfl
        | ok created =>
          obtain ⟨table, effects⟩ := created
          exact Or.inr ⟨name, hv, .created (hv ▸ hallowed) hname hnew hcreate⟩

/-- Dropping a table changes nothing, since it is not there, or is a step. -/
lemma dropTable_step (name : String) (site : Site) :
    ((dropTable name).perform site).2 = site ∨
      Step allowed name site ((dropTable name).perform site).2 := by
  cases htable : site.database.table name with
  | error fault =>
    left
    rw [dropTable, Work.perform_bind_error (perform_table htable)]
  | ok table =>
    right
    rw [dropTable, Work.perform_bind_ok (perform_table htable)]
    exact .dropped htable

/-- A request to a table changes nothing, since the table is not there, or is a step. -/
lemma onTable_step {request : Table.Request} (hallowed : allowed (.request name request))
    (site : Site) :
    ((onTable name (·.reply request)).perform site).2 = site ∨
      Step allowed name site ((onTable name (·.reply request)).perform site).2 := by
  cases htable : site.database.table name with
  | error fault =>
    left
    rw [perform_onTable_error htable]
  | ok table =>
    right
    rw [perform_onTable htable]
    exact .requested htable hallowed

/-! ## What a step leaves -/

/-- What is allowed by one property is allowed by a weaker one. -/
lemma Step.mono {weaker : Operation → Prop} (h : Step allowed name site after)
    (hweaker : ∀ operation, allowed operation → weaker operation) : Step weaker name site after := by
  cases h with
  | requested htable hallowed => exact .requested htable (hweaker _ hallowed)
  | created hallowed hname hnew hcreate => exact .created (hweaker _ hallowed) hname hnew hcreate
  | dropped htable => exact .dropped htable

/-- A step leaves the directory of a database and whether it is open. -/
lemma Step.frame (h : Step allowed name site after) :
    after.database.directory = site.database.directory ∧
      after.database.name = site.database.name ∧ after.database.closed = site.database.closed := by
  cases h with
  | requested htable hallowed => exact ⟨rfl, rfl, rfl⟩
  | created hallowed hname hnew hcreate => exact ⟨rfl, rfl, rfl⟩
  | dropped htable => exact ⟨rfl, rfl, rfl⟩

/-- After a step all tables are in the directory of the database. -/
theorem Step.isPlaced (hplaced : site.database.IsPlaced) (h : Step allowed name site after) :
    after.database.IsPlaced := by
  refine ⟨h.frame.1 ▸ hplaced.directory, ?_⟩
  cases h with
  | @requested table htable request hallowed =>
    intro entry hentry
    rcases Entries.mem_put hentry with hold | ⟨hnew, hkey⟩
    · exact hplaced.tables entry hold
    · obtain ⟨hname, hdirectory⟩ := hplaced.table htable
      have hsame := (Table.mem_filePaths_of_saves (Table.saves_reply table request)).1
      rw [hnew, hsame.name, hsame.directory, hname]
      exact ⟨(beq_iff_eq.mp hkey).symm, hdirectory⟩
  | created hallowed hname hnew hcreate =>
    intro entry hentry
    rcases Entries.mem_put hentry with hold | ⟨hnew, hkey⟩
    · exact hplaced.tables entry hold
    · obtain ⟨hname, hdirectory, -⟩ := Table.effects_of_create hcreate
      rw [hnew, hname]
      exact ⟨(beq_iff_eq.mp hkey).symm, hdirectory⟩
  | dropped htable =>
    intro entry hentry
    exact hplaced.tables entry (List.mem_filter.mp hentry).1

/-- A step leaves the tables of other names. -/
theorem Step.table_of_ne (h : Step allowed name site after) {other : String}
    (hother : other ≠ name) : after.database.table other = site.database.table other := by
  cases h with
  | requested htable hallowed => exact Database.table_withTable_of_ne hother _
  | created hallowed hname hnew hcreate => exact Database.table_withTable_of_ne hother _
  | dropped htable =>
    refine Database.table_congr rfl ?_
    exact Entries.lookup_drop_of_ne hother _

/-- A step changes the disk at the places of the files of its table. -/
theorem Step.differsWithin (hplaced : site.database.IsPlaced) (h : Step allowed name site after) :
    site.world.disk.DiffersWithin after.world.disk
      (Table.filePlaces site.database.directory name) := by
  cases h with
  | @requested table htable request hallowed =>
    obtain ⟨hname, hdirectory⟩ := hplaced.table htable
    have hpaths := (Table.mem_filePaths_of_saves (Table.saves_reply table request)).2
    rw [hname, hdirectory] at hpaths
    exact World.differsWithin_performAll _ fun path hpath => List.mem_map_of_mem (hpaths path hpath)
  | created hallowed hname hnew hcreate =>
    have hpaths := Table.path_mem_of_create hcreate
    exact World.differsWithin_performAll _ fun path hpath => List.mem_map_of_mem (hpaths path hpath)
  | @dropped table htable =>
    obtain ⟨hname, hdirectory⟩ := hplaced.table htable
    have hdrop := Table.differsWithin_drop table site.world
    rw [hname, hdirectory] at hdrop
    exact hdrop

/-- A step adds notices. -/
lemma Step.notices_prefix (h : Step allowed name site after) :
    site.world.notices <+: after.world.notices := by
  cases h with
  | requested htable hallowed => exact World.notices_prefix_performAll _ _
  | created hallowed hname hnew hcreate =>
    exact (World.notices_prefix_performAll _ _).trans (List.prefix_append _ _)
  | dropped htable => exact (Table.notices_prefix_drop _ _).trans (List.prefix_append _ _)

/-! ## Operations are steps -/

/-- The site after an operation, whether it succeeds or not. -/
def does (site : Site) : Operation → Site
  | .createTable name source => ((createTable name source).perform site).2
  | .dropTable name => ((dropTable name).perform site).2
  | .request name request => ((onTable name (·.reply request)).perform site).2

/-- An operation changes nothing or is a step of its table. -/
theorem does_cases (allowed : Operation → Prop) (operation : Operation)
    (hallowed : allowed operation) (site : Site) :
    site.does operation = site ∨
      ∃ name, operation.target = .text name ∧ Step allowed name site (site.does operation) := by
  cases operation with
  | createTable v source => exact createTable_step hallowed site
  | dropTable name => exact (dropTable_step name site).imp_right fun h => ⟨name, rfl, h⟩
  | request name request =>
    exact (onTable_step hallowed site).imp_right fun h => ⟨name, rfl, h⟩

/-- A table that is dropped takes its files with it, unless there are directories in their place. -/
lemma find?_dropTable (hplaced : site.database.IsPlaced) {name : String} {table : Table}
    (htable : site.database.table name = .ok table) {file : String}
    (hfile : file ∈ Table.fileNames name)
    (hfree : site.world.disk.find? (Path.join site.database.directory file) ≠ some .directory) :
    (site.does (.dropTable name)).world.disk.find? (Path.join site.database.directory file) =
      none := by
  obtain ⟨hname, hdirectory⟩ := hplaced.table htable
  have hmem : Path.join site.database.directory file ∈
      Table.filePaths table.directory table.name := by
    rw [hname, hdirectory]
    exact List.mem_map_of_mem hfile
  have hgone := Table.find?_drop table hmem hfree
  rw [does, dropTable, Work.perform_bind_ok (perform_table htable)]
  exact hgone

/-- After an operation all tables are in the directory of the database. -/
lemma isPlaced_does (h : site.database.IsPlaced) (operation : Operation) :
    (site.does operation).database.IsPlaced := by
  rcases does_cases (fun _ => True) operation trivial site with heq | ⟨name, -, hstep⟩
  · rw [heq]
    exact h
  · exact hstep.isPlaced h

end Site

end RecordStore
