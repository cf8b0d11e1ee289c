import RecordStore.Proofs.Table.Loading
import RecordStore.Proofs.Work

/-!
# Databases at work

A database is opened from whatever stands on the disk, and then its tables are asked for things, new
ones are made and old ones dropped, while the disk may change in any way from elsewhere.  All the
tables in its catalog come about as tables do.
-/

namespace RecordStore

namespace Database

variable {database : Database}

/-! ## The catalog -/

/-- All tables in the catalog have come about as tables do. -/
def TablesArise (database : Database) : Prop :=
  ∀ entry ∈ database.tables, entry.2.Arises

/-- The table of a name is found in the catalog. -/
lemma lookup_of_table {name : String} {table : Table} (h : database.table name = .ok table) :
    database.tables.lookup name = some table := by
  obtain ⟨⟨⟩, -, h⟩ := Outcome.seq_eq_ok.mp h
  split at h
  · rename_i found hfound
    obtain rfl := Outcome.pure_eq_ok.mp h
    exact hfound
  · cases h

/-- The table of a name has come about as tables do. -/
lemma TablesArise.table (h : database.TablesArise) {name : String} {table : Table}
    (htable : database.table name = .ok table) : table.Arises := by
  obtain ⟨k, hmem, -⟩ := Entries.mem_of_lookup_eq_some (lookup_of_table htable)
  exact h (k, table) hmem

/-- The table that has been put in the place of another one is found there. -/
lemma table_withTable {name : String} {old : Table} (h : database.table name = .ok old)
    (table : Table) : (database.withTable name table).table name = .ok table := by
  obtain ⟨⟨⟩, hopen, -⟩ := Outcome.seq_eq_ok.mp h
  refine Outcome.seq_eq_ok.mpr ⟨(), hopen, ?_⟩
  simp only [withTable, Entries.lookup_put_self]
  rfl

/-- Putting a table in its own place changes nothing. -/
lemma withTable_self {name : String} {table : Table} (h : database.table name = .ok table) :
    database.withTable name table = database := by
  rw [withTable, Entries.put_of_lookup_eq_some (lookup_of_table h)]

/-- A table that has come about as tables do may be put into the catalog. -/
lemma TablesArise.withTable (h : database.TablesArise) {table : Table} (htable : table.Arises)
    (name : String) : (database.withTable name table).TablesArise := by
  intro entry hentry
  rcases Entries.mem_put hentry with hold | ⟨hnew, -⟩
  · exact h entry hold
  · rw [hnew]
    exact htable

/-- Tables may be taken out of the catalog. -/
lemma TablesArise.drop (h : database.TablesArise) (name : String) :
    TablesArise { database with tables := Entries.drop name database.tables } :=
  fun entry hentry => h entry (List.mem_filter.mp hentry).1

/-! ## Opening and closing -/

/-- The table of the first name is loaded first; if it is refused, this is reported and the others are
loaded nevertheless. -/
lemma loadTables_cons (database : Database) (world : World) (name : String) (rest : List String) :
    database.loadTables world (name :: rest) =
      let (notices, loaded) := Table.load name database.directory world.disk
      let world := world.noteAll notices
      match loaded with
      | .ok table => (database.withTable name table).loadTables world rest
      | .error fault =>
        if fault.isRefusal then
          database.loadTables (world.note (.tableSkipped name database.name fault.message)) rest
        else (.error fault, world) :=
  (rfl)

/-- The loading of tables keeps what is kept when a table that has been loaded is put into the
catalog. -/
lemma keeps_loadTables {P : Database → Prop} {names : List String} {world world' : World}
    {loaded : Database} (hput : ∀ (database : Database) (disk : Disk) (name : String)
      (notices : List Notice) (table : Table), P database →
        Table.load name database.directory disk = (notices, .ok table) →
          P (database.withTable name table))
    (h : P database) (hloaded : database.loadTables world names = (.ok loaded, world')) :
    P loaded := by
  induction names generalizing database world with
  | nil =>
    cases hloaded
    exact h
  | cons name rest ih =>
    rw [loadTables_cons] at hloaded
    cases hload : Table.load name database.directory world.disk with
    | mk notices result =>
      rw [hload] at hloaded
      cases result with
      | ok table => exact ih (hput database world.disk name notices table h hload) hloaded
      | error fault =>
        dsimp only at hloaded
        split at hloaded
        · exact ih h hloaded
        · cases hloaded

/-- The tables that are loaded come about as tables do. -/
lemma TablesArise.loadTables (h : database.TablesArise) {names : List String} {world world' : World}
    {loaded : Database} (hloaded : database.loadTables world names = (.ok loaded, world')) :
    loaded.TablesArise :=
  keeps_loadTables (fun _ _ name _ _ harise hload => harise.withTable (.loaded hload) name) h hloaded

/-- The tables of a database that has been opened come about as tables do. -/
theorem tablesArise_of_open {root : String} {name : Value} {world world' : World}
    (h : Database.open root name world = (.ok database, world')) : database.TablesArise := by
  unfold Database.open at h
  split at h
  · cases h
  · dsimp only at h
    split at h
    · cases h
    · split at h
      · rename_i hloaded
        cases h
        exact TablesArise.loadTables (fun entry hentry => by cases hentry) hloaded
      · cases h

/-- Closing a database leaves it without tables, or as it is. -/
lemma TablesArise.close (h : database.TablesArise) (world : World) :
    (database.close world).1.TablesArise := by
  rw [Database.close]
  split
  · exact h
  · intro entry hentry
    cases hentry

end Database

namespace Site

variable {site : Site}

/-! ## Operations on tables -/

/-- The site after an operation on a table has ended. -/
def after {α : Type} (site : Site) (name : String) (reply : Reply α) : Site :=
  ⟨site.database.withTable name reply.table, site.world.performAll reply.effects⟩

/-- Asking for a table gives it, or the reason why there is none, and changes nothing. -/
lemma perform_table {name : String} {result : Except Fault Table}
    (h : site.database.table name = result) :
    (Site.table name).perform site = (result, site) := by
  rw [← h]
  rfl

/-- An operation on a table that is there changes the table and the world as it says. -/
lemma perform_onTable {α : Type} {name : String} {table : Table}
    (h : site.database.table name = .ok table) (operation : Table → Reply α) :
    (onTable name operation).perform site =
      ((operation table).result, site.after name (operation table)) := by
  rw [onTable, Work.perform_bind_ok (perform_table h)]
  rfl

/-- An operation on a table that is not there changes nothing. -/
lemma perform_onTable_error {α : Type} {name : String} {fault : Fault}
    (h : site.database.table name = .error fault) (operation : Table → Reply α) :
    (onTable name operation).perform site = (.error fault, site) := by
  rw [onTable, Work.perform_bind_error (perform_table h)]

/-- An operation that has been refused leaves the site as it is. -/
lemma after_refused {α : Type} {name : String} {table : Table}
    (h : site.database.table name = .ok table) (fault : Fault) :
    site.after name (.refused table fault : Reply α) = site := by
  rw [after, Reply.refused, Database.withTable_self h]
  rfl

/-! ## Making and dropping tables -/

/-- Making a table is refused and changes nothing, or puts a new table into the catalog. -/
lemma createTable_cases (name : Value) (source : SchemaSource) (site : Site) :
    (∃ fault, (createTable name source).perform site = (.error fault, site)) ∨
      ∃ checked table effects world,
        Table.create checked source site.database.directory = .ok (table, effects) ∧
          (createTable name source).perform site =
            (.ok table, ⟨site.database.withTable checked table, world⟩) := by
  have hask : (askDatabase).perform site = (.ok site.database, site) := rfl
  rw [createTable, Work.perform_bind_ok hask]
  cases hopen : site.database.checkOpen with
  | error fault => exact Or.inl ⟨fault, rfl⟩
  | ok _ =>
    rw [Work.perform_bind_ok (Work.perform_ofExcept _ _)]
    cases hname : checkName .table name with
    | error fault => exact Or.inl ⟨fault, rfl⟩
    | ok checked =>
      rw [Work.perform_bind_ok (Work.perform_ofExcept _ _)]
      cases hthere : site.database.hasTable checked with
      | true => exact Or.inl ⟨_, rfl⟩
      | false =>
        cases hcreate : Table.create checked source site.database.directory with
        | error fault => exact Or.inl ⟨fault, rfl⟩
        | ok created => exact Or.inr ⟨checked, created.1, created.2, _, hcreate, rfl⟩

/-- Dropping a table that is not there changes nothing, and otherwise takes it out of the
catalog. -/
lemma dropTable_cases (name : String) (site : Site) :
    (∃ fault, (dropTable name).perform site = (.error fault, site)) ∨
      ∃ world, (dropTable name).perform site =
        (.ok (), ⟨{ site.database with tables := Entries.drop name site.database.tables },
          world⟩) := by
  cases h : site.database.table name with
  | error fault => exact Or.inl ⟨fault, Work.perform_bind_error (perform_table h) _⟩
  | ok table => exact Or.inr ⟨_, Work.perform_bind_ok (perform_table h) _⟩

end Site

end RecordStore
