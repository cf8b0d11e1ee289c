import RecordStore.Proofs.Site.Reopening

/-!
# Files that no table in the catalog has

A table that is refused when a database is opened is left out of the catalog, and its files stay in the
directory.  A database only touches files of tables in its catalog, so such a file lasts as long as none
of them has it.  But when a table is made nobody looks for files of its name: the name of a table that
has been left out can be taken like any other one, and the new table is written over the old files.
-/

namespace RecordStore

/-- A table whose schema file cannot be read is refused. -/
lemma Table.load_of_unreadable {name directory path : String} {disk : Disk}
    (h : disk.readSnapshot (schemaPath directory name) = .error (.unreadable path)) :
    load name directory disk = ([], .error (.unreadable path)) := by
  rw [load, loadRows, h]
  rfl

namespace Database

variable {database : Database}

/-- Tables that are refused without anything else to report are left out one after the other. -/
lemma loadTables_of_refused (database : Database) {names : List String} {fault : String → Fault}
    {world : World} (hrefusal : ∀ name, (fault name).isRefusal = true)
    (h : ∀ name ∈ names, Table.load name database.directory world.disk = ([], .error (fault name))) :
    database.loadTables world names = (.ok database, world.noteAll
      (names.map fun name => .tableSkipped name database.name (fault name).message)) := by
  induction names generalizing world with
  | nil => rw [loadTables, List.map_nil, World.noteAll, List.append_nil]
  | cons name rest ih =>
    obtain ⟨hfirst, hrest⟩ := List.forall_mem_cons.mp h
    rw [loadTables_cons, hfirst]
    dsimp only
    rw [if_pos (hrefusal name), @ih ((world.noteAll []).note _) hrest]
    simp [World.noteAll, World.note]

/-- The tables in the catalog are those that have an entry there. -/
lemma hasTable_iff {name : String} :
    database.hasTable name = true ↔ name ∈ Entries.keys database.tables := by
  rw [hasTable, Entries.has, Entries.keys, List.any_eq_true, List.mem_map]
  exact exists_congr fun entry => and_congr_right fun _ => beq_iff_eq

/-- In an open database a table in the catalog is found. -/
lemma exists_table (hopen : database.closed = false) {name : String}
    (h : database.hasTable name = true) : ∃ table, database.table name = .ok table := by
  obtain ⟨table, htable⟩ := Entries.mem_keys_iff.mp (hasTable_iff.mp h)
  refine ⟨table, ?_⟩
  rw [Database.table, checkOpen, hopen, htable]
  rfl

end Database

namespace Site

variable {site after : Site} {name : String}

/-! ## Tables that are made -/

/-- In an open database a table is made under every name that is free, if its schema is accepted; what is
on the disk has no say in it. -/
lemma perform_createTable (hopen : site.database.closed = false) (hname : IsName name)
    (hnew : site.database.hasTable name = false) (source : SchemaSource) :
    (createTable (.text name) source).perform site =
      match Table.create name source site.database.directory with
      | .ok (table, effects) => (.ok table, ⟨site.database.withTable name table,
          (site.world.performAll effects).note (.tableCreated site.database.name name)⟩)
      | .error fault => (.error fault, site) := by
  have hask : (askDatabase).perform site = (.ok site.database, site) := rfl
  have hcheckOpen : site.database.checkOpen = .ok () := by
    rw [Database.checkOpen, hopen]
    rfl
  have hcheckName : checkName .table (.text name) = .ok name := checkName_eq_ok.mpr ⟨rfl, hname⟩
  rw [createTable, Work.perform_bind_ok hask, hcheckOpen,
    Work.perform_bind_ok (Work.perform_ofExcept _ _), hcheckName,
    Work.perform_bind_ok (Work.perform_ofExcept _ _), hnew]
  cases Table.create name source site.database.directory <;> rfl

/-- The table of a step has been in the catalog before, or it is made. -/
lemma Step.hasTable_or {allowed : Operation → Prop} (h : Step allowed name site after) :
    site.database.hasTable name = true ∨ IsName name ∧ after.database.hasTable name = true := by
  have hthere : ∀ {table : Table}, site.database.table name = .ok table →
      site.database.hasTable name = true := fun htable =>
    Database.hasTable_iff.mpr (Entries.mem_keys_iff.mpr ⟨_, Database.lookup_of_table htable⟩)
  cases h with
  | requested htable _ => exact Or.inl (hthere htable)
  | created _ hname _ _ =>
    exact Or.inr ⟨hname, Database.hasTable_iff.mpr (Entries.mem_keys_put.mpr (Or.inl rfl))⟩
  | dropped htable => exact Or.inl (hthere htable)

/-- After a step the catalog has no table that has not been there before, apart from that of the step. -/
lemma Step.hasTable {allowed : Operation → Prop} (h : Step allowed name site after) {other : String}
    (hother : after.database.hasTable other = true) :
    other = name ∨ site.database.hasTable other = true := by
  rw [Database.hasTable_iff] at hother ⊢
  cases h with
  | requested _ _ => exact Entries.mem_keys_put.mp hother
  | created _ _ _ _ => exact Entries.mem_keys_put.mp hother
  | dropped _ => exact Or.inr (Entries.mem_keys_drop.mp hother).1

/-! ## Runs -/

/-- Something that is asked of a database. -/
inductive Call where
  | operation (operation : Operation)
  | query (text : String)
  | close

/-- The site after a call, whether it succeeds or not. -/
def takes (site : Site) : Call → Site
  | .operation operation => site.does operation
  | .query text => ((Query.execute text).perform site).2
  | .close => ⟨(site.database.close site.world).1, site.closed⟩

/-- The site after calls one after the other. -/
def takesAll (site : Site) (calls : List Call) : Site :=
  calls.foldl takes site

/-- A call asks a database for an operation. -/
def Call.Asks : Call → Operation → Prop
  | .operation asked, other => other = asked
  | .query text, other =>
    ∃ command, Query.Command.ofText text = .ok command ∧ other ∈ command.operation?
  | .close, _ => False

/-- A call is a step of one table by what it asks for, notices apart, or leaves the disk and adds nothing to
the catalog.  Unless it closes the database, it leaves this one as it is then. -/
lemma takes_cases {allowed : Operation → Prop} (site : Site) {call : Call}
    (hcall : ∀ operation, call.Asks operation → allowed operation) :
    (∃ name between, Step allowed name site between ∧
        (site.takes call).database = between.database ∧
        (site.takes call).world.disk = between.world.disk) ∨
      (site.takes call).database.directory = site.database.directory ∧
        (site.takes call).database.tables ⊆ site.database.tables ∧
        (site.takes call).world.disk = site.world.disk ∧
        (call ≠ .close → (site.takes call).database = site.database) := by
  cases call with
  | operation operation =>
    rcases does_cases allowed operation (hcall operation rfl) site with heq | ⟨name, -, hstep⟩
    · right
      rw [takes, heq]
      exact ⟨rfl, List.Subset.refl _, rfl, fun _ => rfl⟩
    · exact Or.inl ⟨name, _, hstep, rfl, rfl⟩
  | query text =>
    obtain ⟨between, hstep, hnoted⟩ := Query.step_execute allowed text
      (fun command hread operation hmem => hcall operation ⟨command, hread, hmem⟩) site
    rcases hstep with rfl | ⟨name, hstep⟩
    · right
      rw [takes, hnoted.database]
      exact ⟨rfl, List.Subset.refl _, hnoted.disk, fun _ => rfl⟩
    · exact Or.inl ⟨name, between, hstep, hnoted.database, hnoted.disk⟩
  | close =>
    right
    refine ⟨?_, ?_, disk_closed site, fun hcall => absurd rfl hcall⟩
    · rw [takes, Database.close]
      split <;> rfl
    · rw [takes, Database.close]
      split
      · exact List.Subset.refl _
      · exact List.nil_subset _

/-- A site has been reached from another one: the directory is the same, the files of all tables are in
it, and every table has been in the catalog from the start or could be made. -/
structure Reached (first site : Site) : Prop where
  directory : site.database.directory = first.database.directory
  placed : site.database.IsPlaced
  names : ∀ name, site.database.hasTable name = true →
    first.database.hasTable name = true ∨ IsName name

/-- A call goes on to a site that has been reached. -/
lemma Reached.takes {first : Site} (h : Reached first site) (call : Call) :
    Reached first (site.takes call) := by
  have hallowed : ∀ operation, call.Asks operation → True := fun _ _ => trivial
  rcases takes_cases site hallowed with
    ⟨name, between, hstep, hdatabase, -⟩ | ⟨hdirectory, htables, -, -⟩
  · refine ⟨?_, ?_, fun other hother => ?_⟩
    · rw [hdatabase, hstep.frame.1, h.directory]
    · rw [hdatabase]
      exact hstep.isPlaced h.placed
    · rw [hdatabase] at hother
      rcases hstep.hasTable hother with rfl | hold
      · exact hstep.hasTable_or.elim (h.names other) fun hmade => Or.inr hmade.1
      · exact h.names other hold
  · refine ⟨hdirectory.trans h.directory, ⟨?_, fun entry hentry => ?_⟩, fun other hother => ?_⟩
    · rw [hdirectory]
      exact h.placed.directory
    · rw [hdirectory]
      exact h.placed.tables entry (htables hentry)
    · rw [Database.hasTable_iff] at hother
      exact h.names other (Database.hasTable_iff.mpr (List.map_subset _ htables hother))

/-- A site has been reached from itself. -/
lemma Reached.refl (hplaced : site.database.IsPlaced) : Reached site site :=
  ⟨rfl, hplaced, fun _ => Or.inl⟩

/-- Calls lead to sites that are reached. -/
lemma reached_takesAll (hplaced : site.database.IsPlaced) (calls : List Call) :
    Reached site (site.takesAll calls) := by
  have hrun : ∀ (calls : List Call) (later : Site), Reached site later →
      Reached site (later.takesAll calls) := by
    intro calls
    induction calls with
    | nil => exact fun _ h => h
    | cons call rest ih => exact fun later h => ih _ (h.takes call)
  exact hrun calls site (.refl hplaced)

/-! ## Files that last -/

/-- A file in the directory of a database holds something. -/
def Holds (site : Site) (file : String) (content : Content) : Prop :=
  site.world.disk.find? (Path.join site.database.directory file) = some (.file content)

instance (site : Site) (file : String) (content : Content) : Decidable (site.Holds file content) :=
  inferInstanceAs (Decidable (_ = _))

/-- A file holds the same after a call if no table in the catalog before and after it has the file. -/
lemma Holds.takes {file : String} {content : Content} (h : site.Holds file content) {first : Site}
    (hreached : Reached first site)
    (hslash : ∀ name, first.database.hasTable name = true → '/' ∉ name.toList)
    (hentry : Path.IsEntryName file) {call : Call}
    (hbefore : ∀ name, site.database.hasTable name = true → file ∉ Table.fileNames name)
    (hafter : ∀ name, (site.takes call).database.hasTable name = true →
      file ∉ Table.fileNames name) :
    (site.takes call).Holds file content := by
  rw [Holds, (hreached.takes call).directory, ← hreached.directory]
  have hallowed : ∀ operation, call.Asks operation → True := fun _ _ => trivial
  rcases takes_cases site hallowed with
    ⟨name, between, hstep, hdatabase, hdisk⟩ | ⟨-, -, hdisk, -⟩
  · rw [hdatabase] at hafter
    have hfree : '/' ∉ name.toList ∧ file ∉ Table.fileNames name := by
      rcases hstep.hasTable_or with hthere | ⟨hname, hmade⟩
      · exact ⟨(hreached.names name hthere).elim (hslash name) IsName.slash, hbefore name hthere⟩
      · exact ⟨hname.slash, hafter name hmade⟩
    have hplace : Path.ofText (Path.join site.database.directory file) ∉
        Table.filePlaces site.database.directory name := by
      rw [Path.ofText_join hreached.placed.directory hentry,
        Table.place_mem_filePlaces_iff hreached.placed.directory hfree.1]
      exact hfree.2
    rw [hdisk, (hstep.differsWithin hreached.placed).find? hplace]
    exact h
  · rw [hdisk]
    exact h

/-- A file lasts through a run in which no table with this file is ever in the catalog. -/
lemma Holds.takesAll {file : String} {content : Content} (h : site.Holds file content)
    (hplaced : site.database.IsPlaced)
    (hslash : ∀ name, site.database.hasTable name = true → '/' ∉ name.toList)
    (hentry : Path.IsEntryName file) {calls : List Call}
    (hfree : ∀ done, done <+: calls → ∀ name,
      (site.takesAll done).database.hasTable name = true → file ∉ Table.fileNames name) :
    (site.takesAll calls).Holds file content := by
  induction calls using List.reverseRecOn with
  | nil => exact h
  | append_singleton calls call ih =>
    have hbefore := ih fun done hdone => hfree done (hdone.trans (List.prefix_append _ _))
    have hlast : site.takesAll (calls ++ [call]) = (site.takesAll calls).takes call :=
      List.foldl_concat _ _ _ _
    have hafter := hfree (calls ++ [call]) (List.prefix_refl _)
    rw [hlast] at hafter ⊢
    exact hbefore.takes (reached_takesAll hplaced calls) hslash hentry
      (hfree calls (List.prefix_append _ _)) hafter

/-! ## Files that are lost -/

/-- Columns that are accepted for a new table: there is one, of which nothing is said. -/
def anyColumn : SchemaSource :=
  .columns [(.text "a", .described (.map []))]

/-- A table that is dropped takes its files with it, whatever they hold. -/
lemma not_holds_dropTable (hplaced : site.database.IsPlaced) (hopen : site.database.closed = false)
    (hthere : site.database.hasTable name = true) {file : String} (hfile : file ∈ Table.fileNames name)
    (hfree : site.world.disk.hasDirectory (Path.join site.database.directory file) = false)
    (content : Content) : ¬(site.takes (.operation (.dropTable name))).Holds file content := by
  obtain ⟨table, htable⟩ := Database.exists_table hopen hthere
  have hgone := find?_dropTable hplaced htable hfile (of_decide_eq_false hfree)
  rw [Holds, ((Reached.refl hplaced).takes _).directory, takes, hgone]
  exact nofun

/-- If a table that is in the catalog or could be made has a file, some calls take the file away. -/
lemma exists_not_holds_takesAll {file : String} {content : Content} (h : site.Holds file content)
    (hplaced : site.database.IsPlaced) (hopen : site.database.closed = false)
    (hfile : file ∈ Table.fileNames name)
    (hname : site.database.hasTable name = true ∨ IsName name) :
    ∃ calls, ¬(site.takesAll calls).Holds file content := by
  have hfree : site.world.disk.hasDirectory (Path.join site.database.directory file) = false := by
    rw [Disk.hasDirectory, h]
    rfl
  cases hthere : site.database.hasTable name with
  | true =>
    exact ⟨[.operation (.dropTable name)],
      not_holds_dropTable hplaced hopen hthere hfile hfree content⟩
  | false =>
    -- the table is made first
    have hmade := hname.resolve_left (Bool.eq_false_iff.mp hthere)
    obtain ⟨table, effects, hcreate⟩ : ∃ table effects,
        Table.create name anyColumn site.database.directory = .ok (table, effects) := ⟨_, _, rfl⟩
    have hstep : Step (fun _ => True) name site
        (site.takes (.operation (.createTable (.text name) anyColumn))) := by
      rw [takes, does, perform_createTable hopen hmade hthere, hcreate]
      exact .created trivial hmade hthere hcreate
    have hnow := (hstep.hasTable_or.resolve_left (Bool.eq_false_iff.mp hthere)).2
    refine ⟨[.operation (.createTable (.text name) anyColumn), .operation (.dropTable name)],
      not_holds_dropTable (hstep.isPlaced hplaced) (hstep.frame.2.2.trans hopen) hnow hfile ?_ content⟩
    rw [hstep.frame.1, (hstep.differsWithin hplaced).directories.hasDirectory]
    exact hfree

/-- A table is made under a free name exactly if its schema is accepted, and then its files hold it, whatever
they have held before, if everything is saved. -/
lemma createTable_over (hopen : site.database.closed = false) (hname : IsName name)
    (hnew : site.database.hasTable name = false) (source : SchemaSource) (table : Table) :
    (((createTable (.text name) source).perform site).1 = .ok table ↔
        ∃ effects, Table.create name source site.database.directory = .ok (table, effects)) ∧
      (((createTable (.text name) source).perform site).1 = .ok table →
        (site.does (.createTable (.text name) source)).world.AllSaved →
          table.StoredIn (site.does (.createTable (.text name) source)).world.disk) := by
  rw [does, perform_createTable hopen hname hnew]
  cases hcreate : Table.create name source site.database.directory with
  | error fault =>
    refine ⟨⟨fun heq => ?_, fun hcreated => ?_⟩, fun heq => ?_⟩
    · cases heq
    · obtain ⟨effects, heq⟩ := hcreated
      cases heq
    · cases heq
  | ok made =>
    obtain ⟨created, effects⟩ := made
    refine ⟨⟨fun heq => ?_, fun hcreated => ?_⟩, fun heq hsaved => ?_⟩
    · obtain rfl := Except.ok.inj heq
      exact ⟨effects, rfl⟩
    · obtain ⟨effects', heq⟩ := hcreated
      obtain ⟨rfl, -⟩ := Prod.mk.inj (Except.ok.inj heq)
      rfl
    · obtain rfl := Except.ok.inj heq
      exact Table.storedIn_of_create hcreate (hsaved.of_prefix (List.prefix_append _ _))

/-! ## Tables left out of the catalog -/

/-- A database has been opened from a directory in which no name has a slash, and calls have followed. -/
inductive InUse : Site → Prop where
  | opened {root : String} {name : Value} {world after : World} {database : Database}
      (h : Database.open root name world = (.ok database, after))
      (hslash : ∀ entry ∈ after.disk.namesIn (Path.ofText database.directory), '/' ∉ entry.toList) :
      InUse ⟨database, after⟩
  | taken {site : Site} (h : InUse site) (call : Call) : InUse (site.takes call)

/-- The tables of a database in use are in its directory. -/
lemma InUse.isPlaced (h : site.InUse) : site.database.IsPlaced := by
  induction h with
  | opened h _ => exact Database.isPlaced_of_open h
  | taken _ call ih => exact ((Reached.refl ih).takes call).placed

/-- The names of the tables of a database in use have no slash. -/
lemma InUse.slash (h : site.InUse) (hthere : site.database.hasTable name = true) :
    '/' ∉ name.toList := by
  induction h with
  | @opened root given world after database hopened hslash =>
    obtain ⟨-, -, -, -, -, -, hlookup⟩ := Database.open_eq_ok hopened
    obtain ⟨table, htable⟩ := Entries.mem_keys_iff.mp (Database.hasTable_iff.mp hthere)
    have hmem : name ∈ Database.tableNames after.disk database.directory := by
      by_contra hnot
      rw [hlookup name, if_neg hnot] at htable
      cases htable
    have hentry := (Disk.mem_namesIn_iff_node? (Database.schemaFile_ne name)).mpr
      (Database.mem_tableNames.mp hmem).2
    have hnone := hslash _ hentry
    rw [String.toList_append, List.mem_append, not_or] at hnone
    exact hnone.1
  | taken h call ih =>
    exact (((Reached.refl h.isPlaced).takes call).names name hthere).elim ih IsName.slash

/-- A file of a table that is not in the catalog lasts through every run exactly if no table in the
catalog and none that could be made has it, and in any case through the runs in which no table with this
file is ever in the catalog.  But if its name can be that of a table, a new table is made under it
whatever the files hold, and they are written over. -/
theorem holds_takesAll_iff (h : site.InUse) (hopen : site.database.closed = false) {t : String}
    (hslash : '/' ∉ t.toList) (hout : site.database.hasTable t = false) {file : String}
    (hfile : file ∈ Table.fileNames t) {content : Content} (hholds : site.Holds file content) :
    ((∀ calls, (site.takesAll calls).Holds file content) ↔
        ∀ name, file ∈ Table.fileNames name →
          site.database.hasTable name = false ∧ ¬IsName name) ∧
      (∀ calls, (∀ done, done <+: calls → ∀ name,
          (site.takesAll done).database.hasTable name = true → file ∉ Table.fileNames name) →
        (site.takesAll calls).Holds file content) ∧
      (IsName t → ∀ source table,
        (((createTable (.text t) source).perform site).1 = .ok table ↔
          ∃ effects, Table.create t source site.database.directory = .ok (table, effects)) ∧
        (((createTable (.text t) source).perform site).1 = .ok table →
          (site.does (.createTable (.text t) source)).world.AllSaved →
            table.StoredIn (site.does (.createTable (.text t) source)).world.disk)) := by
  have hplaced := h.isPlaced
  have hentry := Table.isEntryName_of_mem_fileNames hslash hfile
  have hlasts : ∀ calls, (∀ done, done <+: calls → ∀ name,
      (site.takesAll done).database.hasTable name = true → file ∉ Table.fileNames name) →
        (site.takesAll calls).Holds file content := fun calls hfree =>
    hholds.takesAll hplaced (fun _ => h.slash) hentry hfree
  refine ⟨⟨fun hall name hname => ?_, fun hnone calls => ?_⟩, hlasts,
    fun hname => createTable_over hopen hname hout⟩
  · rw [← Bool.not_eq_true, ← not_or]
    intro hcould
    obtain ⟨calls, hlost⟩ := exists_not_holds_takesAll hholds hplaced hopen hname hcould
    exact hlost (hall calls)
  · refine hlasts calls fun done _ name hthere hmem => ?_
    obtain ⟨hno, hnot⟩ := hnone name hmem
    rcases (reached_takesAll hplaced done).names name hthere with hold | hmade
    · rw [hno] at hold
      cases hold
    · exact hnot hmade

/-- The directory of a database with two schema files that are broken off. -/
def brokenSchemas : World :=
  ⟨⟨[(["db"], .directory), (["db", "my t_schema.json"], .file (.text "\x7b")),
    (["db", "t_schema.json"], .file (.text "\x7b"))]⟩, []⟩

/-- The site after the database has been opened, with both tables left out. -/
def withoutBroken : Site :=
  ⟨⟨"db", "db", [], false⟩, ⟨brokenSchemas.disk,
    (["my t", "t"].map fun name =>
      .tableSkipped name "db" (Fault.unreadable (Table.schemaPath "db" name)).message) ++
        [.databaseOpened "db" 0]⟩⟩

/-- The names in the directory. -/
lemma namesIn_brokenSchemas : brokenSchemas.disk.namesIn (Path.ofText "db") =
    ["my t_schema.json", "t_schema.json"] := by
  rw [Disk.namesIn, List.mergeSort_of_pairwise (by decide +kernel)]
  decide +kernel

/-- The two schema files cannot be read. -/
lemma load_brokenSchemas : ∀ name ∈ ["my t", "t"], Table.load name "db" brokenSchemas.disk =
    ([], .error (.unreadable (Table.schemaPath "db" name))) := by
  have hread : Snapshot.read ("\x7b".toList) = .error .malformed := rfl
  have hfind : ∀ name ∈ ["my t", "t"], brokenSchemas.disk.find? (Table.schemaPath "db" name) =
      some (.file (.text "\x7b")) := by
    decide +kernel
  intro name hname
  refine Table.load_of_unreadable ?_
  rw [Disk.readSnapshot, hfind name hname]
  dsimp only
  rw [hread]

/-- The database is opened, and both tables are left out. -/
lemma open_brokenSchemas : Database.open "" (.text "db") brokenSchemas =
    (.ok withoutBroken.database, withoutBroken.world) := by
  have hplace : Path.join "" "db" = "db" := by
    decide +kernel
  have hdirectory : brokenSchemas.disk.hasDirectory (Path.join "" "db") = true := by
    decide +kernel
  have hnames : Database.tableNames brokenSchemas.disk "db" = ["my t", "t"] := by
    rw [Database.tableNames, if_pos (hplace ▸ hdirectory), namesIn_brokenSchemas]
    decide +kernel
  have hloaded : Database.loadTables ⟨"db", "db", [], false⟩ brokenSchemas ["my t", "t"] =
      (.ok ⟨"db", "db", [], false⟩, brokenSchemas.noteAll (["my t", "t"].map fun name =>
        .tableSkipped name "db" (Fault.unreadable (Table.schemaPath "db" name)).message)) :=
    Database.loadTables_of_refused _ (fun _ => rfl) load_brokenSchemas
  rw [Database.open_of_hasDirectory (by decide) hdirectory, hplace, hnames, hloaded]
  rfl

/-- The database without the two tables is in use. -/
lemma inUse_withoutBroken : withoutBroken.InUse := by
  have hslash : ∀ entry ∈ brokenSchemas.disk.namesIn (Path.ofText "db"), '/' ∉ entry.toList := by
    rw [namesIn_brokenSchemas]
    decide
  exact .opened open_brokenSchemas hslash

/-- The schema file of `my t` lasts, since no table can be made under such a name; that of `t` does not, and
it is written over when a table is made under the name. -/
theorem holds_takesAll_iff_withoutBroken :
    withoutBroken.InUse ∧
    (∀ calls, (withoutBroken.takesAll calls).Holds "my t_schema.json" (.text "\x7b")) ∧
    (¬∀ calls, (withoutBroken.takesAll calls).Holds "t_schema.json" (.text "\x7b")) ∧
    ∃ table, ((createTable (.text "t") anyColumn).perform withoutBroken).1 = .ok table ∧
      table.StoredIn (withoutBroken.does (.createTable (.text "t") anyColumn)).world.disk := by
  have hholds : ∀ file ∈ ["my t_schema.json", "t_schema.json"],
      withoutBroken.Holds file (.text "\x7b") := by
    decide +kernel
  obtain ⟨hlasts, -⟩ := holds_takesAll_iff inUse_withoutBroken rfl (by decide : '/' ∉ "my t".toList) rfl
    (by decide : "my t_schema.json" ∈ Table.fileNames "my t") (hholds _ (by decide))
  obtain ⟨hlost, -, hmakes⟩ := holds_takesAll_iff inUse_withoutBroken rfl (by decide : '/' ∉ "t".toList)
    rfl (by decide : "t_schema.json" ∈ Table.fileNames "t") (hholds _ (by decide))
  obtain ⟨table, effects, hcreate⟩ : ∃ table effects,
      Table.create "t" anyColumn "db" = .ok (table, effects) := ⟨_, _, rfl⟩
  obtain ⟨hmade, hstored⟩ := hmakes (by decide) anyColumn table
  refine ⟨inUse_withoutBroken, hlasts.mpr fun name hname => ?_, fun hall => ?_, table,
    hmade.mpr ⟨effects, hcreate⟩, hstored (hmade.mpr ⟨effects, hcreate⟩) (by decide +kernel)⟩
  · have hfile : "my t_schema.json" = "my t" ++ Table.schemaEnding := by decide
    rw [hfile] at hname
    rcases Table.schemaFile_mem_fileNames_iff.mp hname with rfl | rfl
    · exact ⟨rfl, by decide⟩
    · exact ⟨rfl, by decide⟩
  · exact (hlost.mp hall "t" (by decide)).2 (by decide)

/-- A file that could not be read is replaced: a table is made under the name of a table that has been left
out, and its schema file no longer holds what it has held. -/
theorem not_holds_takesAll_withoutBroken :
    ¬∀ site : Site, site.InUse →
      ∀ t ∈ Database.tableNames site.world.disk site.database.directory, ∀ path,
        Database.loaded site.database.directory site.world.disk t = .error (.unreadable path) →
          ∀ file ∈ Table.fileNames t, ∀ content, site.Holds file content →
            ∀ source table, ((createTable (.text t) source).perform site).1 = .ok table →
              (site.does (.createTable (.text t) source)).Holds file content := by
  intro hall
  have hthere : "t" ∈ Database.tableNames withoutBroken.world.disk "db" :=
    Database.mem_tableNames.mpr ⟨by decide +kernel, by decide +kernel⟩
  have hrefused := congrArg Prod.snd (load_brokenSchemas "t" (by decide))
  obtain ⟨table, hmade⟩ : ∃ table,
      ((createTable (.text "t") anyColumn).perform withoutBroken).1 = .ok table := ⟨_, rfl⟩
  have hkept := hall withoutBroken inUse_withoutBroken "t" hthere _ hrefused "t_schema.json" (by decide)
    (.text "\x7b") (by decide +kernel) anyColumn table hmade
  exact absurd hkept (by decide +kernel)

end Site

end RecordStore
