import RecordStore.Proofs.Disk.Making
import RecordStore.Proofs.Registry.Handles

/-!
# Names that become names of files

The names of databases and tables become names of directories and files.  They are checked before anything
is touched: only identifiers pass, and identifiers with one line break at the end.  So whatever is asked of
a registry and of the databases under its root, nothing is made outside the directories of databases, and
apart from the characters of identifiers the names that are made only have such that have been let through
or that the names of schema files have had before.
-/

namespace RecordStore

/-! ## Names that pass -/

/-- A character that identifiers are made of. -/
def IsWordChar (c : Char) : Prop :=
  (c.isAlphanum || c == '_') = true

instance (c : Char) : Decidable (IsWordChar c) :=
  inferInstanceAs (Decidable (_ = true))

/-- The names that pass are identifiers, and identifiers with one line break at the end. -/
lemma isName_iff {name : String} :
    IsName name ↔ isIdentifier name.toList = true ∨
      ∃ front : String, isIdentifier front.toList = true ∧ name = front ++ "\n" := by
  have hbreak : ∀ cs : List Char, isIdentifier (cs ++ ['\n']) = false := by
    intro cs
    cases cs with
    | nil => decide
    | cons c cs =>
      rw [List.cons_append, isIdentifier, List.all_append, Bool.and_eq_false_iff]
      exact Or.inr (by simp)
  rw [IsName, Numeral.dropFinalBreak]
  split
  · rename_i hlast
    obtain ⟨cs, hcs⟩ := List.getLast?_eq_some_iff.mp hlast
    rw [hcs, List.dropLast_concat, hbreak]
    have hname : name = String.ofList cs ++ "\n" := by
      refine String.toList_injective ?_
      rw [hcs, String.toList_append, String.toList_ofList]
      rfl
    constructor
    · exact fun h => Or.inr ⟨String.ofList cs, by rwa [String.toList_ofList], hname⟩
    · rintro (h | ⟨front, hfront, heq⟩)
      · cases h
      · rw [hname] at heq
        have hsame := (String.append_left_inj "\n").mp heq
        rw [← hsame, String.toList_ofList] at hfront
        exact hfront
  · rename_i hlast
    refine ⟨Or.inl, ?_⟩
    rintro (h | ⟨front, -, rfl⟩)
    · exact h
    · rw [String.toList_append] at hlast
      exact absurd (List.getLast?_concat) hlast

/-- A value that is no name is refused. -/
lemma exists_checkName_eq_error (role : NameRole) {v : Value}
    (h : ∀ name, v = .text name → ¬IsName name) : ∃ fault, checkName role v = .error fault := by
  cases hcheck : checkName role v with
  | error fault => exact ⟨fault, rfl⟩
  | ok name =>
    obtain ⟨hv, hname⟩ := checkName_eq_ok.mp hcheck
    exact absurd hname (h name hv)

/-- A database is not opened under a value that is no name, and the world stays. -/
lemma Database.open_of_not_isName {v : Value} (h : ∀ name, v = .text name → ¬IsName name)
    (root : String) (world : World) : ∃ fault, Database.open root v world = (.error fault, world) := by
  obtain ⟨fault, hfault⟩ := exists_checkName_eq_error .database h
  exact ⟨fault, by rw [Database.open, hfault]⟩

/-- A registry that is asked for a value that is no name stays as it is. -/
lemma Hub.perform_get_of_not_isName {v : Value} (h : ∀ name, v = .text name → ¬IsName name) (hub : Hub)
    (create : Bool) : ((get v create).perform hub).2 = hub := by
  have hgets := gets_perform hub v create
  generalize (get v create).perform hub = outcome at hgets
  cases hgets with
  | kept _ _ => rfl
  | opened hv _ hopen =>
    subst hv
    obtain ⟨fault, hfault⟩ := Database.open_of_not_isName h hub.registry.root hub.world
    cases hfault.symm.trans hopen
  | refused hv hopen =>
    subst hv
    obtain ⟨fault, hfault⟩ := Database.open_of_not_isName h hub.registry.root hub.world
    rw [← (Prod.mk.inj (hfault.symm.trans hopen)).2]
  | rejected _ => rfl

/-- A table is not made under a value that is no name, and everything stays. -/
lemma Site.perform_createTable_of_not_isName {v : Value} (h : ∀ name, v = .text name → ¬IsName name)
    (site : Site) (source : SchemaSource) :
    ∃ fault, (createTable v source).perform site = (.error fault, site) := by
  have hask : askDatabase.perform site = (.ok site.database, site) := rfl
  rw [createTable, Work.perform_bind_ok hask]
  cases site.database.checkOpen with
  | error fault => exact ⟨fault, rfl⟩
  | ok _ =>
    obtain ⟨fault, hfault⟩ := exists_checkName_eq_error .table h
    rw [Work.perform_bind_ok (Work.perform_ofExcept _ _), hfault]
    exact ⟨fault, rfl⟩

/-! ## What is made on the disk -/

/-- All characters of a name are from a set. -/
def MadeOf (good : Char → Prop) (name : String) : Prop :=
  ∀ c ∈ name.toList, good c

/-- On a disk nothing is new but the directories that lead to a root, directories of databases in it, and
files of tables in these, with names that are made of some characters. -/
structure Disk.Extends (disk first : Disk) (root : String) (good : Char → Prop) : Prop where
  directories : ∀ path, first.node? path = none → disk.node? path = some .directory →
    path ∈ (Path.stages root).map Path.ofText ∨
      ∃ name, IsName name ∧ MadeOf good name ∧ path = Path.ofText root ++ [name]
  files : ∀ path content, first.node? path = none → disk.node? path = some (.file content) →
    ∃ name stem, IsName name ∧ MadeOf good name ∧ MadeOf good stem ∧
      path = Path.ofText root ++ [name, stem ++ ".json"]

/-- The names that are given, and those that are on the disk, are made of some characters, among them those
of identifiers but not the slash. -/
structure Supplies (root : String) (first : Disk) (given : String → Prop) (good : Char → Prop) : Prop where
  word : ∀ c, IsWordChar c → good c
  slash : ¬good '/'
  given : ∀ name, given name → IsName name → MadeOf good name
  found : ∀ name, IsName name →
    first.node? (Path.ofText root ++ [name]) ≠ none ∨ name ∈ Path.names root → MadeOf good name
  stored : ∀ name stem, IsName name →
    first.node? (Path.ofText root ++ [name, stem ++ Table.schemaEnding]) ≠ none → MadeOf good stem

section

variable {root : String} {first disk disk' : Disk} {given : String → Prop} {good : Char → Prop}

/-- A name that has no slash can be the name of an entry, if it is the name of a database. -/
lemma IsName.isEntryName {name : String} (h : IsName name) : Path.IsEntryName name := by
  obtain ⟨init, last, hlast, -, hpoint⟩ := h.exists_last
  refine ⟨h.slash, h.ne_empty, ?_, ?_⟩
  · rintro rfl
    exact absurd h (by decide)
  · rintro rfl
    exact absurd h (by decide)

/-- The directory of a database is one name further than the root. -/
lemma IsName.ofText_join {name : String} (h : IsName name) (root : String) :
    Path.ofText (Path.join root name) = Path.ofText root ++ [name] :=
  Path.ofText_join_of_isEntryName root h.isEntryName

/-- Names are made of characters that have no slash among them. -/
lemma Supplies.slash_of_madeOf (h : Supplies root first given good) {name : String}
    (hname : MadeOf good name) : '/' ∉ name.toList :=
  fun hmem => h.slash (hname _ hmem)

/-- A disk has nothing new to itself. -/
lemma Disk.extends_self (first : Disk) (root : String) (good : Char → Prop) :
    first.Extends first root good :=
  ⟨fun _ hnone hthere => absurd (hnone.symm.trans hthere) nofun,
    fun _ _ hnone hthere => absurd (hnone.symm.trans hthere) nofun⟩

/-- Making the directory of a database under the root makes nothing else. -/
lemma Disk.Extends.growsBy (h : disk.Extends first root good) {name : String} (hname : IsName name)
    (hgood : MadeOf good name)
    (hgrows : disk.GrowsBy disk' ((Path.stages (Path.join root name)).map Path.ofText)) :
    disk'.Extends first root good := by
  rw [Path.stages_join root hname.isEntryName, List.map_cons, hname.ofText_join] at hgrows
  refine ⟨fun path hnone hthere => ?_, fun path content hnone hthere => ?_⟩
  · rcases hgrows.node?_cases path with hsame | ⟨-, -, hplace⟩
    · exact h.directories path hnone (hsame.symm.trans hthere)
    · rcases List.mem_cons.mp hplace with heq | hroot
      · exact Or.inr ⟨name, hname, hgood, heq⟩
      · exact Or.inl hroot
  · rcases hgrows.node?_cases path with hsame | ⟨-, hmade, -⟩
    · exact h.files path content hnone (hsame.symm.trans hthere)
    · cases hmade.symm.trans hthere

/-- Files of a table whose name is made of the characters are no other new ones. -/
lemma Disk.Extends.differsWithin (h : disk.Extends first root good)
    (hsupplies : Supplies root first given good) {name table : String} (hname : IsName name)
    (hgood : MadeOf good name) (htable : MadeOf good table)
    (hdiffers : disk.DiffersWithin disk' (Table.filePlaces (Path.join root name) table)) :
    disk'.Extends first root good := by
  refine ⟨fun path hnone hthere => h.directories path hnone ?_, fun path content hnone hthere => ?_⟩
  · have hsame := hdiffers.directories path
    rw [Disk.isDirectory, Disk.isDirectory, hthere] at hsame
    simpa using hsame
  · by_cases hplace : path ∈ Table.filePlaces (Path.join root name) table
    · obtain ⟨file, hfile, rfl⟩ := (Table.mem_filePlaces (hname.endsInName_join root)
        (hsupplies.slash_of_madeOf htable)).mp hplace
      obtain ⟨ending, hending, rfl⟩ := List.mem_map.mp hfile
      obtain ⟨middle, hmiddle, hword⟩ : ∃ middle : String, ending = middle ++ ".json" ∧
          (middle.toList.all fun c => c.isAlphanum || c == '_') = true := by
        simp only [Table.fileEndings, List.mem_cons, List.not_mem_nil, or_false] at hending
        rcases hending with rfl | rfl | rfl
        · exact ⟨"_schema", by decide, by decide⟩
        · exact ⟨"", by decide, by decide⟩
        · exact ⟨"_index", by decide, by decide⟩
      refine ⟨name, table ++ middle, hname, hgood, fun c hc => ?_, ?_⟩
      · rw [String.toList_append] at hc
        exact (List.mem_append.mp hc).elim (htable c) fun hc =>
          hsupplies.word c (List.all_eq_true.mp hword c hc)
      · rw [hname.ofText_join, hmiddle, ← String.append_assoc, List.append_assoc]
        rfl
    · exact h.files path content hnone ((hdiffers.others path hplace).symm.trans hthere)

/-- The name of a directory under the root is made of the characters, if a database can have it. -/
lemma Disk.Extends.madeOf_of_namesIn (h : disk.Extends first root good)
    (hsupplies : Supplies root first given good) {name : String} (hname : IsName name)
    (hthere : name ∈ disk.namesIn (Path.ofText root)) : MadeOf good name := by
  have hpoints : name ≠ ".." ∧ name ≠ Path.rootName :=
    ⟨hname.isEntryName.points, fun heq => hname.slash (by rw [heq]; decide)⟩
  have hnode := (Disk.mem_namesIn_iff_node? hpoints).mp hthere
  by_cases hnone : first.node? (Path.ofText root ++ [name]) = none
  · cases hcase : disk.node? (Path.ofText root ++ [name]) with
    | none => exact absurd hcase hnode
    | some node =>
      cases node with
      | directory =>
        rcases h.directories _ hnone hcase with hroot | ⟨other, -, hgood, heq⟩
        · refine hsupplies.found name hname (Or.inr ?_)
          exact (Path.eq_or_mem_of_mem_stages hroot (by simp)).resolve_left hpoints.2
        · obtain rfl := List.singleton_inj.mp (List.append_cancel_left heq)
          exact hgood
      | file content =>
        obtain ⟨other, stem, -, -, -, heq⟩ := h.files _ content hnone hcase
        exact absurd (congrArg List.length (List.append_cancel_left heq)) (by simp)
  · exact hsupplies.found name hname (Or.inl hnone)

/-- What a table is loaded from is no directory. -/
lemma Table.node?_schemaFile_of_load {directory table : String} (hdirectory : Path.EndsInName directory)
    (hslash : '/' ∉ table.toList) {loaded : Table}
    (hload : Database.loaded directory disk table = .ok loaded) :
    disk.node? (Path.ofText directory ++ [table ++ schemaEnding]) ≠ some .directory := by
  intro hnode
  obtain ⟨unindexed, hrows⟩ : ∃ unindexed, loadRows table directory disk = .ok unindexed := by
    rw [Database.loaded, load] at hload
    cases hrows : loadRows table directory disk with
    | ok unindexed => exact ⟨unindexed, rfl⟩
    | error fault =>
      rw [hrows] at hload
      cases hload
  obtain ⟨v, -, -, -, -, hread, hpresent, -⟩ := loadRows_eq_ok_iff.mp hrows
  have hentry : Path.IsEntryName (table ++ schemaEnding) :=
    isEntryName_of_mem_fileNames hslash (by simp [fileNames, fileEndings])
  rw [Disk.readSnapshot, Disk.find?_eq_bind] at hread
  cases hplace : disk.place? (schemaPath directory table) with
  | none =>
    rw [hplace] at hread
    obtain rfl := Except.ok.inj hread
    cases hpresent
  | some place =>
    obtain rfl := Disk.eq_ofText_of_place? hplace
    rw [hplace, Option.bind_some, schemaPath, Path.ofText_join hdirectory hentry, hnode] at hread
    cases hread

/-- The name of a table that has been loaded from the directory of a database is made of the characters. -/
lemma Disk.Extends.madeOf_of_load (h : disk.Extends first root good)
    (hsupplies : Supplies root first given good) {name table : String} (hname : IsName name)
    (hmem : table ∈ Database.tableNames disk (Path.join root name)) {loaded : Table}
    (hload : Database.loaded (Path.join root name) disk table = .ok loaded) : MadeOf good table := by
  have hplace : Path.ofText (Path.join root name) ++ [table ++ Table.schemaEnding] =
      Path.ofText root ++ [name, table ++ Table.schemaEnding] := by
    rw [hname.ofText_join, List.append_assoc]
    rfl
  have hnode := (Database.mem_tableNames.mp hmem).2
  rw [hplace] at hnode
  by_cases hnone : first.node? (Path.ofText root ++ [name, table ++ Table.schemaEnding]) = none
  · cases hcase : disk.node? (Path.ofText root ++ [name, table ++ Table.schemaEnding]) with
    | none => exact absurd hcase hnode
    | some node =>
      cases node with
      | file content =>
        obtain ⟨other, stem, -, -, hstem, heq⟩ := h.files _ content hnone hcase
        have hjson : table ++ "_schema" ++ ".json" = stem ++ ".json" := by
          rw [String.append_assoc]
          exact (List.cons.inj (List.cons.inj (List.append_cancel_left heq)).2).1
        have hsame := (String.append_left_inj ".json").mp hjson
        intro c hc
        refine hstem c ?_
        rw [← hsame, String.toList_append]
        exact List.mem_append_left _ hc
      | directory =>
        have hslash : '/' ∉ table.toList := by
          rcases h.directories _ hnone hcase with hroot | ⟨other, -, -, heq⟩
          · have hpart := (Path.eq_or_mem_of_mem_stages hroot (by simp)).resolve_left
              (Database.schemaFile_ne table).2
            have hnames := Path.slash_of_mem_names hpart
            rw [String.toList_append, List.mem_append, not_or] at hnames
            exact hnames.1
          · exact absurd (congrArg List.length (List.append_cancel_left heq)) (by simp)
        exact absurd (hplace ▸ hcase) (Table.node?_schemaFile_of_load (hname.endsInName_join root)
          hslash hload)
  · exact hsupplies.stored name table hname hnone

end

/-! ## Databases and what is asked of them -/

namespace Database

variable {root : String} {first : Disk} {given : String → Prop} {good : Char → Prop} {database : Database}

/-- A database is in the directory of its name under a root, and its name and those of its tables are made of
some characters. -/
structure Confined (root : String) (good : Char → Prop) (database : Database) : Prop where
  name : IsName database.name
  madeOf : MadeOf good database.name
  directory : database.directory = Path.join root database.name
  placed : database.IsPlaced
  tables : ∀ table, database.hasTable table = true → MadeOf good table

/-- Loading tables leaves the disk. -/
lemma disk_loadTables (database : Database) (names : List String) (world : World) :
    (database.loadTables world names).2.disk = world.disk := by
  induction names generalizing database world with
  | nil => rfl
  | cons name rest ih =>
    rw [loadTables_cons]
    cases Table.load name database.directory world.disk with
    | mk notices result =>
      cases result with
      | ok table => exact ih _ _
      | error fault =>
        dsimp only
        split
        · exact ih _ _
        · rfl

/-- Opening a database makes its directory and changes nothing else on the disk. -/
lemma disk_open {name : String} (hname : IsName name) (root : String) (world : World) :
    (Database.open root (.text name) world).2.disk =
      (world.disk.makeDirectories (Path.join root name)).2 := by
  have hcheck : checkName .database (.text name) = .ok name := checkName_eq_ok.mpr ⟨rfl, hname⟩
  rw [Database.open, hcheck]
  dsimp only
  generalize world.disk.makeDirectories (Path.join root name) = made
  obtain ⟨fault | _, disk⟩ := made
  · rfl
  · have hdisk := disk_loadTables ⟨name, Path.join root name, [], false⟩
      (tableNames disk (Path.join root name)) { world with disk }
    dsimp only at hdisk ⊢
    generalize loadTables ⟨name, Path.join root name, [], false⟩ { world with disk }
      (tableNames disk (Path.join root name)) = loaded at hdisk ⊢
    obtain ⟨fault | database, after⟩ := loaded
    · exact hdisk
    · exact hdisk

/-- Opening a database only extends the disk, and the database is confined. -/
lemma confined_open (hsupplies : Supplies root first given good) {world : World}
    (h : world.disk.Extends first root good) {v : Value}
    (hgood : ∀ name, v = .text name → IsName name → MadeOf good name) :
    (Database.open root v world).2.disk.Extends first root good ∧
      ∀ database, (Database.open root v world).1 = .ok database → database.Confined root good := by
  by_cases hpass : ∃ name, v = .text name ∧ IsName name
  · obtain ⟨name, rfl, hname⟩ := hpass
    have hdisk : (Database.open root (.text name) world).2.disk.Extends first root good := by
      rw [disk_open hname]
      exact h.growsBy hname (hgood name rfl hname) (Disk.growsBy_makeDirectories _ _)
    refine ⟨hdisk, fun database hopened => ?_⟩
    have hopen : Database.open root (.text name) world =
        (.ok database, (Database.open root (.text name) world).2) := Prod.ext hopened rfl
    obtain ⟨other, hother, -, hdirectory, -, -, hlookup⟩ := open_eq_ok hopen
    obtain rfl := Value.text.inj hother
    have hsame := name_of_open hopen
    refine ⟨hsame ▸ hname, hsame ▸ hgood name rfl hname, hsame ▸ hdirectory, isPlaced_of_open hopen,
      fun table htable => ?_⟩
    obtain ⟨found, hfound⟩ := Entries.mem_keys_iff.mp (hasTable_iff.mp htable)
    rw [hlookup table, hdirectory] at hfound
    split at hfound
    · rename_i hmem
      cases hloaded : loaded (Path.join root name)
        (Database.open root (.text name) world).2.disk table with
      | ok other => exact hdisk.madeOf_of_load hsupplies hname hmem hloaded
      | error fault =>
        rw [hloaded] at hfound
        cases hfound
    · cases hfound
  · have hnot : ∀ name, v = .text name → ¬IsName name := fun name hv hname => hpass ⟨name, hv, hname⟩
    obtain ⟨fault, hfault⟩ := open_of_not_isName hnot root world
    rw [hfault]
    exact ⟨h, fun database hopened => by cases hopened⟩

end Database

namespace Site

variable {root : String} {first : Disk} {given : String → Prop} {good : Char → Prop} {site : Site}

/-- What is asked of a database gives it a name for a table. -/
def Call.Gives : Call → String → Prop
  | .operation (.createTable v _), name => v = .text name
  | .query text, name => ∃ columns, Query.Command.ofText text = .ok (.createTable name columns)
  | _, _ => False

/-- A call only makes tables under names that it gives. -/
def Call.Allows (call : Call) (operation : Operation) : Prop :=
  ∀ name source, operation = .createTable (.text name) source → call.Gives name

/-- What a call asks for makes tables only under names that it gives. -/
lemma Call.allows_of_asks {call : Call} {operation : Operation} (h : call.Asks operation) :
    call.Allows operation := by
  rintro name source rfl
  cases call with
  | operation asked =>
    subst h
    exact rfl
  | query text =>
    obtain ⟨command, hread, hmem⟩ := h
    cases command with
    | createTable table columns =>
      obtain ⟨hname, -⟩ := Operation.createTable.inj (Option.some.inj hmem)
      exact ⟨columns, Value.text.inj hname ▸ hread⟩
    | _ => cases hmem
  | close => exact h.elim

/-- What is asked of a confined database only extends the disk, and the database stays confined. -/
lemma confined_takes (hsupplies : Supplies root first given good)
    (h : site.world.disk.Extends first root good) (hdatabase : site.database.Confined root good)
    {call : Call} (hgives : ∀ name, call.Gives name → given name) :
    (site.takes call).world.disk.Extends first root good ∧
      (site.takes call).database.Confined root good := by
  obtain ⟨hname, hgood, hdirectory, hplaced, htables⟩ := hdatabase
  have hsame := name_takes site call
  rcases takes_cases site fun _ => Call.allows_of_asks with
    ⟨table, between, hstep, hbetween, hdisk⟩ | ⟨hdir, hsub, hdisk, -⟩
  · have hthere : ∀ {found : Table}, site.database.table table = .ok found → MadeOf good table :=
      fun hfound => htables table
        (Database.hasTable_iff.mpr (Entries.mem_keys_iff.mpr ⟨_, Database.lookup_of_table hfound⟩))
    have htable : MadeOf good table := by
      cases hstep with
      | requested hfound _ => exact hthere hfound
      | created hallowed hpass _ _ => exact hsupplies.given table (hgives _ (hallowed _ _ rfl)) hpass
      | dropped hfound => exact hthere hfound
    rw [hbetween] at hsame ⊢
    rw [hdisk]
    refine ⟨h.differsWithin hsupplies hname hgood htable (hdirectory ▸ hstep.differsWithin hplaced),
      hsame ▸ hname, hsame ▸ hgood, hsame ▸ hstep.frame.1.trans hdirectory, hstep.isPlaced hplaced,
      fun other hother => ?_⟩
    rcases hstep.hasTable hother with rfl | hold
    · exact htable
    · exact htables other hold
  · refine ⟨hdisk ▸ h, hsame ▸ hname, hsame ▸ hgood, hsame ▸ hdir.trans hdirectory,
      ⟨hdir ▸ hplaced.directory, ?_⟩, fun other hother => ?_⟩
    · rw [hdir]
      exact fun entry hentry => hplaced.tables entry (hsub hentry)
    · rw [Database.hasTable_iff] at hother
      exact htables other (Database.hasTable_iff.mpr (List.map_subset _ hsub hother))

end Site

namespace Hub

variable {root : String} {first : Disk} {given : String → Prop} {good : Char → Prop} {hub after : Hub}

/-- A registry has only extended the disk, and its databases are confined. -/
structure Confined (root : String) (first : Disk) (good : Char → Prop) (hub : Hub) : Prop where
  place : hub.registry.root = root
  disk : hub.world.disk.Extends first root good
  databases : ∀ entry ∈ hub.registry.databases, entry.2.Confined root good

/-- A registry that goes on under names made of the characters stays confined. -/
lemma Confined.opens (hsupplies : Supplies root first given good) (h : hub.Confined root first good)
    {allowed : String → Prop} (hopens : hub.Opens allowed after)
    (hallowed : ∀ name, allowed name → IsName name → MadeOf good name) :
    after.Confined root first good := by
  induction hopens with
  | refl => exact h
  | @opened between _ name hname database world _ hopen ih =>
    have hopened := Database.confined_open hsupplies ih.disk
      fun _ heq => Value.text.inj heq ▸ hallowed name hname
    rw [← ih.place, hopen, ih.place] at hopened
    refine ⟨ih.place, hopened.1, fun entry hentry => ?_⟩
    rcases Entries.mem_put hentry with hold | ⟨hnew, -⟩
    · exact ih.databases entry hold
    · rw [hnew]
      exact hopened.2 database rfl
  | @refused between _ name hname fault world hopen ih =>
    have hopened := Database.confined_open hsupplies ih.disk
      fun _ heq => Value.text.inj heq ▸ hallowed name hname
    rw [← ih.place, hopen, ih.place] at hopened
    exact ⟨ih.place, hopened.1, ih.databases⟩
  | noted _ notice ih => exact ⟨ih.place, ih.disk, ih.databases⟩

/-- A registry that forgets its databases stays confined. -/
lemma Confined.emptied (h : hub.Confined root first good) : hub.emptied.Confined root first good :=
  ⟨h.place, hub.disk_emptied ▸ h.disk, fun _ hentry => absurd hentry List.not_mem_nil⟩

end Hub

namespace Ledger

variable {root : String} {first : Disk} {given : String → Prop} {good : Char → Prop} {ledger : Ledger}

/-- Something that is asked gives a name for a database or a table. -/
def Ask.Gives : Ask → String → Prop
  | .get v _, name => v = .text name
  | .apart v, name => v = .text name
  | .call _ asked, name => asked.Gives name
  | _, _ => False

/-- A registry has only extended the disk, and everything that has been opened is confined. -/
structure Confined (root : String) (first : Disk) (good : Char → Prop) (ledger : Ledger) : Prop where
  hub : ledger.hub.Confined root first good
  opened : ∀ database ∈ ledger.opened, database.Confined root good

/-- What a registry gets in addition is confined if the registry is. -/
lemma Confined.noting (h : ledger.Confined root first good) {hub : Hub}
    (hhub : hub.Confined root first good) : (ledger.noting hub).Confined root first good := by
  refine ⟨hhub, fun database hdatabase => ?_⟩
  rcases List.mem_append.mp hdatabase with hold | hnew
  · exact h.opened database hold
  · obtain ⟨entry, hentry, rfl⟩ := List.mem_map.mp hnew
    exact hhub.databases entry (List.mem_of_mem_filter hentry)

/-- A registry that forgets its databases leaves everything confined. -/
lemma Confined.forgetting (hsupplies : Supplies root first given good)
    (h : ledger.Confined root first good) : ledger.forgetting.Confined root first good := by
  refine ⟨h.hub.emptied, fun database hdatabase => ?_⟩
  rcases mem_opened_forgetting hdatabase with hold | ⟨old, hold, rfl⟩
  · exact h.opened database hold
  · have hnone : ∀ name, Site.Call.close.Gives name → given name := nofun
    exact (Site.confined_takes hsupplies h.hub.disk (h.opened old hold) hnone).2

/-- Everything stays confined if a confined database takes the place of another one. -/
lemma Confined.replacing (h : ledger.Confined root first good) {site : Site}
    (hdisk : site.world.disk.Extends first root good) (hsite : site.database.Confined root good)
    (number : Nat) : (ledger.replacing number site).Confined root first good := by
  refine ⟨⟨(root_replacing _ _ _).trans h.hub.place, hdisk, ?_⟩, fun other hother => ?_⟩
  · rw [Ledger.replacing]
    dsimp only
    split
    · intro entry hentry
      rcases Entries.mem_put hentry with hold | ⟨hnew, -⟩
      · exact h.hub.databases entry hold
      · rw [hnew]
        exact hsite
    · exact h.hub.databases
  · rcases List.mem_or_eq_of_mem_set hother with hold | rfl
    · exact h.opened other hold
    · exact hsite

/-- What is asked only extends the disk, if the names that it gives are made of the characters. -/
lemma Confined.asks (hsupplies : Supplies root first given good) (h : ledger.Confined root first good)
    {ask : Ask} (hgives : ∀ name, ask.Gives name → given name) :
    (ledger.asks ask).Confined root first good := by
  have hforgetting := h.forgetting hsupplies
  cases ask with
  | get v create =>
    refine h.noting (h.hub.opens hsupplies (Hub.opens_get _ _ _) fun name hname => ?_)
    exact hsupplies.given name (hgives name hname)
  | reload =>
    refine hforgetting.noting (h.hub.emptied.opens hsupplies (Hub.opens_reload _) fun name hname hpass => ?_)
    exact h.hub.disk.madeOf_of_namesIn hsupplies hpass (h.hub.place ▸ hname)
  | close => exact hforgetting.noting h.hub.emptied
  | apart v =>
    have hopened := Database.confined_open hsupplies h.hub.disk
      fun name (hname : v = .text name) => hsupplies.given name (hgives name hname)
    rw [← h.hub.place] at hopened
    rw [Ledger.asks]
    split
    · rename_i database world hopen
      rw [hopen, h.hub.place] at hopened
      refine ⟨⟨h.hub.place, hopened.1, h.hub.databases⟩, fun other hother => ?_⟩
      rcases List.mem_append.mp hother with hold | hnew
      · exact h.opened other hold
      · obtain rfl := List.mem_singleton.mp hnew
        exact hopened.2 other rfl
    · rename_i fault world hopen
      rw [hopen, h.hub.place] at hopened
      exact ⟨⟨h.hub.place, hopened.1, h.hub.databases⟩, h.opened⟩
  | call number call =>
    rw [Ledger.asks]
    split
    · exact h
    · rename_i database hthere
      have hold := h.opened database (List.mem_of_getElem? hthere)
      obtain ⟨hdisk, hdatabase⟩ :=
        @Site.confined_takes _ _ _ _ ⟨database, ledger.hub.world⟩ hsupplies h.hub.disk hold call hgives
      exact h.replacing hdisk hdatabase number

/-- A run only extends the disk, if the names that it gives are made of the characters. -/
theorem Confined.asksAll (hsupplies : Supplies root first given good)
    (h : ledger.Confined root first good) {all : List Ask}
    (hgives : ∀ ask ∈ all, ∀ name, ask.Gives name → given name) :
    (ledger.asksAll all).Confined root first good := by
  induction all generalizing ledger with
  | nil => exact h
  | cons ask rest ih =>
    obtain ⟨hask, hrest⟩ := List.forall_mem_cons.mp hgives
    exact ih (h.asks hsupplies hask) hrest

/-! ## Runs -/

/-- Where the characters of the names come from that are made in a run: they are those of identifiers, or they
are in a name that is given and passes, in the name of a directory that a database could have from the start,
or in the name of a table whose schema file has been there from the start. -/
inductive Brings (root : String) (first : Disk) (all : List Ask) (c : Char) : Prop where
  | word (h : IsWordChar c)
  | given {ask : Ask} {name : String} (hask : ask ∈ all) (hgives : ask.Gives name) (hname : IsName name)
      (hc : c ∈ name.toList)
  | found {name : String} (hname : IsName name)
      (hthere : first.node? (Path.ofText root ++ [name]) ≠ none ∨ name ∈ Path.names root)
      (hc : c ∈ name.toList)
  | stored {name stem : String} (hname : IsName name)
      (hthere : first.node? (Path.ofText root ++ [name, stem ++ Table.schemaEnding]) ≠ none)
      (hc : c ∈ stem.toList)

/-- The names that a run gives and those on the disk are made of such characters, unless a name on the disk has
a slash. -/
lemma supplies_brings {all : List Ask}
    (hslash : ∀ name entry, first.node? (Path.ofText root ++ [name, entry]) ≠ none →
      '/' ∉ entry.toList) :
    Supplies root first (fun name => ∃ ask ∈ all, ask.Gives name) (Brings root first all) := by
  refine ⟨fun c => .word, fun h => ?_, ?_, fun name hname hthere c => .found hname hthere,
    fun name stem hname hthere c => .stored hname hthere⟩
  · cases h with
    | word h => exact absurd h (by decide)
    | given _ _ hname hc => exact hname.slash hc
    | found hname _ hc => exact hname.slash hc
    | stored _ hthere hc =>
      have hentry := hslash _ _ hthere
      rw [String.toList_append, List.mem_append, not_or] at hentry
      exact hentry.1 hc
  · rintro name ⟨ask, hask, hgives⟩ hname c hc
    exact .given hask hgives hname hc

/-- A name that a database can have is an identifier, if it is made of the characters of identifiers. -/
lemma isIdentifier_of_madeOf {name : String} (hname : IsName name) (h : MadeOf IsWordChar name) :
    isIdentifier name.toList = true := by
  rcases isName_iff.mp hname with hplain | ⟨front, -, rfl⟩
  · exact hplain
  · refine absurd (h '\n' ?_) (by decide)
    rw [String.toList_append]
    exact List.mem_append_right _ (List.mem_singleton_self _)

/-- A value that is no name is rejected by a registry whose databases are confined, and nothing changes. -/
lemma Confined.exists_get_eq_error (h : ledger.Confined root first good) (hagrees : ledger.Agrees)
    {v : Value} (hv : ∀ name, v = .text name → ¬IsName name) (create : Bool) :
    ∃ fault, (Hub.get v create).perform ledger.hub = (.error fault, ledger.hub) := by
  have hsame := Hub.perform_get_of_not_isName hv ledger.hub create
  have hgets := Hub.gets_perform ledger.hub v create
  generalize (Hub.get v create).perform ledger.hub = outcome at hsame hgets ⊢
  cases hgets with
  | kept hname hlookup =>
    obtain ⟨number, hkeeps, hdatabase⟩ := hagrees.exists_keeps hlookup
    have hconfined := h.opened _ (List.mem_of_getElem? hkeeps.opened)
    exact absurd (hdatabase ▸ hconfined.name) (hv _ hname)
  | opened hname _ hopen =>
    obtain ⟨other, hother, hpass, -⟩ := Database.open_eq_ok hopen
    exact absurd (Value.text.inj hother ▸ hpass) (hv _ hname)
  | refused _ _ => exact ⟨_, Prod.ext rfl hsame⟩
  | rejected fault => exact ⟨fault, rfl⟩

/-- The names that pass are identifiers, and identifiers with one line break at the end, and all other values
are rejected before anything is touched.  After every run nothing is new on the disk but the directories that
lead to the root, directories in it with names that pass, and files in these, and the characters of their
names come from identifiers, from names that are given, or from the disk.  If these are none but those of
identifiers, the new directories are named by identifiers, too. -/
theorem extends_asksAll (root : String) (world : World) (all : List Ask)
    (hslash : ∀ name entry, world.disk.node? (Path.ofText root ++ [name, entry]) ≠ none →
      '/' ∉ entry.toList) :
    let ledger := (start root world).asksAll all
    (∀ name, IsName name ↔ isIdentifier name.toList = true ∨
        ∃ front : String, isIdentifier front.toList = true ∧ name = front ++ "\n") ∧
      (∀ v, (∀ name, v = .text name → ¬IsName name) →
        (∃ fault, Database.open root v ledger.hub.world = (.error fault, ledger.hub.world)) ∧
        (∀ create, ∃ fault, (Hub.get v create).perform ledger.hub = (.error fault, ledger.hub)) ∧
        ∀ site source, ∃ fault, (Site.createTable v source).perform site = (.error fault, site)) ∧
      ledger.hub.world.disk.Extends world.disk root (Brings root world.disk all) ∧
      ((∀ c, Brings root world.disk all c → IsWordChar c) →
        ∀ path, world.disk.node? path = none → ledger.hub.world.disk.node? path ≠ none →
          path ∈ (Path.stages root).map Path.ofText ∨
            ∃ name, isIdentifier name.toList = true ∧ (path = Path.ofText root ++ [name] ∨
              ∃ stem, MadeOf IsWordChar stem ∧ path = Path.ofText root ++ [name, stem ++ ".json"])) := by
  have hstart : (start root world).Confined root world.disk (Brings root world.disk all) :=
    ⟨⟨rfl, world.disk.extends_self root _, fun _ hentry => absurd hentry List.not_mem_nil⟩,
      fun _ hdatabase => absurd hdatabase List.not_mem_nil⟩
  have hgiven : ∀ ask ∈ all, ∀ name, ask.Gives name → ∃ ask ∈ all, ask.Gives name :=
    fun ask hask name hgives => ⟨ask, hask, hgives⟩
  have hconfined := hstart.asksAll (supplies_brings hslash) hgiven
  have hagrees := agrees_asksAll (agrees_start root world) all
  refine ⟨fun name => isName_iff, fun v hv => ⟨Database.open_of_not_isName hv _ _, fun create =>
    hconfined.exists_get_eq_error hagrees hv create, fun site source =>
      Site.perform_createTable_of_not_isName hv site source⟩, hconfined.hub.disk, fun hword path hnone hthere => ?_⟩
  have hplain : ∀ {name : String}, MadeOf (Brings root world.disk all) name → MadeOf IsWordChar name :=
    fun hgood c hc => hword c (hgood c hc)
  cases hcase : ((start root world).asksAll all).hub.world.disk.node? path with
  | none => exact absurd hcase hthere
  | some node =>
    cases node with
    | directory =>
      refine (hconfined.hub.disk.directories path hnone hcase).imp_right ?_
      rintro ⟨name, hname, hgood, rfl⟩
      exact ⟨name, isIdentifier_of_madeOf hname (hplain hgood), Or.inl rfl⟩
    | file content =>
      obtain ⟨name, stem, hname, hgood, hstem, rfl⟩ := hconfined.hub.disk.files path content hnone hcase
      exact Or.inr ⟨name, isIdentifier_of_madeOf hname (hplain hgood), Or.inr ⟨stem, hplain hstem, rfl⟩⟩

/-- In a directory without tables two shops are opened, and one whose name is no identifier is rejected. -/
theorem extends_asksAll_emptyShop :
    (∃ fault, (Hub.get (.text "my shop") true).perform (start "data" emptyShop).hub =
        (.error fault, (start "data" emptyShop).hub)) ∧
      ((start "data" emptyShop).asksAll
        [.get (.text "shop") true, .get (.text "cart") true]).hub.world.disk.Extends emptyShop.disk "data"
          (Brings "data" emptyShop.disk [.get (.text "shop") true, .get (.text "cart") true]) := by
  have hslash : ∀ name entry, emptyShop.disk.node? (Path.ofText "data" ++ [name, entry]) ≠ none →
      '/' ∉ entry.toList := by
    intro name entry hthere
    refine absurd ?_ hthere
    have hroot : Path.ofText "data" = ["data"] := by decide +kernel
    have hout : Path.isOutside ["data", name, entry] = false := rfl
    rw [hroot, List.singleton_append, Disk.node?, hout]
    simp [emptyShop]
  have hspaced : ∀ name, Value.text "my shop" = .text name → ¬IsName name := by
    intro name heq
    rw [← Value.text.inj heq]
    decide
  obtain ⟨-, hrejects, -⟩ := extends_asksAll "data" emptyShop [] hslash
  exact ⟨(hrejects _ hspaced).2.1 true, (extends_asksAll "data" emptyShop _ hslash).2.2.1⟩

/-- A directory is made whose name is no identifier: it has a line break at its end. -/
theorem not_onlyIdentifiers_emptyShop :
    ¬∀ (root name : String) (world : World), isIdentifier name.toList = false →
      (Database.open root (.text name) world).2.disk.nodes = world.disk.nodes := by
  intro hall
  have hsame := hall "data" "shop\n" emptyShop (by decide)
  rw [Database.disk_open (by decide)] at hsame
  exact absurd hsame (by decide +kernel)

end Ledger

end RecordStore
