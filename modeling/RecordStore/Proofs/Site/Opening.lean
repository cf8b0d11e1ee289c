import RecordStore.Proofs.Query.Step
import RecordStore.Proofs.Site.Mirrored

/-!
# Opening a database

A database is opened from its directory: every schema file in it names a table, and the table is
loaded from its files.  If one of them cannot be loaded for another reason than a refusal, the database
cannot be opened; the tables that are refused are left out.  The directory of a database that has been
closed is still there, so opening it again finds the files as they are.
-/

namespace RecordStore

namespace Database

variable {disk : Disk} {database : Database} {world : World}

/-! ## Names of tables -/

/-- A text ends in another one if it is something followed by it. -/
lemma endsWith_iff {s ending : String} : s.endsWith ending = true ↔ ∃ front, front ++ ending = s := by
  rw [String.endsWith_eq_endsWith_toSlice, String.Slice.endsWith_string_iff]
  constructor
  · rintro ⟨cs, hcs⟩
    refine ⟨String.ofList cs, String.toList_injective ?_⟩
    rw [String.toList_append, String.toList_ofList]
    simpa using hcs
  · rintro ⟨front, rfl⟩
    exact ⟨front.toList, by simp⟩

/-- A text that does not end in another one is nothing followed by it. -/
lemma ne_append_of_endsWith {s ending : String} (h : s.endsWith ending = false) (front : String) :
    s ≠ front ++ ending := by
  rintro rfl
  have hends : (front ++ ending).endsWith ending = true := endsWith_iff.mpr ⟨front, rfl⟩
  rw [h] at hends
  cases hends

/-- A schema file is neither the directory above nor the root. -/
lemma schemaFile_ne (name : String) :
    name ++ Table.schemaEnding ≠ ".." ∧ name ++ Table.schemaEnding ≠ Path.rootName := by
  have hlong : 12 ≤ (name ++ Table.schemaEnding).length := by
    rw [String.length_append]
    exact Nat.le_add_left _ _
  constructor
  · intro heq
    rw [heq] at hlong
    exact absurd hlong (by decide)
  · intro heq
    rw [heq] at hlong
    exact absurd hlong (by decide)

/-- The names of the tables in a directory are those of the schema files. -/
lemma mem_tableNames {directory name : String} :
    name ∈ tableNames disk directory ↔ disk.hasDirectory directory = true ∧
      disk.node? (Path.ofText directory ++ [name ++ Table.schemaEnding]) ≠ none := by
  have hfront : ∀ name : String,
      ((name ++ Table.schemaEnding).dropEnd Table.schemaEnding.length).copy = name := by
    intro name
    refine String.toList_injective ?_
    have hlength : (name.toList ++ Table.schemaEnding.toList).length - Table.schemaEnding.length =
        name.toList.length := by
      rw [List.length_append, String.length_toList (s := Table.schemaEnding), Nat.add_sub_cancel]
    rw [String.toList_copy_dropEnd, String.toList_append, hlength, List.take_left]
  rw [tableNames, ← Disk.mem_namesIn_iff_node? (schemaFile_ne name)]
  split
  · rename_i hdirectory
    rw [List.mem_filterMap, hdirectory]
    constructor
    · rintro ⟨entry, hentry, hname⟩
      split at hname
      · rename_i hending
        obtain ⟨other, rfl⟩ := endsWith_iff.mp hending
        obtain rfl := Option.some.inj hname
        rw [hfront]
        exact ⟨rfl, hentry⟩
      · cases hname
    · rintro ⟨-, hentry⟩
      refine ⟨_, hentry, ?_⟩
      rw [if_pos (endsWith_iff.mpr ⟨name, rfl⟩), hfront]
  · rename_i hdirectory
    exact ⟨fun hmem => absurd hmem List.not_mem_nil, fun h => absurd h.1 hdirectory⟩

/-! ## Loading tables -/

/-- What is loaded as the table of a name from a directory. -/
def loaded (directory : String) (disk : Disk) (name : String) : Except Fault Table :=
  (Table.load name directory disk).2

/-- Tables of some names have been loaded into a database, or they are refused; the tables that have
been there before stay as far as no others take their names. -/
structure HasLoaded (database : Database) (world : World) (names : List String)
    (database' : Database) (world' : World) : Prop where
  refused : ∀ name ∈ names, ∀ fault, loaded database.directory world.disk name = .error fault →
    fault.isRefusal = true
  directory : database'.directory = database.directory
  closed : database'.closed = database.closed
  disk : world'.disk = world.disk
  lookup : ∀ name, database'.tables.lookup name =
    ((if name ∈ names then (loaded database.directory world.disk name).toOption else none).or
      (database.tables.lookup name))

/-- The tables of some names are loaded after the one of the first name. -/
lemma HasLoaded.cons {after database' : Database} {noted world' : World} {first : String}
    {rest : List String} (h : after.HasLoaded noted rest database' world')
    (hdirectory : after.directory = database.directory)
    (hclosed : after.closed = database.closed) (hdisk : noted.disk = world.disk)
    (hrefused : ∀ fault, loaded database.directory world.disk first = .error fault →
      fault.isRefusal = true)
    (hlookup : ∀ name, after.tables.lookup name =
      ((if name = first then (loaded database.directory world.disk first).toOption else none).or
        (database.tables.lookup name))) :
    database.HasLoaded world (first :: rest) database' world' := by
  obtain ⟨hothers, hdirectory', hclosed', hdisk', hlookup'⟩ := h
  rw [hdirectory, hdisk] at hothers hlookup'
  refine ⟨List.forall_mem_cons.mpr ⟨hrefused, hothers⟩, hdirectory'.trans hdirectory,
    hclosed'.trans hclosed, hdisk'.trans hdisk, fun name => ?_⟩
  rw [hlookup' name, hlookup name]
  by_cases heq : name = first
  · subst heq
    rw [if_pos rfl, if_pos List.mem_cons_self]
    split
    · cases loaded database.directory world.disk name <;> rfl
    · rfl
  · have hmem : name ∈ first :: rest ↔ name ∈ rest := by simp [heq]
    simp only [if_neg heq, hmem, Option.none_or]

/-- Loading tables goes through exactly if all that cannot be loaded are refused. -/
lemma loadTables_cases (database : Database) (names : List String) (world : World) :
    (∃ database' world', database.loadTables world names = (.ok database', world') ∧
        database.HasLoaded world names database' world') ∨
      ∃ fault world', database.loadTables world names = (.error fault, world') ∧
        ∃ name ∈ names, loaded database.directory world.disk name = .error fault ∧
          fault.isRefusal = false := by
  induction names generalizing database world with
  | nil =>
    refine Or.inl ⟨database, world, rfl, ?_, rfl, rfl, rfl, fun _ => rfl⟩
    exact fun name hname => absurd hname List.not_mem_nil
  | cons first rest ih =>
    rw [loadTables_cons]
    cases hload : Table.load first database.directory world.disk with
    | mk notices result =>
      have hfirst : loaded database.directory world.disk first = result := by
        rw [loaded, hload]
      cases result with
      | ok table =>
        dsimp only
        rcases ih { database with tables := Entries.put first table database.tables }
          (world.noteAll notices) with ⟨database', world', hdone, hloaded⟩ |
            ⟨fault, world', hdone, name, hname, hfault, hno⟩
        · refine Or.inl ⟨database', world', hdone, hloaded.cons rfl rfl rfl ?_ fun name => ?_⟩
          · rw [hfirst]
            intro fault hfault
            cases hfault
          · rw [hfirst]
            by_cases heq : name = first
            · rw [heq, Entries.lookup_put_self, if_pos rfl]
              rfl
            · rw [Entries.lookup_put_of_ne heq, if_neg heq, Option.none_or]
        · exact Or.inr ⟨fault, world', hdone, name, List.mem_cons_of_mem _ hname, hfault, hno⟩
      | error fault =>
        dsimp only
        split
        · rename_i hrefusal
          rcases ih database ((world.noteAll notices).note
            (.tableSkipped first database.name fault.message)) with
              ⟨database', world', hdone, hloaded⟩ | ⟨other, world', hdone, name, hname, hfault, hno⟩
          · refine Or.inl ⟨database', world', hdone, hloaded.cons rfl rfl rfl ?_ fun name => ?_⟩
            · rw [hfirst]
              intro other hother
              rw [← Except.error.inj hother]
              exact hrefusal
            · rw [hfirst]
              split <;> rfl
          · exact Or.inr ⟨other, world', hdone, name, List.mem_cons_of_mem _ hname, hfault, hno⟩
        · rename_i hother
          exact Or.inr ⟨fault, _, rfl, first, List.mem_cons_self, hfirst,
            Bool.eq_false_iff.mpr hother⟩

/-! ## Opening -/

/-- A database is only opened under a name, in a directory that is there. -/
lemma open_eq_ok {root : String} {v : Value} {opened : World}
    (h : Database.open root v world = (.ok database, opened)) :
    ∃ name, v = .text name ∧ IsName name ∧ database.directory = Path.join root name ∧
      database.closed = false ∧ opened.disk.hasDirectory database.directory = true ∧
      ∀ table, database.tables.lookup table =
        if table ∈ tableNames opened.disk database.directory then
          (loaded database.directory opened.disk table).toOption
        else none := by
  rw [Database.open] at h
  split at h
  · cases h
  · rename_i name hchecked
    obtain ⟨rfl, hname⟩ := checkName_eq_ok.mp hchecked
    dsimp only at h
    split at h
    · cases h
    · rename_i hmade
      obtain ⟨disk, hdisk⟩ : ∃ disk, world.disk.makeDirectories (Path.join root name) =
          (.ok (), disk) := ⟨_, Prod.ext hmade rfl⟩
      have hdirectory := Disk.hasDirectory_of_makeDirectories (hname.endsInName_join root)
        (hname.endsInPoint_join root) hdisk
      rw [hdisk] at h
      rcases loadTables_cases ⟨name, Path.join root name, [], false⟩
        (tableNames disk (Path.join root name)) { world with disk } with ⟨database', world', hdone,
          -, hplace, hclosed, hkept, hlookup⟩ | ⟨fault, world', hdone, -⟩
      · rw [hdone] at h
        cases h
        have hkept' : (world'.note (.databaseOpened name database.tables.length)).disk = disk := hkept
        refine ⟨name, rfl, hname, hplace, hclosed, ?_, fun table => ?_⟩
        · rw [hkept', hplace]
          exact hdirectory
        · rw [hkept', hplace, hlookup table]
          exact Option.or_none
      · rw [hdone] at h
        cases h

/-- A database whose directory is there is opened by loading its tables. -/
lemma open_of_hasDirectory {root name : String} (hname : IsName name)
    (hdirectory : world.disk.hasDirectory (Path.join root name) = true) :
    Database.open root (.text name) world =
      match loadTables ⟨name, Path.join root name, [], false⟩ world
        (tableNames world.disk (Path.join root name)) with
      | (.ok database, world) =>
        (.ok database, world.note (.databaseOpened name database.tables.length))
      | (.error fault, world) => (.error fault, world) := by
  have hcheck : checkName .database (.text name) = .ok name := checkName_eq_ok.mpr ⟨rfl, hname⟩
  have hmade := Disk.makeDirectories_of_hasDirectory (hname.endsInName_join root) hdirectory
  rw [Database.open, hcheck]
  dsimp only
  rewrite [hmade]
  rfl

/-- A database whose directory is there is opened exactly if all tables that cannot be loaded are
refused. -/
theorem isOk_open_iff {root name : String} (hname : IsName name)
    (hdirectory : world.disk.hasDirectory (Path.join root name) = true) :
    (∃ database opened, Database.open root (.text name) world = (.ok database, opened)) ↔
      ∀ table ∈ tableNames world.disk (Path.join root name), ∀ fault,
        loaded (Path.join root name) world.disk table = .error fault → fault.isRefusal = true := by
  rw [open_of_hasDirectory hname hdirectory]
  rcases loadTables_cases ⟨name, Path.join root name, [], false⟩
    (tableNames world.disk (Path.join root name)) world with
      ⟨database', world', hdone, hloaded⟩ | ⟨fault, world', hdone, table, htable, hfault, hno⟩
  · rw [hdone]
    exact ⟨fun _ => hloaded.refused, fun _ => ⟨database', _, rfl⟩⟩
  · rw [hdone]
    constructor
    · rintro ⟨database, opened, heq⟩
      cases heq
    · intro hrefused
      rw [hrefused table htable fault hfault] at hno
      cases hno

/-- Opening a database whose directory is there leaves the disk. -/
lemma disk_of_open {root name : String} (hname : IsName name)
    (hdirectory : world.disk.hasDirectory (Path.join root name) = true) {opened : World}
    (h : Database.open root (.text name) world = (.ok database, opened)) :
    opened.disk = world.disk := by
  rw [open_of_hasDirectory hname hdirectory] at h
  rcases loadTables_cases ⟨name, Path.join root name, [], false⟩
    (tableNames world.disk (Path.join root name)) world with
      ⟨database', world', hdone, hloaded⟩ | ⟨fault, world', hdone, -⟩
  · rw [hdone] at h
    cases h
    exact hloaded.disk
  · rw [hdone] at h
    cases h

/-- A database that has been opened from an empty directory has no tables. -/
lemma tables_eq_nil_of_open {root : String} {v : Value} {opened : World}
    (h : Database.open root v world = (.ok database, opened))
    (hempty : opened.disk.namesIn (Path.ofText database.directory) = []) : database.tables = [] := by
  obtain ⟨name, rfl, hname, hplace, hopen, hdirectory, hlookup⟩ := open_eq_ok h
  have htables : ∀ table, database.tables.lookup table = none := by
    intro table
    have hnot : table ∉ tableNames opened.disk database.directory := by
      rw [tableNames, hempty]
      split <;> exact List.not_mem_nil
    rw [hlookup table, if_neg hnot]
  cases hentries : database.tables with
  | nil => rfl
  | cons entry rest =>
    have hfirst := htables entry.1
    rw [hentries, List.lookup_cons, beq_self_eq_true] at hfirst
    cases hfirst

end Database

/-- A database that has been opened from an empty directory mirrors it, and has no tables. -/
theorem Site.mirrored_of_open {root : String} {v : Value} {world opened : World} {database : Database}
    (h : Database.open root v world = (.ok database, opened))
    (hempty : opened.disk.namesIn (Path.ofText database.directory) = []) :
    Mirrored ⟨database, opened⟩ := by
  obtain ⟨name, rfl, hname, hplace, hopen, hdirectory, hlookup⟩ := Database.open_eq_ok h
  have hnone := Database.tables_eq_nil_of_open h hempty
  have hnames : Site.names ⟨database, opened⟩ = [] := by
    rw [Site.names, hnone]
    rfl
  refine ⟨hopen, Database.isPlaced_of_open h, hnames ▸ List.nodup_nil, ?_, hdirectory, ?_, ?_, ?_⟩
  · rw [hnames]
    exact fun other hother => absurd hother List.not_mem_nil
  · rw [hnone]
    exact fun entry hentry => absurd hentry List.not_mem_nil
  · rw [hnone]
    exact fun entry hentry => absurd hentry List.not_mem_nil
  · intro other hother
    have hmem := (Disk.mem_namesIn_iff_node? (Database.schemaFile_ne other)).mpr hother
    rw [hempty] at hmem
    cases hmem

end RecordStore
