import RecordStore.Proofs.Query.Failure
import RecordStore.Proofs.Query.Step

/-!
# Tables do not interfere

An operation on one table never changes another table in memory.  On the disk this only holds of two
tables without a file in common: the files of a table are told apart by the endings of their names,
and a name may itself end like that.  The rows of a table `t_schema` are in the schema file of the
table `t`, and the rows of `t_index` are in its index file.
-/

namespace RecordStore

/-- An operation is about the table of a name. -/
abbrev Site.Operation.IsAbout (operation : Site.Operation) (name : String) : Prop :=
  operation.target = .text name

namespace Site

variable {site : Site}

/-- An operation about a table changes nothing, or is a step of this table. -/
lemma does_cases_of_isAbout {operation : Operation} {name : String} (h : operation.IsAbout name)
    (site : Site) :
    site.does operation = site ∨ Step (fun _ => True) name site (site.does operation) := by
  rcases does_cases (fun _ => True) operation trivial site with heq | ⟨other, hother, hstep⟩
  · exact Or.inl heq
  · obtain rfl := Value.text.inj (hother.symm.trans h)
    exact Or.inr hstep

/-- Nothing that is found in the files of a table is changed by an operation about another table
without a file in common. -/
lemma find?_does_of_not_shareFile (hplaced : site.database.IsPlaced) {a b : String}
    (ha : IsName a) (hb : IsName b) (hne : a ≠ b) (hshare : ¬Table.ShareFile a b)
    {operation : Operation} (habout : operation.IsAbout a) {path : String}
    (hpath : path ∈ Table.filePaths site.database.directory b) :
    (site.does operation).world.disk.find? path = site.world.disk.find? path := by
  rcases does_cases_of_isAbout habout site with heq | hstep
  · rw [heq]
  · exact Table.find?_of_differsWithin hplaced.directory ha hb hne hshare
      (hstep.differsWithin hplaced) hpath

/-- If two tables have a file in common, dropping the one takes a file from the other. -/
lemma exists_find?_dropTable_of_shareFile (hplaced : site.database.IsPlaced) {a b : String}
    (hshare : Table.ShareFile a b) {table : Table} (htable : site.database.table a = .ok table)
    (hfiles : ∀ path ∈ Table.filePaths site.database.directory b,
      ∃ content, site.world.disk.find? path = some (.file content)) :
    ∃ path ∈ Table.filePaths site.database.directory b,
      (site.does (.dropTable a)).world.disk.find? path = none := by
  obtain ⟨file, hfilea, hfileb⟩ := Table.exists_mem_fileNames_iff.mpr (Or.inr hshare)
  have hmemb : Path.join site.database.directory file ∈
      Table.filePaths site.database.directory b := List.mem_map_of_mem hfileb
  obtain ⟨content, hcontent⟩ := hfiles _ hmemb
  refine ⟨_, hmemb, find?_dropTable hplaced htable hfilea ?_⟩
  rw [hcontent]
  exact nofun

/-- An operation about a table leaves every other table in memory as it is.  If the two have no file
in common it also leaves the three files of the other one, from which the same is loaded as before;
and if they have one in common and both are there, dropping the one takes a file from the
other. -/
theorem apart_of_ne (harises : site.Arises) {a b : String} (ha : IsName a) (hb : IsName b)
    (hne : a ≠ b) :
    (∀ operation : Operation, operation.IsAbout a →
      (site.does operation).database.table b = site.database.table b) ∧
    (¬Table.ShareFile a b → ∀ operation : Operation, operation.IsAbout a →
      (∀ path ∈ Table.filePaths site.database.directory b,
        (site.does operation).world.disk.find? path = site.world.disk.find? path) ∧
      Table.load b site.database.directory (site.does operation).world.disk =
        Table.load b site.database.directory site.world.disk) ∧
    (Table.ShareFile a b → ∀ table, site.database.table a = .ok table →
      (∀ path ∈ Table.filePaths site.database.directory b,
        ∃ content, site.world.disk.find? path = some (.file content)) →
      ∃ operation : Operation, operation.IsAbout a ∧
        ∃ path ∈ Table.filePaths site.database.directory b,
          (site.does operation).world.disk.find? path = none) := by
  have hplaced := harises.isPlaced
  refine ⟨?_, ?_, ?_⟩
  · intro operation habout
    rcases does_cases_of_isAbout habout site with heq | hstep
    · rw [heq]
    · exact hstep.table_of_ne hne.symm
  · intro hshare operation habout
    have hfind : ∀ path ∈ Table.filePaths site.database.directory b,
        (site.does operation).world.disk.find? path = site.world.disk.find? path :=
      fun path hpath => find?_does_of_not_shareFile hplaced ha hb hne hshare habout hpath
    exact ⟨hfind, Table.load_congr hfind⟩
  · intro hshare table htable hfiles
    exact ⟨.dropTable a, rfl, exists_find?_dropTable_of_shareFile hplaced hshare htable hfiles⟩

/-- The site after tables with one column each have been made under some names. -/
def withTables (names : List String) : Site :=
  names.foldl
    (fun site name => ((Query.execute ("CREATE TABLE " ++ name ++ " (a number)")).perform site).2)
    Query.openedSite

/-- Sites with such tables come about. -/
lemma arises_withTables (names : List String) : (withTables names).Arises := by
  have hrun : ∀ (names : List String) (site : Site), site.Arises → (names.foldl (fun site name =>
      ((Query.execute ("CREATE TABLE " ++ name ++ " (a number)")).perform site).2) site).Arises := by
    intro names
    induction names with
    | nil => exact fun _ h => h
    | cons name rest ih => exact fun site h => ih _ (h.executed _)
  exact hrun names _ Query.arises_openedSite

/-- A site with two tables without a file in common. -/
def plainlyNamed : Site :=
  withTables ["t", "u"]

/-- A site with a table whose rows are in the schema file of another one. -/
def schemaNamed : Site :=
  withTables ["t", "t_schema"]

/-- Dropping the table `t` leaves the table `u` and its files; dropping the table `t_schema` leaves
the table `t` in memory but takes one of its files. -/
theorem apart_of_ne_schemaNamed :
    (plainlyNamed.does (.dropTable "t")).database.table "u" = plainlyNamed.database.table "u" ∧
    Table.load "u" plainlyNamed.database.directory (plainlyNamed.does (.dropTable "t")).world.disk =
      Table.load "u" plainlyNamed.database.directory plainlyNamed.world.disk ∧
    (schemaNamed.does (.dropTable "t_schema")).database.table "t" =
      schemaNamed.database.table "t" ∧
    ∃ operation : Operation, operation.IsAbout "t_schema" ∧
      ∃ path ∈ Table.filePaths schemaNamed.database.directory "t",
        (schemaNamed.does operation).world.disk.find? path = none := by
  have hplain := apart_of_ne (arises_withTables ["t", "u"]) (by decide : IsName "t")
    (by decide : IsName "u") (by decide)
  have hschema := apart_of_ne (arises_withTables ["t", "t_schema"])
    (by decide : IsName "t_schema") (by decide : IsName "t") (by decide)
  have hapart : ¬Table.ShareFile "t" "u" := by decide
  have hshare : Table.ShareFile "t_schema" "t" := by decide
  have hfiles : ∀ path ∈ Table.filePaths schemaNamed.database.directory "t",
      ∃ content, schemaNamed.world.disk.find? path = some (.file content) := by
    have hnodes : ∀ path ∈ Table.filePaths schemaNamed.database.directory "t",
        (schemaNamed.world.disk.find? path).any (· ≠ .directory) = true := by
      decide +kernel
    intro path hpath
    obtain ⟨node, hnode, hfile⟩ := Option.any_eq_true _ _ |>.mp (hnodes path hpath)
    cases node with
    | directory => exact absurd hfile (by decide)
    | file content => exact ⟨content, hnode⟩
  obtain ⟨table, htable⟩ : ∃ table, schemaNamed.database.table "t_schema" = .ok table :=
    Outcome.isOk_iff.mp (by decide +kernel)
  exact ⟨hplain.1 (.dropTable "t") rfl, (hplain.2.1 hapart (.dropTable "t") rfl).2,
    hschema.1 (.dropTable "t_schema") rfl, hschema.2.2 hshare table htable hfiles⟩

/-- Tables do interfere: when the table `t_schema` is dropped, the table `t` loses its schema
file. -/
theorem not_apart_schemaNamed :
    ¬∀ site : Site, site.Arises → ∀ a b : String, IsName a → IsName b → a ≠ b →
      site.database.hasTable a = true → site.database.hasTable b = true →
      ∀ operation : Operation, operation.IsAbout a →
        ∀ path ∈ Table.filePaths site.database.directory b,
          (site.does operation).world.disk.find? path = site.world.disk.find? path := by
  intro hall
  have hsame := hall schemaNamed (arises_withTables _) "t_schema" "t" (by decide) (by decide)
    (by decide) (by decide +kernel) (by decide +kernel) (.dropTable "t_schema") rfl
    (Table.schemaPath schemaNamed.database.directory "t") (Table.schemaPath_mem _ _)
  exact absurd hsame (by decide +kernel)

end Site

end RecordStore
