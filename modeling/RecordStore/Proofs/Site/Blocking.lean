import RecordStore.Proofs.Site.Opening
import RecordStore.Proofs.Table.Blocking

/-!
# Databases with bad tables

A database is opened whatever the files in its directory hold, unless the files of one of its tables
block.  Then all tables that can be loaded are in the catalog, each as it is loaded on its own, and
those that are refused are left out; but a single table that blocks keeps the whole database from being
opened, those of its tables that are in order as well.
-/

namespace RecordStore.Database

variable {disk : Disk} {database : Database} {world : World}

/-- A database is opened just if the files of none of its tables block.  Its catalog then has exactly
the tables of its directory that can be loaded, each in the state in which it is loaded on its own. -/
theorem open_iff_forall_not_blocks {root name : String} (hname : IsName name)
    (hdirectory : world.disk.hasDirectory (Path.join root name) = true) :
    ((∃ database opened, Database.open root (.text name) world = (.ok database, opened)) ↔
        ∀ table ∈ tableNames world.disk (Path.join root name),
          ¬Table.Blocks table (Path.join root name) world.disk) ∧
      ∀ database opened, Database.open root (.text name) world = (.ok database, opened) →
        opened.disk = world.disk ∧ (Entries.keys database.tables).Nodup ∧
        ∀ table, database.tables.lookup table =
          if table ∈ tableNames world.disk (Path.join root name) then
            (Table.load table (Path.join root name) world.disk).2.toOption
          else none := by
  constructor
  · rw [isOk_open_iff hname hdirectory]
    refine forall₂_congr fun table _ => ?_
    rw [← Table.escapes_load, Escapes, not_exists]
    refine forall_congr' fun fault => ?_
    rw [not_and, Bool.not_eq_false]
    exact Iff.rfl
  · intro database opened hopen
    have hdisk := disk_of_open hname hdirectory hopen
    obtain ⟨given, hgiven, -, hplace, -, -, hlookup⟩ := open_eq_ok hopen
    obtain rfl := Value.text.inj hgiven
    rw [hplace, hdisk] at hlookup
    refine ⟨hdisk, ?_, hlookup⟩
    rw [open_of_hasDirectory hname hdirectory] at hopen
    split at hopen
    · rename_i loaded world' hloaded
      cases hopen
      refine keeps_loadTables (P := fun database => (Entries.keys database.tables).Nodup) ?_ ?_ hloaded
      · intro _ _ _ _ _ hnodup _
        exact Entries.nodup_keys_put hnodup
      · exact List.nodup_nil
    · cases hopen

/-- The directory of a database in which the table `t` is in order, and the schema file of the table `u`
is broken off. -/
def damaged : World :=
  ⟨⟨[(["data"], .directory), (["data", "shop"], .directory),
    (["data", "shop", "t_schema.json"], .file (.text "\x7b\"a\": \x7b\x7d\x7d")),
    (["data", "shop", "u_schema.json"], .file (.text "\x7b\"a\": "))]⟩, []⟩

/-- A table whose schema file is broken off is left out, and the other one is there. -/
theorem open_iff_forall_not_blocks_damaged :
    IsName "shop" ∧ damaged.disk.hasDirectory (Path.join "data" "shop") = true ∧
      ∃ database opened, Database.open "data" (.text "shop") damaged = (.ok database, opened) ∧
        (database.tables.lookup "t").isSome = true ∧ database.tables.lookup "u" = none := by
  have hname : IsName "shop" := by
    decide
  have hdirectory : damaged.disk.hasDirectory (Path.join "data" "shop") = true := by
    decide +kernel
  have hnames : tableNames damaged.disk (Path.join "data" "shop") = ["t", "u"] := by
    rw [tableNames, if_pos hdirectory, Disk.namesIn, List.mergeSort_of_pairwise (by decide +kernel)]
    decide +kernel
  obtain ⟨hopens, hcatalog⟩ := open_iff_forall_not_blocks hname hdirectory
  rw [hnames] at hopens hcatalog
  have hfree : ∀ table ∈ ["t", "u"],
      ¬Escapes (Table.load table (Path.join "data" "shop") damaged.disk).2 := by
    decide +kernel
  obtain ⟨database, opened, hopen⟩ := hopens.mpr fun table htable hblocks =>
    hfree table htable (Table.escapes_load.mpr hblocks)
  obtain ⟨-, -, hlookup⟩ := hcatalog database opened hopen
  refine ⟨hname, hdirectory, database, opened, hopen, ?_, ?_⟩
  · rw [hlookup "t"]
    decide +kernel
  · rw [hlookup "u", ← Option.isNone_iff_eq_none]
    decide +kernel

/-- The directory of a database in which the table `t` is in order, and a column of the table `u` is
described by a number. -/
def misshapen : World :=
  ⟨⟨[(["data"], .directory), (["data", "shop"], .directory),
    (["data", "shop", "t_schema.json"], .file (.text "\x7b\"a\": \x7b\x7d\x7d")),
    (["data", "shop", "u_schema.json"], .file (.text "\x7b\"a\": 5\x7d"))]⟩, []⟩

/-- A table with a column that is described by a number keeps the database from being opened, although
the other table can be loaded. -/
theorem not_open_misshapen :
    IsName "shop" ∧ misshapen.disk.hasDirectory (Path.join "data" "shop") = true ∧
      (∃ table, (Table.load "t" (Path.join "data" "shop") misshapen.disk).2 = .ok table) ∧
        ¬∃ database opened, Database.open "data" (.text "shop") misshapen =
          (.ok database, opened) := by
  have hname : IsName "shop" := by
    decide
  have hdirectory : misshapen.disk.hasDirectory (Path.join "data" "shop") = true := by
    decide +kernel
  refine ⟨hname, hdirectory, Outcome.isOk_iff.mp (by decide +kernel), fun hopens => ?_⟩
  have hthere : "u" ∈ tableNames misshapen.disk (Path.join "data" "shop") :=
    mem_tableNames.mpr ⟨hdirectory, by decide +kernel⟩
  have hescapes : Escapes (Table.load "u" (Path.join "data" "shop") misshapen.disk).2 := by
    decide +kernel
  obtain ⟨fault, hfault, hrefusal⟩ := hescapes
  have hrefused := (isOk_open_iff hname hdirectory).mp hopens "u" hthere
    fault hfault
  rw [hrefusal] at hrefused
  cases hrefused

end RecordStore.Database
