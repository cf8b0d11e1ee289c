import RecordStore.Proofs.Query.Failure
import RecordStore.Proofs.Site.Opening
import RecordStore.Proofs.Table.Returning

/-!
# Closing and opening again

The directory of a database mirrors its catalog after any run of operations in which everything is
saved and no two tables have a file in common.  If besides no name of a table ends like that of a
schema file and the tables hold only what comes back from a snapshot, the database that is opened again
after it has been closed has the same tables as before.
-/

namespace RecordStore

namespace Table

/-- A schema file is a file of its own table and of the one whose rows are written there. -/
lemma schemaFile_mem_fileNames_iff {name other : String} :
    name ++ schemaEnding ∈ fileNames other ↔ other = name ∨ other = name ++ "_schema" := by
  have hending : schemaEnding = "_schema" ++ ".json" := by decide
  have hindex : "_index.json" = "_index" ++ ".json" := by decide
  have hcancel : ∀ x y ending : String, x ++ ending = y ++ ending ↔ x = y :=
    fun x y ending => String.append_left_inj ending
  have hlast : name ++ "_schema" ≠ other ++ "_index" := by
    intro heq
    have hchars := congrArg (fun s => s.toList.getLast?) heq
    simp at hchars
  simp only [fileNames, fileEndings, List.map_cons, List.map_nil, List.mem_cons, List.not_mem_nil,
    or_false]
  rw [hcancel, hending, hindex, ← String.append_assoc, ← String.append_assoc, hcancel, hcancel]
  constructor
  · rintro (heq | heq | heq)
    · exact Or.inl heq.symm
    · exact Or.inr heq.symm
    · exact absurd heq hlast
  · rintro (heq | heq)
    · exact Or.inl heq.symm
    · exact Or.inr (Or.inl heq.symm)

end Table

namespace Site

variable {site : Site}

/-! ## Runs -/

/-- The site after operations one after the other. -/
def doesAll (site : Site) (operations : List Operation) : Site :=
  operations.foldl does site

/-- An operation adds notices. -/
lemma notices_prefix_does (site : Site) (operation : Operation) :
    site.world.notices <+: (site.does operation).world.notices := by
  rcases does_cases (fun _ => True) operation trivial site with heq | ⟨name, -, hstep⟩
  · rw [heq]
  · exact hstep.notices_prefix

/-- Operations add notices. -/
lemma notices_prefix_doesAll (site : Site) (operations : List Operation) :
    site.world.notices <+: (site.doesAll operations).world.notices := by
  induction operations generalizing site with
  | nil => exact List.prefix_refl _
  | cons operation rest ih => exact (notices_prefix_does site operation).trans (ih _)

/-- Operations leave the directory of a database. -/
lemma directory_doesAll (site : Site) (operations : List Operation) :
    (site.doesAll operations).database.directory = site.database.directory := by
  induction operations generalizing site with
  | nil => rfl
  | cons operation rest ih =>
    refine (ih (site.does operation)).trans ?_
    rcases does_cases (fun _ => True) operation trivial site with heq | ⟨name, -, hstep⟩
    · rw [heq]
    · exact hstep.frame.1

/-- A run in which everything is saved, and never two tables have a file in common, keeps the
directory as a mirror. -/
theorem Mirrored.doesAll (h : site.Mirrored) {operations : List Operation}
    (hdescribed : ∀ operation ∈ operations, operation.MakesFrom SchemaSource.IsDescribed)
    (hapart : ∀ done, done <+: operations → (site.doesAll done).FilesApart)
    (hsaved : (site.doesAll operations).world.AllSaved) : (site.doesAll operations).Mirrored := by
  induction operations generalizing site with
  | nil => exact h
  | cons operation rest ih =>
    obtain ⟨hfirst, hrest⟩ := List.forall_mem_cons.mp hdescribed
    have hbefore : site.FilesApart := hapart [] (List.nil_prefix)
    have hafter : (site.does operation).FilesApart :=
      hapart [operation] ⟨rest, rfl⟩
    have hnow : (site.does operation).world.AllSaved :=
      hsaved.of_prefix (notices_prefix_doesAll _ rest)
    have hmirrored : (site.does operation).Mirrored := by
      rcases does_cases (·.MakesFrom SchemaSource.IsDescribed) operation hfirst site with heq | ⟨name, -, hstep⟩
      · rw [heq]
        exact h
      · exact h.step hbefore hstep hafter hnow
    refine ih hmirrored hrest (fun done hdone => ?_) hsaved
    exact hapart (operation :: done) (List.cons_prefix_cons.mpr ⟨rfl, hdone⟩)

/-! ## Opening again -/

/-- In a directory that mirrors a catalog the schema files name the tables, and those of whose names
the name of a table is an extension like that of a schema file. -/
lemma Mirrored.mem_tableNames (h : site.Mirrored) {name : String} :
    name ∈ Database.tableNames site.world.disk site.database.directory ↔
      name ∈ site.names ∨ name ++ "_schema" ∈ site.names := by
  rw [Database.mem_tableNames, h.directory]
  constructor
  · rintro ⟨-, hnode⟩
    obtain ⟨live, hlive, hfile⟩ := h.files name hnode
    rcases Table.schemaFile_mem_fileNames_iff.mp hfile with rfl | rfl
    · exact Or.inl hlive
    · exact Or.inr hlive
  · intro hname
    refine ⟨rfl, ?_⟩
    have hfile : ∃ live ∈ site.names, name ++ Table.schemaEnding ∈ Table.fileNames live :=
      hname.elim (fun hlive => ⟨_, hlive, Table.schemaFile_mem_fileNames_iff.mpr (Or.inl rfl)⟩)
        fun hlive => ⟨_, hlive, Table.schemaFile_mem_fileNames_iff.mpr (Or.inr rfl)⟩
    obtain ⟨live, hlive, hmem⟩ := hfile
    obtain ⟨content, -, hnode⟩ := h.exists_file hlive hmem
    intro hnone
    rw [placeOf, hnone] at hnode
    cases hnode

/-- The database after it has been closed, and the world then. -/
abbrev closed (site : Site) : World :=
  (site.database.close site.world).2

/-- Closing a database leaves the disk. -/
lemma disk_closed (site : Site) : site.closed.disk = site.world.disk := by
  rw [closed, Database.close]
  split <;> rfl

/-- No name of a table ends like that of a schema file, and none is that of another one followed by
what the name of an index file has in front of its ending. -/
def WellNamed (site : Site) : Prop :=
  ∀ a ∈ site.names, a.endsWith "_schema" = false ∧ ∀ b ∈ site.names, a ≠ b ++ "_index"

instance (site : Site) : Decidable site.WellNamed :=
  inferInstanceAs (Decidable (∀ a ∈ site.names, _ ∧ ∀ b ∈ site.names, _))

/-- A name that ends in the ending of another one's schema file is not allowed. -/
lemma WellNamed.ne_append (h : site.WellNamed) {name : String} (hname : name ∈ site.names)
    (other : String) : name ≠ other ++ "_schema" :=
  Database.ne_append_of_endsWith (h name hname).1 other

/-- Tables with allowed names have no file in common. -/
lemma WellNamed.filesApart (h : site.WellNamed) : site.FilesApart := by
  rintro a ha b hb - (hshare | hshare | hshare | hshare)
  · exact h.ne_append hb a hshare
  · exact (h b hb).2 a ha hshare
  · exact h.ne_append ha b hshare
  · exact (h a ha).2 b hb hshare

/-- If every table of a database can be loaded from its mirror, and no name ends like that of a schema
file, opening it again gives the tables that are loaded. -/
theorem Mirrored.exists_reopened (h : site.Mirrored) {root name : String} (hname : IsName name)
    (hdirectory : site.database.directory = Path.join root name)
    (hplain : ∀ a ∈ site.names, ∀ b, a ≠ b ++ "_schema")
    (hloads : ∀ a ∈ site.names,
      ∃ table, Database.loaded site.database.directory site.world.disk a = .ok table) :
    ∃ database opened, Database.open root (.text name) site.closed = (.ok database, opened) ∧
      database.closed = false ∧ ∀ a, database.tables.lookup a =
        if a ∈ site.names then
          (Database.loaded site.database.directory site.world.disk a).toOption
        else none := by
  have hnames : ∀ a, a ∈ Database.tableNames site.world.disk site.database.directory ↔
      a ∈ site.names := by
    intro a
    rw [h.mem_tableNames]
    exact or_iff_left fun hlonger => hplain _ hlonger a rfl
  have hthere : site.closed.disk.hasDirectory (Path.join root name) = true := by
    rw [disk_closed, ← hdirectory]
    exact h.directory
  obtain ⟨database, opened, hopen⟩ := (Database.isOk_open_iff hname hthere).mpr <| by
    intro a ha fault hfault
    rw [disk_closed, ← hdirectory] at ha hfault
    obtain ⟨table, htable⟩ := hloads a ((hnames a).mp ha)
    rw [htable] at hfault
    cases hfault
  refine ⟨database, opened, hopen, ?_⟩
  obtain ⟨other, hother, -, hplace, hclosed, -, hlookup⟩ := Database.open_eq_ok hopen
  obtain rfl := Value.text.inj hother
  refine ⟨hclosed, fun a => ?_⟩
  rw [hlookup a, Database.disk_of_open hname hthere hopen, disk_closed, hplace, ← hdirectory]
  simp only [hnames]

/-- In an open database the table of a name is the one in the catalog. -/
lemma table_eq_ok_iff {database : Database} (hopen : database.closed = false) {name : String}
    {table : Table} :
    database.table name = .ok table ↔ database.tables.lookup name = some table := by
  constructor
  · exact Database.lookup_of_table
  · intro hlookup
    have hcheck : database.checkOpen = .ok () := by
      rw [Database.checkOpen, hopen]
      rfl
    refine Outcome.seq_eq_ok.mpr ⟨(), hcheck, ?_⟩
    rw [hlookup]
    rfl

/-- The tables of a database that are found under a name again look the same, and no others are
found. -/
structure LooksLike (site : Site) (reopened : Database) : Prop where
  names : ∀ name, name ∈ Entries.keys reopened.tables ↔ name ∈ site.names
  tables : ∀ name table, site.database.table name = .ok table →
    ∃ table', reopened.table name = .ok table' ∧ table.LooksLike table'

/-- A database whose directory mirrors it and whose tables hold only what comes back equal has the same
tables when it is opened again. -/
theorem Mirrored.looksLike_reopened (h : site.Mirrored) {root name : String} (hname : IsName name)
    (hdirectory : site.database.directory = Path.join root name)
    (hplain : ∀ a ∈ site.names, ∀ b, a ≠ b ++ "_schema")
    (hback : ∀ entry ∈ site.database.tables, entry.2.ComesBack) :
    ∃ reopened world, Database.open root (.text name) site.closed = (.ok reopened, world) ∧
      site.LooksLike reopened := by
  have hloaded : ∀ entry ∈ site.database.tables, ∃ table',
      Database.loaded site.database.directory site.world.disk entry.1 = .ok table' ∧
        entry.2.LooksLike table' := by
    intro entry hentry
    obtain ⟨htableName, hplace⟩ := h.placed.tables entry hentry
    obtain ⟨records, htidy⟩ := h.tidy entry hentry
    obtain ⟨notices, table', hload, hlooks⟩ :=
      (h.stored entry hentry).looksLike_of_load htidy (hback entry hentry)
    rw [htableName, hplace] at hload
    refine ⟨table', ?_, hlooks⟩
    rw [Database.loaded, hload]
  obtain ⟨reopened, world, hopen, hclosed, hlookup⟩ :=
    h.exists_reopened hname hdirectory hplain <| by
      intro a ha
      obtain ⟨entry, hentry, rfl⟩ := List.mem_map.mp ha
      obtain ⟨table', htable', -⟩ := hloaded entry hentry
      exact ⟨table', htable'⟩
  refine ⟨reopened, world, hopen, fun a => ?_, fun a table htable => ?_⟩
  · rw [Entries.mem_keys_iff, hlookup a]
    constructor
    · rintro ⟨table', htable'⟩
      split at htable'
      · assumption
      · cases htable'
    · intro ha
      obtain ⟨entry, hentry, rfl⟩ := List.mem_map.mp ha
      obtain ⟨table', htable', -⟩ := hloaded entry hentry
      rw [if_pos ha, htable']
      exact ⟨table', rfl⟩
  · obtain ⟨hentry, hmem, -⟩ := h.mem_of_table htable
    obtain ⟨table', htable', hlooks⟩ := hloaded _ hentry
    refine ⟨table', (table_eq_ok_iff hclosed).mpr ?_, hlooks⟩
    rw [hlookup a, if_pos hmem, htable']
    rfl

/-- Two tables are made, one of them with a default date; records are inserted and one is deleted, an
index is made, and the other table is dropped. -/
def shortRun : List Operation :=
  [.createTable (.text "t") (.value (.map [(.text "a", .map [(.text "type", .text "number"),
      (.text "unique", .bool true)]), (.text "d", .map [(.text "type", .text "date"),
      (.text "defaultValue", .text "2024-02-29")])])),
    .request "t" (.insert (.map [(.text "a", .int 1)])),
    .request "t" (.insert (.map [(.text "a", .int 2), (.text "d", .text "2024-01-05 10:20:30")])),
    .request "t" (.createIndex (.text "d")),
    .createTable (.text "u") Table.twoColumns,
    .request "t" (.delete (.map [(.text "a", .int 1)])),
    .dropTable "u"]

end Site

end RecordStore
