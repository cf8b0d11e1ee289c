import RecordStore.Proofs.Query.Literals
import RecordStore.Proofs.Site.Reopening
import RecordStore.Proofs.Table.Readable

/-!
# Queries and opening again

Queries only put simple values into tables, so what can keep a database from being opened again with
the same tables is told by its tables: a name that ends like that of a schema file, a column named like
a mark of dates, and a date with a year of less than four digits.  The first two end the opening with a
fault that is no refusal; a table with such a date is skipped.
-/

namespace RecordStore

/-- The snapshot of the rows of a table describes no schema. -/
lemma Schema.ofValue_data {next : Int} (hnext : 1 ≤ next) (entries : List (Value × Value)) :
    ofValue (.ofFields (Table.dataFields next entries)) = .error .wrongShape := by
  have hthere : (Value.int next).isTruthy = true := by
    rw [Value.isTruthy, bne_iff_ne]
    omega
  have hcolumn : Column.ofValue (.text "next_row_id") (.int next) = .error .wrongShape := by
    unfold Column.ofValue
    rw [if_pos hthere]
  have hsource : empty.addSource (.text "next_row_id") (.described (.int next)) =
      .error .wrongShape := by
    rw [addSource, columnOf, hcolumn]
  have hall : ∀ rest, addAll empty [] ((.text "next_row_id", .described (.int next)) :: rest) =
      .error .wrongShape := by
    intro rest
    rw [addAll, hsource]
    rfl
  have htruthy : (Value.ofFields (Table.dataFields next entries)).isTruthy = true := rfl
  unfold ofValue
  rw [if_pos htruthy]
  change (addAll empty [] [(.text "next_row_id", .described (.int next)),
    (.text "rows", .described (.map entries))] >>= fun done => _) = _
  rw [hall]
  rfl

/-- The rows of a table that is named like the schema file of another one are no schema for it. -/
lemma Table.loadRows_eq_error {table : Table} {records : List (Int × Record)} {disk : Disk}
    (hstored : table.StoredIn disk) (h : table.Tidy records)
    (hnamed : table.schema.IsPlainlyNamed) {other : String} (hname : table.name = other ++ "_schema")
    {w : Value} (hdata : disk.readSnapshot (dataPath table.directory table.name) = .ok w) :
    loadRows other table.directory disk = .error .wrongShape := by
  have hobjects : ∀ entry ∈ records, Snapshot.ObjectKeys entry.2 := fun entry hentry =>
    hnamed.objectKeys h.built.sound (h.orders hentry)
  have hrestored := hstored.data.restored_eq_ok hdata
  obtain ⟨next, records', hnext, -, rfl⟩ := (hstored.restored_dataValue h hobjects).mp hrestored
  obtain ⟨next', hnext', hone, -⟩ := h.settled.lists.numbers.dataValue_eq h.counts
  obtain rfl : next = next' := Number.whole.inj (hnext.symm.trans hnext')
  have hpath : schemaPath table.directory other = dataPath table.directory table.name := by
    rw [schemaPath, dataPath, hname, String.append_assoc]
    rfl
  rw [loadRows, hpath, hdata]
  change (Schema.ofValue _ >>= fun schema => _) = _
  rw [Schema.ofValue_data hone]
  rfl

namespace Site

variable {site after : Site} {name : String}

/-! ## Simple tables -/

/-- All tables are simple. -/
def OnlySimple (site : Site) : Prop :=
  ∀ entry ∈ site.database.tables, entry.2.IsSimple

/-- A simple step keeps all tables simple. -/
lemma OnlySimple.step (h : site.OnlySimple) (hmirrored : site.Mirrored)
    (hstep : Step Operation.IsSimple name site after) : after.OnlySimple := by
  cases hstep with
  | requested htable hallowed =>
    obtain ⟨hmem, -, -⟩ := hmirrored.mem_of_table htable
    obtain ⟨records, htidy⟩ := hmirrored.tidy _ hmem
    intro entry hentry
    rcases Entries.mem_put hentry with hold | ⟨hnew, -⟩
    · exact h entry hold
    · rw [hnew]
      exact (h _ hmem).reply htidy.settled.steady hallowed
  | created hallowed hname hnew hcreate =>
    intro entry hentry
    rcases Entries.mem_put hentry with hold | ⟨hnew, -⟩
    · exact h entry hold
    · rw [hnew]
      exact Table.isSimple_of_create hallowed hcreate
  | dropped htable => exact fun entry hentry => h entry (List.mem_filter.mp hentry).1

/-- Notices do not matter to the mirror of a catalog. -/
lemma Mirrored.noted (h : site.Mirrored) (hnoted : Query.Noted site after) : after.Mirrored := by
  obtain ⟨hdatabase, hdisk, -⟩ := hnoted
  obtain ⟨hopen, hplaced, hnodup, hnamed, hdirectory, hstored, htidy, hfiles⟩ := h
  unfold names placeOf at *
  rw [← hdatabase] at hopen hplaced hnodup hnamed hdirectory hstored htidy hfiles
  rw [← hdisk] at hdirectory hstored hfiles
  exact ⟨hopen, hplaced, hnodup, hnamed, hdirectory, hstored, htidy, hfiles⟩

/-! ## Opening again -/

/-- A table that is found in a database that has been opened again has been loaded. -/
lemma exists_loaded_of_reopened {root name : String} (hname : IsName name)
    (hdirectory : site.database.directory = Path.join root name)
    (hthere : site.closed.disk.hasDirectory (Path.join root name) = true) {reopened : Database}
    {world : World} (hopen : Database.open root (.text name) site.closed = (.ok reopened, world))
    {a : String} (ha : a ∈ Entries.keys reopened.tables) :
    ∃ table, Database.loaded site.database.directory site.world.disk a = .ok table := by
  obtain ⟨other, hother, -, hplace, -, -, hlookup⟩ := Database.open_eq_ok hopen
  obtain rfl := Value.text.inj hother
  obtain ⟨table, htable⟩ := Entries.mem_keys_iff.mp ha
  rw [hlookup a, Database.disk_of_open hname hthere hopen, disk_closed, hplace, ← hdirectory] at htable
  split at htable
  · cases hloaded : Database.loaded site.database.directory site.world.disk a with
    | error fault =>
      rw [hloaded] at htable
      cases htable
    | ok loaded => exact ⟨loaded, rfl⟩
  · cases htable

/-- The files of a simple table are loaded just if the table is readable. -/
lemma Mirrored.exists_loaded_iff (h : site.Mirrored) (hsimple : site.OnlySimple)
    {entry : String × Table} (hentry : entry ∈ site.database.tables) :
    (∃ table, Database.loaded site.database.directory site.world.disk entry.1 = .ok table) ↔
      entry.2.IsReadable := by
  obtain ⟨htableName, hplace⟩ := h.placed.tables entry hentry
  obtain ⟨records, htidy⟩ := h.tidy entry hentry
  rw [← (h.stored entry hentry).isOk_load_iff htidy (hsimple entry hentry), htableName, hplace,
    Database.loaded]
  constructor
  · rintro ⟨table, htable⟩
    exact ⟨_, table, Prod.ext rfl htable⟩
  · rintro ⟨notices, table, hload⟩
    exact ⟨table, by rw [hload]⟩

/-- The rows of a readable table whose name ends like that of a schema file are taken for the schema of
another table, which cannot be loaded. -/
lemma Mirrored.loaded_eq_wrongShape (h : site.Mirrored) (hsimple : site.OnlySimple) {other : String}
    {table : Table} (hentry : (other ++ "_schema", table) ∈ site.database.tables)
    (hreadable : table.IsReadable) :
    Database.loaded site.database.directory site.world.disk other = .error .wrongShape := by
  obtain ⟨htableName, hplace⟩ := h.placed.tables _ hentry
  obtain ⟨records, htidy⟩ := h.tidy _ hentry
  have hstored := h.stored _ hentry
  obtain ⟨notices, table', hload⟩ :=
    (hstored.isOk_load_iff htidy (hsimple _ hentry)).mpr hreadable
  obtain ⟨-, w, hdata⟩ := Table.exists_read_of_load hload
  rw [Database.loaded, Table.load, ← hplace,
    Table.loadRows_eq_error hstored htidy hreadable.named htableName hdata]

/-- A database with simple tables whose directory mirrors it is opened again with the same tables just
if no name of a table ends like that of a schema file and all tables are readable. -/
theorem Mirrored.reopens_iff (h : site.Mirrored) (hsimple : site.OnlySimple) {root name : String}
    (hname : IsName name) (hdirectory : site.database.directory = Path.join root name) :
    (∃ reopened world, Database.open root (.text name) site.closed = (.ok reopened, world) ∧
        ∀ a, a ∈ Entries.keys reopened.tables ↔ a ∈ site.names) ↔
      (∀ a ∈ site.names, a.endsWith "_schema" = false) ∧
        ∀ entry ∈ site.database.tables, entry.2.IsReadable := by
  have hthere : site.closed.disk.hasDirectory (Path.join root name) = true := by
    rw [disk_closed, ← hdirectory]
    exact h.directory
  constructor
  · rintro ⟨reopened, world, hopen, hsame⟩
    have hreadable : ∀ entry ∈ site.database.tables, entry.2.IsReadable := by
      intro entry hentry
      have hback := (hsame entry.1).mpr (List.mem_map_of_mem hentry)
      exact (h.exists_loaded_iff hsimple hentry).mp
        (exists_loaded_of_reopened hname hdirectory hthere hopen hback)
    refine ⟨fun a ha => ?_, hreadable⟩
    rw [Bool.eq_false_iff]
    intro hends
    obtain ⟨other, rfl⟩ := Database.endsWith_iff.mp hends
    obtain ⟨⟨_, table⟩, hentry, rfl⟩ := List.mem_map.mp ha
    have hwrong := h.loaded_eq_wrongShape hsimple hentry (hreadable _ hentry)
    have hother : other ∈ Database.tableNames site.world.disk site.database.directory :=
      h.mem_tableNames.mpr (Or.inr ha)
    have hrefused := (Database.isOk_open_iff hname hthere).mp ⟨reopened, world, hopen⟩ other
    rw [disk_closed, ← hdirectory] at hrefused
    cases hrefused hother _ hwrong
  · rintro ⟨hplain, hreadable⟩
    have hfree : ∀ a ∈ site.names, ∀ b, a ≠ b ++ "_schema" :=
      fun a ha => Database.ne_append_of_endsWith (hplain a ha)
    have hloaded : ∀ a ∈ site.names,
        ∃ table, Database.loaded site.database.directory site.world.disk a = .ok table := by
      intro a ha
      obtain ⟨entry, hentry, rfl⟩ := List.mem_map.mp ha
      exact (h.exists_loaded_iff hsimple hentry).mpr (hreadable entry hentry)
    obtain ⟨reopened, world, hopen, -, hlookup⟩ := h.exists_reopened hname hdirectory hfree hloaded
    refine ⟨reopened, world, hopen, fun a => ?_⟩
    rw [Entries.mem_keys_iff, hlookup a]
    constructor
    · rintro ⟨table, htable⟩
      split at htable
      · assumption
      · cases htable
    · intro ha
      obtain ⟨table, htable⟩ := hloaded a ha
      rw [if_pos ha, htable]
      exact ⟨table, rfl⟩

end Site

namespace Query

variable {site : Site}

/-! ## Runs of queries -/

/-- The site after queries one after the other, whatever comes of them. -/
def executeInTurn (site : Site) (texts : List String) : Site :=
  texts.foldl (fun site text => ((execute text).perform site).2) site

/-- A query adds notices. -/
lemma notices_prefix_execute (site : Site) (text : String) :
    site.world.notices <+: ((execute text).perform site).2.world.notices := by
  obtain ⟨between, hstep, hnoted⟩ :=
    step_execute (fun _ => True) text (fun _ _ _ _ => trivial) site
  refine List.IsPrefix.trans ?_ hnoted.notices
  rcases hstep with rfl | ⟨name, hstep⟩
  · exact List.prefix_refl _
  · exact hstep.notices_prefix

/-- Queries add notices. -/
lemma notices_prefix_executeInTurn (site : Site) (texts : List String) :
    site.world.notices <+: (executeInTurn site texts).world.notices := by
  induction texts generalizing site with
  | nil => exact List.prefix_refl _
  | cons text rest ih => exact (notices_prefix_execute site text).trans (ih _)

/-- A query with everything saved, among tables without files in common, keeps the directory as a mirror
and all tables simple. -/
lemma mirrored_execute (h : site.Mirrored) (hsimple : site.OnlySimple) (hapart : site.FilesApart)
    {text : String} (hapart' : ((execute text).perform site).2.FilesApart)
    (hsaved : ((execute text).perform site).2.world.AllSaved) :
    ((execute text).perform site).2.Mirrored ∧ ((execute text).perform site).2.OnlySimple ∧
      ((execute text).perform site).2.database.directory = site.database.directory := by
  obtain ⟨between, hstep, hnoted⟩ := step_execute Site.Operation.IsSimple text
    (fun command hread => asksSimply_of_ofText hread) site
  have hbetween : between.Mirrored ∧ between.OnlySimple ∧
      between.database.directory = site.database.directory := by
    rcases hstep with rfl | ⟨name, hstep⟩
    · exact ⟨h, hsimple, rfl⟩
    · have hapart'' : between.FilesApart := by
        unfold Site.FilesApart Site.names at hapart' ⊢
        rwa [hnoted.database] at hapart'
      have hdescribed := hstep.mono fun _ hoperation => Site.Operation.IsSimple.makesFrom hoperation
      exact ⟨h.step hapart hdescribed hapart'' (hsaved.of_prefix hnoted.notices),
        hsimple.step h hstep, hstep.frame.1⟩
  obtain ⟨hmirrored, honly, hdirectory⟩ := hbetween
  refine ⟨hmirrored.noted hnoted, ?_, ?_⟩
  · rw [Site.OnlySimple, hnoted.database]
    exact honly
  · rw [hnoted.database]
    exact hdirectory

/-- Queries with everything saved, and never two tables with a file in common, keep the directory as a
mirror and all tables simple. -/
theorem mirrored_executeInTurn (h : site.Mirrored) (hsimple : site.OnlySimple) {texts : List String}
    (hapart : ∀ done, done <+: texts → (executeInTurn site done).FilesApart)
    (hsaved : (executeInTurn site texts).world.AllSaved) :
    (executeInTurn site texts).Mirrored ∧ (executeInTurn site texts).OnlySimple ∧
      (executeInTurn site texts).database.directory = site.database.directory := by
  induction texts generalizing site with
  | nil => exact ⟨h, hsimple, rfl⟩
  | cons text rest ih =>
    have hbefore : site.FilesApart := hapart [] List.nil_prefix
    have hafter : ((execute text).perform site).2.FilesApart := hapart [text] ⟨rest, rfl⟩
    have hnow : ((execute text).perform site).2.world.AllSaved :=
      hsaved.of_prefix (notices_prefix_executeInTurn _ rest)
    obtain ⟨hmirrored, honly, hdirectory⟩ := mirrored_execute h hsimple hbefore hafter hnow
    have hlater : ∀ done, done <+: rest →
        (executeInTurn ((execute text).perform site).2 done).FilesApart := fun done hdone =>
      hapart (text :: done) (List.cons_prefix_cons.mpr ⟨rfl, hdone⟩)
    obtain ⟨hmirrored', honly', hdirectory'⟩ := ih hmirrored honly hlater hsaved
    exact ⟨hmirrored', honly', hdirectory'.trans hdirectory⟩

/-- From an empty directory on, queries with everything saved, and never two tables with a file in
common, leave the directory as a mirror and all tables simple. -/
lemma mirrored_of_opened {root : String} {v : Value} {world opened : World} {database : Database}
    (hopen : Database.open root v world = (.ok database, opened))
    (hempty : opened.disk.namesIn (Path.ofText database.directory) = []) {texts : List String}
    (hapart : ∀ done, done <+: texts → (executeInTurn ⟨database, opened⟩ done).FilesApart)
    (hsaved : (executeInTurn ⟨database, opened⟩ texts).world.AllSaved) :
    (executeInTurn ⟨database, opened⟩ texts).Mirrored ∧
      (executeInTurn ⟨database, opened⟩ texts).OnlySimple ∧
      (executeInTurn ⟨database, opened⟩ texts).database.directory = database.directory := by
  have hsimple : Site.OnlySimple ⟨database, opened⟩ := by
    rw [Site.OnlySimple, Database.tables_eq_nil_of_open hopen hempty]
    exact fun entry hentry => absurd hentry List.not_mem_nil
  exact mirrored_executeInTurn (Site.mirrored_of_open hopen hempty) hsimple hapart hsaved

/-- Whatever queries are executed on a database from an empty directory on, with whatever outcome: if
everything is saved and never two tables have a file in common, then the database that is closed and
opened again has the same tables just if no name of a table ends like that of a schema file, no column
is named like a mark of dates, and the years of all dates, in defaults and in rows, have four digits. -/
theorem reopens_executeInTurn_iff {root : String} {v : Value} {world opened : World} {database : Database}
    (hopen : Database.open root v world = (.ok database, opened))
    (hempty : opened.disk.namesIn (Path.ofText database.directory) = []) {texts : List String}
    (hapart : ∀ done, done <+: texts → (executeInTurn ⟨database, opened⟩ done).FilesApart)
    (hsaved : (executeInTurn ⟨database, opened⟩ texts).world.AllSaved) :
    (∃ reopened world', Database.open root v (executeInTurn ⟨database, opened⟩ texts).closed =
          (.ok reopened, world') ∧
        ∀ name, name ∈ Entries.keys reopened.tables ↔
          name ∈ (executeInTurn ⟨database, opened⟩ texts).names) ↔
      (∀ name ∈ (executeInTurn ⟨database, opened⟩ texts).names, name.endsWith "_schema" = false) ∧
        ∀ entry ∈ (executeInTurn ⟨database, opened⟩ texts).database.tables, entry.2.IsReadable := by
  obtain ⟨hfinal, honly, hdirectory⟩ := mirrored_of_opened hopen hempty hapart hsaved
  obtain ⟨name, rfl, hname, hplace, -⟩ := Database.open_eq_ok hopen
  exact hfinal.reopens_iff honly hname (hdirectory.trans hplace)

/-- A table is made with a default date and a reference, a record with a time of day is inserted, and a
query fails. -/
def ordinaryQueries : List String :=
  ["CREATE TABLE t (d date DEFAULT '2024-02-29', b string REFERENCES u)",
    "INSERT INTO t (d) VALUES ('1999-01-05 10:20:30.5')",
    "DROP TABLE v"]

/-- A table is made with a default date in an early year. -/
def earlyQueries : List String :=
  ["CREATE TABLE t (d date DEFAULT '0999-01-01')"]

/-- After the ordinary queries the table is there again; a table with a default date in an early year is
not. -/
theorem reopens_executeInTurn_iff_ordinaryQueries :
    (executeInTurn openedSite ordinaryQueries).names = ["t"] ∧
    (∃ reopened world', Database.open "" (.text "db") (executeInTurn openedSite ordinaryQueries).closed =
        (.ok reopened, world') ∧
      ∀ name, name ∈ Entries.keys reopened.tables ↔
        name ∈ (executeInTurn openedSite ordinaryQueries).names) ∧
    (executeInTurn openedSite earlyQueries).names = ["t"] ∧
    ¬∃ reopened world', Database.open "" (.text "db") (executeInTurn openedSite earlyQueries).closed =
        (.ok reopened, world') ∧
      ∀ name, name ∈ Entries.keys reopened.tables ↔
        name ∈ (executeInTurn openedSite earlyQueries).names := by
  have hempty : openedSite.world.disk.namesIn (Path.ofText openedSite.database.directory) = [] := by
    decide +kernel
  have hordinary : ∀ done, done <+: ordinaryQueries → (executeInTurn openedSite done).FilesApart := by
    have hall : ∀ done ∈ ordinaryQueries.inits, (executeInTurn openedSite done).FilesApart := by
      decide +kernel
    exact fun done hdone => hall done ((List.mem_inits done ordinaryQueries).mpr hdone)
  have hearly : ∀ done, done <+: earlyQueries → (executeInTurn openedSite done).FilesApart := by
    have hall : ∀ done ∈ earlyQueries.inits, (executeInTurn openedSite done).FilesApart := by
      decide +kernel
    exact fun done hdone => hall done ((List.mem_inits done earlyQueries).mpr hdone)
  have hafter : (executeInTurn openedSite ordinaryQueries).world.AllSaved ∧
      (∀ name ∈ (executeInTurn openedSite ordinaryQueries).names, name.endsWith "_schema" = false) ∧
      ∀ entry ∈ (executeInTurn openedSite ordinaryQueries).database.tables,
        entry.2.IsReadable := by
    decide +kernel
  have hafter' : (executeInTurn openedSite earlyQueries).world.AllSaved ∧
      ¬∀ entry ∈ (executeInTurn openedSite earlyQueries).database.tables, entry.2.IsReadable := by
    decide +kernel
  refine ⟨by decide +kernel, ?_, by decide +kernel, ?_⟩
  · exact (reopens_executeInTurn_iff open_empty hempty hordinary hafter.1).mpr hafter.2
  · exact mt (reopens_executeInTurn_iff open_empty hempty hearly hafter'.1).mp fun h => hafter'.2 h.2

/-- A table is made that is named like the schema file of another one. -/
def schemaQueries : List String :=
  ["CREATE TABLE t_schema (a number)"]

/-- Queries can keep a database from being opened again: the rows of the table `t_schema` are taken for
the schema of a table `t`. -/
theorem not_reopens_schemaNamed :
    ¬∀ (root : String) (v : Value) (world opened : World) (database : Database) (texts : List String),
      Database.open root v world = (.ok database, opened) →
      opened.disk.namesIn (Path.ofText database.directory) = [] →
      (executeInTurn ⟨database, opened⟩ texts).world.AllSaved →
      ∃ reopened world', Database.open root v (executeInTurn ⟨database, opened⟩ texts).closed =
          (.ok reopened, world') ∧
        ∀ name, name ∈ Entries.keys reopened.tables ↔
          name ∈ (executeInTurn ⟨database, opened⟩ texts).names := by
  intro hall
  have hempty : openedSite.world.disk.namesIn (Path.ofText openedSite.database.directory) = [] := by
    decide +kernel
  have hapart : ∀ done, done <+: schemaQueries → (executeInTurn openedSite done).FilesApart := by
    have hinits : ∀ done ∈ schemaQueries.inits, (executeInTurn openedSite done).FilesApart := by
      decide +kernel
    exact fun done hdone => hinits done ((List.mem_inits done schemaQueries).mpr hdone)
  have hsaved : (executeInTurn openedSite schemaQueries).world.AllSaved := by
    decide +kernel
  obtain ⟨hmirrored, honly, hdirectory⟩ := mirrored_of_opened open_empty hempty hapart hsaved
  have hreopens := hall "" (.text "db") .empty openedSite.world openedSite.database schemaQueries
    open_empty hempty hsaved
  have hplace : openedSite.database.directory = Path.join "" "db" := by
    decide +kernel
  have hname : IsName "db" := by
    decide
  have hplain :=
    ((hmirrored.reopens_iff honly hname (hdirectory.trans hplace)).mp hreopens).1
  have hnone : ¬∀ name ∈ (executeInTurn openedSite schemaQueries).names,
      name.endsWith "_schema" = false := by
    decide +kernel
  exact hnone hplain

end Query

end RecordStore
