import RecordStore.Proofs.Site.Step

/-!
# Queries are steps

A query changes nothing, or it is one step of one table; how it is reported only adds a notice.  Hence
in every database that comes about the tables are in its directory.
-/

namespace RecordStore

namespace Query

/-- The operation that a command asks for, if it can change anything. -/
def Command.operation? : Command → Option Site.Operation
  | .select _ => none
  | .insert table columns values =>
    some (.request table (.insert (.ofFields (recordOf columns values))))
  | .update table assignments condition =>
    some (.request table (.update (conditionsOf condition) (.ofFields assignments)))
  | .delete table condition => some (.request table (.delete (conditionsOf condition)))
  | .createTable table columns =>
    some (.createTable (.text table) (.columns (columns.map fun (name, declared) =>
      (Value.text name, .described (.ofFields declared)))))
  | .createIndex table column _ => some (.request table (.createIndex (.text column)))
  | .dropTable table => some (.dropTable table)
  | .use _ => none

variable {allowed : Site.Operation → Prop} {site : Site}

/-- An operation that does to a table what a request does changes nothing or is a step. -/
lemma step_onTable {α : Type} {name : String} (operation : Table → Reply α)
    {request : Table.Request} (hallowed : allowed (.request name request))
    (htable : ∀ table : Table, (operation table).table = (table.reply request).table)
    (heffects : ∀ table : Table, (operation table).effects = (table.reply request).effects)
    (site : Site) :
    ((Site.onTable name operation).perform site).2 = site ∨
      ∃ stepped, Site.Step allowed stepped site ((Site.onTable name operation).perform site).2 := by
  have hsame : ((Site.onTable name operation).perform site).2 =
      ((Site.onTable name (·.reply request)).perform site).2 := by
    cases hfound : site.database.table name with
    | error fault => rw [Site.perform_onTable_error hfound, Site.perform_onTable_error hfound]
    | ok table =>
      rw [Site.perform_onTable hfound, Site.perform_onTable hfound]
      simp only [Site.after, htable, heffects]
  rw [hsame]
  exact (Site.onTable_step hallowed site).imp_right fun h => ⟨name, h⟩

/-- A command changes nothing or is a step by what it asks for. -/
theorem step_run {command : Command}
    (hallowed : ∀ operation ∈ command.operation?, allowed operation) (site : Site) :
    ((run command).perform site).2 = site ∨
      ∃ name, Site.Step allowed name site ((run command).perform site).2 := by
  cases command with
  | select selection =>
    left
    cases htable : site.database.table selection.table with
    | error fault => rw [run, runSelect, Work.perform_bind_error (Site.perform_table htable)]
    | ok table =>
      rw [run, runSelect, Work.perform_bind_ok (Site.perform_table htable)]
      cases table.find (conditionsOf selection.condition) <;> rfl
  | insert name columns values =>
    rw [run, runInsert, Work.perform_bind_snd]
    · exact step_onTable (·.insert _) (hallowed _ rfl) (fun _ => rfl) (fun _ => rfl) site
    · intro stored after
      cases htable : after.database.table name with
      | error fault => rw [Work.perform_bind_error (Site.perform_table htable)]
      | ok table =>
        rw [Work.perform_bind_ok (Site.perform_table htable)]
        exact Work.perform_bind_snd _ (fun _ _ => rfl) after
  | update name assignments condition =>
    rw [run, Work.perform_bind_snd _ fun _ _ => rfl]
    exact step_onTable (·.update _ _) (hallowed _ rfl) (fun _ => rfl) (fun _ => rfl) site
  | delete name condition =>
    rw [run, Work.perform_bind_snd _ fun _ _ => rfl]
    exact step_onTable (·.delete _) (hallowed _ rfl) (fun _ => rfl) (fun _ => rfl) site
  | createTable name columns =>
    rw [run, Work.perform_bind_snd _ fun _ _ => rfl]
    rcases Site.createTable_step (hallowed _ rfl) site with hsame | ⟨checked, -, h⟩
    · exact Or.inl hsame
    · exact Or.inr ⟨checked, h⟩
  | createIndex name column label =>
    rw [run, Work.perform_bind_snd _ fun _ _ => rfl]
    exact step_onTable (·.createIndex _) (hallowed _ rfl) (fun _ => rfl) (fun _ => rfl) site
  | dropTable name =>
    rw [run, Work.perform_bind_snd _ fun _ _ => rfl]
    exact (Site.dropTable_step name site).imp_right fun h => ⟨name, h⟩
  | use name => exact Or.inl rfl

/-- A site differs from another one in added notices alone. -/
structure Noted (site after : Site) : Prop where
  database : after.database = site.database
  disk : after.world.disk = site.world.disk
  notices : site.world.notices <+: after.world.notices

/-- A query changes nothing or is a step by what it asks for, apart from a notice about its failure. -/
theorem step_execute (allowed : Site.Operation → Prop) (text : String)
    (hallowed : ∀ command, Command.ofText text = .ok command →
      ∀ operation ∈ command.operation?, allowed operation) (site : Site) :
    ∃ between, (between = site ∨ ∃ name, Site.Step allowed name site between) ∧
      Noted between ((execute text).perform site).2 := by
  have hhandled : ∀ fault after, Noted after (handled text fault after).2 := by
    intro fault after
    obtain ⟨hdatabase, hdisk⟩ := handled_frame text fault after
    refine ⟨hdatabase, hdisk, ?_⟩
    rw [handled]
    split
    · exact List.prefix_append _ _
    · exact List.prefix_refl _
  cases hread : Command.ofText text with
  | error fault =>
    rw [perform_execute_unread hread]
    exact ⟨site, Or.inl rfl, hhandled fault site⟩
  | ok command =>
    refine ⟨((run command).perform site).2, step_run (hallowed command hread) site, ?_⟩
    rw [perform_execute hread]
    generalize (run command).perform site = outcome
    obtain ⟨_ | result, after⟩ := outcome
    · exact hhandled _ after
    · exact ⟨rfl, rfl, List.prefix_refl _⟩

end Query

/-! ## Databases that come about -/

namespace Database

variable {database : Database}

/-- Tables that are loaded are in the directory of the database. -/
lemma IsPlaced.loadTables (h : database.IsPlaced) {names : List String} {world world' : World}
    {loaded : Database} (hloaded : database.loadTables world names = (.ok loaded, world')) :
    loaded.IsPlaced := by
  refine keeps_loadTables (fun database disk name notices table hplaced hload => ?_) h hloaded
  refine ⟨hplaced.directory, fun entry hentry => ?_⟩
  rcases Entries.mem_put hentry with hold | ⟨hnew, hkey⟩
  · exact hplaced.tables entry hold
  · obtain ⟨hname, hdirectory⟩ := Table.sameFiles_of_load hload
    rw [hnew, hname]
    exact ⟨(beq_iff_eq.mp hkey).symm, hdirectory⟩

/-- The tables of a database that has been opened are in its directory. -/
theorem isPlaced_of_open {root : String} {name : Value} {world world' : World}
    (h : Database.open root name world = (.ok database, world')) : database.IsPlaced := by
  unfold Database.open at h
  split at h
  · cases h
  · rename_i checked hchecked
    dsimp only at h
    split at h
    · cases h
    · split at h
      · rename_i hloaded
        cases h
        have hdirectory := (checkName_eq_ok.mp hchecked).2.endsInName_join root
        exact IsPlaced.loadTables ⟨hdirectory, fun entry hentry => by cases hentry⟩ hloaded
      · cases h

end Database

/-- The tables of a site that comes about are in the directory of its database. -/
theorem Site.Arises.isPlaced {site : Site} (h : site.Arises) : site.database.IsPlaced := by
  induction h with
  | opened h => exact Database.isPlaced_of_open h
  | elsewhere _ world ih => exact ih
  | @executed site _ text ih =>
    obtain ⟨between, hstep, hnoted⟩ :=
      Query.step_execute (fun _ => True) text (fun _ _ _ _ => trivial) site
    rw [hnoted.database]
    rcases hstep with rfl | ⟨name, hstep⟩
    · exact ih
    · exact hstep.isPlaced ih
  | requested _ name request ih => exact isPlaced_does ih (.request name request)
  | created _ name hsource ih => exact isPlaced_does ih (.createTable name _)
  | dropped _ name ih => exact isPlaced_does ih (.dropTable name)
  | @closed site _ ih =>
    refine ⟨?_, ?_⟩
    · rw [Database.close]
      split
      · exact ih.directory
      · exact ih.directory
    · intro entry hentry
      rw [Database.close] at hentry ⊢
      split at hentry
      · rename_i hclosed
        rw [if_pos hclosed]
        exact ih.tables entry hentry
      · cases hentry

end RecordStore
