import RecordStore.Proofs.Site
import RecordStore.Query.Execution

/-!
# How commands end

A command is refused and changes nothing, or it is carried out, with two exceptions.  An insertion
that has been carried out tells the primary key of the record, and there are keys that cannot be
told; and a deletion can break off.  Either leaves the command half done.
-/

namespace RecordStore

/-- What is found as the primary key of a record of a table, or nothing. -/
def Table.keyOf (table : Table) (record : Record) : Value :=
  (table.schema.primaryKey.map record.value).getD .null

namespace Site

variable {site : Site}

/-- An operation on a table that keeps tables such as come about changes nothing, since there is no
such table, or changes the table that is there. -/
lemma onTable_cases {α : Type} (h : site.database.TablesArise) (name : String)
    (operation : Table → Reply α)
    (hoperation : ∀ table : Table, table.Arises → (operation table).table.Arises) :
    (∃ fault, (onTable name operation).perform site = (.error fault, site)) ∨
      ∃ table, site.database.table name = .ok table ∧
        (onTable name operation).perform site =
          ((operation table).result, site.after name (operation table)) ∧
        (site.after name (operation table)).database.TablesArise := by
  cases htable : site.database.table name with
  | error fault => exact Or.inl ⟨fault, perform_onTable_error htable operation⟩
  | ok table =>
    have harises := hoperation table (h.table htable)
    exact Or.inr ⟨table, rfl, perform_onTable htable operation, h.withTable harises name⟩

end Site

namespace Query

variable {site : Site}

/-- A command leaves a site half done. -/
inductive LeavesHalfDone (site : Site) : Command → Site → Prop where
  /-- The record has been inserted, but its primary key cannot be told. -/
  | insert {name : String} {columns : List String} {values : List Value} {table : Table}
      {record : Record} {fault : Fault} (htable : site.database.table name = .ok table)
      (hinsert : (table.insert (.ofFields (Command.recordOf columns values))).result = .ok record)
      (hkey : insertMessage (table.keyOf record) = .error fault) :
      LeavesHalfDone site (.insert name columns values)
        (site.after name (table.insert (.ofFields (Command.recordOf columns values))))
  /-- Some rows have been removed, but under the next id there is none left. -/
  | delete {name : String} {condition : Option Condition} {table : Table}
      {targets before : List RowId} (htable : site.database.table name = .ok table)
      (hmatching : table.matching (conditionsOf condition) = .ok targets)
      (hstops : table.StopsAfter targets before) :
      LeavesHalfDone site (.delete name condition)
        (site.after name (table.delete (conditionsOf condition)))

/-- A command has ended as it should: refused without a change, or carried out. -/
inductive Completes (site : Site) : Except Fault Result × Site → Prop where
  | refused (fault : Fault) : Completes site (.error fault, site)
  | done {result : Result} {after : Site} (hsuccess : result.success = true)
      (harise : after.database.TablesArise) : Completes site (.ok result, after)

/-- A command ends as it should if its operation on a table is refused or carried out. -/
lemma completes_onTable {α : Type} (h : site.database.TablesArise) (name : String)
    (operation : Table → Reply α) (answer : α → Result)
    (hoperation : ∀ table : Table, table.Arises → (operation table).table.Arises)
    (hends : ∀ table, site.database.table name = .ok table →
      (∃ fault, operation table = .refused table fault) ∨ ∃ a, (operation table).result = .ok a)
    (hanswer : ∀ a, (answer a).success = true) :
    Completes site
      ((do return answer (← Site.onTable name operation) : Work Site Result).perform site) := by
  rcases Site.onTable_cases h name operation hoperation with
    ⟨fault, hnone⟩ | ⟨table, htable, hperform, harise⟩
  · rw [Work.perform_bind_error hnone]
    exact .refused fault
  · rcases hends table htable with ⟨fault, hrefused⟩ | ⟨a, hresult⟩
    · rw [hrefused, Site.after_refused htable] at hperform
      rw [Work.perform_bind_error hperform]
      exact .refused fault
    · rw [hresult] at hperform
      rw [Work.perform_bind_ok hperform]
      exact .done (hanswer a) harise

/-- A command that makes a table ends as it should. -/
lemma completes_createTable (h : site.database.TablesArise) (name : Value) {source : SchemaSource}
    (hsource : source.HasKeyDefaults) {answer : Result} (hanswer : answer.success = true) :
    Completes site
      ((do
        let _ ← Site.createTable name source
        return answer : Work Site Result).perform site) := by
  rcases Site.createTable_cases name source site with
    ⟨fault, hrefused⟩ | ⟨checked, table, effects, world, hcreate, hdone⟩
  · rw [Work.perform_bind_error hrefused]
    exact .refused fault
  · rw [Work.perform_bind_ok hdone]
    exact .done hanswer (h.withTable (.created hsource hcreate) checked)

/-! ## Commands -/

/-- An insertion that the table has carried out tells the primary key, or cannot tell it. -/
lemma perform_runInsert (h : site.database.TablesArise) {name : String} {given : Fields}
    {table : Table} (htable : site.database.table name = .ok table) {record : Record}
    (hresult : (table.insert (.ofFields given)).result = .ok record) :
    (runInsert name given).perform site =
      ((insertMessage (table.keyOf record)).map (.found · (.map record)),
        site.after name (table.insert (.ofFields given))) := by
  have hinsert := Site.perform_onTable htable (·.insert (.ofFields given))
  rcases (h.table htable).steady.insert_cases (.ofFields given) with
    ⟨fault, hrefused⟩ | ⟨appended, effects, -, happended⟩
  · rw [hrefused] at hresult
    cases hresult
  obtain rfl : appended = record := by
    rw [happended] at hresult
    exact Except.ok.inj hresult
  rw [hresult] at hinsert
  generalize hafter : site.after name (table.insert (.ofFields given)) = after at hinsert ⊢
  have hagain : (Site.table name).perform after = (.ok (table.appended appended), after) := by
    refine Site.perform_table ?_
    rw [← hafter, happended]
    exact Database.table_withTable htable (table.appended appended)
  have hrun : (runInsert name given).perform site =
      (do
        let message ← Work.ofExcept (insertMessage (table.keyOf appended))
        return .found message (.map appended) : Work Site Result).perform after :=
    (Work.perform_bind_ok hinsert _).trans (Work.perform_bind_ok hagain _)
  rw [hrun]
  cases insertMessage (table.keyOf appended) <;> rfl

/-- An insertion is refused or carried out, or leaves its record with a key that cannot be told. -/
lemma runInsert_cases (h : site.database.TablesArise) (name : String) (columns : List String)
    (values : List Value) :
    Completes site ((runInsert name (Command.recordOf columns values)).perform site) ∨
      ∃ after, LeavesHalfDone site (.insert name columns values) after := by
  generalize hgiven : Command.recordOf columns values = given
  rcases Site.onTable_cases h name (·.insert (.ofFields given))
      (fun table ht => ht.requested (.insert _)) with
    ⟨fault, hnone⟩ | ⟨table, htable, hinsert, harise⟩
  · rw [runInsert, Work.perform_bind_error hnone]
    exact Or.inl (.refused fault)
  rcases (h.table htable).steady.insert_cases (.ofFields given) with
    ⟨fault, hrefused⟩ | ⟨record, effects, -, happended⟩
  · rw [hrefused, Site.after_refused htable] at hinsert
    rw [runInsert, Work.perform_bind_error hinsert]
    exact Or.inl (.refused fault)
  have hresult : (table.insert (.ofFields given)).result = .ok record := by
    rw [happended]
  cases hkey : insertMessage (table.keyOf record) with
  | ok message =>
    rw [perform_runInsert h htable hresult, hkey]
    exact Or.inl (.done rfl harise)
  | error fault =>
    subst hgiven
    exact Or.inr ⟨_, .insert htable hresult hkey⟩

/-- A selection leaves the site as it is. -/
lemma completes_runSelect (h : site.database.TablesArise) (selection : Selection) :
    Completes site ((runSelect selection).perform site) := by
  cases htable : site.database.table selection.table with
  | error fault =>
    rw [runSelect, Work.perform_bind_error (Site.perform_table htable)]
    exact .refused fault
  | ok table =>
    rw [runSelect, Work.perform_bind_ok (Site.perform_table htable)]
    cases table.find (conditionsOf selection.condition) with
    | error fault => exact .refused fault
    | ok found => exact .done rfl h

/-- A command that is half done ends with a fault. -/
theorem LeavesHalfDone.perform_run (h : site.database.TablesArise) {command : Command}
    {after : Site} (hhalf : LeavesHalfDone site command after) :
    after.database.TablesArise ∧ ∃ fault, (run command).perform site = (.error fault, after) := by
  cases hhalf with
  | @insert name columns values table record fault htable hresult hkey =>
    refine ⟨h.withTable ((h.table htable).requested (.insert _)) name, fault, ?_⟩
    rw [run, perform_runInsert h htable hresult, hkey]
    rfl
  | @delete name condition table targets before htable hmatching hstops =>
    refine ⟨h.withTable ((h.table htable).requested (.delete _)) name, .missingRow, ?_⟩
    have hdelete := Site.perform_onTable htable (·.delete (conditionsOf condition))
    have heq := (h.table htable).steady.delete_of_stopsAfter hmatching hstops
    have hresult : (table.delete (conditionsOf condition)).result = .error .missingRow := by
      rw [heq]
    rw [hresult] at hdelete
    exact Work.perform_bind_error hdelete _

/-- A command ends as it should, or leaves the site half done. -/
theorem run_cases (h : site.database.TablesArise) (command : Command) :
    Completes site ((run command).perform site) ∨
      ∃ after, LeavesHalfDone site command after := by
  cases command with
  | select selection => exact Or.inl (completes_runSelect h selection)
  | insert name columns values => exact runInsert_cases h name columns values
  | update name assignments condition =>
    refine Or.inl (completes_onTable h name
      (fun table => table.update (conditionsOf condition) (.ofFields assignments)) _
      (fun table ht => ht.requested (.update _ _)) ?_ fun n => rfl)
    intro table htable
    rcases (h.table htable).steady.update_cases (conditionsOf condition) (.ofFields assignments) with
      hrefused | hnone | ⟨staged, effects, -, heq⟩
    · exact Or.inl hrefused
    · exact Or.inr ⟨0, by rw [hnone]; rfl⟩
    · exact Or.inr ⟨staged.length, by rw [heq]⟩
  | delete name condition =>
    by_cases hstops : ∃ after, LeavesHalfDone site (.delete name condition) after
    · exact Or.inr hstops
    · refine Or.inl (completes_onTable h name (·.delete (conditionsOf condition)) _
        (fun table ht => ht.requested (.delete _)) ?_ fun n => rfl)
      intro table htable
      rcases (h.table htable).steady.delete_cases (conditionsOf condition) with
        hrefused | ⟨targets, hmatching, ⟨effects, heq⟩ | ⟨before, hstop, -⟩⟩
      · exact Or.inl hrefused
      · exact Or.inr ⟨targets.length, by rw [heq]⟩
      · exact absurd ⟨_, .delete htable hmatching hstop⟩ hstops
  | createTable name columns =>
    refine Or.inl (completes_createTable h (.text name) ?_ rfl)
    refine SchemaSource.IsDescribed.hasKeyDefaults fun entry hentry => ?_
    obtain ⟨declared, -, rfl⟩ := List.mem_map.mp hentry
    exact ⟨_, rfl⟩
  | createIndex name column label =>
    refine Or.inl (completes_onTable h name (·.createIndex (.text column)) _
      (fun table ht => ht.requested (.createIndex _)) ?_ fun n => rfl)
    intro table htable
    rcases table.createIndex_cases (.text column) with
      hrefused | ⟨index, effects, -, -, -, heq⟩
    · exact Or.inl hrefused
    · exact Or.inr ⟨(), by rw [heq]⟩
  | dropTable name =>
    rcases Site.dropTable_cases name site with ⟨fault, hrefused⟩ | ⟨world, hdone⟩
    · rw [run, Work.perform_bind_error hrefused]
      exact Or.inl (.refused fault)
    · rw [run, Work.perform_bind_ok hdone]
      exact Or.inl (.done rfl (h.drop name))
  | use name => exact Or.inl (.done rfl h)

/-! ## Queries -/

/-- How a query ends after a fault: a refusal becomes a failure with a notice. -/
def handled (text : String) (fault : Fault) (site : Site) : Except Fault Result × Site :=
  if fault.isRefusal then
    (.ok (.failure fault.message),
      { site with world := site.world.note (.queryFailed fault.message text) })
  else (.error fault, site)

/-- The result of a query tells of a failure: an error is reported, or a fault ends everything. -/
def Failed : Except Fault Result → Prop
  | .ok result => result.success = false
  | .error _ => True

instance (result : Except Fault Result) : Decidable (Failed result) :=
  match result with
  | .ok result => inferInstanceAs (Decidable (result.success = false))
  | .error _ => inferInstanceAs (Decidable True)

/-- After a fault a query has failed. -/
lemma failed_handled (text : String) (fault : Fault) (site : Site) :
    Failed (handled text fault site).1 := by
  rw [handled]
  split
  · exact rfl
  · trivial

/-- How a fault is reported leaves the database and the disk as they are. -/
lemma handled_frame (text : String) (fault : Fault) (site : Site) :
    (handled text fault site).2.database = site.database ∧
      (handled text fault site).2.world.disk = site.world.disk := by
  rw [handled]
  split
  · exact ⟨rfl, rfl⟩
  · exact ⟨rfl, rfl⟩

/-- A fault that is handled in a query is handled. -/
lemma perform_handler (text : String) (fault : Fault) (site : Site) :
    Work.perform (do
      if fault.isRefusal then
        modify fun site : Site =>
          { site with world := site.world.note (.queryFailed fault.message text) }
        return .failure fault.message
      else throw fault : Work Site Result) site = handled text fault site := by
  rw [handled]
  split
  · rfl
  · rfl

/-- A query that cannot be read fails. -/
lemma perform_execute_unread {text : String} {fault : Fault}
    (h : Command.ofText text = .error fault) (site : Site) :
    (execute text).perform site = handled text fault site := by
  rw [execute, executeCommand, Work.perform_tryCatch, h]
  exact perform_handler text fault site

/-- A query that can be read ends as its command does, with faults handled. -/
lemma perform_execute {text : String} {command : Command} (h : Command.ofText text = .ok command)
    (site : Site) :
    (execute text).perform site =
      match (run command).perform site with
      | (.ok result, after) => (.ok result, after)
      | (.error fault, after) => handled text fault after := by
  rw [execute, executeCommand, Work.perform_tryCatch, h,
    Work.perform_bind_ok (Work.perform_ofExcept (.ok command) site)]
  cases (run command).perform site with
  | mk result after =>
    cases result with
    | ok result => rfl
    | error fault => exact perform_handler text fault after

/-- A query whose command is half done fails in the site that is left. -/
lemma LeavesHalfDone.perform_execute (h : site.database.TablesArise) {text : String}
    {command : Command} (hread : Command.ofText text = .ok command) {after : Site}
    (hhalf : LeavesHalfDone site command after) :
    ∃ fault, (execute text).perform site = handled text fault after := by
  obtain ⟨-, fault, hfault⟩ := hhalf.perform_run h
  refine ⟨fault, ?_⟩
  rw [Query.perform_execute hread, hfault]

/-- A query fails and leaves the site as it is, or is carried out, or leaves its command half
done. -/
theorem execute_cases (h : site.database.TablesArise) (text : String) :
    (∃ fault, (execute text).perform site = handled text fault site) ∨
      (∃ result after, result.success = true ∧ after.database.TablesArise ∧
        (execute text).perform site = (.ok result, after)) ∨
      ∃ command after, Command.ofText text = .ok command ∧ LeavesHalfDone site command after := by
  cases hread : Command.ofText text with
  | error fault => exact Or.inl ⟨fault, perform_execute_unread hread site⟩
  | ok command =>
    rw [perform_execute hread]
    rcases run_cases h command with hcompletes | ⟨after, hhalf⟩
    · generalize (run command).perform site = outcome at hcompletes ⊢
      cases hcompletes with
      | refused fault => exact Or.inl ⟨fault, rfl⟩
      | done hsuccess harise => exact Or.inr (Or.inl ⟨_, _, hsuccess, harise, rfl⟩)
    · exact Or.inr (Or.inr ⟨command, after, rfl, hhalf⟩)

/-- A query keeps tables such as come about. -/
theorem tablesArise_execute (h : site.database.TablesArise) (text : String) :
    ((execute text).perform site).2.database.TablesArise := by
  rcases execute_cases h text with ⟨fault, heq⟩ | ⟨result, after, -, harise, heq⟩ |
    ⟨command, after, hread, hhalf⟩
  · rw [heq, (handled_frame text fault site).1]
    exact h
  · rw [heq]
    exact harise
  · obtain ⟨fault, heq⟩ := hhalf.perform_execute h hread
    rw [heq, (handled_frame text fault after).1]
    exact (hhalf.perform_run h).1

end Query

/-! ## Everything that can happen to a database -/

namespace Site

/-- A site comes about: a database is opened on any disk, queries and requests follow, tables are
made and dropped, and the world changes from elsewhere. -/
inductive Arises : Site → Prop where
  | opened {root : String} {name : Value} {world after : World} {database : Database}
      (h : Database.open root name world = (.ok database, after)) : Arises ⟨database, after⟩
  | elsewhere {site : Site} (h : Arises site) (world : World) : Arises ⟨site.database, world⟩
  | executed {site : Site} (h : Arises site) (text : String) :
      Arises ((Query.execute text).perform site).2
  | requested {site : Site} (h : Arises site) (name : String) (request : Table.Request) :
      Arises ((onTable name (·.reply request)).perform site).2
  | created {site : Site} (h : Arises site) (name : Value) {source : SchemaSource}
      (hsource : source.HasKeyDefaults) : Arises ((createTable name source).perform site).2
  | dropped {site : Site} (h : Arises site) (name : String) :
      Arises ((dropTable name).perform site).2
  | closed {site : Site} (h : Arises site) :
      Arises ⟨(site.database.close site.world).1, (site.database.close site.world).2⟩

/-- The tables of a site that comes about come about as tables do. -/
theorem Arises.tablesArise {site : Site} (h : site.Arises) : site.database.TablesArise := by
  induction h with
  | opened h => exact Database.tablesArise_of_open h
  | elsewhere _ world ih => exact ih
  | executed _ text ih => exact Query.tablesArise_execute ih text
  | requested _ name request ih =>
    rcases onTable_cases ih name (·.reply request)
        (fun table ht => ht.requested request) with ⟨fault, heq⟩ | ⟨table, -, heq, harise⟩
    · rw [heq]
      exact ih
    · rw [heq]
      exact harise
  | @created site _ name source hsource ih =>
    rcases createTable_cases name source site with
      ⟨fault, heq⟩ | ⟨checked, table, effects, world, hcreate, heq⟩
    · rw [heq]
      exact ih
    · rw [heq]
      exact ih.withTable (.created hsource hcreate) checked
  | @dropped site _ name ih =>
    rcases dropTable_cases name site with ⟨fault, heq⟩ | ⟨world, heq⟩
    · rw [heq]
      exact ih
    · rw [heq]
      exact ih.drop name
  | closed _ ih => exact ih.close _

end Site

end RecordStore
