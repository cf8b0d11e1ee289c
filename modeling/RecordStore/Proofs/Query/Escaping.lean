import RecordStore.Proofs.Query.Failure
import RecordStore.Proofs.Query.Literals
import RecordStore.Proofs.Query.Reading
import RecordStore.Proofs.Table.Escaping

/-!
# Faults that escape from queries

Whatever has been done to a database by queries, a query ends with a report, of a success or of a
failure, unless it overreaches: it has a word that is no number that can be read, or its command comes
upon an integer out of the range of floating-point numbers in a column of numbers, or upon a value
without a text of which the text is needed.  Then the fault is no refusal, and it escapes.
-/

namespace RecordStore

/-! ## What queries make of tables -/

/-- A table such as queries make: it is settled, and the sizes of its columns have texts. -/
structure Table.IsQueried (table : Table) : Prop where
  settled : ∃ records, table.Settled records
  sizes : table.schema.TellsSizes

/-- All tables are such as queries make. -/
def Database.TablesQueried (database : Database) : Prop :=
  ∀ entry ∈ database.tables, entry.2.IsQueried

/-- A table that is found is such as queries make. -/
lemma Database.TablesQueried.table {database : Database} (h : database.TablesQueried)
    {name : String} {table : Table} (htable : database.table name = .ok table) :
    table.IsQueried :=
  h (name, table) (Entries.mem_of_lookup (lookup_of_table htable))

namespace Site

/-- An operation makes tables only of columns that are described by values with texts. -/
def Operation.IsTold : Operation → Prop
  | .createTable _ source => ∃ columns, source = .columns (Schema.sourcesOf columns) ∧
      ∀ c ∈ columns, TellsValues c.2
  | _ => True

/-- A step of a database leaves tables such as queries make. -/
lemma Step.tablesQueried {name : String} {site after : Site}
    (h : Step Operation.IsTold name site after) (hqueried : site.database.TablesQueried) :
    after.database.TablesQueried := by
  cases h with
  | @requested table htable request hallowed =>
    obtain ⟨⟨records, hsettled⟩, hsizes⟩ := hqueried.table htable
    have hstep := hsettled.steady.step_reply request
    intro entry hentry
    rcases Entries.mem_put hentry with hold | ⟨hnew, -⟩
    · exact hqueried entry hold
    · rw [hnew]
      exact ⟨hsettled.reaches (.single hstep), hstep.schema_eq ▸ hsizes⟩
  | @created source table effects hallowed hname hnew hcreate =>
    obtain ⟨columns, rfl, htold⟩ := hallowed
    have hsource : SchemaSource.IsDescribed (.columns (Schema.sourcesOf columns)) :=
      Schema.isDescribed_sourcesOf columns
    obtain ⟨-, -, -, -, hschema, -⟩ := Table.effects_of_create hcreate
    intro entry hentry
    rcases Entries.mem_put hentry with hold | ⟨hnew, -⟩
    · exact hqueried entry hold
    · rw [hnew]
      exact ⟨⟨[], (Table.tidy_of_create hsource hcreate).settled⟩,
        Schema.tellsSizes_ofColumns htold hschema⟩
  | dropped htable => exact fun entry hentry => hqueried entry (List.mem_filter.mp hentry).1

/-- A site such as queries make: a database without tables is opened, queries follow, whatever their
outcome, and it may be closed. -/
inductive Queried : Site → Prop where
  | opened {root : String} {name : Value} {world after : World} {database : Database}
      (h : Database.open root name world = (.ok database, after))
      (hnone : database.tables = []) : Queried ⟨database, after⟩
  | executed {site : Site} (h : Queried site) (text : String) :
      Queried ((Query.execute text).perform site).2
  | closed {site : Site} (h : Queried site) :
      Queried ⟨(site.database.close site.world).1, (site.database.close site.world).2⟩

variable {site : Site}

/-- A site such as queries make comes about. -/
lemma Queried.arises (h : site.Queried) : site.Arises := by
  induction h with
  | opened h _ => exact .opened h
  | executed _ text ih => exact .executed ih text
  | closed _ ih => exact .closed ih

end Site

namespace Query

variable {site : Site}

/-- What a command asks for makes tables of columns that are described by values with texts. -/
lemma Command.IsTold.operation {command : Command} (h : command.IsTold) :
    ∀ operation ∈ command.operation?, operation.IsTold := by
  cases command with
  | createTable name columns =>
    intro operation hoperation
    obtain rfl := Option.some.inj hoperation
    exact ⟨columns, rfl, h⟩
  | select selection =>
    intro operation hoperation
    cases hoperation
  | use name =>
    intro operation hoperation
    cases hoperation
  | _ =>
    intro operation hoperation
    obtain rfl := Option.some.inj hoperation
    exact trivial

/-- The tables of a site such as queries make are such as queries make. -/
theorem tablesQueried_of_queried (h : site.Queried) : site.database.TablesQueried := by
  induction h with
  | opened _ hnone =>
    intro entry hentry
    rw [hnone] at hentry
    cases hentry
  | @executed site _ text ih =>
    obtain ⟨between, hstep, hnoted⟩ := step_execute Site.Operation.IsTold text
      (fun command hread => (isTold_of_ofText hread).operation) site
    rw [hnoted.database]
    rcases hstep with rfl | ⟨name, hstep⟩
    · exact ih
    · exact hstep.tablesQueried ih
  | @closed site _ ih =>
    intro entry hentry
    rw [Database.close] at hentry
    split at hentry
    · exact ih entry hentry
    · cases hentry

/-! ## Reports -/

/-- A result reports a success with a message and no error, or a failure with nothing but an error. -/
def Result.IsReport (result : Result) : Prop :=
  (result.success = true ∧ result.message.isSome = true ∧ result.error = none) ∨
    ∃ error, result = .failure error

/-- Whenever some work is done its result is a report. -/
def Reports (work : Work Site Result) : Prop :=
  ∀ site result after, work.perform site = (.ok result, after) → result.IsReport

/-- Work that goes on with what the step before has given reports if all that follows does. -/
lemma reports_bind {α : Type} (work : Work Site α) {next : α → Work Site Result}
    (hnext : ∀ a, Reports (next a)) : Reports (work >>= next) := by
  intro site result after hperform
  rw [Work.perform_bind] at hperform
  split at hperform
  · exact hnext _ _ _ _ hperform
  · cases hperform

/-- A success with a message is a report. -/
lemma reports_found (message : String) (data : Option Value) :
    Reports (pure ⟨true, some message, data, none⟩) := by
  intro site result after hperform
  obtain rfl := Except.ok.inj (Prod.mk.inj hperform).1
  exact Or.inl ⟨rfl, rfl, rfl⟩

/-- A command that is carried out reports. -/
lemma reports_run (command : Command) : Reports (run command) := by
  cases command with
  | select selection =>
    exact reports_bind _ fun table => reports_bind _ fun found => reports_found _ _
  | insert name columns values =>
    refine reports_bind _ fun stored => reports_bind _ fun table => ?_
    exact reports_bind _ fun message => reports_found _ _
  | use name => exact reports_found _ _
  | _ => exact reports_bind _ fun _ => reports_found _ _

/-- What a query results in is a report. -/
theorem isReport_of_execute {text : String} {result : Result}
    (h : ((execute text).perform site).1 = .ok result) : result.IsReport := by
  have hhandled : ∀ fault after, (handled text fault after).1 = .ok result →
      result.IsReport := by
    intro fault after hresult
    rw [handled] at hresult
    split at hresult
    · obtain rfl := Except.ok.inj hresult
      exact Or.inr ⟨_, rfl⟩
    · cases hresult
  cases hread : Command.ofText text with
  | error fault =>
    rw [perform_execute_unread hread] at h
    exact hhandled fault site h
  | ok command =>
    rw [perform_execute hread] at h
    have hreports := reports_run command site
    generalize (run command).perform site = outcome at h hreports
    obtain ⟨_ | found, after⟩ := outcome
    · exact hhandled _ after h
    · obtain rfl := Except.ok.inj h
      exact hreports found after rfl

/-! ## Commands that overreach -/

/-- A command overreaches at a site: it comes upon an integer out of the range of floating-point numbers
in a column of numbers, or upon a value without a text of which the text is needed. -/
inductive Overreaches (site : Site) : Command → Prop where
  /-- A column is given an integer out of range. -/
  | insert {name : String} {columns : List String} {values : List Value} {table : Table}
      (htable : site.database.table name = .ok table)
      (hover : table.schema.Overflows (Record.value
        · ((Command.recordOf columns values).map fun field => (.text field.1, field.2)))) :
      Overreaches site (.insert name columns values)
  /-- The record has been inserted, but its primary key has no text. -/
  | tell {name : String} {columns : List String} {values : List Value} {table : Table}
      {record : Record} (htable : site.database.table name = .ok table)
      (hinsert : (table.insert (.ofFields (Command.recordOf columns values))).result = .ok record)
      (hkey : ¬(table.keyOf record).IsTold) : Overreaches site (.insert name columns values)
  /-- A row holds a value without a text where a pattern is to be matched. -/
  | select {selection : Selection} {condition : Condition} {table : Table}
      (htable : site.database.table selection.table = .ok table)
      (hcondition : selection.condition = some condition) (hmeets : table.MeetsUntold condition) :
      Overreaches site (.select selection)
  | delete {name : String} {condition : Condition} {table : Table}
      (htable : site.database.table name = .ok table) (hmeets : table.MeetsUntold condition) :
      Overreaches site (.delete name (some condition))
  | find {name : String} {assignments : Fields} {condition : Condition} {table : Table}
      (htable : site.database.table name = .ok table)
      (hknown : ∀ field ∈ assignments, table.schema.has (.text field.1) = true)
      (hmeets : table.MeetsUntold condition) :
      Overreaches site (.update name assignments (some condition))
  /-- An integer out of range is checked for a row that is to be changed. -/
  | update {name : String} {assignments : Fields} {condition : Option Condition} {table : Table}
      {targets : List RowId} (htable : site.database.table name = .ok table)
      (hknown : ∀ field ∈ assignments, table.schema.has (.text field.1) = true)
      (hmatching : table.matching (conditionsOf condition) = .ok targets) (hsome : targets ≠ [])
      (hover : table.UpdateOverflows (assignments.map fun field => (.text field.1, field.2))
        targets) : Overreaches site (.update name assignments condition)
  /-- A column is described with an integer out of range for its default. -/
  | createTable {name : String} {columns : List (String × Fields)}
      (hopen : site.database.closed = false) (hname : IsName name)
      (hnew : site.database.hasTable name = false) (hover : Schema.DescribeOverflow columns) :
      Overreaches site (.createTable name columns)

/-- A table that is not found is refused. -/
lemma isRefusal_of_table {database : Database} {name : String} {fault : Fault}
    (h : database.table name = .error fault) : fault.isRefusal = true := by
  rw [Database.table, Database.checkOpen] at h
  split at h
  · obtain rfl := Except.error.inj h
    rfl
  · simp only [bind, Except.bind] at h
    split at h
    · cases h
    · obtain rfl := Except.error.inj h
      rfl

/-- A fault escapes from work whose result is only changed afterwards if it escapes from the work. -/
lemma escapes_perform_return {α β : Type} (work : Work Site α) (answer : α → β) :
    Escapes ((do return answer (← work) : Work Site β).perform site).1 ↔
      Escapes (work.perform site).1 := by
  rw [Work.perform_bind]
  obtain ⟨result, after⟩ := work.perform site
  cases result with
  | error fault => exact escapes_error.trans escapes_error.symm
  | ok a => exact iff_of_false (not_escapes_ok _) (not_escapes_ok _)

/-- A fault escapes from an operation on a table if the table is there and the fault escapes from the
operation. -/
lemma escapes_onTable {α : Type} (name : String) (operation : Table → Reply α) :
    Escapes ((Site.onTable name operation).perform site).1 ↔
      ∃ table, site.database.table name = .ok table ∧ Escapes (operation table).result := by
  cases htable : site.database.table name with
  | error fault =>
    rw [Site.perform_onTable_error htable operation]
    simp [isRefusal_of_table htable]
  | ok table =>
    rw [Site.perform_onTable htable operation]
    simp

/-- The message about an inserted record is made, unless the primary key has no text. -/
lemma escapes_insertMessage (key : Value) : Escapes (insertMessage key) ↔ ¬key.IsTold := by
  rw [insertMessage]
  split
  · rename_i hnull
    obtain rfl : key = .null := by cases key <;> first | rfl | cases hnull
    exact iff_of_false (not_escapes_ok _) fun huntold => huntold rfl
  · rw [escapes_map, Value.escapes_display]

/-- A fault escapes from an insertion exactly if it overreaches. -/
lemma escapes_runInsert (h : site.Queried) {name : String} {columns : List String}
    {values : List Value} :
    Escapes ((run (.insert name columns values)).perform site).1 ↔
      Overreaches site (.insert name columns values) := by
  rw [run]
  cases htable : site.database.table name with
  | error fault =>
    rw [runInsert, Work.perform_bind_error (Site.perform_onTable_error htable _)]
    refine iff_of_false (not_escapes_error (isRefusal_of_table htable)) fun hover => ?_
    cases hover with
    | insert htable' _ => cases htable.symm.trans htable'
    | tell htable' _ _ => cases htable.symm.trans htable'
  | ok table =>
    obtain ⟨⟨records, hsettled⟩, hsizes⟩ := (tablesQueried_of_queried h).table htable
    have hinsert := hsettled.escapes_insert hsizes
      ((Command.recordOf columns values).map fun field => (.text field.1, field.2))
    have hiff : Overreaches site (.insert name columns values) ↔
        Escapes (table.insert (.ofFields (Command.recordOf columns values))).result ∨
          ∃ record, (table.insert (.ofFields (Command.recordOf columns values))).result =
            .ok record ∧ ¬(table.keyOf record).IsTold := by
      rw [Value.ofFields, hinsert]
      constructor
      · intro hover
        cases hover with
        | insert htable' hover =>
          obtain rfl := Except.ok.inj (htable.symm.trans htable')
          exact Or.inl hover
        | tell htable' hresult hkey =>
          obtain rfl := Except.ok.inj (htable.symm.trans htable')
          exact Or.inr ⟨_, hresult, hkey⟩
      · rintro (hover | ⟨record, hresult, hkey⟩)
        · exact .insert htable hover
        · exact .tell htable hresult hkey
    rw [hiff]
    cases hresult : (table.insert (.ofFields (Command.recordOf columns values))).result with
    | error fault =>
      have hperform := Site.perform_onTable htable
        (·.insert (.ofFields (Command.recordOf columns values)))
      rw [hresult] at hperform
      rw [runInsert, Work.perform_bind_error hperform]
      simp
    | ok record =>
      rw [perform_runInsert h.arises.tablesArise htable hresult]
      simp [escapes_insertMessage]

/-- A fault escapes from a selection exactly if it overreaches. -/
lemma escapes_runSelect (h : site.Queried) {selection : Selection}
    (htold : ∀ c ∈ selection.condition, c.value.IsTold) :
    Escapes ((run (.select selection)).perform site).1 ↔ Overreaches site (.select selection) := by
  rw [run, runSelect]
  cases htable : site.database.table selection.table with
  | error fault =>
    rw [Work.perform_bind_error (Site.perform_table htable)]
    refine iff_of_false (not_escapes_error (isRefusal_of_table htable)) fun hover => ?_
    cases hover with
    | select htable' _ _ => cases htable.symm.trans htable'
  | ok table =>
    obtain ⟨⟨records, hsettled⟩, -⟩ := (tablesQueried_of_queried h).table htable
    have hfind := (hsettled.escapes_find (conditionsOf selection.condition)).trans
      (hsettled.escapes_matching htold)
    rw [Work.perform_bind_ok (Site.perform_table htable)]
    refine (escapes_perform_return (Work.ofExcept (table.find (conditionsOf selection.condition)))
      _).trans (hfind.trans ⟨?_, fun hover => ?_⟩)
    · rintro ⟨c, hc, hmeets⟩
      exact .select htable hc hmeets
    · cases hover with
      | select htable' hc hmeets =>
        obtain rfl := Except.ok.inj (htable.symm.trans htable')
        exact ⟨_, hc, hmeets⟩

/-- A fault escapes from an update exactly if it overreaches. -/
lemma escapes_runUpdate (h : site.Queried) {name : String} {assignments : Fields}
    {condition : Option Condition} (htold : ∀ c ∈ condition, c.value.IsTold)
    (hassignments : HoldsSimple assignments) :
    Escapes ((run (.update name assignments condition)).perform site).1 ↔
      Overreaches site (.update name assignments condition) := by
  rw [run, escapes_perform_return, escapes_onTable]
  constructor
  · rintro ⟨table, htable, hescapes⟩
    obtain ⟨⟨records, hsettled⟩, hsizes⟩ := (tablesQueried_of_queried h).table htable
    obtain ⟨hknown, hmatching | ⟨targets, htargets, hsome, hover⟩⟩ :=
      (hsettled.escapes_update hsizes _ hassignments).mp hescapes
    · obtain ⟨c, rfl, hmeets⟩ := (hsettled.escapes_matching htold).mp hmatching
      exact .find htable hknown hmeets
    · exact .update htable hknown htargets hsome hover
  · intro hover
    cases hover with
    | @find _ _ c table htable hknown hmeets =>
      obtain ⟨⟨records, hsettled⟩, hsizes⟩ := (tablesQueried_of_queried h).table htable
      refine ⟨table, htable, (hsettled.escapes_update hsizes _ hassignments).mpr ⟨hknown, ?_⟩⟩
      exact Or.inl ((hsettled.escapes_matching htold).mpr ⟨c, rfl, hmeets⟩)
    | @update _ _ _ table targets htable hknown htargets hsome hover =>
      obtain ⟨⟨records, hsettled⟩, hsizes⟩ := (tablesQueried_of_queried h).table htable
      refine ⟨table, htable, (hsettled.escapes_update hsizes _ hassignments).mpr ⟨hknown, ?_⟩⟩
      exact Or.inr ⟨targets, htargets, hsome, hover⟩

/-- A fault escapes from a deletion exactly if it overreaches. -/
lemma escapes_runDelete (h : site.Queried) {name : String} {condition : Option Condition}
    (htold : ∀ c ∈ condition, c.value.IsTold) :
    Escapes ((run (.delete name condition)).perform site).1 ↔
      Overreaches site (.delete name condition) := by
  rw [run, escapes_perform_return, escapes_onTable]
  constructor
  · rintro ⟨table, htable, hescapes⟩
    obtain ⟨⟨records, hsettled⟩, -⟩ := (tablesQueried_of_queried h).table htable
    obtain ⟨c, rfl, hmeets⟩ :=
      (hsettled.escapes_matching htold).mp ((hsettled.escapes_delete _).mp hescapes)
    exact .delete htable hmeets
  · intro hover
    cases hover with
    | delete htable hmeets =>
      obtain ⟨⟨records, hsettled⟩, -⟩ := (tablesQueried_of_queried h).table htable
      refine ⟨_, htable, (hsettled.escapes_delete _).mpr ?_⟩
      exact (hsettled.escapes_matching htold).mpr ⟨_, rfl, hmeets⟩

/-- A fault escapes from the making of a table exactly if it overreaches. -/
lemma escapes_createTable {name : String} {columns : List (String × Fields)}
    (htold : ∀ c ∈ columns, TellsValues c.2) :
    Escapes ((run (.createTable name columns)).perform site).1 ↔
      Overreaches site (.createTable name columns) := by
  have hiff : Overreaches site (.createTable name columns) ↔ site.database.closed = false ∧
      IsName name ∧ site.database.hasTable name = false ∧ Schema.DescribeOverflow columns := by
    constructor
    · intro hover
      cases hover with
      | createTable hopen hname hnew hover => exact ⟨hopen, hname, hnew, hover⟩
    · rintro ⟨hopen, hname, hnew, hover⟩
      exact .createTable hopen hname hnew hover
  have hask : Site.askDatabase.perform site = (.ok site.database, site) := rfl
  have hrun : run (.createTable name columns) = (do
      let _ ← Site.createTable (.text name) (.columns (Schema.sourcesOf columns))
      return .done ("Table " ++ name ++ " created")) := rfl
  rw [hiff, hrun, escapes_perform_return, Site.createTable, Work.perform_bind_ok hask,
    Database.checkOpen]
  cases hopen : site.database.closed with
  | true => exact iff_of_false (not_escapes_error rfl) (by simp)
  | false =>
    rw [if_neg Bool.false_ne_true, Work.perform_bind_ok (Work.perform_ofExcept _ _)]
    by_cases hname : IsName name
    · have hcheck : checkName .table (.text name) = .ok name := checkName_eq_ok.mpr ⟨rfl, hname⟩
      rw [hcheck, Work.perform_bind_ok (Work.perform_ofExcept _ _)]
      cases hnew : site.database.hasTable name with
      | true => exact iff_of_false (not_escapes_error rfl) (by simp)
      | false =>
        simp only [hname, true_and]
        rw [← Table.escapes_create name site.database.directory htold]
        cases Table.create name (.columns (Schema.sourcesOf columns)) site.database.directory with
        | error fault => exact escapes_error.trans escapes_error.symm
        | ok created => exact iff_of_false (not_escapes_ok _) (not_escapes_ok _)
    · have hcheck : checkName .table (.text name) =
          .error (.violation (.badName .table name)) := if_neg hname
      rw [hcheck]
      exact iff_of_false (not_escapes_error rfl) fun hover => hname hover.2.1

/-- A fault escapes from a command that has been read exactly if the command overreaches. -/
lemma escapes_run (h : site.Queried) {command : Command} (htold : command.IsTold)
    (hsimple : command.AsksSimply) :
    Escapes ((run command).perform site).1 ↔ Overreaches site command := by
  cases command with
  | select selection => exact escapes_runSelect h htold
  | insert name columns values => exact escapes_runInsert h
  | update name assignments condition =>
    refine escapes_runUpdate h htold fun field hfield => ?_
    obtain ⟨changes, hchanges, hsimple⟩ := hsimple _ rfl
    obtain rfl := Value.map.inj hchanges
    exact hsimple (.text field.1, field.2) (List.mem_map_of_mem hfield)
  | delete name condition => exact escapes_runDelete h htold
  | createTable name columns => exact escapes_createTable htold
  | createIndex name column label =>
    rw [run, escapes_perform_return, escapes_onTable]
    refine iff_of_false ?_ fun hover => ?_
    · rintro ⟨table, htable, hescapes⟩
      obtain ⟨⟨records, hsettled⟩, -⟩ := (tablesQueried_of_queried h).table htable
      exact hsettled.not_escapes_createIndex column hescapes
    · cases hover
  | dropTable name =>
    refine iff_of_false ?_ fun hover => ?_
    · rw [run, escapes_perform_return]
      cases htable : site.database.table name with
      | error fault =>
        rw [Site.dropTable, Work.perform_bind_error (Site.perform_table htable)]
        exact not_escapes_error (isRefusal_of_table htable)
      | ok table =>
        rw [Site.dropTable, Work.perform_bind_ok (Site.perform_table htable)]
        exact not_escapes_ok ()
    · cases hover
  | use name =>
    refine iff_of_false (not_escapes_ok _) fun hover => ?_
    cases hover

/-- A fault that escapes ends a query, and every other outcome is a report. -/
lemma escapes_handled (text : String) (fault : Fault) (after : Site) :
    (∃ escaped, (handled text fault after).1 = .error escaped) ↔
      Escapes (.error fault : Except Fault Result) := by
  rw [handled, escapes_error]
  split
  · rename_i hrefusal
    simp [hrefusal]
  · rename_i hrefusal
    simp [hrefusal]

/-- At every site such as queries make, a query results in a report, of a success or of a failure, if it
results in anything.  A fault escapes from it exactly if one escapes from its reading, or if it has been
read as a command that overreaches; and from its reading a fault only escapes if the text has a word that
is no number that can be read. -/
theorem escapes_execute_iff (h : site.Queried) (text : String) :
    (∀ result, ((execute text).perform site).1 = .ok result → result.IsReport) ∧
    ((∃ fault, ((execute text).perform site).1 = .error fault) ↔
      Escapes (Command.ofText text) ∨
        ∃ command, Command.ofText text = .ok command ∧ Overreaches site command) ∧
    (Escapes (Command.ofText text) →
      ∃ tokens, Token.ofText text = .ok tokens ∧ ∃ t ∈ tokens, t.IsUnreadable) := by
  refine ⟨fun result => isReport_of_execute, ?_, exists_isUnreadable_of_escapes⟩
  cases hread : Command.ofText text with
  | error fault =>
    rw [perform_execute_unread hread, escapes_handled]
    simp
  | ok command =>
    have hrun := escapes_run h (isTold_of_ofText hread) (asksSimply_of_ofText hread)
    rw [perform_execute hread]
    simp only [not_escapes_ok, false_or, Except.ok.injEq, exists_eq_left', ← hrun]
    generalize (run command).perform site = outcome
    obtain ⟨fault | result, after⟩ := outcome
    · rw [escapes_handled]
    · simp

/-- At the site of an opened database nothing comes of a limit that is a superscript digit. -/
theorem escapes_execute_iff_openedSite :
    openedSite.Queried ∧
      ∃ fault, ((execute "SELECT * FROM t LIMIT ²").perform openedSite).1 = .error fault := by
  have h : openedSite.Queried := .opened open_empty rfl
  refine ⟨h, ((escapes_execute_iff h "SELECT * FROM t LIMIT ²").2.1).mpr (Or.inl ?_)⟩
  decide +kernel

/-- Faults escape from a limit that is a superscript digit, and from the insertion of an integer of 310
digits into a column of numbers. -/
theorem escapes_execute_ornateLimit :
    Escapes ((execute "SELECT * FROM t LIMIT ²").perform openedSite).1 ∧
      Escapes ((run (.insert "t" ["a"] [.int (10 ^ 309)])).perform
        ((execute "CREATE TABLE t (a number)").perform openedSite).2).1 := by
  constructor
  · decide +kernel
  · decide +kernel

end Query

end RecordStore
