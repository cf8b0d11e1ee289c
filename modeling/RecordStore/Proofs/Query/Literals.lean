import RecordStore.Proofs.Query.Step
import RecordStore.Proofs.Table.Simple

/-!
# Queries only give simple values

A literal of a query is a text, a number, a truth value or nothing, and the only mapping that a query
can write is a reference to another table.  So whatever a query asks for, the columns that it declares
are declared simply, and the records and patches that it gives hold simple values.
-/

namespace RecordStore

open Column (DeclaredSimply)

/-- An operation declares columns simply and only gives simple values. -/
def Site.Operation.IsSimple : Site.Operation → Prop
  | .createTable _ source => source.IsSimple
  | .dropTable _ => True
  | .request _ asked => asked.IsSimple

/-- A simple operation makes tables only from described columns. -/
lemma Site.Operation.IsSimple.makesFrom {operation : Site.Operation} (h : operation.IsSimple) :
    operation.MakesFrom SchemaSource.IsDescribed := by
  cases operation with
  | createTable name source => exact SchemaSource.IsSimple.isDescribed h
  | dropTable name => exact trivial
  | request name asked => exact trivial

namespace Column.DeclaredSimply

variable {declared : Fields}

/-- A property with a simple value may be declared. -/
lemma put (h : DeclaredSimply declared) {name : String} (hname : name ≠ "foreignKey") {v : Value}
    (hv : v.IsSimple) : DeclaredSimply (Entries.put name v declared) := by
  intro field hfield
  rcases Entries.mem_put hfield with hold | ⟨hnew, hkey⟩
  · exact h field hold
  · obtain hsame := beq_iff_eq.mp hkey
    rw [hnew, hsame]
    exact ⟨fun _ => hv, fun heq => absurd heq hname⟩

/-- A reference that comes back as it is may be declared. -/
lemma put_reference (h : DeclaredSimply declared) {v : Value} (hv : Snapshot.restored v = .ok v) :
    DeclaredSimply (Entries.put "foreignKey" v declared) := by
  intro field hfield
  rcases Entries.mem_put hfield with hold | ⟨hnew, hkey⟩
  · exact h field hold
  · obtain hsame := beq_iff_eq.mp hkey
    rw [hnew, hsame]
    exact ⟨fun hne => absurd rfl hne, fun _ => hv⟩

/-- A type may be declared first. -/
lemma type (s : String) : DeclaredSimply [("type", .text s)] := by
  intro field hfield
  obtain rfl := List.mem_singleton.mp hfield
  have hname : "type" ≠ "foreignKey" := by decide
  exact ⟨fun _ => rfl, fun heq => absurd heq hname⟩

end Column.DeclaredSimply

namespace Query

/-- Whatever a command asks for is simple. -/
def Command.AsksSimply (command : Command) : Prop :=
  ∀ operation ∈ command.operation?, operation.IsSimple

/-- A command asks for something simple if it asks for one thing that is. -/
lemma Command.asksSimply_of_eq {command : Command} {operation : Site.Operation}
    (h : command.operation? = some operation) (hsimple : operation.IsSimple) :
    command.AsksSimply := by
  intro other hother
  obtain rfl := Option.some.inj (h.symm.trans hother)
  exact hsimple

/-! ## Readers -/

/-- What a reader gives, if it gives something, has a property. -/
def Reader.Yields {α : Type} (P : α → Prop) (reader : Reader α) : Prop :=
  ∀ tokens a rest, reader.run tokens = .ok (a, rest) → P a

namespace Reader

variable {α β : Type} {P : α → Prop} {Q : β → Prop}

/-- What is returned has the properties that it has. -/
lemma Yields.pure {a : α} (h : P a) : Yields P (Pure.pure a) := by
  intro tokens b rest hrun
  obtain ⟨rfl, -⟩ := Prod.mk.inj (Except.ok.inj hrun)
  exact h

/-- A reader goes on with what the one before has given. -/
lemma Yields.bind {reader : Reader α} {next : α → Reader β} (h : Yields P reader)
    (hnext : ∀ a, P a → Yields Q (next a)) : Yields Q (reader >>= next) := by
  intro tokens b rest hrun
  obtain ⟨⟨a, between⟩, hfirst, hrun⟩ := Outcome.seq_eq_ok.mp hrun
  exact hnext a (h tokens a between hfirst) between b rest hrun

/-- A reader goes on whatever the one before has given. -/
lemma Yields.andThen {reader : Reader α} {next : α → Reader β} (hnext : ∀ a, Yields Q (next a)) :
    Yields Q (reader >>= next) :=
  Yields.bind (P := fun _ => True) (fun _ _ _ _ => trivial) fun a _ => hnext a

/-- A reader goes on in one of two ways. -/
lemma Yields.ite {c : Prop} [Decidable c] {yes no : Reader α} (hyes : Yields P yes)
    (hno : Yields P no) : Yields P (if c then yes else no) := by
  by_cases h : c
  · rw [if_pos h]
    exact hyes
  · rw [if_neg h]
    exact hno

/-- Nothing comes of a problem. -/
lemma yields_problem (p : Problem) : Yields P (problem p) := by
  intro tokens a rest hrun
  cases hrun

/-- Nothing comes after a problem. -/
lemma yields_problem_bind (p : Problem) (next : α → Reader β) : Yields Q (problem p >>= next) :=
  Yields.bind (P := fun _ => False) (yields_problem p) fun _ h => h.elim

/-- What is added item by item keeps a property that every item keeps. -/
lemma yields_commaFold {item : α → Reader α} (hitem : ∀ a, P a → Yields P (item a)) {a : α}
    (h : P a) : Yields P (commaFold item a) := by
  have hfold : ∀ (fuel : Nat) (a : α), P a → Yields P (commaFoldWithin item fuel a) := by
    intro fuel
    induction fuel with
    | zero => exact hitem
    | succ fuel ih =>
      intro a ha
      rw [commaFoldWithin]
      refine (hitem a ha).bind fun b hb => ?_
      refine .andThen fun more => ?_
      exact .ite (ih b hb) (.pure hb)
  unfold commaFold
  exact .andThen fun tokens => hfold _ a h

/-! ## Literals -/

/-- The value of a word is simple. -/
lemma isSimple_wordValue {text : String} {v : Value} (h : wordValue text = .ok v) : v.IsSimple := by
  unfold wordValue at h
  split at h
  · split at h
    · rename_i n _
      obtain rfl := Except.ok.inj h
      cases n <;> rfl
    · cases h
  · obtain rfl := Except.ok.inj h
    split
    · rfl
    · split
      · rfl
      · split <;> rfl

/-- A literal is simple. -/
lemma yields_literal : Yields Value.IsSimple literal := by
  unfold literal
  refine .andThen fun token => .ite ?_ (.ite ?_ (yields_problem _))
  · exact .andThen fun _ => .pure rfl
  · refine .andThen fun _ => ?_
    intro tokens v rest hrun
    obtain ⟨v', hv, hrun⟩ := Outcome.seq_eq_ok.mp hrun
    obtain ⟨rfl, -⟩ := Prod.mk.inj (Except.ok.inj hrun)
    exact isSimple_wordValue hv

/-! ## Declarations -/

/-- A reference comes back as it is. -/
lemma yields_reference : Yields (fun v => Snapshot.restored v = .ok v) reference := by
  have hfields : ∀ fields : Fields, (fields.map (·.1)).Nodup →
      (∀ name ∈ fields.map (·.1), name ≠ Snapshot.timestampMark ∧ name ≠ Snapshot.dateMark) →
      (∀ field ∈ fields, Snapshot.restored field.2 = .ok field.2) →
        Snapshot.restored (.ofFields fields) = .ok (.ofFields fields) := by
    intro fields hnames hunmarked hvalues
    refine (Snapshot.restored_object_self (Snapshot.objectKeys_ofFields hnames hunmarked)).mpr ?_
    intro entry hentry
    obtain ⟨field, hfield, rfl⟩ := List.mem_map.mp hentry
    exact hvalues field hfield
  unfold reference
  refine .andThen fun table => .andThen fun opened => .ite ?_ (.pure ?_)
  · refine .andThen fun column => .andThen fun _ => .pure ?_
    apply hfields
    · exact (by decide : ["table", "column"].Nodup)
    · exact (by decide : ∀ name ∈ ["table", "column"], name ≠ Snapshot.timestampMark ∧
        name ≠ Snapshot.dateMark)
    · simp [Snapshot.restored]
  · apply hfields
    · exact List.nodup_singleton _
    · exact (by decide : ∀ name ∈ ["table"], name ≠ Snapshot.timestampMark ∧
        name ≠ Snapshot.dateMark)
    · simp [Snapshot.restored]

variable {declared : Fields}

/-- A property is declared simply. -/
lemma yields_property (column : String) (h : DeclaredSimply declared) :
    Yields DeclaredSimply (property column declared) := by
  unfold property
  refine .andThen fun primary => .ite ?_ ?_
  · exact .andThen fun _ => .pure (h.put (by decide) rfl)
  refine .andThen fun unique => .ite (.pure (h.put (by decide) rfl)) ?_
  refine .andThen fun numbered => .ite (.pure (h.put (by decide) rfl)) ?_
  refine .andThen fun required => .ite ?_ ?_
  · exact .andThen fun _ => .pure (h.put (by decide) rfl)
  refine .andThen fun free => .ite (.pure h) ?_
  refine .andThen fun filled => .ite ?_ ?_
  · exact yields_literal.bind fun v hv => .pure (h.put (by decide) hv)
  refine .andThen fun refers => .ite ?_ ?_
  · exact yields_reference.bind fun v hv => .pure (h.put_reference hv)
  · exact .andThen fun token => yields_problem _

/-- Properties are declared simply. -/
lemma yields_propertiesWithin (column : String) (fuel : Nat) (h : DeclaredSimply declared) :
    Yields DeclaredSimply (propertiesWithin column fuel declared) := by
  induction fuel generalizing declared with
  | zero => exact .pure h
  | succ fuel ih =>
    rw [propertiesWithin]
    refine .andThen fun token => .ite (.pure h) ?_
    exact (yields_property column h).bind fun declared' h' => ih h'

/-- A size is declared simply. -/
lemma yields_sizeOf (column : String) (h : DeclaredSimply declared) :
    Yields DeclaredSimply (sizeOf column declared) := by
  unfold Reader.sizeOf
  refine .andThen fun opened => .ite ?_ (.pure h)
  refine .andThen fun size => .ite ?_ (yields_problem_bind _ _)
  exact .andThen fun n => .andThen fun _ => .pure (h.put (by decide) rfl)

/-- A column is declared simply. -/
lemma yields_column : Yields (fun declaration => DeclaredSimply declaration.2) column := by
  unfold Reader.column
  refine .andThen fun name => .andThen fun type => ?_
  refine (yields_sizeOf name (.type type)).bind fun declared h => ?_
  refine .andThen fun tokens => ?_
  exact (yields_propertiesWithin name _ h).bind fun declared' h' => .pure h'

/-- A table is declared simply. -/
lemma yields_createTable : Yields Command.AsksSimply createTable := by
  have hcolumns : Yields (fun columns : List (String × Fields) =>
      ∀ declaration ∈ columns, DeclaredSimply declaration.2) (commaFold anotherColumn []) := by
    refine yields_commaFold (fun columns h => ?_) (fun _ hnone => absurd hnone List.not_mem_nil)
    unfold anotherColumn
    refine yields_column.bind fun declaration hdeclaration => ?_
    refine .ite (yields_problem_bind _ _) (.pure fun other hother => ?_)
    rcases List.mem_append.mp hother with hold | hnew
    · exact h other hold
    · obtain rfl := List.mem_singleton.mp hnew
      exact hdeclaration
  unfold createTable
  refine .andThen fun table => .andThen fun _ => hcolumns.bind fun columns h => ?_
  refine .andThen fun _ => .andThen fun _ => .pure (Command.asksSimply_of_eq rfl ?_)
  intro entry hentry
  obtain ⟨declaration, hdeclaration, rfl⟩ := List.mem_map.mp hentry
  exact ⟨declaration.1, declaration.2, rfl, h declaration hdeclaration⟩

/-! ## Commands -/

/-- The record of an insertion holds the values that are given. -/
lemma holdsSimple_recordOf (columns : List String) {values : List Value}
    (h : ∀ v ∈ values, v.IsSimple) : HoldsSimple (Command.recordOf columns values) := by
  have hfold : ∀ (pairs entries : Fields), HoldsSimple pairs → HoldsSimple entries →
      HoldsSimple (pairs.foldl (fun entries pair => Entries.put pair.1 pair.2 entries) entries) := by
    intro pairs
    induction pairs with
    | nil => exact fun _ _ hentries => hentries
    | cons pair rest ih =>
      intro entries hpairs hentries
      obtain ⟨hfirst, hrest⟩ := List.forall_mem_cons.mp hpairs
      exact ih _ hrest (hentries.put hfirst)
  refine hfold _ [] (fun pair hpair => ?_) fun _ hnone => absurd hnone List.not_mem_nil
  exact h pair.2 (List.of_mem_zip hpair).2

/-- An insertion gives simple values. -/
lemma yields_insert : Yields Command.AsksSimply Reader.insert := by
  have hvalues : Yields (fun values : List Value => ∀ v ∈ values, v.IsSimple)
      (commaFold anotherValue []) := by
    refine yields_commaFold (fun values h => ?_) (fun _ hnone => absurd hnone List.not_mem_nil)
    unfold anotherValue
    refine yields_literal.bind fun v hv => .pure fun other hother => ?_
    rcases List.mem_append.mp hother with hold | hnew
    · exact h other hold
    · obtain rfl := List.mem_singleton.mp hnew
      exact hv
  unfold Reader.insert
  refine .andThen fun _ => .andThen fun table => .andThen fun opened => ?_
  refine .ite ?_ (yields_problem_bind _ _)
  refine .andThen fun columns => .andThen fun _ => .andThen fun _ => .andThen fun _ => ?_
  refine hvalues.bind fun values h => .andThen fun _ => .andThen fun _ => ?_
  refine .ite (yields_problem_bind _ _) (.pure (Command.asksSimply_of_eq rfl ?_))
  exact ⟨_, rfl, (holdsSimple_recordOf columns h).ofFields⟩

/-- An update gives simple values. -/
lemma yields_update : Yields Command.AsksSimply update := by
  have hassignments : Yields (HoldsSimple (κ := String)) (commaFold anotherAssignment []) := by
    refine yields_commaFold (fun assignments h => ?_) (fun _ hnone => absurd hnone List.not_mem_nil)
    unfold anotherAssignment
    refine .andThen fun column => .andThen fun token => .ite ?_ (yields_problem_bind _ _)
    exact .andThen fun _ => yields_literal.bind fun v hv => .pure (h.put hv)
  unfold update
  refine .andThen fun table => .andThen fun _ => hassignments.bind fun assignments h => ?_
  refine .andThen fun condition => .andThen fun _ => .pure (Command.asksSimply_of_eq rfl ?_)
  exact ⟨_, rfl, h.ofFields⟩

/-- Whatever a command asks for is simple. -/
lemma yields_command : Yields Command.AsksSimply command := by
  have hdelete : Yields Command.AsksSimply delete := by
    unfold delete
    refine .andThen fun _ => .andThen fun table => .andThen fun condition => .andThen fun _ => ?_
    exact .pure (Command.asksSimply_of_eq rfl trivial)
  have hdrop : Yields Command.AsksSimply dropTable := by
    unfold dropTable
    refine .andThen fun _ => .andThen fun table => .andThen fun _ => ?_
    exact .pure (Command.asksSimply_of_eq rfl trivial)
  have hindex : Yields Command.AsksSimply createIndex := by
    have hrest : ∀ label table column, Yields Command.AsksSimply
        (pure (.createIndex table column label)) :=
      fun _ _ _ => .pure (Command.asksSimply_of_eq rfl trivial)
    unfold createIndex
    refine .andThen fun token => .ite ?_ ?_
    · refine .andThen fun label => .andThen fun _ => .andThen fun table => .andThen fun _ => ?_
      exact .andThen fun column => .andThen fun _ => .andThen fun _ => hrest label table column
    · refine .andThen fun label => .andThen fun _ => .andThen fun table => .andThen fun _ => ?_
      exact .andThen fun column => .andThen fun _ => .andThen fun _ => hrest label table column
  have hcreate : Yields Command.AsksSimply create := by
    unfold create
    refine .andThen fun table => .ite yields_createTable ?_
    refine .andThen fun index => .ite hindex ?_
    exact .andThen fun token => .ite (yields_problem _) (yields_problem _)
  have hselect : Yields Command.AsksSimply select := by
    unfold select
    refine .andThen fun columns => .andThen fun _ => .andThen fun table => ?_
    refine .andThen fun condition => .andThen fun order => .andThen fun limit => ?_
    exact .andThen fun _ => .pure fun operation hoperation => by cases hoperation
  have huse : Yields Command.AsksSimply useDatabase := by
    unfold useDatabase
    refine .andThen fun database => .andThen fun _ => ?_
    exact .pure fun operation hoperation => by cases hoperation
  unfold command
  refine .andThen fun first => .ite (yields_problem_bind _ _) ?_
  refine .ite hcreate (.ite yields_insert (.ite hselect (.ite yields_update (.ite hdelete ?_))))
  exact .ite hdrop (.ite huse (yields_problem _))

end Reader

/-- Whatever a query asks for is simple. -/
theorem asksSimply_of_ofText {text : String} {command : Command}
    (h : Command.ofText text = .ok command) : command.AsksSimply := by
  unfold Command.ofText at h
  split at h
  · rename_i tokens _
    obtain ⟨⟨read, rest⟩, hrun, rfl⟩ := Outcome.map_eq_ok.mp h
    exact Reader.yields_command tokens read rest hrun
  · cases h

end Query

end RecordStore
