import RecordStore.Proofs.Escaping
import RecordStore.Proofs.Number.Order
import RecordStore.Proofs.Table.Conformance

/-!
# The rule for records

The rule by which records are checked before they are inserted, stated apart from the way in which they
are checked.  It is given column by column: what is ruled of an absent value depends on whether the
column numbers its rows, has a default or requires a value, in this order, and what is ruled of a value
that is there on its form, its length and, for a unique column, the answer to one question about the
form in which it is stored.

Validation follows the rule unless a column strays: a column that requires a value and has a default
is reported as missing instead of being filled, and the check breaks off at an integer that is out of
the range of floating-point numbers, which the kind of numbers does not store, and at a size that has
no text to be reported by.
-/

namespace RecordStore

/-! ## Kinds -/

namespace Kind

/-- The form in which a kind stores a value that passes its type check. -/
inductive StoresAs : Kind → Value → Value → Prop
  | text (s : String) : StoresAs .string (.text s) (.text s)
  | int {i : Int} (hfinite : (Binary64.ofInt i).isFinite = true) :
      StoresAs .number (.int i) (.int i)
  | float {x : Binary64} (hfinite : x.isFinite = true) : StoresAs .number (.float x) (.float x)
  | bool (b : Bool) : StoresAs .boolean (.bool b) (.bool b)
  | date (d : Date) : StoresAs .date (.date d) (.date d)
  | timestamp (t : Timestamp) : StoresAs .date (.timestamp t) (.timestamp t)
  | dateText {s : String} {moment : Moment} (hread : Moment.parse? s = some moment) :
      StoresAs .date (.text s) (.ofMoment moment)
  | map (entries : List (Value × Value)) : StoresAs .object (.map entries) (.map entries)
  | list (items : List Value) : StoresAs .array (.list items) (.list items)
  | tuple (items : List Value) : StoresAs .array (.tuple items) (.list items)

/-- What is stored is there. -/
lemma StoresAs.isNull_eq_false {kind : Kind} {v w : Value} (h : kind.StoresAs v w) :
    v.isNull = false := by
  cases h <;> rfl

/-- A kind stores what it accepts, in canonical form. -/
theorem storesAs_iff {kind : Kind} {v w : Value} :
    kind.StoresAs v w ↔ kind.accepts v = .ok true ∧ kind.coerce v = w := by
  constructor
  · intro h
    cases h with
    | int hfinite => simp [accepts, coerce, hfinite]
    | float hfinite => simp [accepts, coerce, hfinite]
    | dateText hread => simp [accepts, coerce, Value.toDate, hread, Except.toOption]
    | _ => exact ⟨rfl, rfl⟩
  · rintro ⟨haccepts, rfl⟩
    cases kind with
    | string => cases v <;> first | exact .text _ | simp [accepts] at haccepts
    | number =>
      cases v with
      | int i => exact .int (by simpa [accepts] using haccepts)
      | float x => exact .float (by simpa [accepts] using haccepts)
      | _ => simp [accepts] at haccepts
    | boolean => cases v <;> first | exact .bool _ | simp [accepts] at haccepts
    | date =>
      cases v with
      | date d => exact .date d
      | timestamp t => exact .timestamp t
      | text s =>
        cases hread : Moment.parse? s with
        | none => simp [accepts, Value.toDate, hread, Except.toOption] at haccepts
        | some moment =>
          have hcoerce : Kind.date.coerce (.text s) = .ofMoment moment := by simp [coerce, hread]
          rw [hcoerce]
          exact .dateText hread
      | _ => simp [accepts, Value.toDate, Except.toOption] at haccepts
    | object => cases v <;> first | exact .map _ | simp [accepts] at haccepts
    | array =>
      cases v with
      | list items => exact .list items
      | tuple items => exact .tuple items
      | _ => simp [accepts] at haccepts

end Kind

/-! ## Columns -/

/-- The violations that a ruling on a column amounts to, given which values are taken. -/
def Verdict.objections (column : Column) (isTaken : TakenTest) : Verdict → List Violation
  | .missing => [.missing column.label]
  | .wrongKind => [.wrongKind column.label column.kind]
  | .tooLong size => [.tooLong column.label size.label]
  | .stored v => if column.isUnique && isTaken column.name v then [.duplicate column.label] else []
  | .absent => []
  | .filled _ => []

/-- What is asked before a ruling on a column: whether the value that a unique column is to store is
taken. -/
def Verdict.questions (column : Column) : Verdict → List (Value × Value)
  | .stored v => if column.isUnique then [(column.name, v)] else []
  | _ => []

namespace Column

/-- What is ruled of a column that is given a value. -/
inductive Rules (column : Column) (v : Value) : Verdict → Prop
  /-- An absent value of a column that numbers its rows is left to be filled in later. -/
  | numbered (habsent : v.isNull = true) (hnumbered : column.isNumbered = true) :
      column.Rules v .absent
  | filled {d : Value} (habsent : v.isNull = true) (hplain : column.isNumbered = false)
      (hdefault : column.defaultValue = some d) : column.Rules v (.filled d)
  | missing (habsent : v.isNull = true) (hplain : column.isNumbered = false)
      (hnone : column.defaultValue = none) (hrequired : column.isRequired = true) :
      column.Rules v .missing
  | absent (habsent : v.isNull = true) (hplain : column.isNumbered = false)
      (hnone : column.defaultValue = none) (hoptional : column.isRequired = false) :
      column.Rules v .absent
  | wrongKind (hpresent : v.isNull = false) (hnot : ∀ w, ¬column.kind.StoresAs v w) :
      column.Rules v .wrongKind
  | tooLong {w : Value} (hpresent : v.isNull = false) (hstores : column.kind.StoresAs v w)
      (hlong : ¬column.Fits w) : column.Rules v (.tooLong column.size)
  | stored {w : Value} (hpresent : v.isNull = false) (hstores : column.kind.StoresAs v w)
      (hfits : column.Fits w) : column.Rules v (.stored w)

variable {column : Column} {v : Value}

/-- The rule says exactly one thing of every column and every value. -/
theorem existsUnique_rules (column : Column) (v : Value) : ∃! verdict, column.Rules v verdict := by
  cases hv : v.isNull with
  | true =>
    cases hnumbered : column.isNumbered with
    | true =>
      refine ⟨.absent, .numbered hv hnumbered, fun verdict h => ?_⟩
      cases h <;> simp_all
    | false =>
      cases hdefault : column.defaultValue with
      | some d =>
        refine ⟨.filled d, .filled hv hnumbered hdefault, fun verdict h => ?_⟩
        cases h <;> simp_all
      | none =>
        cases hrequired : column.isRequired with
        | true =>
          refine ⟨.missing, .missing hv hnumbered hdefault hrequired, fun verdict h => ?_⟩
          cases h <;> simp_all
        | false =>
          refine ⟨.absent, .absent hv hnumbered hdefault hrequired, fun verdict h => ?_⟩
          cases h <;> simp_all
  | false =>
    by_cases hstores : ∃ w, column.kind.StoresAs v w
    · obtain ⟨w, hw⟩ := hstores
      have hform : ∀ u, column.kind.StoresAs v u → u = w := fun u hu =>
        (Kind.storesAs_iff.mp hu).2.symm.trans (Kind.storesAs_iff.mp hw).2
      by_cases hfits : column.Fits w
      · refine ⟨.stored w, .stored hv hw hfits, fun verdict h => ?_⟩
        cases h with
        | stored _ hu _ => rw [hform _ hu]
        | tooLong _ hu hlong => exact absurd (hform _ hu ▸ hfits) hlong
        | wrongKind _ hnot => exact absurd hw (hnot w)
        | _ => simp_all
      · refine ⟨.tooLong column.size, .tooLong hv hw hfits, fun verdict h => ?_⟩
        cases h with
        | stored _ hu hfits' => exact absurd (hform _ hu ▸ hfits') hfits
        | tooLong => rfl
        | wrongKind _ hnot => exact absurd hw (hnot w)
        | _ => simp_all
    · have hnot := not_exists.mp hstores
      refine ⟨.wrongKind, .wrongKind hv hnot, fun verdict h => ?_⟩
      cases h with
      | wrongKind => rfl
      | stored _ hu _ => exact absurd hu (hnot _)
      | tooLong _ hu _ => exact absurd hu (hnot _)
      | _ => simp_all

/-! ## Verdicts that follow the rule -/

/-- A column on whose value validation does not follow the rule. -/
inductive Strays (column : Column) (v : Value) : Prop
  /-- A required column with a default is reported as missing. -/
  | required {d : Value} (habsent : v.isNull = true) (hplain : column.isNumbered = false)
      (hdefault : column.defaultValue = some d) (hrequired : column.isRequired = true) :
      column.Strays v
  | overflows (hover : column.kind.Overflows v) : column.Strays v
  /-- A size that is to be reported has no text. -/
  | untold {w : Value} (hstores : column.kind.StoresAs v w) (hlong : ¬column.Fits w)
      (hsize : ¬column.size.IsTold) : column.Strays v

/-- A column that has been described with a size has a limit. -/
lemma Canonical.exists_limit (h : column.Canonical) (hsize : column.size ≠ .null) :
    ∃ limit, column.limit? = some limit :=
  Option.isSome_iff_exists.mp (Option.isSome_iff_ne_none.mpr (mt h.limit?_eq_none_iff.mp hsize))

/-- Only a text that does not fit is found to be too long. -/
lemma exceeds_eq {limit : Int} (hlimit : column.limit? = some limit) (w : Value)
    [Decidable (column.Fits w)] : exceeds w column.size = .ok (!decide (column.Fits w)) := by
  cases w with
  | text s =>
    have hlong : limit < s.length ↔ ¬column.Fits (.text s) := by simp [Fits, hlimit]
    rw [exceeds_text hlimit, decide_eq_decide.mpr hlong, decide_not]
  | _ => simp [Fits, exceeds]

/-- What becomes of a value that is accepted is told by its length. -/
lemma Canonical.sizeVerdict_eq (h : column.Canonical) (w : Value) [Decidable (column.Fits w)] :
    column.sizeVerdict w = .ok (if column.Fits w then .stored w else .tooLong column.size) := by
  rw [sizeVerdict]
  by_cases hsize : column.size = .null
  · have hfits : column.Fits w := by
      intro s _ limit hlimit
      simp [limit?, hsize] at hlimit
    rw [if_pos hfits, hsize]
    rfl
  · have hpresent : column.size.isNull = false := by
      cases hcase : column.size <;> first | rfl | exact absurd hcase hsize
    obtain ⟨limit, hlimit⟩ := h.exists_limit hsize
    rw [hpresent, exceeds_eq hlimit]
    by_cases hfits : column.Fits w <;> simp [hfits, Except.map]

/-- Validation follows the rule on the value of a column that does not stray. -/
theorem Canonical.follows (h : column.Canonical) {verdict : Verdict} (hrules : column.Rules v verdict)
    (hstays : ¬column.Strays v) (isTaken : TakenTest) :
    column.verdict false v = .ok verdict ∧
      verdict.broken column isTaken = .ok (verdict.objections column isTaken) := by
  classical
  cases hrules with
  | numbered habsent hnumbered => simp [Column.verdict, habsent, absentVerdict, hnumbered,
      Verdict.broken, Verdict.objections]
  | filled habsent hplain hdefault =>
    have hrequired : column.isRequired = false := Bool.eq_false_iff.mpr fun hrequired =>
      hstays (.required habsent hplain hdefault hrequired)
    simp [Column.verdict, habsent, absentVerdict, hplain, hdefault, hrequired, Verdict.broken,
      Verdict.objections]
  | missing habsent hplain hnone hrequired => simp [Column.verdict, habsent, absentVerdict, hplain,
      hrequired, Verdict.broken, Verdict.objections]
  | absent habsent hplain hnone hoptional => simp [Column.verdict, habsent, absentVerdict, hplain,
      hnone, hoptional, Verdict.broken, Verdict.objections]
  | wrongKind hpresent hnot =>
    obtain ⟨accepted, haccepts⟩ : ∃ accepted, column.kind.accepts v = .ok accepted :=
      ((Kind.accepts_cases column.kind v).resolve_left fun hover =>
        hstays (.overflows hover.2)).1
    have hrefused : accepted = false := Bool.eq_false_iff.mpr fun htrue =>
      hnot _ (Kind.storesAs_iff.mpr ⟨htrue ▸ haccepts, rfl⟩)
    simp [Column.verdict, hpresent, haccepts, hrefused, Except.bind, Verdict.broken,
      Verdict.objections]
  | tooLong hpresent hstores hlong =>
    obtain ⟨haccepts, rfl⟩ := Kind.storesAs_iff.mp hstores
    have htold : column.size.IsTold := by_contra fun hsize => hstays (.untold hstores hlong hsize)
    obtain ⟨shown, hshown⟩ := Option.isSome_iff_exists.mp htold
    simp [Column.verdict, hpresent, haccepts, Except.bind, h.sizeVerdict_eq, hlong, Verdict.broken,
      Verdict.objections, Value.display, Value.label, hshown, Except.map]
  | stored hpresent hstores hfits =>
    obtain ⟨haccepts, rfl⟩ := Kind.storesAs_iff.mp hstores
    simp [Column.verdict, hpresent, haccepts, Except.bind, h.sizeVerdict_eq, hfits, Verdict.broken,
      Verdict.objections]

/-- On the value of a column that strays validation finds more broken than the rule does, or comes to no
end. -/
lemma Strays.length_lt (hstrays : column.Strays v) (h : column.Canonical) {ruled verdict : Verdict}
    (hrules : column.Rules v ruled) (hverdict : column.verdict false v = .ok verdict)
    {isTaken : TakenTest} {broken : List Violation}
    (hbroken : verdict.broken column isTaken = .ok broken) :
    (ruled.objections column isTaken).length < broken.length := by
  classical
  cases hstrays with
  | required habsent hplain hdefault hrequired =>
    obtain rfl := (existsUnique_rules column v).unique hrules (.filled habsent hplain hdefault)
    have hmissing : column.verdict false v = .ok .missing := by
      simp [Column.verdict, habsent, absentVerdict, hplain, hrequired]
    obtain rfl : Verdict.missing = verdict := Except.ok.inj (hmissing.symm.trans hverdict)
    obtain rfl := Except.ok.inj hbroken
    exact Nat.zero_lt_one
  | overflows hover =>
    have hfault := (Kind.accepts_cases column.kind v).resolve_right fun hok => hok.2 hover
    obtain ⟨-, i, rfl, -⟩ := hover
    simp [Column.verdict, Value.isNull, hfault.1, Except.bind] at hverdict
  | untold hstores hlong hsize =>
    obtain ⟨haccepts, rfl⟩ := Kind.storesAs_iff.mp hstores
    simp only [Column.verdict, hstores.isNull_eq_false, haccepts, Except.bind, h.sizeVerdict_eq, hlong, if_true,
      if_false, Bool.false_eq_true, Except.ok.injEq] at hverdict
    obtain rfl := hverdict
    have hnone : column.size.display? = none := Option.not_isSome_iff_eq_none.mp hsize
    simp [Verdict.broken, Value.display, hnone, Except.map] at hbroken

end Column

/-! ## Violations -/

/-- A verdict only ends with a fault that is no refusal. -/
lemma Column.isRefusal_of_verdict {column : Column} {updating : Bool} {v : Value} {fault : Fault}
    (h : column.verdict updating v = .error fault) : fault.isRefusal = false := by
  rw [Column.verdict] at h
  split at h
  · cases h
  rcases Outcome.bind_eq_error.mp h with haccepts | ⟨accepted, -, h⟩
  · rcases Kind.accepts_cases column.kind v with ⟨hover, -⟩ | ⟨⟨accepted, hok⟩, -⟩
    · obtain rfl := Except.error.inj (hover.symm.trans haccepts)
      rfl
    · cases hok.symm.trans haccepts
  · split at h
    · rw [sizeVerdict] at h
      split at h
      · cases h
      · have hexceeds := Outcome.map_eq_error.mp h
        unfold exceeds at hexceeds
        repeat' split at hexceeds
        all_goals cases hexceeds
        rfl
    · cases h

/-- A value that has no text is no refusal. -/
lemma Value.isRefusal_of_display {v : Value} {fault : Fault} (h : v.display = .error fault) :
    fault.isRefusal = false := by
  rw [Value.display] at h
  split at h
  · cases h
  · obtain rfl := Except.error.inj h
    rfl

/-- The rules that a verdict finds broken are told, or a text is missing, which is no refusal. -/
lemma Verdict.isRefusal_of_broken {column : Column} {isTaken : TakenTest} {verdict : Verdict}
    {fault : Fault} (h : verdict.broken column isTaken = .error fault) :
    fault.isRefusal = false := by
  cases verdict with
  | tooLong size => exact Value.isRefusal_of_display (Outcome.map_eq_error.mp h)
  | _ => cases h

/-- Checking columns only ends with a fault that is no refusal. -/
lemma Schema.isRefusal_of_checkColumns {isTaken : TakenTest} {updating : Bool}
    {valueOf : Value → Value} {columns : List Column} {fault : Fault}
    (h : checkColumns isTaken updating valueOf columns = .error fault) :
    fault.isRefusal = false := by
  induction columns with
  | nil => cases h
  | cons column rest ih =>
    rcases Outcome.seq_eq_error.mp h with hverdict | ⟨verdict, -, h⟩
    · exact Column.isRefusal_of_verdict hverdict
    rcases Outcome.seq_eq_error.mp h with hbroken | ⟨broken, -, h⟩
    · exact Verdict.isRefusal_of_broken hbroken
    rcases Outcome.seq_eq_error.mp h with hrest | ⟨result, -, h⟩
    · exact ih hrest
    · cases h

/-- A record is refused for violations if they are all that is found broken in its columns. -/
lemma Schema.validate_eq_violations_iff {schema : Schema} {isTaken : TakenTest} {updating : Bool}
    {given : Record} {violations : List Violation} :
    schema.validate isTaken updating given = .error (.violations violations) ↔
      (∃ checked, checkColumns isTaken updating (fun name => given.value name) schema.columns =
        .ok (checked, violations)) ∧ violations ≠ [] := by
  rw [validate, validateValues]
  cases hchecked : checkColumns isTaken updating (fun name => given.value name) schema.columns with
  | error fault =>
    refine iff_of_false (fun h => ?_) (by rintro ⟨⟨checked, hok⟩, -⟩; cases hok)
    have hrefusal := isRefusal_of_checkColumns hchecked
    obtain rfl : fault = .violations violations := Except.error.inj h
    cases hrefusal
  | ok result =>
    obtain ⟨checked, broken⟩ := result
    cases broken with
    | nil =>
      refine iff_of_false (fun h => by cases h) ?_
      rintro ⟨⟨other, hok⟩, hsome⟩
      exact hsome (Prod.mk.inj (Except.ok.inj hok)).2.symm
    | cons violation rest =>
      constructor
      · intro h
        obtain rfl : violation :: rest = violations := Fault.violations.inj (Except.error.inj h)
        exact ⟨⟨checked, rfl⟩, List.cons_ne_nil _ _⟩
      · rintro ⟨⟨other, hok⟩, -⟩
        rw [← (Prod.mk.inj (Except.ok.inj hok)).2]
        rfl

/-! ## Records -/

namespace Schema

variable {schema : Schema} {isTaken : TakenTest} {valueOf : Value → Value} {columns : List Column}

/-- What comes of ruling on columns one after the other: the record to be stored, the violations and
the questions, each in the order of the columns. -/
inductive Ruled (isTaken : TakenTest) (valueOf : Value → Value) :
    List Column → Record → List Violation → List (Value × Value) → Prop
  | nil : Ruled isTaken valueOf [] [] [] []
  | cons {column : Column} {rest : List Column} {verdict : Verdict} {record : Record}
      {violations : List Violation} {questions : List (Value × Value)}
      (hrules : column.Rules (valueOf column.name) verdict)
      (hrest : Ruled isTaken valueOf rest record violations questions) :
      Ruled isTaken valueOf (column :: rest) (verdict.entries column.name ++ record)
        (verdict.objections column isTaken ++ violations) (verdict.questions column ++ questions)

/-- Validation follows the rule on a record: it stores what is ruled if there are no violations, reports
all of them in order if there are, and has asked just the questions that the rule asks. -/
def FollowsRule (schema : Schema) (isTaken : TakenTest) (given : Record) : Prop :=
  ∃ record violations questions,
    Ruled isTaken (fun name => given.value name) schema.columns record violations questions ∧
      schema.validate isTaken false given =
        (if violations.isEmpty then .ok record else .error (.violations violations)) ∧
      lookedUp false (fun name => given.value name) schema.columns = questions

/-- The rule says something of all columns. -/
lemma exists_ruled (isTaken : TakenTest) (valueOf : Value → Value) (columns : List Column) :
    ∃ record violations questions, Ruled isTaken valueOf columns record violations questions := by
  induction columns with
  | nil => exact ⟨_, _, _, .nil⟩
  | cons column rest ih =>
    obtain ⟨record, violations, questions, hrest⟩ := ih
    obtain ⟨verdict, hrules, -⟩ := Column.existsUnique_rules column (valueOf column.name)
    exact ⟨_, _, _, .cons hrules hrest⟩

/-- Columns that do not stray are checked as the rule says. -/
lemma Ruled.checkColumns_eq {record : Record} {violations : List Violation}
    {questions : List (Value × Value)}
    (hruled : Ruled isTaken valueOf columns record violations questions)
    (hcanonical : ∀ c ∈ columns, c.Canonical) (hstays : ∀ c ∈ columns, ¬c.Strays (valueOf c.name)) :
    checkColumns isTaken false valueOf columns = .ok (record, violations) ∧
      lookedUp false valueOf columns = questions := by
  induction hruled with
  | nil => exact ⟨rfl, rfl⟩
  | @cons column rest verdict record violations questions hrules hrest ih =>
    obtain ⟨hfirst, hcanonical⟩ := List.forall_mem_cons.mp hcanonical
    obtain ⟨hstay, hstays⟩ := List.forall_mem_cons.mp hstays
    obtain ⟨hchecked, hasked⟩ := ih hcanonical hstays
    obtain ⟨hverdict, hbroken⟩ := hfirst.follows hrules hstay isTaken
    constructor
    · rw [checkColumns, hverdict]
      change (verdict.broken column isTaken >>= _) = _
      rw [hbroken, hchecked]
      rfl
    · rw [lookedUp, hverdict, ← hasked]
      cases verdict <;> rfl

/-- Of columns that are checked at least as much is found broken as the rule does, and more if one of
them strays. -/
lemma Ruled.length_le {record : Record} {violations : List Violation}
    {questions : List (Value × Value)}
    (hruled : Ruled isTaken valueOf columns record violations questions)
    (hcanonical : ∀ c ∈ columns, c.Canonical) {checked : Record} {broken : List Violation}
    (hchecked : checkColumns isTaken false valueOf columns = .ok (checked, broken)) :
    violations.length ≤ broken.length ∧
      ((∃ c ∈ columns, c.Strays (valueOf c.name)) → violations.length < broken.length) := by
  induction hruled generalizing checked broken with
  | nil =>
    cases hchecked
    exact ⟨le_rfl, nofun⟩
  | @cons column rest ruled record violations questions hrules hrest ih =>
    obtain ⟨hfirst, hcanonical⟩ := List.forall_mem_cons.mp hcanonical
    obtain ⟨verdict, hverdict, h⟩ := Outcome.seq_eq_ok.mp hchecked
    obtain ⟨own, hown, h⟩ := Outcome.seq_eq_ok.mp h
    obtain ⟨⟨others, more⟩, hothers, h⟩ := Outcome.seq_eq_ok.mp h
    obtain ⟨-, rfl⟩ := Prod.mk.inj (Outcome.pure_eq_ok.mp h)
    obtain ⟨hle, hlt⟩ := ih hcanonical hothers
    simp only [List.length_append, List.exists_mem_cons_iff]
    by_cases hstrays : column.Strays (valueOf column.name)
    · have hmore := hstrays.length_lt hfirst hrules hverdict hown
      exact ⟨by omega, fun _ => by omega⟩
    · obtain ⟨hsame, hbroken⟩ := hfirst.follows hrules hstrays isTaken
      obtain rfl := Except.ok.inj (hverdict.symm.trans hsame)
      obtain rfl := Except.ok.inj (hbroken.symm.trans hown)
      refine ⟨by omega, fun hexists => ?_⟩
      have hrest := hlt (hexists.resolve_left hstrays)
      omega

/-- A schema whose columns have been described is followed exactly where none of the columns strays. -/
theorem followsRule_iff (hcanonical : ∀ c ∈ schema.columns, c.Canonical) (isTaken : TakenTest)
    (given : Record) :
    schema.FollowsRule isTaken given ↔ ∀ c ∈ schema.columns, ¬c.Strays (given.value c.name) := by
  constructor
  · rintro ⟨record, violations, questions, hruled, hvalidate, -⟩ c hc hstrays
    obtain ⟨checked, hchecked⟩ : ∃ checked, checkColumns isTaken false
        (fun name => given.value name) schema.columns = .ok (checked, violations) := by
      cases violations with
      | nil => exact ⟨record, validate_eq_ok_iff.mp hvalidate⟩
      | cons violation rest => exact (validate_eq_violations_iff.mp hvalidate).1
    exact lt_irrefl _ ((hruled.length_le hcanonical hchecked).2 ⟨c, hc, hstrays⟩)
  · intro hstays
    obtain ⟨record, violations, questions, hruled⟩ :=
      exists_ruled isTaken (fun name => given.value name) schema.columns
    obtain ⟨hchecked, hasked⟩ := hruled.checkColumns_eq hcanonical hstays
    refine ⟨record, violations, questions, hruled, ?_, hasked⟩
    rw [validate, validateValues, hchecked]
    rfl

/-- What validation comes to depends on the values that are taken only as far as it has asked. -/
theorem checkColumns_congr_of_lookedUp {isTaken' : TakenTest} {updating : Bool}
    (h : ∀ question ∈ lookedUp updating valueOf columns,
      isTaken' question.1 question.2 = isTaken question.1 question.2) :
    checkColumns isTaken' updating valueOf columns =
      checkColumns isTaken updating valueOf columns := by
  induction columns with
  | nil => rfl
  | cons column rest ih =>
    rw [checkColumns, checkColumns]
    rw [lookedUp] at h
    cases hverdict : column.verdict updating (valueOf column.name) with
    | error fault => rfl
    | ok verdict =>
      rw [hverdict] at h
      have hsame : verdict.broken column isTaken' = verdict.broken column isTaken ∧
          checkColumns isTaken' updating valueOf rest =
            checkColumns isTaken updating valueOf rest := by
        cases verdict with
        | stored v =>
          refine ⟨?_, ih fun question hquestion => h question (List.mem_append_right _ hquestion)⟩
          simp only [Verdict.broken]
          cases hunique : column.isUnique with
          | false => rfl
          | true => rw [h (column.name, v) (List.mem_append_left _ (by simp [hunique]))]
        | _ => exact ⟨rfl, ih h⟩
      change (verdict.broken column isTaken' >>= _) = (verdict.broken column isTaken >>= _)
      rw [hsame.1, hsame.2]

/-! ## Described schemas -/

/-- The schema that descriptions of columns make is followed on a record exactly if none of its columns
strays: no absent value is left to a column that requires one and has a default, no integer is out of
range, and no text is too long for a size that has no text. -/
theorem followsRule_ofSource_iff {source : SchemaSource} (hsource : source.IsDescribed)
    (hschema : ofSource source = .ok schema) (isTaken : TakenTest) (given : Record) :
    schema.FollowsRule isTaken given ↔ ∀ c ∈ schema.columns, ¬c.Strays (given.value c.name) :=
  followsRule_iff (built_ofSource hsource hschema).1.canonical isTaken given

/-- A record for two columns, a number and a list in the place of a text. -/
def numberAndList : Record :=
  [(.text "b", .list []), (.text "a", .int 1)]

/-- If the number is taken, both values are reported, in the order of the columns. -/
theorem followsRule_ofSource_iff_twoColumns : ∃ schema,
    ofSource Table.twoColumns = .ok schema ∧
      schema.validate (fun _ v => v == .int 1) false numberAndList =
        .error (.violations [.duplicate "a", .wrongKind "b" .string]) ∧
      (schema.FollowsRule (fun _ v => v == .int 1) numberAndList ↔
        ∀ c ∈ schema.columns, ¬c.Strays (numberAndList.value c.name)) :=
  ⟨_, rfl, rfl, followsRule_ofSource_iff Table.isDescribed_twoColumns rfl _ numberAndList⟩

/-- The column of a small table: a number that is required and has a default. -/
def requiredDefault : SchemaSource :=
  .columns
    [(.text "a", .described (.map
      [(.text "type", .text "number"), (.text "required", .bool true),
        (.text "defaultValue", .int 1)]))]

/-- An empty record is refused, though the rule fills the default in. -/
theorem not_followsRule_requiredDefault : ∃ schema, requiredDefault.IsDescribed ∧
    ofSource requiredDefault = .ok schema ∧
      ¬schema.FollowsRule (fun _ _ => false) [] := by
  have hdescribed : requiredDefault.IsDescribed := by
    simp [requiredDefault, SchemaSource.IsDescribed]
  refine ⟨_, hdescribed, rfl, fun hfollows => ?_⟩
  have hstays := (followsRule_iff (built_ofSource hdescribed rfl).1.canonical _ _).mp hfollows
  exact hstays _ List.mem_cons_self (.required rfl rfl rfl rfl)

end Schema

end RecordStore
