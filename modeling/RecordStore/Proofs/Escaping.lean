import Mathlib.Data.List.Basic
import Mathlib.Tactic.Lemma
import RecordStore.Proofs.Schema.Description
import RecordStore.Schema.Validation

/-!
# Faults that escape

Refusals become results, and every other fault escapes.  In what kinds, columns and schemas do there
is one fault that can escape as long as the sizes of columns are numbers that have a text: an integer
out of the range of floating-point numbers, where a number is expected.
-/

namespace RecordStore

/-- A step ends with a fault that is no refusal. -/
def Escapes {α : Type} (step : Except Fault α) : Prop :=
  ∃ fault, step = .error fault ∧ fault.isRefusal = false

instance {α : Type} (step : Except Fault α) : Decidable (Escapes step) :=
  match step with
  | .ok _ => .isFalse nofun
  | .error fault => decidable_of_iff (fault.isRefusal = false) (by simp [Escapes])

section

variable {α β : Type}

/-- Nothing escapes from a result. -/
@[simp] lemma not_escapes_ok (a : α) : ¬Escapes (.ok a : Except Fault α) :=
  nofun

/-- A fault escapes if it is no refusal. -/
@[simp] lemma escapes_error {fault : Fault} :
    Escapes (.error fault : Except Fault α) ↔ fault.isRefusal = false := by
  simp [Escapes]

/-- A refusal does not escape. -/
lemma not_escapes_error {fault : Fault} (h : fault.isRefusal = true) :
    ¬Escapes (.error fault : Except Fault α) := by
  rw [escapes_error, h]
  exact Bool.noConfusion

/-- A fault escapes from a chain of steps if it escapes from the first, or from the next. -/
lemma escapes_bind {step : Except Fault α} {next : α → Except Fault β} :
    Escapes (step.bind next) ↔ Escapes step ∨ ∃ a, step = .ok a ∧ Escapes (next a) := by
  cases step <;> simp [Except.bind]

/-- A fault escapes from a sequence of steps if it escapes from the first, or from the next. -/
lemma escapes_seq {step : Except Fault α} {next : α → Except Fault β} :
    Escapes (step >>= next) ↔ Escapes step ∨ ∃ a, step = .ok a ∧ Escapes (next a) :=
  escapes_bind

/-- A fault escapes from a step that is refused under a condition if it escapes under the opposite. -/
lemma escapes_unless {c : Prop} [Decidable c] {fault : Fault} (h : fault.isRefusal = true)
    {step : Except Fault α} :
    Escapes (if c then (throw fault : Except Fault PUnit) >>= fun _ => step else step) ↔
      ¬c ∧ Escapes step := by
  split
  · rename_i hc
    exact iff_of_false (not_escapes_error h) fun hno => hno.1 hc
  · rename_i hc
    exact (and_iff_right hc).symm

/-- A fault escapes from a step whose result is changed afterwards if it escapes from the step. -/
@[simp] lemma escapes_map {step : Except Fault α} {f : α → β} :
    Escapes (step.map f) ↔ Escapes step := by
  cases step <;> simp [Except.map]

end

namespace Value

/-- A value has a text. -/
abbrev IsTold (v : Value) : Prop :=
  v.display?.isSome = true

/-- The text of a value is missing if the value has none, and then the fault escapes. -/
@[simp] lemma escapes_display {v : Value} : Escapes v.display ↔ ¬v.IsTold := by
  rw [display, IsTold]
  cases v.display? <;> simp [Fault.isRefusal]

/-- A value that has a text is told. -/
lemma IsTold.display_eq {v : Value} (h : v.IsTold) : ∃ shown, v.display = .ok shown := by
  obtain ⟨shown, hshown⟩ := Option.isSome_iff_exists.mp h
  exact ⟨shown, by rw [display, hshown]⟩

end Value

namespace Kind

/-- An integer out of the range of floating-point numbers where a number is expected. -/
def Overflows (kind : Kind) (v : Value) : Prop :=
  kind = .number ∧ ∃ i, v = .int i ∧ (Binary64.ofInt i).isFinite = false

/-- Whether a kind accepts a value is only a fault if the value is an integer out of range. -/
lemma accepts_cases (kind : Kind) (v : Value) :
    kind.accepts v = .error .overflow ∧ kind.Overflows v ∨
      (∃ accepted, kind.accepts v = .ok accepted) ∧ ¬kind.Overflows v := by
  unfold accepts Overflows
  split
  · right; simp
  · rename_i i
    split
    · rename_i hfinite
      right; simp [hfinite]
    · rename_i hfinite
      left; simp [hfinite]
  all_goals right
  all_goals first | (simp; done) | skip
  rename_i hnotInt _ _ _ _ _
  refine ⟨⟨_, rfl⟩, ?_⟩
  rintro ⟨rfl, i, rfl, -⟩
  exact hnotInt i rfl rfl

/-- Whether a kind accepts a value is a fault exactly if the value is an integer out of range. -/
@[simp] lemma escapes_accepts {kind : Kind} {v : Value} :
    Escapes (kind.accepts v) ↔ kind.Overflows v := by
  rcases accepts_cases kind v with ⟨heq, hover⟩ | ⟨⟨accepted, heq⟩, hover⟩
  · simp [heq, hover, Fault.isRefusal]
  · simp [heq, hover]

end Kind

/-! ## Validation -/

namespace Column

variable {column : Column} {updating : Bool} {v : Value}

/-- The size of a column, if there is one, is a number that has a text. -/
def TellsSize (column : Column) : Prop :=
  column.size = .null ∨ column.size.number?.isSome = true ∧ column.size.IsTold

/-- A value can be measured if the size of its column is a number. -/
lemma TellsSize.sizeVerdict_eq (h : column.TellsSize) (v : Value) :
    ∃ verdict, column.sizeVerdict v = .ok verdict := by
  rw [sizeVerdict]
  rcases h with hnull | ⟨hnumber, -⟩
  · rw [hnull]
    exact ⟨_, rfl⟩
  · obtain ⟨size, hsize⟩ := Option.isSome_iff_exists.mp hnumber
    split
    · exact ⟨_, rfl⟩
    · unfold exceeds
      split
      · rw [hsize]
        exact ⟨_, rfl⟩
      · exact ⟨_, rfl⟩

/-- A column has a verdict on every value but an integer out of range. -/
lemma TellsSize.escapes_verdict (h : column.TellsSize) :
    Escapes (column.verdict updating v) ↔ column.kind.Overflows v := by
  rw [verdict]
  split
  · rename_i hnull
    simp only [not_escapes_ok, false_iff]
    rintro ⟨-, i, rfl, -⟩
    cases hnull
  · rw [escapes_bind, Kind.escapes_accepts, or_iff_left]
    rintro ⟨accepted, -, hescapes⟩
    split at hescapes
    · obtain ⟨verdict, hverdict⟩ := h.sizeVerdict_eq (column.kind.coerce v)
      rw [hverdict] at hescapes
      exact not_escapes_ok _ hescapes
    · exact not_escapes_ok _ hescapes

/-- A verdict is a fault only if it escapes. -/
lemma TellsSize.verdict_eq (h : column.TellsSize) (updating : Bool)
    (hover : ¬column.kind.Overflows v) :
    ∃ verdict, column.verdict updating v = .ok verdict := by
  rw [verdict]
  split
  · exact ⟨_, rfl⟩
  · rcases Kind.accepts_cases column.kind v with ⟨-, hover'⟩ | ⟨⟨accepted, haccepts⟩, -⟩
    · exact absurd hover' hover
    · rw [haccepts]
      cases accepted with
      | false => exact ⟨_, rfl⟩
      | true => exact h.sizeVerdict_eq _

/-- What a verdict finds broken can be told. -/
lemma TellsSize.broken_eq (h : column.TellsSize) {verdict : Verdict}
    (hverdict : column.verdict updating v = .ok verdict) (isTaken : TakenTest) :
    ∃ broken, verdict.broken column isTaken = .ok broken := by
  cases verdict with
  | tooLong size =>
    obtain rfl : size = column.size := by
      rw [Column.verdict] at hverdict
      split at hverdict
      · have habsent := Except.ok.inj hverdict
        rw [absentVerdict] at habsent
        repeat' split at habsent
        all_goals cases habsent
      · obtain ⟨accepted, -, hverdict⟩ := Outcome.bind_eq_ok.mp hverdict
        split at hverdict
        · rw [sizeVerdict] at hverdict
          split at hverdict
          · cases hverdict
          · obtain ⟨exceeds, -, hsize⟩ := Outcome.map_eq_ok.mp hverdict
            split at hsize
            · exact (Verdict.tooLong.inj hsize).symm
            · cases hsize
        · cases hverdict
    have htold : column.size.IsTold := by
      rcases h with hnull | ⟨-, htold⟩
      · rw [hnull]
        rfl
      · exact htold
    obtain ⟨shown, hshown⟩ := htold.display_eq
    exact ⟨_, by rw [Verdict.broken, hshown]; rfl⟩
  | _ => exact ⟨_, rfl⟩

end Column

namespace Schema

variable {schema : Schema} {isTaken : TakenTest} {updating : Bool} {valueOf : Value → Value}

/-- Some column is given an integer out of range. -/
def Overflows (schema : Schema) (valueOf : Value → Value) : Prop :=
  ∃ c ∈ schema.columns, c.kind.Overflows (valueOf c.name)

/-- The sizes of all columns are numbers that have texts. -/
def TellsSizes (schema : Schema) : Prop :=
  ∀ c ∈ schema.columns, c.TellsSize

/-- Columns are checked, whatever rules are broken, unless one of them is given an integer out of
range. -/
lemma escapes_checkColumns {columns : List Column} (h : ∀ c ∈ columns, c.TellsSize) :
    Escapes (checkColumns isTaken updating valueOf columns) ↔
      ∃ c ∈ columns, c.kind.Overflows (valueOf c.name) := by
  induction columns with
  | nil => simp [checkColumns]
  | cons column rest ih =>
    obtain ⟨hfirst, hrest⟩ := List.forall_mem_cons.mp h
    rw [List.exists_mem_cons_iff, ← ih hrest]
    by_cases hover : column.kind.Overflows (valueOf column.name)
    · rw [checkColumns, escapes_seq, hfirst.escapes_verdict]
      simp only [hover, true_or]
    · obtain ⟨verdict, hverdict⟩ := hfirst.verdict_eq updating hover
      obtain ⟨broken, hbroken⟩ := hfirst.broken_eq hverdict isTaken
      have hlater : checkColumns isTaken updating valueOf (column :: rest) =
          (checkColumns isTaken updating valueOf rest).map fun checked =>
            (verdict.entries column.name ++ checked.1, broken ++ checked.2) := by
        rw [checkColumns, hverdict]
        change (verdict.broken column isTaken >>= _) = _
        rw [hbroken]
        cases checkColumns isTaken updating valueOf rest <;> rfl
      rw [hlater, escapes_map]
      simp only [hover, false_or]

/-- A fault escapes from a validation exactly if a column is given an integer out of range. -/
lemma TellsSizes.escapes_validate (h : schema.TellsSizes) (isTaken : TakenTest) (updating : Bool)
    {record : Record} :
    Escapes (schema.validate isTaken updating record) ↔ schema.Overflows record.value := by
  rw [validate, validateValues, escapes_seq, escapes_checkColumns h, or_iff_left]
  · exact Iff.rfl
  · rintro ⟨⟨checked, broken⟩, -, hescapes⟩
    dsimp only at hescapes
    split at hescapes
    · exact not_escapes_ok _ hescapes
    · obtain ⟨fault, heq, hfault⟩ := hescapes
      obtain rfl := Except.error.inj heq
      cases hfault

end Schema

/-! ## Declarations -/

/-- A step has a result, or breaks rules of the schema. -/
def IsChecked {α : Type} (step : Except Fault α) : Prop :=
  ∀ fault, step = .error fault → ∃ all, fault = .violations all

namespace IsChecked

variable {α β : Type}

/-- A result is checked. -/
lemma ok (a : α) : IsChecked (.ok a : Except Fault α) :=
  nofun

/-- Broken rules are checked. -/
lemma violations (all : List Violation) : IsChecked (.error (.violations all) : Except Fault α) := by
  intro fault heq
  exact ⟨all, (Except.error.inj heq).symm⟩

/-- A sequence of steps is checked if each of them is. -/
lemma seq {step : Except Fault α} {next : α → Except Fault β} (h : IsChecked step)
    (hnext : ∀ a, step = .ok a → IsChecked (next a)) : IsChecked (step >>= next) := by
  cases step with
  | ok a => exact hnext a rfl
  | error fault =>
    obtain ⟨all, rfl⟩ := h fault rfl
    exact violations all

/-- A rule that is checked before a step is checked if the step is. -/
lemma check {c : Prop} [Decidable c] {v : Violation} {step : Except Fault α} (h : IsChecked step) :
    IsChecked
      (if c then (throw (.violation v) : Except Fault PUnit) >>= fun _ => step else step) := by
  split
  · exact violations [v]
  · exact h

end IsChecked

/-- All values of some entries have texts. -/
abbrev TellsValues {κ : Type} (entries : List (κ × Value)) : Prop :=
  ∀ entry ∈ entries, entry.2.IsTold

/-- What is found among values that have texts has a text, and so does what is missing. -/
lemma TellsValues.entry {entries : List (Value × Value)} (h : TellsValues entries) (key : String) :
    (∀ v ∈ Value.lookup? key entries, v.IsTold) ∧ (Value.entry key entries).IsTold := by
  rw [Value.entry]
  cases hlookup : Value.lookup? key entries with
  | none =>
    refine ⟨fun w hw => ?_, rfl⟩
    cases hw
  | some v =>
    obtain ⟨entry, hentry, rfl⟩ := Option.map_eq_some_iff.mp hlookup
    have htold := h entry (List.mem_of_find?_eq_some hentry)
    refine ⟨fun w hw => ?_, htold⟩
    obtain rfl := Option.some.inj hw
    exact htold

namespace Kind

/-- The reading of a kind is checked if it has a text. -/
lemma isChecked_ofName {v : Value} (h : v.IsTold) : IsChecked (ofName v) := by
  obtain ⟨shown, hshown⟩ := h.display_eq
  refine IsChecked.seq ?_ fun shown _ => ?_
  · rw [hshown]
    exact .ok shown
  · split
    · exact .ok _
    · exact .violations _

/-- The declared default of a column is an integer out of range, once it has been read. -/
def DefaultOverflows (kind : Kind) (v : Value) : Prop :=
  ∃ w, kind.convertDefault v = .ok w ∧ kind.Overflows w

/-- A declared default is read, or there is a reason to refuse it. -/
lemma convertDefault_cases (kind : Kind) (v : Value) :
    (∃ w, kind.convertDefault v = .ok w) ∨
      ∃ fault reason, kind.convertDefault v = .error fault ∧
        Column.refusal? fault = some reason := by
  unfold convertDefault
  split
  · split
    · rename_i numeral _
      rw [Value.ofNumeral]
      cases numeral.number? with
      | some n => exact Or.inl ⟨_, rfl⟩
      | none => exact Or.inr ⟨_, _, rfl, rfl⟩
    · exact Or.inr ⟨_, _, rfl, rfl⟩
  · dsimp only
    split
    · exact Or.inl ⟨_, rfl⟩
    · split <;> exact Or.inl ⟨_, rfl⟩
  · exact Or.inl ⟨_, rfl⟩
  · exact Or.inl ⟨_, rfl⟩
  · exact Or.inl ⟨_, rfl⟩
  · rw [Value.display]
    split
    · exact Or.inl ⟨_, rfl⟩
    · exact Or.inr ⟨_, _, rfl, rfl⟩
  · exact Or.inl ⟨_, rfl⟩

end Kind

namespace Column

/-- The reading of a size is checked if it has a text, and it gives none or a number. -/
lemma isChecked_sizeOf (name : String) {v : Value} (h : v.IsTold) :
    IsChecked (sizeOf name v) ∧ ∀ size, sizeOf name v = .ok size →
      size = .null ∨ size.number?.isSome = true ∧ size.IsTold := by
  obtain ⟨shown, hshown⟩ := h.display_eq
  have hbad : (v.display.bind fun shown =>
      (.error (.violation (.badSize name shown)) : Except Fault Value)) =
        .error (.violations [.badSize name shown]) := by
    rw [hshown]
    rfl
  unfold sizeOf
  split
  · refine ⟨.ok _, fun size hsize => Or.inl (Except.ok.inj hsize).symm⟩
  · refine ⟨.ok _, fun size hsize => Or.inr ?_⟩
    obtain rfl := Except.ok.inj hsize
    exact ⟨rfl, h⟩
  · split
    · refine ⟨.ok _, fun size hsize => Or.inr ?_⟩
      obtain rfl := Except.ok.inj hsize
      exact ⟨rfl, h⟩
    · rw [hbad]
      exact ⟨.violations _, nofun⟩
  · rw [hbad]
    exact ⟨.violations _, nofun⟩

/-- The reading of a default is checked, or the default is an integer out of range. -/
lemma defaultOf_cases (name : String) (kind : Kind) (v : Value) :
    defaultOf name kind v = .error .overflow ∧ kind.DefaultOverflows v ∨
      IsChecked (defaultOf name kind v) ∧ ¬kind.DefaultOverflows v := by
  have hnull : v.isNull = true → ¬kind.DefaultOverflows v := by
    rintro hnull ⟨w, hw, rfl, i, rfl, -⟩
    cases v <;> cases hnull
    cases hw
  by_cases hv : v.isNull = true
  · rw [defaultOf, if_pos hv]
    exact Or.inr ⟨.ok _, hnull hv⟩
  rw [defaultOf, if_neg hv, Kind.coerceDefault]
  rcases kind.convertDefault_cases v with ⟨w, hw⟩ | ⟨fault, reason, hfault, hreason⟩
  · rw [hw]
    simp only [bind, Except.bind]
    rcases kind.accepts_cases w with ⟨haccepts, hover⟩ | ⟨⟨accepted, haccepts⟩, hover⟩
    · rw [haccepts]
      exact Or.inl ⟨rfl, w, hw, hover⟩
    · have hnot : ¬kind.DefaultOverflows v := by
        rintro ⟨w', hw', hover'⟩
        obtain rfl := Except.ok.inj (hw.symm.trans hw')
        exact hover hover'
      rw [haccepts]
      cases accepted with
      | true => exact Or.inr ⟨.ok _, hnot⟩
      | false => exact Or.inr ⟨.violations _, hnot⟩
  · rw [hfault]
    simp only [bind, Except.bind, hreason]
    refine Or.inr ⟨.violations _, ?_⟩
    rintro ⟨w, hw, -⟩
    rw [hfault] at hw
    cases hw

/-- A description of a column has a known kind and a proper size, and then an integer out of range for
its default. -/
def DescribesOverflow (name : Value) (entries : List (Value × Value)) : Prop :=
  ∃ kind size, Kind.ofName ((Value.lookup? "type" entries).getD (.text "string")) = .ok kind ∧
    sizeOf name.label (Value.entry "size" entries) = .ok size ∧
    kind.DefaultOverflows (Value.entry "defaultValue" entries)

/-- The reading of a column is checked, or the column is described with an integer out of range. -/
lemma ofEntries_cases (name : Value) {entries : List (Value × Value)} (h : TellsValues entries) :
    ofEntries name entries = .error .overflow ∧ DescribesOverflow name entries ∨
      IsChecked (ofEntries name entries) ∧ ¬DescribesOverflow name entries := by
  have htype : ((Value.lookup? "type" entries).getD (.text "string")).IsTold := by
    cases hlookup : Value.lookup? "type" entries with
    | none => rfl
    | some v => exact (h.entry "type").1 v hlookup
  have hkindChecked := Kind.isChecked_ofName htype
  have hsizeChecked := (isChecked_sizeOf name.label (h.entry "size").2).1
  by_cases hover : DescribesOverflow name entries
  · left
    obtain ⟨kind, size, hkind, hsize, hdefault⟩ := id hover
    refine ⟨?_, hover⟩
    rcases defaultOf_cases name.label kind (Value.entry "defaultValue" entries) with
      ⟨heq, -⟩ | ⟨-, hnot⟩
    · rw [ofEntries]
      simp only [bind, Except.bind, hkind, hsize, heq]
    · exact absurd hdefault hnot
  · right
    refine ⟨?_, hover⟩
    refine hkindChecked.seq fun kind hkind => hsizeChecked.seq fun size hsize => ?_
    have hdefault : IsChecked
        (defaultOf name.label kind (Value.entry "defaultValue" entries)) := by
      rcases defaultOf_cases name.label kind (Value.entry "defaultValue" entries) with
        ⟨-, hdefault⟩ | ⟨hchecked, -⟩
      · exact absurd ⟨kind, size, hkind, hsize, hdefault⟩ hover
      · exact hchecked
    exact hdefault.seq fun d _ => .check (.check (.ok _))

/-- The reading of a column from a mapping is that of its entries. -/
lemma ofValue_map (name : Value) (entries : List (Value × Value)) :
    ofValue name (.map entries) = ofEntries name entries := by
  cases entries <;> rfl

/-- A column that has been described by values with texts tells its size. -/
lemma tellsSize_ofEntries {name : Value} {entries : List (Value × Value)} (h : TellsValues entries)
    {column : Column} (hcolumn : ofEntries name entries = .ok column) : column.TellsSize := by
  obtain ⟨kind, -, hcolumn⟩ := Outcome.seq_eq_ok.mp hcolumn
  obtain ⟨size, hsize, hcolumn⟩ := Outcome.seq_eq_ok.mp hcolumn
  obtain ⟨defaultValue, -, hcolumn⟩ := Outcome.seq_eq_ok.mp hcolumn
  obtain ⟨-, hcolumn⟩ := Outcome.unless_eq_ok.mp hcolumn
  obtain ⟨-, hcolumn⟩ := Outcome.unless_eq_ok.mp hcolumn
  obtain rfl := Outcome.pure_eq_ok.mp hcolumn
  exact (isChecked_sizeOf name.label (h.entry "size").2).2 size hsize

end Column

namespace Schema

variable {schema : Schema}

/-- Columns by their names, as described by fields. -/
def sourcesOf (columns : List (String × Fields)) : List (Value × ColumnSource) :=
  columns.map fun (name, declared) => (Value.text name, .described (.ofFields declared))

/-- Columns that are described by fields are described. -/
lemma isDescribed_sourcesOf (columns : List (String × Fields)) :
    SchemaSource.IsDescribed (.columns (sourcesOf columns)) := by
  intro entry hentry
  obtain ⟨c, -, rfl⟩ := List.mem_map.mp hentry
  exact ⟨_, rfl⟩

/-- Some column is described with an integer out of range for its default. -/
def DescribeOverflow (columns : List (String × Fields)) : Prop :=
  ∃ c ∈ columns, Column.DescribesOverflow (.text c.1)
    (c.2.map fun field => (.text field.1, field.2))

/-- Fields whose values have texts are entries whose values have texts. -/
lemma tellsValues_ofFields {fields : Fields} (h : TellsValues fields) :
    TellsValues (fields.map fun field => (Value.text field.1, field.2)) := by
  intro entry hentry
  obtain ⟨field, hfield, rfl⟩ := List.mem_map.mp hentry
  exact h field hfield

/-- A source is added, or some rules are broken, unless it describes an integer out of range. -/
lemma addSource_described (schema : Schema) (name : String) {declared : Fields}
    (h : TellsValues declared) :
    addSource schema (.text name) (.described (.ofFields declared)) = .error .overflow ∧
        Column.DescribesOverflow (.text name)
          (declared.map fun field => (.text field.1, field.2)) ∨
      (∃ outcome, addSource schema (.text name) (.described (.ofFields declared)) = .ok outcome) ∧
        ¬Column.DescribesOverflow (.text name)
          (declared.map fun field => (.text field.1, field.2)) := by
  rw [addSource, columnOf, Value.ofFields, Column.ofValue_map]
  rcases Column.ofEntries_cases (.text name) (tellsValues_ofFields h) with
    ⟨heq, hover⟩ | ⟨hchecked, hover⟩
  · rw [heq]
    exact Or.inl ⟨rfl, hover⟩
  · refine Or.inr ⟨?_, hover⟩
    cases hcolumn : Column.ofEntries (.text name)
        (declared.map fun field => (.text field.1, field.2)) with
    | ok column =>
      have hname := (Column.canonical_ofEntries hcolumn).2
      dsimp only
      rw [hname]
      exact ⟨_, rfl⟩
    | error fault =>
      obtain ⟨all, rfl⟩ := hchecked fault hcolumn
      exact ⟨_, rfl⟩

/-- Columns are added, whatever rules are broken, unless one of them is described with an integer out
of range. -/
lemma addAll_cases {columns : List (String × Fields)} (h : ∀ c ∈ columns, TellsValues c.2)
    (schema : Schema) (broken : List Violation) :
    addAll schema broken (sourcesOf columns) = .error .overflow ∧ DescribeOverflow columns ∨
      (∃ added, addAll schema broken (sourcesOf columns) = .ok added) ∧
        ¬DescribeOverflow columns := by
  induction columns generalizing schema broken with
  | nil => exact Or.inr ⟨⟨_, rfl⟩, by simp [DescribeOverflow]⟩
  | cons c rest ih =>
    obtain ⟨hfirst, hrest⟩ := List.forall_mem_cons.mp h
    rw [DescribeOverflow, List.exists_mem_cons_iff, ← DescribeOverflow, sourcesOf, List.map_cons,
      ← sourcesOf, addAll]
    rcases addSource_described schema c.1 hfirst with ⟨heq, hover⟩ | ⟨⟨outcome, heq⟩, hover⟩
    · rw [heq]
      exact Or.inl ⟨rfl, Or.inl hover⟩
    · rw [heq, or_iff_right hover]
      cases outcome with
      | ok added => exact ih hrest added broken
      | error all => exact ih hrest schema (broken ++ all)

/-- A fault escapes from the making of a schema exactly if a column is described with an integer out
of range. -/
lemma escapes_ofColumns {columns : List (String × Fields)} (h : ∀ c ∈ columns, TellsValues c.2) :
    Escapes (ofColumns (sourcesOf columns)) ↔ DescribeOverflow columns := by
  cases columns with
  | nil =>
    have hrule : ofColumns (sourcesOf []) = .error (.violation .noColumns) := rfl
    rw [hrule, escapes_error]
    simp [DescribeOverflow, Fault.isRefusal, Fault.violation]
  | cons c rest =>
    change Escapes (addAll empty [] (sourcesOf (c :: rest)) >>= _) ↔ _
    rcases addAll_cases h empty [] with ⟨heq, hover⟩ | ⟨⟨⟨schema, broken⟩, heq⟩, hover⟩
    · rw [heq]
      exact iff_of_true ⟨.overflow, rfl, rfl⟩ hover
    · rw [heq]
      refine iff_of_false ?_ hover
      change ¬Escapes (if broken.isEmpty then pure schema else throw (.violations broken))
      split
      · exact not_escapes_ok schema
      · rintro ⟨fault, hfault, hrefusal⟩
        obtain rfl := Except.error.inj hfault
        cases hrefusal

/-- A schema that has been made of columns whose properties have texts tells their sizes. -/
lemma tellsSizes_ofColumns {columns : List (String × Fields)}
    (h : ∀ c ∈ columns, TellsValues c.2) {schema : Schema}
    (hschema : ofColumns (sourcesOf columns) = .ok schema) : schema.TellsSizes := by
  have hsound : schema.Sound Column.TellsSize := by
    refine sound_ofColumns (fun entry hentry c hc => ?_) hschema
    obtain ⟨declaration, hdeclaration, rfl⟩ := List.mem_map.mp hentry
    rw [columnOf, Value.ofFields, Column.ofValue_map] at hc
    exact Column.tellsSize_ofEntries (tellsValues_ofFields (h declaration hdeclaration)) hc
  exact hsound.each

end Schema

end RecordStore
