import RecordStore.Proofs.Entries
import RecordStore.Proofs.Schema
import RecordStore.Schema.Validation

/-!
# What a validated record holds

A record that passes validation holds, in every column, what the verdict of the column says: the
value that was given, in canonical form and not taken, or the default in place of an absent value of
a column that does not number its rows.  So a property that accepted values and defaults have is a
property of all that a validated record holds.
-/

namespace RecordStore

/-! ## Verdicts -/

/-- The value that a verdict gives to a column. -/
def Verdict.value? : Verdict → Option Value
  | .filled v => some v
  | .stored v => some v
  | _ => none

/-- A verdict of a column on a value that breaks no rule. -/
def Column.Passes (column : Column) (isTaken : TakenTest) (updating : Bool) (v : Value)
    (verdict : Verdict) : Prop :=
  column.verdict updating v = .ok verdict ∧ verdict.broken column isTaken = .ok []

namespace Column

variable {column : Column} {isTaken : TakenTest} {updating : Bool}

/-- What passes for an absent value: its absence, or the default, which stands in only for a value
that is not being updated and not numbered. -/
lemma passes_absent {v : Value} {verdict : Verdict} (hnull : v.isNull = true)
    (h : column.Passes isTaken updating v verdict) :
    verdict = .absent ∨ ∃ d, verdict = .filled d ∧ column.defaultValue = some d ∧
      updating = false ∧ column.isNumbered = false := by
  obtain ⟨hverdict, hbroken⟩ := h
  rw [Column.verdict, if_pos hnull] at hverdict
  obtain rfl : column.absentVerdict updating = verdict := by simpa using hverdict
  revert hbroken
  rw [absentVerdict]
  split
  · exact fun _ => Or.inl rfl
  split
  · intro hbroken
    simp [Verdict.broken] at hbroken
  rename_i hnumbered hrequired
  split
  · rename_i d hd
    cases updating with
    | true => exact fun _ => Or.inl rfl
    | false =>
      refine fun _ => Or.inr ⟨d, rfl, hd, rfl, ?_⟩
      simpa using hnumbered
  · exact fun _ => Or.inl rfl

/-- What passes for a value that is there: the value in canonical form, which is not taken if the
column is unique. -/
lemma passes_present {v : Value} {verdict : Verdict} (hpresent : v.isNull = false)
    (h : column.Passes isTaken updating v verdict) :
    verdict = .stored (column.kind.coerce v) ∧ column.kind.accepts v = .ok true ∧
      (column.isUnique = true → isTaken column.name (column.kind.coerce v) = false) := by
  obtain ⟨hverdict, hbroken⟩ := h
  rw [Column.verdict, if_neg (by simp [hpresent])] at hverdict
  obtain ⟨accepted, haccepts, hverdict⟩ := Outcome.bind_eq_ok.mp hverdict
  cases accepted with
  | false =>
    obtain rfl : Verdict.wrongKind = verdict := by simpa using hverdict
    simp [Verdict.broken] at hbroken
  | true =>
    have hstored : verdict = .stored (column.kind.coerce v) := by
      simp only [if_true, sizeVerdict] at hverdict
      split at hverdict
      · simpa using hverdict.symm
      · obtain ⟨long, -, hlong⟩ := Outcome.map_eq_ok.mp hverdict
        cases long with
        | false => exact hlong.symm
        | true =>
          obtain rfl : Verdict.tooLong column.size = verdict := hlong
          obtain ⟨shown, -, hshown⟩ := Outcome.map_eq_ok.mp hbroken
          cases hshown
    refine ⟨hstored, haccepts, fun hunique => ?_⟩
    rw [hstored] at hbroken
    simpa [Verdict.broken, hunique] using hbroken

/-- An absent value of a stored row stays absent, and a value that is there is not a default. -/
lemma value?_of_passes_updating {v : Value} {verdict : Verdict}
    (h : column.Passes isTaken true v verdict) :
    verdict.value? = if v.isNull then none else some (column.kind.coerce v) := by
  cases hnull : v.isNull with
  | true =>
    rcases passes_absent hnull h with rfl | ⟨d, rfl, -, hupdating, -⟩
    · rfl
    · cases hupdating
  | false =>
    obtain ⟨rfl, -, -⟩ := passes_present hnull h
    rfl

end Column

namespace Schema

/-! ## Records -/

variable {isTaken : TakenTest} {updating : Bool} {valueOf : Value → Value}

/-- Columns pass if the first passes and the others do. -/
lemma checkColumns_cons_iff {column : Column} {rest : List Column} {record : Record} :
    checkColumns isTaken updating valueOf (column :: rest) = .ok (record, []) ↔
      ∃ verdict others, column.Passes isTaken updating (valueOf column.name) verdict ∧
        checkColumns isTaken updating valueOf rest = .ok (others, []) ∧
          record = verdict.entries column.name ++ others := by
  constructor
  · intro h
    obtain ⟨verdict, hverdict, h⟩ := Outcome.seq_eq_ok.mp h
    obtain ⟨own, hown, h⟩ := Outcome.seq_eq_ok.mp h
    obtain ⟨⟨others, violations⟩, hrest, h⟩ := Outcome.seq_eq_ok.mp h
    obtain ⟨hrecord, hnone⟩ := Prod.mk.inj (Outcome.pure_eq_ok.mp h)
    obtain ⟨rfl, rfl⟩ := List.append_eq_nil_iff.mp hnone
    exact ⟨verdict, others, ⟨hverdict, hown⟩, hrest, hrecord.symm⟩
  · rintro ⟨verdict, others, ⟨hverdict, hown⟩, hrest, rfl⟩
    refine Outcome.seq_eq_ok.mpr ⟨verdict, hverdict, Outcome.seq_eq_ok.mpr ⟨[], hown, ?_⟩⟩
    exact Outcome.seq_eq_ok.mpr ⟨(others, []), hrest, rfl⟩

/-- A record is validated if its columns pass. -/
lemma validate_eq_ok_iff {schema : Schema} {given record : Record} :
    schema.validate isTaken updating given = .ok record ↔
      checkColumns isTaken updating (fun name => given.value name) schema.columns =
        .ok (record, []) := by
  constructor
  · intro h
    obtain ⟨⟨checked, broken⟩, hchecked, h⟩ := Outcome.seq_eq_ok.mp h
    dsimp only at h
    split at h
    · rename_i hnone
      obtain rfl := Outcome.pure_eq_ok.mp h
      rw [hchecked, List.isEmpty_iff.mp hnone]
    · cases h
  · intro h
    exact Outcome.seq_eq_ok.mpr ⟨(record, []), h, rfl⟩

/-- The keys of a checked record are names of columns. -/
lemma exists_name_of_mem_checkColumns {columns : List Column} {record : Record}
    (h : checkColumns isTaken updating valueOf columns = .ok (record, [])) {entry : Value × Value}
    (hentry : entry ∈ record) : ∃ c ∈ columns, c.name = entry.1 := by
  induction columns generalizing record with
  | nil =>
    cases h
    cases hentry
  | cons column rest ih =>
    obtain ⟨verdict, others, -, hrest, rfl⟩ := checkColumns_cons_iff.mp h
    rcases List.mem_append.mp hentry with hown | hother
    · refine ⟨column, List.mem_cons_self, ?_⟩
      cases verdict <;> simp [Verdict.entries] at hown <;> rw [hown]
    · obtain ⟨c, hc, hname⟩ := ih hrest hother
      exact ⟨c, List.mem_cons_of_mem _ hc, hname⟩

/-- What the entries of a verdict give under the name of its column. -/
lemma lookup_entries_self (name : Value) (verdict : Verdict) :
    (verdict.entries name).lookup name = verdict.value? := by
  cases verdict <;> simp [Verdict.entries, Verdict.value?]

/-- The entries of a verdict give nothing under the name of another column. -/
lemma lookup_entries_of_ne {name other : Value} (h : (other == name) = false) (verdict : Verdict) :
    (verdict.entries name).lookup other = none := by
  cases verdict <;> simp [Verdict.entries, List.lookup_cons, h]

/-- A checked record in which no rule is broken holds in every column what a passing verdict
gives. -/
theorem lookup_of_checkColumns {columns : List Column} {record : Record}
    (hhashable : ∀ c ∈ columns, c.name.isHashable = true)
    (hdistinct : columns.Pairwise fun a b => (a.name == b.name) = false)
    (h : checkColumns isTaken updating valueOf columns = .ok (record, [])) :
    ∀ c ∈ columns, ∃ verdict, c.Passes isTaken updating (valueOf c.name) verdict ∧
      record.lookup c.name = verdict.value? := by
  induction columns generalizing record with
  | nil => simp
  | cons column rest ih =>
    obtain ⟨verdict, others, hpasses, hrest, rfl⟩ := checkColumns_cons_iff.mp h
    obtain ⟨hfirst, hdistinct⟩ := List.pairwise_cons.mp hdistinct
    intro c hc
    rcases List.mem_cons.mp hc with rfl | hc
    · refine ⟨verdict, hpasses, ?_⟩
      rw [List.lookup_append, lookup_entries_self]
      have hmissing : others.lookup c.name = none := by
        refine List.lookup_eq_none_iff.mpr fun entry hentry => ?_
        obtain ⟨d, hd, hname⟩ := exists_name_of_mem_checkColumns hrest hentry
        rw [← hname, bne, hfirst d hd]
        rfl
      rw [hmissing, Option.or_none]
    · obtain ⟨verdict', hpasses, hlookup⟩ :=
        ih (fun d hd => hhashable d (List.mem_cons_of_mem _ hd)) hdistinct hrest c hc
      refine ⟨verdict', hpasses, ?_⟩
      have hne : (c.name == column.name) = false := by
        rw [Value.beq_comm (hhashable c (List.mem_cons_of_mem _ hc))]
        exact hfirst c hc
      rw [List.lookup_append, lookup_entries_of_ne hne, Option.none_or]
      exact hlookup

/-- A validated record holds in every column what a passing verdict gives. -/
theorem lookup_of_validate {P : Column → Prop} {schema : Schema} (hschema : schema.Sound P)
    {given record : Record} (h : schema.validate isTaken updating given = .ok record) :
    ∀ c ∈ schema.columns, ∃ verdict, c.Passes isTaken updating (given.value c.name) verdict ∧
      record.lookup c.name = verdict.value? :=
  lookup_of_checkColumns hschema.hashable hschema.distinct (validate_eq_ok_iff.mp h)

/-! ## Properties of records -/

/-- What a record holds in the columns of a schema has a property. -/
def Holds (schema : Schema) (P : Column → Value → Prop) (record : Record) : Prop :=
  ∀ c ∈ schema.columns, ∀ v, record.lookup c.name = some v → P c v

/-- What a validated record holds has every property of accepted values and of the defaults that are
filled in. -/
theorem holds_of_validate {P : Column → Prop} {schema : Schema} (hschema : schema.Sound P)
    {Q : Column → Value → Prop}
    (haccepted : ∀ c v, c.kind.accepts v = .ok true → Q c (c.kind.coerce v))
    (hdefault : updating = false → ∀ c, P c → ∀ v, c.defaultValue = some v → Q c v)
    {given record : Record} (h : schema.validate isTaken updating given = .ok record) : schema.Holds Q record := by
  intro c hc v hv
  obtain ⟨verdict, hpasses, hlookup⟩ := lookup_of_validate hschema h c hc
  rw [hlookup] at hv
  cases hnull : (given.value c.name).isNull with
  | true =>
    rcases Column.passes_absent hnull hpasses with rfl | ⟨d, rfl, hd, hinserting, -⟩
    · cases hv
    · obtain rfl : d = v := by simpa [Verdict.value?] using hv
      exact hdefault hinserting c (hschema.each c hc) d hd
  | false =>
    obtain ⟨rfl, haccepts, -⟩ := Column.passes_present hnull hpasses
    obtain rfl : c.kind.coerce (given.value c.name) = v := by simpa [Verdict.value?] using hv
    exact haccepted c _ haccepts

end Schema

end RecordStore
