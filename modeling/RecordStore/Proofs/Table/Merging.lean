import RecordStore.Proofs.Table.Step

/-!
# Merged records

What an update makes of a record.  In the merge of a record with a patch a column holds what the patch
gives it, and what the record held if the patch does not name it; an absent value clears the column.
The merge is validated as a row that is stored already, so nothing is filled in: what is stored is the
merge in canonical form, in the order of the columns.  Whether values are taken decides only about
unique columns, so a record that passes while some values are taken is one that passes while none is,
and holds none of them.
-/

namespace RecordStore

/-! ## Validation and values that are taken -/

namespace Column

variable {column : Column} {isTaken : TakenTest} {updating : Bool} {v : Value} {verdict : Verdict}

/-- A verdict breaks no rule if it breaks none while no value is taken, and what it stores in a unique
column is not taken. -/
lemma passes_iff_untaken : column.Passes isTaken updating v verdict ↔
    column.Passes (fun _ _ => false) updating v verdict ∧
      (column.isUnique = true → ∀ w, verdict = .stored w → isTaken column.name w = false) := by
  rw [Passes, Passes, and_assoc]
  refine and_congr_right fun _ => ?_
  cases verdict with
  | stored w =>
    cases hunique : column.isUnique with
    | false => simp [Verdict.broken, hunique]
    | true => simp [Verdict.broken, hunique]
  | _ => simp [Verdict.broken]

end Column

namespace Schema

variable {schema : Schema} {isTaken : TakenTest} {updating : Bool} {valueOf : Value → Value}

/-- Columns pass if they pass while no value is taken, and none of those stored in unique columns is
taken. -/
lemma checkColumns_iff_untaken {columns : List Column} {record : Record} :
    checkColumns isTaken updating valueOf columns = .ok (record, []) ↔
      checkColumns (fun _ _ => false) updating valueOf columns = .ok (record, []) ∧
        ∀ c ∈ columns, c.isUnique = true → ∀ w,
          c.verdict updating (valueOf c.name) = .ok (.stored w) → isTaken c.name w = false := by
  induction columns generalizing record with
  | nil => simp [checkColumns]
  | cons column rest ih =>
    rw [checkColumns_cons_iff, checkColumns_cons_iff, List.forall_mem_cons]
    constructor
    · rintro ⟨verdict, others, hpasses, hrest, rfl⟩
      obtain ⟨huntaken, hfree⟩ := Column.passes_iff_untaken.mp hpasses
      obtain ⟨hothers, hall⟩ := ih.mp hrest
      refine ⟨⟨verdict, others, huntaken, hothers, rfl⟩, fun hunique w hw => ?_, hall⟩
      exact hfree hunique w (Except.ok.inj (hpasses.1.symm.trans hw))
    · rintro ⟨⟨verdict, others, huntaken, hothers, rfl⟩, hfirst, hall⟩
      refine ⟨verdict, others, ?_, ih.mpr ⟨hothers, hall⟩, rfl⟩
      refine Column.passes_iff_untaken.mpr ⟨huntaken, fun hunique w hw => hfirst hunique w ?_⟩
      rw [huntaken.1, hw]

/-- A record that is stored passes again exactly if it passes while no value is taken, and holds nothing
in a unique column that is taken. -/
theorem validate_updating_iff {P : Column → Prop} (hschema : schema.Sound P) {given record : Record} :
    schema.validate isTaken true given = .ok record ↔
      schema.validate (fun _ _ => false) true given = .ok record ∧
        ∀ c ∈ schema.columns, c.isUnique = true → (record.value c.name).isNull = false →
          isTaken c.name (record.value c.name) = false := by
  rw [validate_eq_ok_iff, checkColumns_iff_untaken, ← validate_eq_ok_iff]
  refine and_congr_right fun hvalid => forall₂_congr fun c hc => forall_congr' fun _ => ?_
  obtain ⟨verdict, hpasses, hlookup⟩ := lookup_of_validate hschema hvalid c hc
  have hvalue : record.value c.name = Value.ofOption verdict.value? := by rw [Record.value, hlookup]
  rw [hpasses.1, hvalue]
  cases hnull : (given.value c.name).isNull with
  | true =>
    rcases Column.passes_absent hnull hpasses with rfl | ⟨d, -, -, hupdating, -⟩
    · constructor
      · intro _ hpresent
        cases hpresent
      · intro _ w hw
        cases hw
    · cases hupdating
  | false =>
    obtain ⟨rfl, haccepts, -⟩ := Column.passes_present hnull hpasses
    have hpresent := Kind.isNull_of_isCanonical (Kind.isCanonical_coerce haccepts)
    constructor
    · exact fun h _ => h _ rfl
    · intro h w hw
      obtain rfl := Verdict.stored.inj (Except.ok.inj hw)
      exact h hpresent

/-- A record that is stored passes as what it holds, in canonical form and in the order of the columns. -/
theorem eq_filterMap_of_validate {given record : Record}
    (h : schema.validate isTaken true given = .ok record) :
    record = schema.columns.filterMap fun c =>
      if (given.value c.name).isNull then none
      else some (c.name, c.kind.coerce (given.value c.name)) := by
  have hall : ∀ (columns : List Column) (checked : Record),
      checkColumns isTaken true (fun name => given.value name) columns = .ok (checked, []) →
        checked = columns.filterMap fun c =>
          if (given.value c.name).isNull then none
          else some (c.name, c.kind.coerce (given.value c.name)) := by
    intro columns
    induction columns with
    | nil =>
      intro checked h
      cases h
      rfl
    | cons column rest ih =>
      intro checked h
      obtain ⟨verdict, others, hpasses, hrest, rfl⟩ := checkColumns_cons_iff.mp h
      rw [List.filterMap_cons, ← ih others hrest]
      cases hnull : (given.value column.name).isNull with
      | true =>
        rcases Column.passes_absent hnull hpasses with rfl | ⟨d, -, -, hupdating, -⟩
        · rfl
        · cases hupdating
      | false =>
        obtain ⟨rfl, -, -⟩ := Column.passes_present hnull hpasses
        rfl
  exact hall _ _ (validate_eq_ok_iff.mp h)

end Schema

namespace Table

/-! ## Merges -/

variable {record patch : Record} {column : Value}

/-- A column that a patch does not name keeps its value. -/
lemma value_merge_of_has_eq_false (hkeys : ∀ entry ∈ patch, entry.1.isHashable = true)
    (hcolumn : Entries.has column patch = false) :
    (merge record patch).value column = record.value column := by
  rw [merge]
  induction patch generalizing record with
  | nil => rfl
  | cons entry rest ih =>
    obtain ⟨key, v⟩ := entry
    obtain ⟨hkey, hrest⟩ := List.forall_mem_cons.mp hkeys
    rw [Entries.has, List.any_cons, Bool.or_eq_false_iff] at hcolumn
    obtain ⟨hne, hcolumn⟩ := hcolumn
    rw [List.foldl_cons, ih hrest hcolumn, Record.value, Record.value]
    dsimp only at hne ⊢
    split
    · rw [Entries.lookup_drop hkey, hne]
      rfl
    · rw [Entries.lookup_put hkey, hne]
      rfl

/-- In a merge a column holds what the patch gives it, and else what the record held. -/
theorem value_merge (hkeys : ∀ entry ∈ patch, entry.1.isHashable = true)
    (hdistinct : Entries.Distinct patch) (hcolumn : column.isHashable = true) :
    (merge record patch).value column = (patch.lookup column).getD (record.value column) := by
  induction patch generalizing record with
  | nil => rfl
  | cons entry rest ih =>
    obtain ⟨key, v⟩ := entry
    obtain ⟨hkey, hrest⟩ := List.forall_mem_cons.mp hkeys
    obtain ⟨hfirst, hdistinct⟩ := List.pairwise_cons.mp hdistinct
    have hstep : merge record ((key, v) :: rest) =
        merge (if v.isNull then Entries.drop key record else Entries.put key v record) rest := rfl
    rw [hstep, ih hrest hdistinct, List.lookup_cons, Value.beq_comm hcolumn]
    cases hsame : key == column with
    | true =>
      have hnone : rest.lookup column = none := by
        rw [← Entries.lookup_congr hkey hsame, List.lookup_eq_none_iff]
        exact fun entry hentry => by simp [bne, hfirst entry hentry]
      rw [hnone, Option.getD_none, Option.getD_some, Record.value]
      split
      · rename_i hnull
        rw [Entries.lookup_drop hkey, hsame]
        cases v <;> first | rfl | cases hnull
      · rw [Entries.lookup_put hkey, hsame]
        rfl
    | false =>
      have hkept : Record.value column
          (if v.isNull then Entries.drop key record else Entries.put key v record) =
            record.value column := by
        rw [Record.value, Record.value]
        split
        · rw [Entries.lookup_drop hkey, hsame]
          rfl
        · rw [Entries.lookup_put hkey, hsame]
          rfl
      rw [hkept]

/-- In a column that a patch does not name a stored merge holds what the record held, if that stays as it
is when it is stored. -/
lemma value_of_unnamed {P : Column → Prop} {schema : Schema} (hschema : schema.Sound P)
    {isTaken : TakenTest} {stored : Record} (hkeys : ∀ entry ∈ patch, entry.1.isHashable = true)
    (hvalid : schema.validate isTaken true (merge record patch) = .ok stored) {c : Column}
    (hc : c ∈ schema.columns) (hkept : c.kind.coerce (record.value c.name) = record.value c.name)
    (hunnamed : Entries.has c.name patch = false) :
    stored.value c.name = record.value c.name := by
  obtain ⟨verdict, hpasses, hlookup⟩ := Schema.lookup_of_validate hschema hvalid c hc
  rw [value_merge_of_has_eq_false hkeys hunnamed] at hpasses
  rw [Record.value, hlookup, Column.value?_of_passes_updating hpasses]
  split
  · rename_i hnull
    cases hv : record.value c.name <;> rw [hv] at hnull <;> first | rfl | cases hnull
  · exact hkept

end Table

end RecordStore
