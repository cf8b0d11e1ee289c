import RecordStore.Proofs.Filter.Suiting
import RecordStore.Proofs.Table.Matching
import RecordStore.Proofs.Table.Reloading
import RecordStore.Proofs.Table.Simple
import RecordStore.Query.Execution

/-!
# Faults that escape from tables

In a table that has come about from described columns, two kinds of faults escape from what a query
asks of it.  One is an integer out of the range of floating-point numbers in a column of numbers, if a
record is checked that holds it: one that is given, or one that a patch makes of a row.  The other is a
value without a text, if a row holds it where a pattern is to be matched.
-/

namespace RecordStore

open Query (Condition conditionsOf)

namespace Value

/-- Every value of a date has a text. -/
lemma isTold_ofMoment (moment : Moment) : (ofMoment moment).IsTold := by
  cases moment <;> rfl

end Value

namespace Operator

variable {operator : Operator} {v operand : Value}

/-- A comparison meets a value without a text in place of which a pattern is to be matched. -/
def MeetsUntold (operator : Operator) (operand v : Value) : Prop :=
  operator = .like ∧ operand.isNull = false ∧ ¬v.IsTold

instance : DecidablePred (MeetsUntold operator operand) :=
  fun _ => inferInstanceAs (Decidable (_ ∧ _ ∧ _))

/-- A comparison has an answer for every value, unless it meets one without a text. -/
lemma exists_answers (operator : Operator) (hoperand : operand.IsTold) : ∃ p : Value → Bool, ∀ v,
    operator.holds v operand =
      if ¬operator.MeetsUntold operand v then .ok (p v) else .error .longInteger := by
  by_cases hlike : operator = .like
  · subst hlike
    cases hnull : operand.isNull with
    | true =>
      refine ⟨fun _ => false, fun v => ?_⟩
      have hmeets : ¬MeetsUntold .like operand v := fun h => Bool.noConfusion (hnull.symm.trans h.2.1)
      rw [if_pos hmeets]
      exact if_pos (by rw [hnull, Bool.or_true])
    | false =>
      obtain ⟨pattern, hpattern⟩ := Option.isSome_iff_exists.mp hoperand
      refine ⟨fun v => decide (v.Suits pattern), fun v => ?_⟩
      have hmeets : ¬MeetsUntold .like operand v ↔ v.IsTold :=
        ⟨fun h => not_not.mp fun huntold => h ⟨rfl, hnull, huntold⟩, fun htold h => h.2.2 htold⟩
      rw [Value.holds_like hnull hpattern v]
      simp only [hmeets]
  · refine ⟨fun v => (operator.holds v operand).toOption.getD false, fun v => ?_⟩
    rw [if_pos fun hmeets => hlike hmeets.1]
    cases operator with
    | like => exact absurd rfl hlike
    | equal => rfl
    | unequal => rfl
    | lessOrGreater => rfl
    | _ =>
      simp only [holds]
      split <;> rfl

end Operator

namespace Table

variable {table : Table} {records : List (Int × Record)}

/-! ## Matching -/

/-- What a column is compared with has a text if it has one as it is given, and it is there if it is
given. -/
lemma isTold_operandFor (schema : Schema) (column : Value) {operand : Value}
    (h : operand.IsTold) : (operandFor schema column operand).IsTold ∧
      (operandFor schema column operand).isNull = operand.isNull := by
  unfold operandFor
  split
  · rename_i s
    split
    · split
      · cases Moment.parse? s with
        | none => exact ⟨rfl, rfl⟩
        | some moment => exact ⟨Value.isTold_ofMoment moment, by cases moment <;> rfl⟩
      · exact ⟨rfl, rfl⟩
    · exact ⟨rfl, rfl⟩
  · exact ⟨h, rfl⟩

/-- A scan for a single predicate finds rows, unless it meets a value without a text. -/
lemma escapes_scanFor (records : List (Int × Record)) {predicate : Predicate}
    (hoperand : predicate.operand.IsTold) :
    Escapes (scanFor [predicate] (rowsOf records)) ↔ ∃ entry ∈ records,
      predicate.operator.MeetsUntold predicate.operand (entry.2.value predicate.column) := by
  obtain ⟨p, hholds⟩ := predicate.operator.exists_answers hoperand
  have hscan := scanFor_answered records predicate.column hholds
  rw [show [predicate] = [⟨predicate.column, predicate.operator, predicate.operand⟩] from rfl, hscan]
  split
  · rename_i hall
    refine iff_of_false (not_escapes_ok _) ?_
    rintro ⟨entry, hentry, hmeets⟩
    exact hall entry hentry hmeets
  · rename_i hsome
    refine iff_of_true (escapes_error.mpr rfl) ?_
    simpa using hsome

/-- The rows of a table hold a value without a text where a condition matches a pattern. -/
def MeetsUntold (table : Table) (condition : Condition) : Prop :=
  ∃ entry ∈ table.rows, ∃ operator v,
    Operator.ofKey? (.text condition.operator) = some operator ∧
      entry.2.value (.text condition.column) = .ok v ∧ operator.MeetsUntold condition.value v

/-- A condition states a single predicate, an equality if it has no operator. -/
lemma predicatesOf_condition (schema : Schema) (condition : Condition) :
    predicatesOf schema [(.text condition.column,
        .ofFields [(condition.operator, condition.value)])] =
      match Operator.ofKey? (.text condition.operator) with
      | some operator => [⟨.text condition.column, operator,
          operandFor schema (.text condition.column) condition.value⟩]
      | none => [⟨.text condition.column, .equal,
          .ofFields [(condition.operator, condition.value)]⟩] := by
  cases hoperator : Operator.ofKey? (.text condition.operator) with
  | some operator =>
    simp [predicatesOf, Value.ofFields, Operator.comparisons, Operator.ofEntry?, hoperator]
  | none =>
    simp [predicatesOf, Value.ofFields, Operator.comparisons, Operator.ofEntry?, hoperator,
      operandFor]

/-- A condition meets a value without a text in one of the records that a table lists. -/
lemma Lists.meetsUntold_iff (h : table.Lists records) {condition : Condition}
    (hoperand : (operandFor table.schema (.text condition.column) condition.value).isNull =
      condition.value.isNull) :
    table.MeetsUntold condition ↔ ∃ operator,
      Operator.ofKey? (.text condition.operator) = some operator ∧ ∃ entry ∈ records,
        operator.MeetsUntold
          (operandFor table.schema (.text condition.column) condition.value)
          (entry.2.value (.text condition.column)) := by
  simp only [MeetsUntold, Operator.MeetsUntold, h.rows, rowsOf, List.mem_map, hoperand]
  constructor
  · rintro ⟨-, ⟨entry, hentry, rfl⟩, operator, v, hkey, hv, hmeets⟩
    obtain rfl := Except.ok.inj hv
    exact ⟨operator, hkey, entry, hentry, hmeets⟩
  · rintro ⟨operator, hkey, entry, hentry, hmeets⟩
    exact ⟨_, ⟨entry, hentry, rfl⟩, operator, _, hkey, rfl, hmeets⟩

/-- Rows are found by the condition of a query, unless it meets a value without a text. -/
lemma Settled.escapes_matching (h : table.Settled records) {condition : Option Condition}
    (htold : ∀ c ∈ condition, c.value.IsTold) :
    Escapes (table.matching (conditionsOf condition)) ↔
      ∃ c ∈ condition, table.MeetsUntold c := by
  cases condition with
  | none =>
    simp only [Option.mem_def, reduceCtorEq, false_and, exists_false, iff_false]
    exact not_escapes_ok (table.rows.map (·.1))
  | some c =>
    have hoperand := isTold_operandFor table.schema (.text c.column) (htold c rfl)
    simp only [Option.mem_def, Option.some.injEq, exists_eq_left', h.lists.meetsUntold_iff hoperand.2]
    change Escapes (table.matchPredicates (predicatesOf table.schema [(.text c.column,
      .ofFields [(c.operator, c.value)])])) ↔ _
    rw [matchPredicates]
    split
    · rename_i ids hindexed
      obtain ⟨column, operand, index, hequal, -, -⟩ :=
        h.lists.indexed?_eq_some h.steady hindexed
      refine iff_of_false (not_escapes_ok ids) ?_
      rintro ⟨operator, hkey, -, -, rfl, -⟩
      rw [predicatesOf_condition, hkey] at hequal
      cases hequal
    · rw [predicatesOf_condition, h.lists.rows]
      cases hkey : Operator.ofKey? (.text c.operator) with
      | none =>
        simp only [reduceCtorEq, false_and, exists_false, iff_false]
        rw [scanFor_equal]
        exact not_escapes_ok _
      | some operator =>
        simp only [Option.some.injEq, exists_eq_left']
        exact escapes_scanFor records hoperand.1

/-- Rows are found by their value in a column, unless a mapping is asked for. -/
lemma Settled.matching_equal (h : table.Settled records) (column : Value) {v : Value}
    (hv : v.IsSimple) : ∃ ids, table.matching (.map [(column, v)]) = .ok ids := by
  have hequal : Operator.comparisons v = [(.equal, v)] := by
    cases v <;> first | rfl | cases hv
  change ∃ ids, table.matchPredicates (predicatesOf table.schema [(column, v)]) = .ok ids
  rw [matchPredicates]
  split
  · exact ⟨_, rfl⟩
  · rw [h.lists.rows]
    simp only [predicatesOf, List.flatMap_cons, List.flatMap_nil, List.append_nil, hequal,
      List.map_cons, List.map_nil]
    exact ⟨_, scanFor_equal records column _⟩

/-! ## Records -/

/-- Records are found exactly if the matching of rows does not fail. -/
lemma Settled.escapes_find (h : table.Settled records) (conditions : Value) :
    Escapes (table.find conditions) ↔ Escapes (table.matching conditions) := by
  have hall : ∀ ids : List RowId, (∀ id ∈ ids, ∃ record, table.recordAt id = .ok record) →
      ∃ found, ids.mapM table.recordAt = .ok found := by
    intro ids
    induction ids with
    | nil => exact fun _ => ⟨[], rfl⟩
    | cons id rest ih =>
      intro hids
      obtain ⟨hfirst, hrest⟩ := List.forall_mem_cons.mp hids
      obtain ⟨record, hrecord⟩ := hfirst
      obtain ⟨found, hfound⟩ := ih hrest
      refine ⟨record :: found, ?_⟩
      rw [List.mapM_cons, hrecord, hfound]
      rfl
  rw [find, escapes_bind, or_iff_left]
  rintro ⟨ids, hids, hescapes⟩
  obtain ⟨found, hfound⟩ := hall ids (h.recordAt_of_matching hids)
  rw [hfound] at hescapes
  exact not_escapes_ok found hescapes

/-! ## Changes -/

/-- The numbered columns of a record can be filled: the rows are records. -/
lemma Lists.complete_eq (h : table.Lists records) (record : Record) :
    ∃ completed, table.complete record = .ok completed := by
  have hnumbers : ∀ (column : Value) (entries : List (Int × Record)),
      ∃ numbers, numbersIn column (rowsOf entries) = .ok numbers := by
    intro column entries
    induction entries with
    | nil => exact ⟨[], rfl⟩
    | cons entry rest ih =>
      obtain ⟨numbers, hnumbers⟩ := ih
      rw [rowsOf, List.map_cons, ← rowsOf, numbersIn, hnumbers]
      exact ⟨_, rfl⟩
  have hnext : ∀ column : Value, ∃ v, table.nextNumber column = .ok v := by
    intro column
    obtain ⟨numbers, hn⟩ := hnumbers column records
    rw [nextNumber, h.rows, hn]
    simp only [bind, Except.bind]
    split <;> exact ⟨_, rfl⟩
  have hfill : ∀ (columns : List Value) (record : Record),
      ∃ filled, table.fillNumbers record columns = .ok filled := by
    intro columns
    induction columns with
    | nil => exact fun record => ⟨record, rfl⟩
    | cons column rest ih =>
      intro record
      obtain ⟨v, hv⟩ := hnext column
      rw [fillNumbers, hv]
      exact ih _
  rw [complete]
  split
  · exact ⟨_, rfl⟩
  · obtain ⟨filled, hfilled⟩ := hfill table.schema.autoNames record
    rw [hfilled]
    exact ⟨_, rfl⟩

section

variable (h : table.Settled records) (hsizes : table.schema.TellsSizes)

include h hsizes

/-- A record is inserted, or rules are broken, unless it gives a column an integer out of range. -/
lemma Settled.escapes_insert (given : Record) :
    Escapes (table.insert (.map given)).result ↔ table.schema.Overflows given.value := by
  rw [← hsizes.escapes_validate (table.isTaken []) false, insert,
    Schema.validateValue]
  cases hchecked : table.schema.validate (table.isTaken []) false given with
  | error fault => exact escapes_error.trans escapes_error.symm
  | ok checked =>
    obtain ⟨completed, hcompleted⟩ := h.lists.complete_eq checked
    have hadmits : table.Admits (.map given) completed := ⟨checked, hchecked, hcompleted⟩
    simp only [Except.bind, hcompleted, h.steady.append_eq (h.steady.holds_of_admits hadmits),
      not_escapes_ok]

end

/-- Rows are deleted, unless the matching of rows fails. -/
lemma Settled.escapes_delete (h : table.Settled records) (conditions : Value) :
    Escapes (table.delete conditions).result ↔ Escapes (table.matching conditions) := by
  rw [delete]
  split
  · rename_i fault hfault
    rw [hfault]
    exact escapes_error.trans escapes_error.symm
  · rename_i hnone
    rw [hnone]
    simp [Reply.unchanged]
  · rename_i targets _ htargets
    rw [htargets, h.lists.removeRows_eq h.steady htargets]
    simp

/-- An index is built, or the column cannot be indexed. -/
lemma Settled.not_escapes_createIndex (h : table.Settled records) (column : String) :
    ¬Escapes (table.createIndex (.text column)).result := by
  have hhash : (Value.text column).isHashable = true := rfl
  rw [createIndex, hhash, Bool.not_true, if_neg Bool.false_ne_true, buildIndex]
  cases hcheck : checkIndexable table.schema (.text column) with
  | error fault =>
    rw [checkIndexable] at hcheck
    split at hcheck
    · obtain rfl := Except.error.inj hcheck
      exact not_escapes_error rfl
    · split at hcheck
      · cases hcheck
      · obtain rfl := Except.error.inj hcheck
        exact not_escapes_error rfl
  | ok _ =>
    obtain ⟨c, hc, hname, hkind⟩ := exists_column_of_checkIndexable hhash hcheck
    have hkeys := h.hasKeys c hc hkind
    rw [Snapshot.eq_text_of_same hname] at hkeys
    have hindex := Index.ofRows_eq_ok.mpr ⟨hkeys, rfl⟩
    simp only [bind, Except.bind, hindex]
    exact not_escapes_ok ()

/-! ## Updates -/

/-- The keys of a patch are those of columns, or rules are broken. -/
lemma checkKeys_cases (schema : Schema) (names : List String) :
    checkKeys schema (names.map .text) = .ok () ∧
        (∀ name ∈ names, schema.has (.text name) = true) ∨
      (∃ all, checkKeys schema (names.map .text) = .error (.violations all)) ∧
        ¬∀ name ∈ names, schema.has (.text name) = true := by
  have hhash : (names.map Value.text).all (·.isHashable) = true := by
    simp [Value.isHashable]
  have hunknown : unknownKeys schema (names.map .text) =
      .ok ((names.filter fun name => !schema.has (.text name)).map .text) := by
    rw [unknownKeys, if_pos hhash, List.filter_map]
    rfl
  have htold : ∀ shown : List String, (shown.map Value.text).mapM
      (fun key => key.display.map Violation.unknownColumn) =
        (.ok (shown.map .unknownColumn) : Except Fault _) := by
    intro shown
    induction shown with
    | nil => rfl
    | cons name rest ih =>
      rw [List.map_cons, List.mapM_cons, ih]
      rfl
  rw [checkKeys, hunknown]
  simp only [bind, Except.bind, htold]
  cases hmissing : names.filter fun name => !schema.has (.text name) with
  | nil =>
    refine Or.inl ⟨rfl, fun name hname => ?_⟩
    have hkept := List.filter_eq_nil_iff.mp hmissing name hname
    simpa using hkept
  | cons name rest =>
    right
    constructor
    · exact ⟨_, rfl⟩
    · intro hall
      have hname : name ∈ names.filter fun name => !schema.has (.text name) := by
        rw [hmissing]
        exact List.mem_cons_self
      obtain ⟨hmem, hnot⟩ := List.mem_filter.mp hname
      rw [hall name hmem] at hnot
      cases hnot

/-- An update checks an integer out of range: for the primary key, or, if the keys of the rows may
change like that, in the first of the matching records that does not come through its checks. -/
inductive UpdateOverflows (table : Table) (changes : Record) (targets : List RowId) : Prop where
  | key {key : Value} {c : Column} (hkey : table.schema.primaryKey = some key)
      (hcolumn : table.schema.column? key = some c)
      (hover : c.kind.Overflows (changes.value key)) : UpdateOverflows table changes targets
  | row {before after : List RowId} {id : RowId} {record : Record}
      {staged : List (RowId × Record)}
      (hallowed : table.checkKeyChange (.map changes) targets = .ok ())
      (htargets : targets = before ++ id :: after)
      (hstaged : table.stage (.map changes) (table.isTaken targets) before = .ok staged)
      (hrecord : table.recordAt id = .ok record)
      (hover : table.schema.Overflows (merge record changes).value) :
      UpdateOverflows table changes targets

/-- An update checks an integer out of range for the primary key, or in a record. -/
lemma updateOverflows_iff {changes : Record} {targets : List RowId} :
    table.UpdateOverflows changes targets ↔
      (∃ key c, table.schema.primaryKey = some key ∧ table.schema.column? key = some c ∧
        c.kind.Overflows (changes.value key)) ∨
      table.checkKeyChange (.map changes) targets = .ok () ∧ ∃ before id after staged record,
        targets = before ++ id :: after ∧
        table.stage (.map changes) (table.isTaken targets) before = .ok staged ∧
        table.recordAt id = .ok record ∧ table.schema.Overflows (merge record changes).value := by
  constructor
  · rintro (⟨hkey, hcolumn, hover⟩ | ⟨hallowed, htargets, hstaged, hrecord, hover⟩)
    · exact Or.inl ⟨_, _, hkey, hcolumn, hover⟩
    · exact Or.inr ⟨hallowed, _, _, _, _, _, htargets, hstaged, hrecord, hover⟩
  · rintro (⟨key, c, hkey, hcolumn, hover⟩ |
      ⟨hallowed, before, id, after, staged, record, htargets, hstaged, hrecord, hover⟩)
    · exact .key hkey hcolumn hover
    · exact .row hallowed htargets hstaged hrecord hover

/-- The change of the primary key is checked, unless the new key is an integer out of range. -/
lemma Settled.escapes_checkKeyChange (h : table.Settled records) {changes : Record}
    (hchanges : HoldsSimple changes) (targets : List RowId) :
    Escapes (table.checkKeyChange (.map changes) targets) ↔ ∃ key c,
      table.schema.primaryKey = some key ∧ table.schema.column? key = some c ∧
        c.kind.Overflows (changes.value key) := by
  rw [checkKeyChange]
  cases hprimary : table.schema.primaryKey with
  | none => simp
  | some key =>
    have hkind : (((table.schema.column? key).map fun c => c.kind).getD Kind.string).Overflows
        (changes.value key) ↔ ∃ c, table.schema.column? key = some c ∧
          c.kind.Overflows (changes.value key) := by
      cases table.schema.column? key with
      | none => simp [Kind.Overflows]
      | some c => simp
    simp only [Option.some.injEq, exists_and_left, exists_eq_left', ← hkind, patchRecord]
    generalize ((table.schema.column? key).map fun c => c.kind).getD Kind.string = kind
    have hsimple := hchanges.value key
    change Escapes (if (changes.value key).isNull then .ok () else
      (kind.accepts (changes.value key) >>= fun accepted => do
        let holders ← table.matching
          (.map [(key, if accepted then kind.coerce (changes.value key) else changes.value key)])
        if holders.any (fun id => !targets.contains id) || targets.length > 1 then
          throw Fault.duplicateKey)) ↔ _
    generalize changes.value key = v at hsimple ⊢
    split
    · rename_i hnull
      refine iff_of_false (not_escapes_ok ()) ?_
      rintro ⟨-, i, rfl, -⟩
      cases hnull
    · rw [escapes_seq, Kind.escapes_accepts, or_iff_left]
      rintro ⟨accepted, -, hescapes⟩
      have hnew : (if accepted then kind.coerce v else v).IsSimple := by
        split
        · exact Kind.isSimple_coerce hsimple
        · exact hsimple
      obtain ⟨holders, hholders⟩ := h.matching_equal key hnew
      rw [hholders] at hescapes
      change Escapes (if _ then (throw Fault.duplicateKey : Except Fault PUnit) else pure ())
        at hescapes
      split at hescapes
      · obtain ⟨fault, heq, hrefusal⟩ := hescapes
        obtain rfl := Except.error.inj heq
        cases hrefusal
      · exact not_escapes_ok () hescapes

/-- Records are staged up to the first that breaks rules, unless one before is given an integer out of
range. -/
lemma escapes_stage (hsizes : table.schema.TellsSizes) (changes : Record) (isTaken : TakenTest)
    {ids : List RowId} (hids : ∀ id ∈ ids, ∃ record, table.recordAt id = .ok record) :
    Escapes (table.stage (.map changes) isTaken ids) ↔ ∃ before id after staged record,
      ids = before ++ id :: after ∧ table.stage (.map changes) isTaken before = .ok staged ∧
        table.recordAt id = .ok record ∧ table.schema.Overflows (merge record changes).value := by
  induction ids with
  | nil => simp [stage]
  | cons id rest ih =>
    obtain ⟨hfirst, hrest⟩ := List.forall_mem_cons.mp hids
    obtain ⟨record, hrecord⟩ := hfirst
    have hstage : ∀ ids, table.stage (.map changes) isTaken (id :: ids) =
        (table.schema.validate isTaken true (merge record changes)).bind fun checked =>
          (table.stage (.map changes) isTaken ids).map fun others => (id, checked) :: others := by
      intro ids
      rw [stage, hrecord]
      change (table.schema.validate isTaken true (merge record changes) >>= _) = _
      cases table.schema.validate isTaken true (merge record changes) with
      | error fault => rfl
      | ok checked => cases hothers : table.stage (.map changes) isTaken ids <;> rfl
    rw [hstage, escapes_bind, hsizes.escapes_validate]
    simp only [escapes_map, ih hrest]
    constructor
    · rintro (hover | ⟨checked, hchecked, before, next, after, staged, found, rfl, hstaged, hfound,
        hover⟩)
      · exact ⟨[], id, rest, [], record, rfl, rfl, hrecord, hover⟩
      · refine ⟨id :: before, next, after, (id, checked) :: staged, found, rfl, ?_, hfound, hover⟩
        rw [hstage, hchecked, Except.bind, hstaged]
        rfl
    · rintro ⟨before, next, after, staged, found, hsplit, hstaged, hfound, hover⟩
      cases before with
      | nil =>
        obtain ⟨rfl, rfl⟩ := List.cons.inj hsplit
        obtain rfl := Except.ok.inj (hrecord.symm.trans hfound)
        exact Or.inl hover
      | cons first before =>
        obtain ⟨rfl, rfl⟩ := List.cons.inj hsplit
        rw [hstage] at hstaged
        obtain ⟨checked, hchecked, hstaged⟩ := Outcome.bind_eq_ok.mp hstaged
        obtain ⟨others, hothers, -⟩ := Outcome.map_eq_ok.mp hstaged
        exact Or.inr ⟨checked, hchecked, before, next, after, others, found, rfl, hothers, hfound,
          hover⟩

/-- The unique columns of staged records are compared. -/
lemma not_escapes_checkStaged (changes : Record) (staged : List (RowId × Record))
    (columns : List Value) : ¬Escapes (checkStaged changes staged columns) := by
  induction columns with
  | nil => exact not_escapes_ok ()
  | cons column rest ih =>
    rw [checkStaged]
    split
    · exact not_escapes_error rfl
    · exact ih

/-- The records of an update are prepared, unless the matching of rows fails, or an integer out of
range is checked. -/
lemma Settled.escapes_prepareUpdate (h : table.Settled records)
    (hsizes : table.schema.TellsSizes) (conditions : Value) {changes : Fields}
    (hchanges : HoldsSimple changes) :
    Escapes (table.prepareUpdate conditions (.ofFields changes)) ↔
      (∀ field ∈ changes, table.schema.has (.text field.1) = true) ∧
        (Escapes (table.matching conditions) ∨ ∃ targets, table.matching conditions = .ok targets ∧
          targets ≠ [] ∧ table.UpdateOverflows
            (changes.map fun field => (.text field.1, field.2)) targets) := by
  have hkeys : patchKeys (.ofFields changes) =
      .ok ((changes.map (·.1)).map .text) := by
    simp [patchKeys, Value.ofFields, Value.items?]
  have hnames : (∀ field ∈ changes, table.schema.has (.text field.1) = true) ↔
      ∀ name ∈ changes.map (·.1), table.schema.has (.text name) = true := by
    simp
  rw [prepareUpdate, hkeys, hnames]
  change Escapes (checkKeys table.schema ((changes.map (·.1)).map .text) >>= _) ↔ _
  rcases checkKeys_cases table.schema (changes.map (·.1)) with
    ⟨hchecked, hall⟩ | ⟨⟨broken, hbroken⟩, hall⟩
  · rw [and_iff_right hall, hchecked]
    change Escapes (table.matching conditions >>= _) ↔ _
    rw [escapes_seq]
    refine or_congr Iff.rfl (exists_congr fun targets => and_congr_right fun htargets => ?_)
    cases targets with
    | nil =>
      refine iff_of_false (not_escapes_ok []) ?_
      rintro ⟨hne, -⟩
      exact hne rfl
    | cons first rest =>
      rw [and_iff_right (List.cons_ne_nil first rest), updateOverflows_iff,
        ← h.escapes_checkKeyChange hchanges.ofFields, ← escapes_stage hsizes _ _
          (h.recordAt_of_matching htargets)]
      change Escapes (table.checkKeyChange _ _ >>= _) ↔ _
      rw [escapes_seq]
      refine or_congr Iff.rfl ⟨?_, ?_⟩
      · rintro ⟨⟨⟩, hallowed, hescapes⟩
        refine ⟨hallowed, ?_⟩
        rcases escapes_seq.mp hescapes with hstage | ⟨staged, -, hescapes⟩
        · exact hstage
        · change Escapes (checkStaged _ staged _ >>= fun _ => pure staged) at hescapes
          rcases escapes_seq.mp hescapes with hchecked | ⟨⟨⟩, -, hescapes⟩
          · exact absurd hchecked (not_escapes_checkStaged _ _ _)
          · exact absurd hescapes (not_escapes_ok staged)
      · rintro ⟨hallowed, hescapes⟩
        exact ⟨(), hallowed, escapes_seq.mpr (Or.inl hescapes)⟩
  · rw [hbroken]
    exact iff_of_false (not_escapes_error rfl) fun hescapes => hall hescapes.1

/-- Rows are updated, unless the matching of rows fails, or an integer out of range is checked. -/
lemma Settled.escapes_update (h : table.Settled records)
    (hsizes : table.schema.TellsSizes) (conditions : Value) {changes : Fields}
    (hchanges : HoldsSimple changes) :
    Escapes (table.update conditions (.ofFields changes)).result ↔
      (∀ field ∈ changes, table.schema.has (.text field.1) = true) ∧
        (Escapes (table.matching conditions) ∨ ∃ targets, table.matching conditions = .ok targets ∧
          targets ≠ [] ∧ table.UpdateOverflows
            (changes.map fun field => (.text field.1, field.2)) targets) := by
  rw [← h.escapes_prepareUpdate hsizes conditions hchanges]
  unfold update
  split
  · rename_i fault hfault
    rw [hfault]
    exact escapes_error.trans escapes_error.symm
  · rename_i hnone
    rw [hnone]
    simp [Reply.unchanged]
  · rename_i staged _ hstaged
    rw [hstaged, h.steady.replaceRows_eq (h.steady.holds_of_prepareUpdate hstaged)]
    simp

/-! ## New tables -/

/-- A table is made, or rules are broken, unless a column is described with an integer out of range. -/
lemma escapes_create (name directory : String) {columns : List (String × Fields)}
    (h : ∀ c ∈ columns, TellsValues c.2) :
    Escapes (create name (.columns (Schema.sourcesOf columns)) directory) ↔
      Schema.DescribeOverflow columns := by
  rw [create, escapes_seq]
  change Escapes (Schema.ofColumns (Schema.sourcesOf columns)) ∨ _ ↔ _
  rw [Schema.escapes_ofColumns h, or_iff_left]
  rintro ⟨schema, hschema, hescapes⟩
  have hsound := (Schema.isDescribed_sourcesOf columns).sound hschema
  have hunique : ∀ column ∈ (empty name schema directory).schema.uniqueNames,
      (empty name schema directory).CanIndex column := fun column hcolumn =>
    ⟨namesIndexable_of_unique hsound hcolumn, nofun⟩
  obtain ⟨created, notices, hcreated, -⟩ := ensureKeyIndexes_of_canIndex hsound hunique
  rw [hcreated] at hescapes
  exact not_escapes_ok _ hescapes

end Table

end RecordStore
