import Mathlib.Tactic.Common
import RecordStore.Proofs.Query.Grammar
import RecordStore.Proofs.Table.Matching
import RecordStore.Proofs.Table.Saving
import RecordStore.Proofs.Table.Tracking
import RecordStore.Proofs.Value.Order

/-!
# Comparisons of a column with a literal

The rows that a column selects by the comparisons with one literal fit together.  Every row is either equal
or unequal; none is two of less, equal and greater; and those that are at most or at least the literal are
those that are less or greater and those that are equal.  A row without a value, or with one that does not
compare with the literal, is unequal and nothing else.

That holds of every scan, since what is equal to a literal is what compares with it as equal.  Equality may
be answered by an index, though.  So all of it holds exactly if the index answers as a scan would, and that
is so if all defaults can be keys.
-/

namespace RecordStore

open Query.Grammar (Literal)

/-! ## Literals -/

/-- Reading digits gives a number. -/
lemma Binary64.ofDecimal_ne_notNumber (negative : Bool) (digits : Nat) (exponent : Int) (payload : Nat) :
    ofDecimal negative digits exponent ≠ .notNumber payload := by
  have hparts : ∀ m k, ofParts negative m k ≠ .notNumber payload := by
    intro m k
    unfold ofParts
    split <;> simp
  have hratio : ∀ num den, ofRatio negative num den ≠ .notNumber payload := by
    intro num den
    unfold ofRatio
    dsimp only
    split_ifs
    · simp [zero]
    · exact hparts _ _
    · exact hparts _ _
  unfold ofDecimal
  split_ifs
  · simp [zero]
  · simp
  · simp [zero]
  · exact hratio _ _

/-- What a numeral denotes has a place on the line. -/
lemma Numeral.exists_identity {numeral : Numeral} {n : Number} (h : numeral.number? = some n) :
    ∃ p, n.identity = .at p := by
  unfold number? at h
  split at h
  · split at h <;> cases h
    exact ⟨_, rfl⟩
  · obtain rfl := Option.some.inj h
    dsimp only
    cases hx : Binary64.ofDecimal numeral.negative _ _ with
    | notNumber payload => exact absurd hx (Binary64.ofDecimal_ne_notNumber _ _ _ _)
    | _ => exact ⟨_, rfl⟩

namespace Value

/-- Whether a value is in the order, where it is equal to itself. -/
def IsComparand (v : Value) : Prop :=
  v.compare v = .ordered .eq

/-- What is equal to itself in the order as a key is equal to itself as a value. -/
lemma isComparand_of_identity {v : Value} {x : Identity} (hx : v.identity? = some x)
    (hself : x.compare? x = some .eq) : v.IsComparand :=
  (compare_eq_ordered_iff hx).mpr ⟨x, hx, hself⟩

/-- Dates and timestamps are in the order. -/
lemma isComparand_ofMoment (moment : Moment) : (ofMoment moment).IsComparand := by
  cases moment with
  | date d => exact isComparand_of_identity rfl (by simp [Identity.compare?, Date.compare])
  | timestamp t => exact isComparand_of_identity rfl (by simp [Identity.compare?])

/-- A literal is in the order, unless it stands for nothing. -/
lemma isComparand_of_literal {l : Query.Lexeme} {v : Value} (h : Literal l v) (hv : v.isNull = false) :
    v.IsComparand := by
  cases h with
  | quoted s => exact isComparand_of_identity rfl (by simp [Identity.compare?])
  | bare => exact isComparand_of_identity rfl (by simp [Identity.compare?])
  | true => exact isComparand_of_identity rfl (by simp [Identity.compare?, Number.identity])
  | false => exact isComparand_of_identity rfl (by simp [Identity.compare?, Number.identity])
  | null => cases hv
  | @number _ _ n _ hn =>
    obtain ⟨p, hp⟩ := Numeral.exists_identity hn
    have hnumber : (ofNumber n).number? = some n := by cases n <;> rfl
    have hidentity := identity?_of_number? hnumber
    rw [hp] at hidentity
    exact isComparand_of_identity hidentity (by simp [Identity.compare?])

/-- What a column is compared with in the place of a literal is in the order, too. -/
lemma IsComparand.operandFor {v : Value} (h : v.IsComparand) (schema : Schema) (column : Value) :
    (Table.operandFor schema column v).IsComparand := by
  unfold Table.operandFor
  split
  · rename_i s
    split
    · split
      · cases Moment.parse? s with
        | none => exact h
        | some moment => exact isComparand_ofMoment moment
      · exact h
    · exact h
  · exact h

/-- A comparand is there. -/
lemma IsComparand.isNull_eq {v : Value} (h : v.IsComparand) : v.isNull = false := by
  cases v <;> first | rfl | cases h

/-- A comparand is not what is not a number. -/
lemma IsComparand.isNotNumber_eq {v : Value} (h : v.IsComparand) : v.isNotNumber = false := by
  cases v with
  | float x => cases x <;> first | rfl | cases h
  | _ => rfl

/-- Exactly what is equal to a comparand in the order is equal to it. -/
lemma IsComparand.equals_iff {w : Value} (h : w.IsComparand) (v : Value) :
    v.equals w = true ↔ v.compare w = .ordered .eq := by
  rw [equals_eq_beq_of_operand v h.isNotNumber_eq]
  constructor
  · intro hsame
    exact compare_of_same hsame ((compare_self_congr hsame).mpr h)
  · exact same_of_compare

end Value

/-! ## Comparisons -/

namespace Operator

/-- Whether a value stands in a relation to a comparand; patterns are not considered. -/
def accepts (operator : Operator) (v w : Value) : Bool :=
  match operator with
  | .equal => v.equals w
  | .unequal => !v.equals w
  | .lessOrGreater => !v.equals w
  | .greater => inOrder v w [.gt]
  | .less => inOrder v w [.lt]
  | .atLeast => inOrder v w [.gt, .eq]
  | .atMost => inOrder v w [.lt, .eq]
  | .like => false

/-- A comparison with a comparand has an answer for every value. -/
lemma holds_eq_accepts {operator : Operator} (hlike : operator ≠ .like) {w : Value}
    (hw : w.IsComparand) (v : Value) : operator.holds v w = .ok (operator.accepts v w) := by
  have hnull : ∀ outcomes, v.isNull = true → inOrder v w outcomes = false := by
    intro outcomes hv
    cases v <;> first | rfl | cases hv
  cases operator with
  | like => exact absurd rfl hlike
  | equal => rfl
  | unequal => rfl
  | lessOrGreater => rfl
  | _ =>
    simp only [holds, accepts, hw.isNull_eq, Bool.or_false]
    split
    · rename_i hv
      rw [hnull _ hv]
    · rfl

/-- A comparison has one of some outcomes if it is in the order and its outcome is one of them. -/
lemma inOrder_eq_true_iff {v w : Value} {outcomes : List Ordering} :
    inOrder v w outcomes = true ↔ ∃ o ∈ outcomes, v.compare w = .ordered o := by
  unfold inOrder
  split
  · rename_i o ho
    simp [ho]
  · rename_i hnone
    simp only [Bool.false_eq_true, false_iff, not_exists, not_and]
    exact fun o _ ho => hnone o ho

/-- The spelling of an operator is read as the operator. -/
lemma ofKey?_text (operator : Operator) : ofKey? (.text operator.text) = some operator := by
  cases operator <;> rfl

end Operator

namespace Table

variable {table : Table} {records : List (Int × Record)}

/-- What operators select among some rows fits together. -/
structure Coherent (ids : List RowId) (selected : Operator → List RowId) : Prop where
  nodup : ids.Nodup
  /-- Rows are selected in their order. -/
  ordered : ∀ operator, (selected operator).Sublist ids
  /-- Every row is equal or unequal, and none is both. -/
  partition : ∀ id ∈ ids, id ∈ selected .unequal ↔ id ∉ selected .equal
  spelling : selected .lessOrGreater = selected .unequal
  less_equal : (selected .less).Disjoint (selected .equal)
  equal_greater : (selected .equal).Disjoint (selected .greater)
  less_greater : (selected .less).Disjoint (selected .greater)
  atMost : ∀ id, id ∈ selected .atMost ↔ id ∈ selected .less ∨ id ∈ selected .equal
  atLeast : ∀ id, id ∈ selected .atLeast ↔ id ∈ selected .greater ∨ id ∈ selected .equal

/-- What a column is asked by an operator and a literal, in the form in which tables take the condition of a
query. -/
def asking (column : Value) (operator : Operator) (v : Value) : Value :=
  .map [(column, .map [(.text operator.text, v)])]

/-- The rows that a column selects by its comparisons with a literal fit together. -/
def Coheres (table : Table) (column v : Value) : Prop :=
  ∃ selected : Operator → List RowId,
    (∀ operator, operator ≠ .like →
      table.matching (asking column operator v) = .ok (selected operator)) ∧
      Coherent (table.rows.map (·.1)) selected

/-! ## Selecting by scans -/

/-- The ids of the records whose values in a column stand in a relation to a comparand. -/
def accepted (records : List (Int × Record)) (column w : Value) (operator : Operator) : List RowId :=
  (Entries.keys (records.filter fun entry => operator.accepts (entry.2.value column) w)).map .int

/-- The id of a record is among those of the accepted ones if its value is accepted. -/
lemma mem_accepted_iff (hnodup : (Entries.keys records).Nodup) {i : Int} {record : Record}
    (hmem : (i, record) ∈ records) {column w : Value} {operator : Operator} :
    Value.int i ∈ accepted records column w operator ↔
      operator.accepts (record.value column) w = true := by
  simp only [accepted, Entries.keys, List.mem_map, List.mem_filter, Value.int.injEq, exists_eq_right]
  constructor
  · rintro ⟨⟨j, other⟩, ⟨hother, haccepts⟩, rfl⟩
    obtain rfl := Entries.eq_of_mem hnodup hmem hother
    exact haccepts
  · exact fun haccepts => ⟨(i, record), ⟨hmem, haccepts⟩, rfl⟩

/-- What is accepted is the id of a record. -/
lemma exists_of_mem_accepted {column w : Value} {operator : Operator} {id : RowId}
    (h : id ∈ accepted records column w operator) :
    ∃ i record, id = .int i ∧ (i, record) ∈ records := by
  simp only [accepted, Entries.keys, List.mem_map, List.mem_filter] at h
  obtain ⟨i, ⟨⟨j, record⟩, ⟨hmem, -⟩, rfl⟩, rfl⟩ := h
  exact ⟨j, record, rfl, hmem⟩

/-- Accepted records stand in their order. -/
lemma sublist_accepted (records : List (Int × Record)) (column w : Value) (operator : Operator) :
    (accepted records column w operator).Sublist ((Entries.keys records).map .int) :=
  (List.filter_sublist.map _).map _

/-- Operators of which a value satisfies only one select different rows. -/
lemma disjoint_accepted (hnodup : (Entries.keys records).Nodup) {column w : Value}
    {operator operator' : Operator}
    (h : ∀ v, operator.accepts v w = true → operator'.accepts v w = true → False) :
    (accepted records column w operator).Disjoint (accepted records column w operator') := by
  intro id hid hid'
  obtain ⟨i, record, rfl, hrecord⟩ := exists_of_mem_accepted hid
  rw [mem_accepted_iff hnodup hrecord] at hid hid'
  exact h _ hid hid'

/-- An operator that a value satisfies if it satisfies one of two selects what either selects. -/
lemma mem_accepted_or_iff (hnodup : (Entries.keys records).Nodup) {column w : Value}
    {operator operator' operator'' : Operator}
    (h : ∀ v, operator.accepts v w = true ↔
      operator'.accepts v w = true ∨ operator''.accepts v w = true)
    (id : RowId) : id ∈ accepted records column w operator ↔
      id ∈ accepted records column w operator' ∨ id ∈ accepted records column w operator'' := by
  by_cases hid : ∃ i record, id = .int i ∧ (i, record) ∈ records
  · obtain ⟨i, record, rfl, hrecord⟩ := hid
    simp only [mem_accepted_iff hnodup hrecord]
    exact h _
  · have hnone : ∀ operator, id ∉ accepted records column w operator :=
      fun _ hmem => hid (exists_of_mem_accepted hmem)
    simp only [hnone, or_self]

/-- What scans select fits together. -/
lemma coherent_accepted (hnodup : (Entries.keys records).Nodup) (column : Value) {w : Value}
    (hw : w.IsComparand) :
    Coherent ((Entries.keys records).map .int) (accepted records column w) := by
  refine ⟨hnodup.map fun _ _ => Value.int.inj, sublist_accepted records column w, fun id hid => ?_, rfl,
    disjoint_accepted hnodup fun v => ?_, disjoint_accepted hnodup fun v => ?_,
    disjoint_accepted hnodup fun v => ?_, mem_accepted_or_iff hnodup fun v => ?_,
    mem_accepted_or_iff hnodup fun v => ?_⟩
  · obtain ⟨⟨i, record⟩, hrecord, rfl⟩ : ∃ entry ∈ records, Value.int entry.1 = id := by
      simpa [Entries.keys] using hid
    rw [mem_accepted_iff hnodup hrecord, mem_accepted_iff hnodup hrecord]
    simp [Operator.accepts]
  -- what a value is selected by is the outcome of its comparison, and there is only one
  all_goals
    simp only [Operator.accepts, Operator.inOrder_eq_true_iff, hw.equals_iff, List.mem_cons,
      List.not_mem_nil, or_false, exists_eq_left, exists_eq_or_imp]
  · intro hless hequal
    cases hless.symm.trans hequal
  · intro hequal hgreater
    cases hequal.symm.trans hgreater
  · intro hless hgreater
    cases hless.symm.trans hgreater

/-- If what is selected fits together, then what is equal is known by what is unequal. -/
lemma Coherent.mem_equal_iff {selected : Operator → List RowId}
    (h : Coherent ((Entries.keys records).map .int) selected) (hnodup : (Entries.keys records).Nodup)
    {column w : Value} (hunequal : selected .unequal = accepted records column w .unequal) (id : RowId) :
    id ∈ selected .equal ↔ id ∈ accepted records column w .equal := by
  have hrecord : ∀ {i record}, (i, record) ∈ records →
      (Value.int i ∈ selected .equal ↔ Value.int i ∈ accepted records column w .equal) := by
    intro i record hrecord
    have hid : Value.int i ∈ (Entries.keys records).map Value.int :=
      List.mem_map_of_mem (List.mem_map_of_mem hrecord)
    rw [← not_iff_not, ← h.partition _ hid, hunequal, mem_accepted_iff hnodup hrecord,
      mem_accepted_iff hnodup hrecord]
    simp [Operator.accepts]
  constructor
  · intro hid
    obtain ⟨⟨i, record⟩, hmem, rfl⟩ : ∃ entry ∈ records, Value.int entry.1 = id := by
      simpa [Entries.keys] using (h.ordered .equal).subset hid
    exact (hrecord hmem).mp hid
  · intro hid
    obtain ⟨i, record, rfl, hmem⟩ := exists_of_mem_accepted hid
    exact (hrecord hmem).mpr hid

/-! ## Selecting in tables -/

/-- What a column is asked by an operator and a literal is a single predicate. -/
lemma predicatesOf_asking (schema : Schema) (column : Value) (operator : Operator) (v : Value) :
    predicatesOf schema [(column, .map [(.text operator.text, v)])] =
      [⟨column, operator, operandFor schema column v⟩] := by
  simp [predicatesOf, Operator.comparisons, Operator.ofEntry?, Operator.ofKey?_text]

/-- What is asked but for equality is answered by a scan. -/
lemma matching_asking_eq_scanFor (table : Table) (column v : Value) {operator : Operator}
    (hequal : operator ≠ .equal) :
    table.matching (asking column operator v) =
      scanFor [⟨column, operator, operandFor table.schema column v⟩] table.rows := by
  have hindexed : table.indexed? [⟨column, operator, operandFor table.schema column v⟩] = none := by
    cases operator <;> first | rfl | exact absurd rfl hequal
  change table.matchPredicates (predicatesOf table.schema [(column, .map [(.text operator.text, v)])]) = _
  rw [predicatesOf_asking, matchPredicates, hindexed]

/-- A scan selects the rows whose values are accepted. -/
lemma matching_asking (hrows : table.rows = rowsOf records) {column v : Value}
    (hoperand : (operandFor table.schema column v).IsComparand) {operator : Operator}
    (hlike : operator ≠ .like) (hequal : operator ≠ .equal) :
    table.matching (asking column operator v) =
      .ok (accepted records column (operandFor table.schema column v) operator) := by
  rw [matching_asking_eq_scanFor table column v hequal, hrows]
  exact scanFor_single records column fun w => Operator.holds_eq_accepts hlike hoperand w

/-- In a table that tracks its records the comparisons of a column fit together, exactly if those that are
equal are found. -/
lemma Tracks.coheres_iff {next : Int} (h : table.Tracks next records) {column v : Value}
    (hoperand : (operandFor table.schema column v).IsComparand) :
    table.Coheres column v ↔ table.matching (asking column .equal v) =
      .ok (accepted records column (operandFor table.schema column v) .equal) := by
  have hids : table.rows.map (·.1) = (Entries.keys records).map .int := by
    rw [h.rows, map_fst_rowsOf]
  constructor
  · rintro ⟨selected, hselected, hcoherent⟩
    have hunequal := (hselected .unequal nofun).symm.trans (matching_asking h.rows hoperand nofun nofun)
    have hmem := Coherent.mem_equal_iff (hids ▸ hcoherent) h.nodup (Except.ok.inj hunequal)
    obtain ⟨is, his, hascending⟩ := h.matching_eq_ok (hselected .equal nofun)
    have hmap : ∀ {js : List Int} {i : Int}, i ∈ js ↔ Value.int i ∈ js.map Value.int := by simp
    rw [hselected .equal nofun, his, accepted]
    refine congrArg _ (congrArg _ (eq_of_ascending hascending
      (h.ascending.sublist (List.filter_sublist.map _)) fun i => ?_))
    rw [hmap, ← his, hmap]
    exact hmem _
  · intro hequal
    refine ⟨_, fun operator hlike => ?_, hids ▸ coherent_accepted h.nodup column hoperand⟩
    by_cases heq : operator = .equal
    · exact heq ▸ hequal
    · exact matching_asking h.rows hoperand hlike heq

/-! ## Every state of a table -/

/-- In every state of a table, whatever has been asked of it and with whatever outcome, the rows that a
column selects by its comparisons with a literal that stands for something fit together, exactly if those
that are equal to it are those that a scan finds.  They are in all states if the defaults of the columns can
be keys where they have to be. -/
theorem coheres_run_iff {source : SchemaSource} (hsource : source.Declares fun _ => True)
    {name directory : String} {created : Table} {effects : List Effect}
    (hcreate : Table.create name source directory = .ok (created, effects)) (requests : List Request)
    (column : Value) {l : Query.Lexeme} {v : Value} (hliteral : Literal l v) (hv : v.isNull = false) :
    ((created.run requests).Coheres column v ↔
      (created.run requests).matching (asking column .equal v) =
        scanFor [⟨column, .equal, operandFor created.schema column v⟩] (created.run requests).rows) ∧
    (source.HasKeyDefaults → (created.run requests).Coheres column v) := by
  obtain ⟨schema, hschema, -⟩ := create_eq_ok hcreate
  have htracks := (tracks_of_create (hsource.sound (fun _ _ => trivial) hschema) hschema hcreate).2
  obtain ⟨next, records, htracks⟩ := htracks.run requests
  have hkept : (created.run requests).schema = created.schema := (sameFiles_run created requests).schema
  have hoperand :=
    (Value.isComparand_of_literal hliteral hv).operandFor (created.run requests).schema column
  have hscan : scanFor [⟨column, .equal, operandFor created.schema column v⟩]
        (created.run requests).rows =
      .ok (accepted records column (operandFor (created.run requests).schema column v) .equal) := by
    rw [htracks.rows, hkept]
    exact scanFor_equal records column _
  have hiff := htracks.coheres_iff hoperand
  refine ⟨by rw [hiff, hscan], fun hdefaults => hiff.mpr ?_⟩
  obtain ⟨-, hsteady, -, hlists⟩ := lists_of_create (hdefaults.sound hschema) hschema hcreate
  have hreaches := hsteady.reaches_run requests
  obtain ⟨records', hlists'⟩ := hlists.reaches hsteady hreaches
  rw [asking, hlists'.matching_eq (hsteady.reaches hreaches), predicatesOf_asking, ← hscan, hkept]
  rw [predicatesOf_asking]
  exact List.forall_mem_singleton.mpr hoperand.isNotNumber_eq

/-- The comparisons of a unique column with a number fit together after two insertions and an update that
fails. -/
theorem coheres_run_twoColumns : ∃ created effects,
    Table.create "t" twoColumns "d" = .ok (created, effects) ∧
      Literal (.word "2") (.int 2) ∧ (created.run requestsOnTwo).Coheres (.text "a") (.int 2) := by
  have hliteral : Literal (.word "2") (.ofNumber (.whole 2)) := .number rfl rfl
  exact ⟨_, _, rfl, hliteral,
    (coheres_run_iff isDescribed_twoColumns.declares rfl requestsOnTwo (.text "a") hliteral rfl).2
      isDescribed_twoColumns.hasKeyDefaults⟩

/-- If a default cannot be a key, an insertion fails after the row has been stored, and the indexes that
come later do not list it: then it is neither equal nor unequal to the number that it holds. -/
theorem not_coheres_listDefault : ∃ created effects,
    Table.create "t" listDefault "d" = .ok (created, effects) ∧
      ¬(created.run [.createIndex (.text "b"), .insert (.map [(.text "b", .int 2)])]).Coheres
        (.text "b") (.int 2) := by
  refine ⟨_, _, rfl, ?_⟩
  rintro ⟨selected, hselected, hcoherent⟩
  have hequal : Except.ok [] = .ok (selected .equal) := hselected .equal nofun
  have hunequal : Except.ok [] = .ok (selected .unequal) := hselected .unequal nofun
  have hpartition := hcoherent.partition (.int 1) (List.mem_singleton.mpr rfl)
  rw [← Except.ok.inj hequal, ← Except.ok.inj hunequal] at hpartition
  exact absurd (hpartition.mpr List.not_mem_nil) List.not_mem_nil

end Table

end RecordStore
