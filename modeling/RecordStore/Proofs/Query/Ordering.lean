import Mathlib.Tactic.Common
import RecordStore.Proofs.Site
import RecordStore.Proofs.Sorting
import RecordStore.Proofs.Table.Run
import RecordStore.Proofs.Value.Order
import RecordStore.Proofs.Work
import RecordStore.Query.Execution

/-!
# Records in order

Records are put in the order of a column by a stable sort.  If the values of the column compare, each with
each other, then every record comes out before those whose values are greater, or less if the order
descends, and records with equal values keep their places among themselves.  That the order descends
reverses the comparison, not the list.

A record without a value counts as equal to every other one, which is not a consistent order.  What the
sort asks is only whether a record comes before one that stood before it.  So a record without a value does
no harm if no record behind it comes before one in front of it; and it does if that is so of any two.
-/

namespace RecordStore.Query

variable {column : Value} {descending : Bool} {found : List Record}

/-! ## Comparisons -/

/-- Values that compare are in the order that they compare to. -/
lemma compareForOrder_of_ordered {a b : Value} {o : Ordering} (h : a.compare b = .ordered o) :
    compareForOrder a b = o := by
  have hnull : (a.isNull || b.isNull) = false := by
    cases a <;> cases b <;> first | rfl | cases h
  rw [compareForOrder, hnull, if_neg Bool.false_ne_true, h]

/-- Values that are not equal in the order compare. -/
lemma compare_of_compareForOrder {a b : Value} (h : compareForOrder a b ≠ .eq) :
    a.compare b = .ordered (compareForOrder a b) := by
  unfold compareForOrder at h ⊢
  split at h <;> rename_i hnull
  · exact absurd rfl h
  · rw [if_neg hnull]
    cases hcompare : a.compare b with
    | ordered o => rfl
    | _ => exact absurd (by rw [hcompare]) h

/-- Every value is equal to itself in the order. -/
lemma compareForOrder_self (a : Value) : compareForOrder a a = .eq := by
  by_contra hne
  have h := compare_of_compareForOrder hne
  exact hne (Comparison.ordered.inj (h.symm.trans (Value.compare_self_of_ordered h).1))

/-- A record comes before another if its value is less, or greater if the order descends. -/
lemma comesBefore_iff {a b : Record} :
    comesBefore column descending a b = true ↔
      (a.value column).compare (b.value column) = .ordered (if descending then .gt else .lt) := by
  rw [comesBefore, beq_iff_eq]
  constructor
  · intro h
    rw [← h]
    refine compare_of_compareForOrder ?_
    rw [h]
    cases descending <;> exact nofun
  · exact compareForOrder_of_ordered

/-- No record comes before itself. -/
lemma comesBefore_self (a : Record) : comesBefore column descending a a = false := by
  rw [comesBefore, compareForOrder_self]
  cases descending <;> rfl

/-- A record does not come before one that comes before it. -/
lemma comesBefore_asymm {a b : Record} (h : comesBefore column descending a b = true) :
    comesBefore column descending b a = false := by
  by_contra hba
  rw [Bool.not_eq_false, comesBefore_iff] at hba
  have hswap := Value.compare_swap (comesBefore_iff.mp h) hba
  cases descending <;> cases hswap

/-- Whether a record has a value in a column. -/
def hasValue (column : Value) (r : Record) : Bool :=
  !(r.value column).isNull

/-- Without a value a record does not come before any, and none comes before it. -/
lemma not_comesBefore {a b : Record} (h : hasValue column a = false ∨ hasValue column b = false) :
    comesBefore column descending a b = false := by
  simp only [hasValue, Bool.not_eq_false'] at h
  rw [comesBefore, compareForOrder, if_pos (Bool.or_eq_true_iff.mpr h)]
  cases descending <;> rfl

/-- Records of which one comes before the other have values. -/
lemma hasValue_of_comesBefore {a b : Record} (h : comesBefore column descending a b = true) :
    hasValue column a = true ∧ hasValue column b = true := by
  constructor <;> by_contra hnone <;> rw [Bool.not_eq_true] at hnone
  · exact Bool.false_ne_true ((not_comesBefore (.inl hnone)).symm.trans h)
  · exact Bool.false_ne_true ((not_comesBefore (.inr hnone)).symm.trans h)

/-- The values that some records have in a column compare. -/
def Comparable (column : Value) (found : List Record) : Prop :=
  found.Pairwise fun a b => (a.value column).Comparable (b.value column)

/-- Of records whose values compare any two are comparable, unless they are the same. -/
lemma Comparable.of_ne (h : Comparable column found) {a b : Record} (ha : a ∈ found) (hb : b ∈ found)
    (hne : a ≠ b) : (a.value column).Comparable (b.value column) :=
  have : Std.Symm fun a b : Record => (a.value column).Comparable (b.value column) :=
    ⟨fun _ _ => Value.Comparable.symm⟩
  h.forall ha hb hne

/-- If the values of a column compare it gives a consistent order. -/
lemma Comparable.isConsistentOn (h : Comparable column found) (descending : Bool) :
    Sorting.IsConsistentOn (comesBefore column descending) fun a => a ∈ found := by
  refine ⟨fun a b _ _ => comesBefore_asymm, fun a b c ha hb hc hba hcb => ?_⟩
  by_cases hab : a = b
  · exact hab ▸ hcb
  by_cases hbc : b = c
  · exact hbc ▸ hba
  by_contra hca
  rw [Bool.not_eq_false, comesBefore_iff] at hca
  obtain ⟨-, ba, hcompare⟩ := h.of_ne ha hb hab
  obtain ⟨-, cb, hcompare'⟩ := h.of_ne hb hc hbc
  obtain ⟨hleft, hright, hchain⟩ := Value.agrees _ hcompare' hcompare hca
  rw [Bool.eq_false_iff, Ne, comesBefore_iff, hcompare, Comparison.ordered.injEq] at hba
  rw [Bool.eq_false_iff, Ne, comesBefore_iff, hcompare', Comparison.ordered.injEq] at hcb
  -- neither step goes the way of the outcome, so that one is no step or both go the other way
  cases descending <;> cases ba <;> cases cb <;> simp_all

/-! ## Sorting -/

/-- Records have been put in the order of a column: they are the same records, none comes after one that it
should come before, and those with equal values have kept their order. -/
structure IsOrdered (column : Value) (descending : Bool) (found ordered : List Record) : Prop where
  perm : ordered.Perm found
  inOrder : ordered.Pairwise fun a b => ∃ o,
    (a.value column).compare (b.value column) = .ordered o ∧ o ≠ if descending then .lt else .gt
  stable : ∀ r ∈ found, ordered.filter (fun a => (a.value column).equals (r.value column)) =
    found.filter fun a => (a.value column).equals (r.value column)

/-- Putting records in order rearranges them. -/
lemma orderBy_perm (column : Value) (descending : Bool) (found : List Record) :
    (orderBy column descending found).Perm found :=
  Sorting.sort_perm _ found

/-- Of records with equal values none comes before another. -/
lemma not_comesBefore_of_equals {a b : Record} {v : Value} (ha : (a.value column).equals v = true)
    (hb : (b.value column).equals v = true) : comesBefore column descending a b = false := by
  by_contra hab
  rw [Bool.not_eq_false, comesBefore_iff] at hab
  rw [Value.equals, Bool.and_eq_true] at ha hb
  obtain ⟨hself, hself'⟩ := Value.compare_self_of_ordered hab
  have hagree := Value.agrees _ hab (Value.compare_of_same hb.1 hself') (Value.compare_of_same ha.1 hself)
  have heq := hagree.right rfl
  cases descending <;> cases heq

/-- Records whose values compare are put in order. -/
theorem isOrdered_orderBy (h : Comparable column found) (descending : Bool) :
    IsOrdered column descending found (orderBy column descending found) := by
  have hsorts := Sorting.sorts_sort (h.isConsistentOn descending)
  have hcomparable : Comparable column (orderBy column descending found) :=
    (orderBy_perm column descending found).symm.pairwise h fun hab => hab.symm
  refine ⟨hsorts.perm, (hcomparable.and hsorts.ordered).imp ?_, fun r _ => ?_⟩
  · rintro a b ⟨⟨⟨o, ho⟩, o', ho'⟩, hba⟩
    refine ⟨o, ho, fun heq => ?_⟩
    obtain rfl := Value.compare_swap ho ho'
    rw [Bool.eq_false_iff, Ne, comesBefore_iff, ho', Comparison.ordered.injEq, heq] at hba
    cases descending <;> exact hba rfl
  · exact hsorts.filter_eq fun a _ b _ => not_comesBefore_of_equals

/-- The records that a selection shows, before it puts them in order. -/
def Selection.shown (selection : Selection) (found : List Record) : List Record :=
  if selection.isWhole then found else found.map (project (selection.columns.map .text))

/-- A selection of some records in an order gives the first ones in that order. -/
lemma perform_select_ordered (site : Site) (selection : Selection) (name : String) (table : Table)
    (found : List Record) (n : Nat) (htable : site.database.table selection.table = .ok table)
    (hfound : table.find (conditionsOf selection.condition) = .ok found)
    (hname : selection.orderBy = some name) (hlimit : selection.limit = some n) :
    (run (.select selection)).perform site =
      let first := (orderBy (.text name) selection.descending (selection.shown found)).take n
      (.ok (.found ("Found " ++ toString first.length ++ " record(s)") (.list (first.map .map))),
        site) := by
  have hshape : selection.shape found =
      (orderBy (.text name) selection.descending (selection.shown found)).take n := by
    rw [Selection.shape, hname, hlimit]
    rfl
  rw [run, runSelect, Work.perform_bind_ok (Site.perform_table htable), hfound, ← hshape]
  rfl

/-- Putting records in the order of a column rearranges them.  If they all have a value there and the values
compare, the records are in order afterwards, and those with equal values stand as they stood before.  A
selection with an order and a limit gives as many of the records that it shows, the first ones in the
order. -/
theorem orderBy_isStableSort :
    (∀ (column : Value) (descending : Bool) (found : List Record),
      (orderBy column descending found).Perm found ∧
        (Comparable column found →
          IsOrdered column descending found (orderBy column descending found))) ∧
    ∀ (site : Site) (selection : Selection) (name : String) (table : Table) (found : List Record)
      (n : Nat), site.database.table selection.table = .ok table →
      table.find (conditionsOf selection.condition) = .ok found →
      selection.orderBy = some name → selection.limit = some n →
      (run (.select selection)).perform site =
        let first := (orderBy (.text name) selection.descending (selection.shown found)).take n
        (.ok (.found ("Found " ++ toString first.length ++ " record(s)") (.list (first.map .map))),
          site) :=
  ⟨fun column descending found =>
      ⟨orderBy_perm column descending found, fun h => isOrdered_orderBy h descending⟩,
    perform_select_ordered⟩

/-- Records that hold integers and a truth value compare and are put in order; and of a table with three
records the two with the greatest numbers are selected. -/
theorem orderBy_isStableSort_threeRecords : ∃ created effects,
    Table.create "t" Table.twoColumns "d" = .ok (created, effects) ∧
    let rows : List Record := [.int 1, .int 2, .bool true].map fun v => [(.text "a", v)]
    let requests := [1, 2, 3].map fun i => Table.Request.insert (.map [(.text "a", .int i)])
    let site : Site := ⟨⟨"db", "db", [("t", created.run requests)], false⟩, .empty⟩
    Comparable (.text "a") rows ∧
      IsOrdered (.text "a") true rows (orderBy (.text "a") true rows) ∧
    (run (.select ⟨"t", ["a"], none, some "a", true, some 2⟩)).perform site =
      (.ok (.found "Found 2 record(s)"
        (.list [.map [(.text "a", .int 3)], .map [(.text "a", .int 2)]])), site) := by
  refine ⟨_, _, rfl, ?_⟩
  intro rows requests site
  have hrows : Comparable (.text "a") rows := by
    unfold Comparable
    simp only [rows, List.map_cons, List.map_nil, List.pairwise_cons, List.forall_mem_cons,
      List.not_mem_nil, false_imp_iff, implies_true, and_true, List.Pairwise.nil]
    exact ⟨⟨⟨⟨_, rfl⟩, _, rfl⟩, ⟨_, rfl⟩, _, rfl⟩, ⟨_, rfl⟩, _, rfl⟩
  have hselect := orderBy_isStableSort.2 site ⟨"t", ["a"], none, some "a", true, some 2⟩ "a" _
    ([1, 2, 3].map fun i => [(.text "a", .int i)]) 2 rfl rfl rfl rfl
  exact ⟨hrows, (orderBy_isStableSort.1 _ true _).2 hrows, hselect⟩

/-- What is not a number is of one kind with numbers, but neither less, equal nor greater: a number before
it and a less one behind it stay where they are. -/
theorem not_inOrder_orderBy_notNumber :
    ¬∀ (column : Value) (descending : Bool) (found : List Record),
      (∀ a ∈ found, ∀ b ∈ found, (a.value column).compare (b.value column) ≠ .incomparable) →
      (orderBy column descending found).Pairwise fun a b =>
        (b.value column).compare (a.value column) ≠ .ordered (if descending then .gt else .lt) := by
  intro h
  have hpair := h (.text "a") false
    ([.int 1, .float (.notNumber 0), .int 0].map fun v => [(.text "a", v)]) (by decide)
  have horder : orderBy (.text "a") false
      ([.int 1, .float (.notNumber 0), .int 0].map fun v => [(.text "a", v)]) =
        [.int 1, .float (.notNumber 0), .int 0].map fun v => [(.text "a", v)] := rfl
  rw [horder] at hpair
  exact absurd hpair (by decide)

/-! ## Records without a value -/

/-- Records with a rank that goes up before and after every record without a value. -/
def ranked (column : Value) : Nat → List Record → List (Nat × Record)
  | _, [] => []
  | n, r :: rest =>
    if hasValue column r then (n, r) :: ranked column n rest
    else (n + 1, r) :: ranked column (n + 2) rest

/-- Ranks are given to all records in their order. -/
lemma map_snd_ranked (column : Value) (n : Nat) (found : List Record) :
    (ranked column n found).map Prod.snd = found := by
  induction found generalizing n with
  | nil => rfl
  | cons r rest ih =>
    rw [ranked]
    split <;> rw [List.map_cons, ih]

/-- Ranks do not go down. -/
lemma le_of_mem_ranked {n : Nat} {x : Nat × Record} (h : x ∈ ranked column n found) : n ≤ x.1 := by
  induction found generalizing n with
  | nil => cases h
  | cons r rest ih =>
    rw [ranked] at h
    split at h
    · rcases List.mem_cons.mp h with rfl | h
      · exact le_rfl
      · exact ih h
    · rcases List.mem_cons.mp h with rfl | h
      · exact Nat.le_succ n
      · exact (Nat.le_add_right n 2).trans (ih h)

/-- The ranks of the records that have a value are even, or odd, if the first rank is; the others are
not. -/
lemma hasValue_of_mem_ranked {n : Nat} {x : Nat × Record} (h : x ∈ ranked column n found) :
    hasValue column x.2 = (x.1 % 2 == n % 2) := by
  induction found generalizing n with
  | nil => cases h
  | cons r rest ih =>
    rw [ranked] at h
    split at h <;> rename_i hvalue
    · rcases List.mem_cons.mp h with rfl | h
      · rw [hvalue, beq_self_eq_true]
      · exact ih h
    · rcases List.mem_cons.mp h with rfl | h
      · rw [Bool.not_eq_true] at hvalue
        rw [hvalue, eq_comm, beq_eq_false_iff_ne]
        omega
      · rw [ih h, Nat.add_mod_right]

/-- Before a record with a value of a higher rank there is one without a value. -/
lemma exists_sublist_of_mem_ranked {n : Nat} {x : Nat × Record} (h : x ∈ ranked column n found)
    (hvalue : hasValue column x.2 = true) (hlt : n < x.1) :
    ∃ r, hasValue column r = false ∧ [r, x.2].Sublist found := by
  induction found generalizing n with
  | nil => cases h
  | cons r rest ih =>
    rw [ranked] at h
    split at h <;> rename_i hr
    · rcases List.mem_cons.mp h with rfl | h
      · exact absurd hlt (Nat.lt_irrefl _)
      · obtain ⟨r', hr', hsub⟩ := ih h hlt
        exact ⟨r', hr', hsub.cons r⟩
    · rw [Bool.not_eq_true] at hr
      rcases List.mem_cons.mp h with rfl | h
      · rw [hr] at hvalue
        cases hvalue
      · have hmem : x.2 ∈ rest := map_snd_ranked column (n + 2) rest ▸ List.mem_map_of_mem h
        exact ⟨r, hr, (List.singleton_sublist.mpr hmem).cons_cons r⟩

/-- The order of ranked records: by rank, and by the column within a rank. -/
def rankedBefore (column : Value) (descending : Bool) (x y : Nat × Record) : Bool :=
  decide (x.1 < y.1) || (x.1 == y.1 && comesBefore column descending x.2 y.2)

/-- The order of ranked records is consistent. -/
lemma isConsistentOn_rankedBefore (h : Comparable column (found.filter (hasValue column)))
    (descending : Bool) :
    Sorting.IsConsistentOn (rankedBefore column descending) fun x => x ∈ ranked column 0 found := by
  refine .ranked fun n => ?_
  by_cases heven : n % 2 = 0
  · refine (h.isConsistentOn descending).mono fun a ha => ?_
    have hvalue := hasValue_of_mem_ranked ha
    rw [heven] at hvalue
    exact List.mem_filter.mpr ⟨map_snd_ranked column 0 found ▸ List.mem_map_of_mem ha, hvalue⟩
  · -- all records of such a rank are without a value
    have hnone : ∀ a b, (n, a) ∈ ranked column 0 found →
        comesBefore column descending a b = false := by
      intro a b ha
      have hvalue : hasValue column a = false := by
        rw [hasValue_of_mem_ranked ha, beq_eq_false_iff_ne]
        exact heven
      exact not_comesBefore (.inl hvalue)
    exact ⟨fun a b _ hb _ => hnone b a hb, fun a b c _ _ hc _ _ => hnone c a hc⟩

/-- If no record with a value comes before another one that it stands behind with a record without a value
between them, the order of ranked records tells the same about records as the order that is asked for. -/
lemma rankedBefore_eq {n : Nat}
    (h : ¬∃ x y z, [x, y, z].Sublist found ∧ hasValue column y = false ∧
      comesBefore column descending z x = true) :
    (ranked column n found).Pairwise fun x y =>
      comesBefore column descending y.2 x.2 = rankedBefore column descending y x := by
  induction found generalizing n with
  | nil => exact .nil
  | cons r rest ih =>
    have hrest : ¬∃ x y z, [x, y, z].Sublist rest ∧ hasValue column y = false ∧
        comesBefore column descending z x = true :=
      fun ⟨x, y, z, hsub, hothers⟩ => h ⟨x, y, z, hsub.cons r, hothers⟩
    have hhigher : ∀ {m : Nat} {x : Nat × Record}, m < x.1 →
        comesBefore column descending x.2 r = false →
        comesBefore column descending x.2 r = rankedBefore column descending x (m, r) := by
      intro m x hlt hbefore
      have hne : (x.1 == m) = false := beq_eq_false_iff_ne.mpr hlt.ne'
      rw [rankedBefore, hbefore, hne, decide_eq_false (by omega : ¬x.1 < m)]
      rfl
    rw [ranked]
    split <;> rename_i hvalue
    · refine List.pairwise_cons.mpr ⟨fun x hx => ?_, ih hrest⟩
      rcases (le_of_mem_ranked hx).lt_or_eq with hlt | heq
      · refine hhigher hlt ?_
        by_contra hbefore
        rw [Bool.not_eq_false] at hbefore
        obtain ⟨y, hy, hsub⟩ := exists_sublist_of_mem_ranked hx (hasValue_of_comesBefore hbefore).1 hlt
        exact h ⟨r, y, x.2, hsub.cons_cons r, hy, hbefore⟩
      · rw [rankedBefore, heq, decide_eq_false (Nat.lt_irrefl _), beq_self_eq_true]
        rfl
    · refine List.pairwise_cons.mpr ⟨fun x hx => hhigher ?_ ?_, ih hrest⟩
      · exact Nat.lt_of_succ_le (le_of_mem_ranked hx)
      · exact not_comesBefore (.inr (Bool.not_eq_true _ ▸ hvalue))

/-- Records without a value may be left out before or after records are put in order, if none of them stands
between two others of which the second comes before the first. -/
lemma filter_orderBy (hcomparable : Comparable column (found.filter (hasValue column)))
    (h : ¬∃ x y z, [x, y, z].Sublist found ∧ hasValue column y = false ∧
      comesBefore column descending z x = true) :
    (orderBy column descending found).filter (hasValue column) =
      orderBy column descending (found.filter (hasValue column)) := by
  have hasked := rankedBefore_eq (n := 0) h
  have hconsistent := isConsistentOn_rankedBefore hcomparable descending
  have hsorts := Sorting.sorts_sort hconsistent
  have hsame : (Sorting.sort (rankedBefore column descending) (ranked column 0 found)).filter
        (hasValue column ∘ Prod.snd) =
      Sorting.sort (rankedBefore column descending)
        ((ranked column 0 found).filter (hasValue column ∘ Prod.snd)) := by
    have hconsistent' := hconsistent.mono
      fun x (hx : x ∈ (ranked column 0 found).filter (hasValue column ∘ Prod.snd)) =>
        List.mem_of_mem_filter hx
    exact (hsorts.filter _).unique hconsistent' (Sorting.sorts_sort hconsistent')
  calc (orderBy column descending found).filter (hasValue column)
      = ((Sorting.sort (rankedBefore column descending) (ranked column 0 found)).map Prod.snd).filter
          (hasValue column) := by
        rw [← Sorting.sort_map hasked, map_snd_ranked, orderBy]
    _ = (Sorting.sort (rankedBefore column descending)
          ((ranked column 0 found).filter (hasValue column ∘ Prod.snd))).map Prod.snd := by
        rw [List.filter_map, hsame]
    _ = orderBy column descending
          (((ranked column 0 found).filter (hasValue column ∘ Prod.snd)).map Prod.snd) :=
        (Sorting.sort_map (hasked.filter _)).symm
    _ = orderBy column descending (found.filter (hasValue column)) := by
        rw [← List.filter_map, map_snd_ranked]

/-- Records that stand on either side of one without a value are not exchanged. -/
lemma orderBy_triple {x y z : Record} (hy : hasValue column y = false) :
    orderBy column descending [x, y, z] = [x, y, z] := by
  have hyx : comesBefore column descending y x = false := not_comesBefore (.inl hy)
  have hzy : comesBefore column descending z y = false := not_comesBefore (.inr hy)
  rw [orderBy, Sorting.sort, if_pos (by simp [Sorting.mergeThreshold]),
    Sorting.insertionSort]
  simp [Sorting.firstRun, Sorting.takeAscending, hyx, hzy]

/-- Two records of which the second comes before the first are exchanged. -/
lemma orderBy_pair {x z : Record} (h : comesBefore column descending z x = true) :
    orderBy column descending [x, z] = [z, x] := by
  rw [orderBy, Sorting.sort, if_pos (by simp [Sorting.mergeThreshold]),
    Sorting.insertionSort]
  simp [Sorting.firstRun, Sorting.takeDescending, h]

/-- If the values that there are compare, records without a value may be left out before or after some of
the records are put in order, whichever these are, exactly if none without a value stands between two
others of which the second comes before the first. -/
theorem filter_orderBy_iff (h : Comparable column (found.filter (hasValue column))) :
    (∀ kept : List Record, kept.Sublist found →
      (orderBy column descending kept).filter (hasValue column) =
        orderBy column descending (kept.filter (hasValue column))) ↔
      ¬∃ x y z : Record, [x, y, z].Sublist found ∧ hasValue column y = false ∧
        (z.value column).compare (x.value column) = .ordered (if descending then .gt else .lt) := by
  simp only [← comesBefore_iff]
  constructor
  · rintro hall ⟨x, y, z, hsub, hy, hzx⟩
    have hvalue := hasValue_of_comesBefore hzx
    have heq := hall [x, y, z] hsub
    rw [orderBy_triple hy] at heq
    simp only [List.filter_cons, List.filter_nil, hvalue.1, hvalue.2, hy, if_true, Bool.false_eq_true,
      if_false, orderBy_pair hzx, List.cons.injEq, and_true] at heq
    rw [heq.1, comesBefore_self] at hzx
    cases hzx
  · intro hbetween kept hkept
    refine filter_orderBy (h.sublist (hkept.filter _)) ?_
    rintro ⟨x, y, z, hsub, hothers⟩
    exact hbetween ⟨x, y, z, hsub.trans hkept, hothers⟩

/-- Between numbers that are in order a record without a value may stand anywhere. -/
theorem filter_orderBy_iff_threeRecords :
    let found : List Record := [[(.text "a", .int 1)], [], [(.text "a", .int 2)]]
    ∀ kept : List Record, kept.Sublist found →
      (orderBy (.text "a") false kept).filter (hasValue (.text "a")) =
        orderBy (.text "a") false (kept.filter (hasValue (.text "a"))) := by
  intro found
  have hfilter : found.filter (hasValue (.text "a")) = [[(.text "a", .int 1)], [(.text "a", .int 2)]] := rfl
  have hcomparable : Comparable (.text "a") (found.filter (hasValue (.text "a"))) := by
    rw [hfilter]
    exact .cons (List.forall_mem_singleton.mpr ⟨⟨_, rfl⟩, _, rfl⟩) (List.pairwise_singleton _ _)
  refine (filter_orderBy_iff hcomparable).mpr ?_
  rintro ⟨x, y, z, hsub, -, hbefore⟩
  obtain rfl := List.cons.inj (hsub.eq_of_length rfl) |>.1
  obtain rfl := List.cons.inj (List.cons.inj (List.cons.inj (hsub.eq_of_length rfl)).2).2 |>.1
  exact absurd hbefore (by decide)

/-- A number before a record without a value and a less one behind it stay where they are, although they are
exchanged without that record. -/
theorem filter_orderBy_ne_between :
    ¬∀ (column : Value) (descending : Bool) (found : List Record),
      Comparable column (found.filter (hasValue column)) →
      (orderBy column descending found).filter (hasValue column) =
        orderBy column descending (found.filter (hasValue column)) := by
  intro h
  have hcomparable : Comparable (.text "a")
      ([[(.text "a", .int 2)], [], [(.text "a", .int 1)]].filter (hasValue (.text "a"))) :=
    .cons (List.forall_mem_singleton.mpr ⟨⟨_, rfl⟩, _, rfl⟩) (List.pairwise_singleton _ _)
  have heq := h (.text "a") false _ hcomparable
  have hleft : (orderBy (.text "a") false [[(.text "a", .int 2)], [], [(.text "a", .int 1)]]).filter
      (hasValue (.text "a")) = [[(.text "a", .int 2)], [(.text "a", .int 1)]] := rfl
  have hright : orderBy (.text "a") false ([[(.text "a", .int 2)], [], [(.text "a", .int 1)]].filter
      (hasValue (.text "a"))) = [[(.text "a", .int 1)], [(.text "a", .int 2)]] := rfl
  rw [hleft, hright] at heq
  simp at heq

end RecordStore.Query
