import Mathlib.Data.List.Chain
import Mathlib.Data.List.Sort
import Mathlib.Tactic.Common
import RecordStore.Sorting

/-!
# Stable sorting

Sorting rearranges a list, whatever order it is given.  If the order is a consistent one, items come out in
order and those that are not less than each other keep their places among themselves; that determines the
outcome, so it does not matter by which procedure a list is sorted.

Both procedures only ever ask whether an item is less than one that was before it in the list.  So what an
order says the other way round has no influence, and an order that is not consistent may be replaced by one
that is, as long as the two agree where they are asked.
-/

namespace RecordStore.Sorting

variable {α β : Type} {less : α → α → Bool} {items : List α}

/-! ## Runs -/

/-- What has been taken of a descending run, turned around, and what is left. -/
lemma takeDescending_eq (less : α → α → Bool) (run : List α) (last : α) (items : List α) :
    ∃ taken left, items = taken ++ left ∧
      takeDescending less run last items = (taken.reverse ++ run, left) ∧
        (last :: taken).IsChain fun a b => less b a = true := by
  induction items generalizing run last with
  | nil => exact ⟨[], [], rfl, rfl, .singleton _⟩
  | cons x rest ih =>
    rw [takeDescending]
    split
    · rename_i hless
      obtain ⟨taken, left, rfl, heq, hchain⟩ := ih (x :: run) x
      exact ⟨x :: taken, left, rfl, by simp [heq], .cons_cons hless hchain⟩
    · exact ⟨[], x :: rest, rfl, rfl, .singleton _⟩

/-- What has been taken of an ascending run, and what is left. -/
lemma takeAscending_eq (less : α → α → Bool) (last : α) (items : List α) :
    ∃ taken left, items = taken ++ left ∧ takeAscending less last items = (taken, left) ∧
      (last :: taken).IsChain fun a b => less b a = false := by
  induction items generalizing last with
  | nil => exact ⟨[], [], rfl, rfl, .singleton _⟩
  | cons x rest ih =>
    rw [takeAscending]
    split
    · exact ⟨[], x :: rest, rfl, rfl, .singleton _⟩
    · rename_i hnot
      obtain ⟨taken, left, rfl, heq, hchain⟩ := ih x
      exact ⟨x :: taken, left, rfl, by rw [heq], .cons_cons (Bool.eq_false_iff.mpr hnot) hchain⟩

/-- The first run is what a list begins with if that does not descend, and what it begins with turned
around if it descends at every step. -/
lemma firstRun_eq (less : α → α → Bool) (items : List α) :
    ∃ initial left, items = initial ++ left ∧
      (firstRun less items = (initial, left) ∧ initial.IsChain (fun a b => less b a = false) ∨
        firstRun less items = (initial.reverse, left) ∧ initial.IsChain fun a b => less b a = true) := by
  match items with
  | [] => exact ⟨[], [], rfl, Or.inl ⟨rfl, .nil⟩⟩
  | [x] => exact ⟨[x], [], rfl, Or.inl ⟨rfl, .singleton x⟩⟩
  | x :: y :: rest =>
    rw [firstRun]
    split
    · rename_i hless
      obtain ⟨taken, left, rfl, heq, hchain⟩ := takeDescending_eq less [y, x] y rest
      exact ⟨x :: y :: taken, left, rfl, Or.inr ⟨by simp [heq], .cons_cons hless hchain⟩⟩
    · rename_i hnot
      obtain ⟨taken, left, rfl, heq, hchain⟩ := takeAscending_eq less y rest
      exact ⟨x :: y :: taken, left, rfl,
        Or.inl ⟨by simp [heq], .cons_cons (Bool.eq_false_iff.mpr hnot) hchain⟩⟩

/-- The first run rearranges what a list begins with. -/
lemma exists_firstRun_perm (less : α → α → Bool) (items : List α) :
    ∃ initial, items = initial ++ (firstRun less items).2 ∧ (firstRun less items).1.Perm initial := by
  obtain ⟨initial, left, rfl, ⟨heq, -⟩ | ⟨heq, -⟩⟩ := firstRun_eq less items
  · exact ⟨initial, by rw [heq], by rw [heq]⟩
  · exact ⟨initial, by rw [heq], by rw [heq]; exact initial.reverse_perm⟩

/-! ## Nothing is lost -/

/-- An inserted item stands among the others. -/
lemma insert_perm (less : α → α → Bool) (sorted : List α) (item : α) :
    (insert less sorted item).Perm (item :: sorted) := by
  rw [insert]
  refine List.perm_middle.trans ?_
  rw [List.take_append_drop]

/-- Items that are inserted one after the other stand among the others. -/
lemma foldl_insert_perm (less : α → α → Bool) (sorted rest : List α) :
    (rest.foldl (insert less) sorted).Perm (sorted ++ rest) := by
  induction rest generalizing sorted with
  | nil => rw [List.foldl_nil, List.append_nil]
  | cons item rest ih =>
    rw [List.foldl_cons]
    refine (ih _).trans (((insert_perm less sorted item).append_right rest).trans ?_)
    exact List.perm_middle.symm

/-- Sorting by insertion rearranges a list. -/
lemma insertionSort_perm (less : α → α → Bool) (items : List α) :
    (insertionSort less items).Perm items := by
  obtain ⟨initial, hitems, hrun⟩ := exists_firstRun_perm less items
  have hperm := (foldl_insert_perm less _ _).trans (hrun.append_right (firstRun less items).2)
  rw [← hitems] at hperm
  exact hperm

/-- Sorting rearranges a list, whatever the order. -/
theorem sort_perm (less : α → α → Bool) (items : List α) : (sort less items).Perm items := by
  rw [sort]
  split
  · exact insertionSort_perm less items
  · exact List.mergeSort_perm items _

/-! ## What is asked -/

section Asked

variable {less' : β → β → Bool} {f : β → α}

/-- Taking a descending run only asks whether items are less than those before. -/
lemma takeDescending_map (run : List β) {last : β} {items : List β}
    (h : (last :: items).Pairwise fun x y => less (f y) (f x) = less' y x) :
    takeDescending less (run.map f) (f last) (items.map f) =
      Prod.map (List.map f) (List.map f) (takeDescending less' run last items) := by
  induction items generalizing run last with
  | nil => rfl
  | cons x rest ih =>
    obtain ⟨hlast, hrest⟩ := List.pairwise_cons.mp h
    rw [List.map_cons, takeDescending, takeDescending, hlast x List.mem_cons_self]
    split
    · exact ih (x :: run) hrest
    · rfl

/-- Taking an ascending run only asks whether items are less than those before. -/
lemma takeAscending_map {last : β} {items : List β}
    (h : (last :: items).Pairwise fun x y => less (f y) (f x) = less' y x) :
    takeAscending less (f last) (items.map f) =
      Prod.map (List.map f) (List.map f) (takeAscending less' last items) := by
  induction items generalizing last with
  | nil => rfl
  | cons x rest ih =>
    obtain ⟨hlast, hrest⟩ := List.pairwise_cons.mp h
    rw [List.map_cons, takeAscending, takeAscending, hlast x List.mem_cons_self]
    split
    · rfl
    · rw [ih hrest]
      rfl

/-- Finding the first run only asks whether items are less than those before. -/
lemma firstRun_map {items : List β}
    (h : items.Pairwise fun x y => less (f y) (f x) = less' y x) :
    firstRun less (items.map f) = Prod.map (List.map f) (List.map f) (firstRun less' items) := by
  match items with
  | [] => rfl
  | [x] => rfl
  | x :: y :: rest =>
    obtain ⟨hfirst, hrest⟩ := List.pairwise_cons.mp h
    rw [List.map_cons, List.map_cons, firstRun, firstRun, hfirst y List.mem_cons_self]
    split
    · exact takeDescending_map [y, x] hrest
    · rw [takeAscending_map hrest]
      rfl

/-- Finding the place of an item only asks whether it is less than those that are there. -/
lemma place_map {item : β} {sorted : List β} (h : ∀ x ∈ sorted, less (f item) (f x) = less' item x)
    (low high : Nat) :
    place less (f item) (sorted.map f) low high = place less' item sorted low high := by
  induction low, high using place.induct less' item sorted with
  | case1 low high hlt middle other hother hless ih =>
    have hmem := List.mem_of_getElem? hother
    rw [place, place, if_pos hlt, if_pos hlt]
    simp only [List.getElem?_map, hother, Option.map_some, h other hmem, hless, if_true, ih,
      show low + (high - low) / 2 = middle from rfl]
  | case2 low high hlt middle other hother hless ih =>
    have hmem := List.mem_of_getElem? hother
    rw [place, place, if_pos hlt, if_pos hlt]
    simp only [List.getElem?_map, hother, Option.map_some, h other hmem, Bool.eq_false_iff.mpr hless,
      Bool.false_eq_true, if_false, ih,
      show low + (high - low) / 2 = middle from rfl]
  | case3 low high hlt middle hother =>
    rw [place, place, if_pos hlt, if_pos hlt]
    simp only [List.getElem?_map, hother, Option.map_none,
      show low + (high - low) / 2 = middle from rfl]
  | case4 low high hge => rw [place, place, if_neg hge, if_neg hge]

/-- Inserting an item only asks whether it is less than those that are there. -/
lemma insert_map {item : β} {sorted : List β}
    (h : ∀ x ∈ sorted, less (f item) (f x) = less' item x) :
    insert less (sorted.map f) (f item) = (insert less' sorted item).map f := by
  simp only [insert, List.length_map, place_map h, List.map_append, List.map_cons, List.map_take,
    List.map_drop]

/-- Inserting items one after the other only asks whether they are less than those that are there or come
before. -/
lemma foldl_insert_map {sorted rest : List β}
    (hsorted : ∀ x ∈ sorted, ∀ y ∈ rest, less (f y) (f x) = less' y x)
    (hrest : rest.Pairwise fun x y => less (f y) (f x) = less' y x) :
    (rest.map f).foldl (insert less) (sorted.map f) =
      (rest.foldl (insert less') sorted).map f := by
  induction rest generalizing sorted with
  | nil => rfl
  | cons item rest ih =>
    obtain ⟨hitem, hrest⟩ := List.pairwise_cons.mp hrest
    rw [List.map_cons, List.foldl_cons, List.foldl_cons,
      insert_map fun x hx => hsorted x hx item List.mem_cons_self]
    refine ih (fun x hx y hy => ?_) hrest
    rcases List.mem_cons.mp ((insert_perm less' sorted item).mem_iff.mp hx) with rfl | hx
    · exact hitem y hy
    · exact hsorted x hx y (List.mem_cons_of_mem _ hy)

/-- Sorting by insertion only asks whether items are less than those before. -/
lemma insertionSort_map {items : List β}
    (h : items.Pairwise fun x y => less (f y) (f x) = less' y x) :
    insertionSort less (items.map f) = (insertionSort less' items).map f := by
  rw [insertionSort, insertionSort, firstRun_map h]
  obtain ⟨initial, hitems, hrun⟩ := exists_firstRun_perm less' items
  rw [hitems, List.pairwise_append] at h
  exact foldl_insert_map (fun x hx y hy => h.2.2 x (hrun.mem_iff.mp hx) y hy) h.2.1

/-- Sorting by merging only asks whether items are less than those before: halves are merged that follow one
another in the list. -/
lemma mergeSort_map {items : List β}
    (h : items.Pairwise fun x y => less (f y) (f x) = less' y x) :
    (items.map f).mergeSort (fun a b => !less b a) =
      (items.mergeSort fun a b => !less' b a).map f := by
  match items with
  | [] => simp
  | [x] => simp
  | x :: y :: rest =>
    rw [List.map_cons, List.map_cons, List.mergeSort, List.mergeSort]
    simp only [List.MergeSort.Internal.splitInTwo_fst, List.MergeSort.Internal.splitInTwo_snd]
    rw [← List.map_cons, ← List.map_cons, List.length_map, ← List.map_take, ← List.map_drop]
    generalize hhalf : ((x :: y :: rest).length + 1) / 2 = half
    have hsplit := h
    rw [← List.take_append_drop half (x :: y :: rest), List.pairwise_append] at hsplit
    obtain ⟨hfirst, hsecond, hcross⟩ := hsplit
    rw [mergeSort_map hfirst, mergeSort_map hsecond]
    refine (List.map_merge fun a ha b hb => ?_).symm
    rw [hcross a (List.mem_mergeSort.mp ha) b (List.mem_mergeSort.mp hb)]
termination_by items.length
decreasing_by
  all_goals simp only [List.length_take, List.length_drop, List.length_cons] at *; omega

/-- Sorting only asks whether items are less than those that are before them in the list. -/
theorem sort_map {items : List β} (h : items.Pairwise fun x y => less (f y) (f x) = less' y x) :
    sort less (items.map f) = (sort less' items).map f := by
  rw [sort, sort, List.length_map]
  split
  · exact insertionSort_map h
  · exact mergeSort_map h

end Asked

/-! ## Consistent orders -/

/-- An order is consistent on some items: of two items at most one is less than the other, and not being
less is transitive. -/
structure IsConsistentOn (less : α → α → Bool) (P : α → Prop) : Prop where
  asymm : ∀ a b, P a → P b → less a b = true → less b a = false
  trans : ∀ a b c, P a → P b → P c → less b a = false → less c b = false → less c a = false

/-- Whether neither of two items is less than the other. -/
def ties (less : α → α → Bool) (a b : α) : Bool :=
  !less a b && !less b a

/-- A list has been sorted: it has been rearranged so that no item is less than one before, and items of
which none is less than another have kept their order. -/
structure Sorts (less : α → α → Bool) (items sorted : List α) : Prop where
  perm : sorted.Perm items
  ordered : sorted.Pairwise fun a b => less b a = false
  stable : ∀ x ∈ items, sorted.filter (ties less x) = items.filter (ties less x)

section Consistent

variable {P : α → Prop}

/-- No item is less than itself. -/
lemma IsConsistentOn.irrefl (h : IsConsistentOn less P) {a : α} (ha : P a) : less a a = false := by
  cases hless : less a a with
  | false => rfl
  | true => exact hless ▸ h.asymm a a ha ha hless

/-- An item ties with itself. -/
lemma IsConsistentOn.ties_self (h : IsConsistentOn less P) {a : α} (ha : P a) : ties less a a = true := by
  simp [ties, h.irrefl ha]

/-- Of items that tie with the same one, none is less than another. -/
lemma IsConsistentOn.not_less_of_ties (h : IsConsistentOn less P) {x a b : α} (hx : P x) (ha : P a)
    (hb : P b) (hxa : ties less x a = true) (hxb : ties less x b = true) : less a b = false := by
  simp only [ties, Bool.and_eq_true, Bool.not_eq_true'] at hxa hxb
  exact h.trans b x a hb hx ha hxb.1 hxa.2

/-- Being less is transitive. -/
lemma IsConsistentOn.less_trans (h : IsConsistentOn less P) {a b c : α} (ha : P a) (hb : P b) (hc : P c)
    (hab : less a b = true) (hbc : less b c = true) : less a c = true := by
  by_contra hac
  rw [Bool.not_eq_true] at hac
  have := h.trans b c a hb hc ha (h.asymm b c hb hc hbc) hac
  rw [hab] at this
  cases this

/-- An order is consistent on fewer items. -/
lemma IsConsistentOn.mono {Q : α → Prop} (h : IsConsistentOn less P) (hQP : ∀ a, Q a → P a) :
    IsConsistentOn less Q :=
  ⟨fun a b ha hb => h.asymm a b (hQP a ha) (hQP b hb),
    fun a b c ha hb hc => h.trans a b c (hQP a ha) (hQP b hb) (hQP c hc)⟩

/-- An order by what items are taken to is consistent if the order of that is. -/
lemma IsConsistentOn.comap (h : IsConsistentOn less P) (f : β → α) :
    IsConsistentOn (fun a b => less (f a) (f b)) fun b => P (f b) :=
  ⟨fun a b => h.asymm (f a) (f b), fun a b c => h.trans (f a) (f b) (f c)⟩

/-- An order by rank is consistent if the items of every rank are ordered consistently. -/
lemma IsConsistentOn.ranked {P : Nat × α → Prop} (h : ∀ n, IsConsistentOn less fun a => P (n, a)) :
    IsConsistentOn (fun x y : Nat × α => decide (x.1 < y.1) || (x.1 == y.1 && less x.2 y.2)) P := by
  constructor
  · rintro ⟨m, a⟩ ⟨n, b⟩ ha hb hab
    simp only [Bool.or_eq_true, Bool.and_eq_true, decide_eq_true_iff, beq_iff_eq, Bool.or_eq_false_iff,
      Bool.and_eq_false_imp, decide_eq_false_iff_not] at hab ⊢
    obtain hlt | ⟨rfl, hless⟩ := hab
    · exact ⟨by omega, fun heq => by omega⟩
    · exact ⟨Nat.lt_irrefl m, fun _ => (h m).asymm a b ha hb hless⟩
  · rintro ⟨m, a⟩ ⟨n, b⟩ ⟨k, c⟩ ha hb hc hba hcb
    simp only [Bool.or_eq_false_iff, Bool.and_eq_false_imp, decide_eq_false_iff_not, beq_iff_eq]
      at hba hcb ⊢
    refine ⟨by omega, ?_⟩
    rintro rfl
    obtain rfl : n = k := by omega
    exact (h n).trans a b c ha hb hc (hba.2 rfl) (hcb.2 rfl)

/-- Sorting a list also sorts what is left of it when items are left out. -/
lemma Sorts.filter {sorted : List α} (h : Sorts less items sorted) (p : α → Bool) :
    Sorts less (items.filter p) (sorted.filter p) := by
  refine ⟨h.perm.filter p, h.ordered.filter p, fun x hx => ?_⟩
  rw [List.filter_comm, h.stable x (List.mem_of_mem_filter hx), List.filter_comm]

/-- There is only one way to sort a list by a consistent order. -/
theorem Sorts.unique {sorted sorted' : List α} (hless : IsConsistentOn less fun x => x ∈ items)
    (h : Sorts less items sorted) (h' : Sorts less items sorted') : sorted = sorted' := by
  induction sorted generalizing items sorted' with
  | nil => rw [(h'.perm.trans h.perm.symm).eq_nil]
  | cons a rest ih =>
    cases sorted' with
    | nil => rw [(h.perm.trans h'.perm.symm).eq_nil]
    | cons b rest' =>
      obtain ⟨hfirst, hrest⟩ := List.pairwise_cons.mp h.ordered
      obtain ⟨hfirst', hrest'⟩ := List.pairwise_cons.mp h'.ordered
      have ha : a ∈ items := h.perm.subset List.mem_cons_self
      have hb : b ∈ items := h'.perm.subset List.mem_cons_self
      -- both heads are minimal, so that they tie, and the first of what ties with them is the head
      have hba : less b a = false := by
        rcases List.mem_cons.mp (h.perm.symm.subset hb) with rfl | hmem
        · exact hless.irrefl hb
        · exact hfirst b hmem
      have hab : less a b = false := by
        rcases List.mem_cons.mp (h'.perm.symm.subset ha) with rfl | hmem
        · exact hless.irrefl ha
        · exact hfirst' a hmem
      have hties : ties less a b = true := by simp [ties, hab, hba]
      have hfilter := (h.stable a ha).trans (h'.stable a ha).symm
      rw [List.filter_cons_of_pos (hless.ties_self ha), List.filter_cons_of_pos hties] at hfilter
      obtain rfl : a = b := (List.cons.inj hfilter).1
      have hsub : ∀ x ∈ rest, x ∈ items := fun x hx => h.perm.subset (List.mem_cons_of_mem a hx)
      have hperm : rest'.Perm rest := (h'.perm.trans h.perm.symm).cons_inv
      congr 1
      have hself : Sorts less rest rest := ⟨.refl _, hrest, fun _ _ => rfl⟩
      refine ih (hless.mono hsub) hself ⟨hperm, hrest', fun x hx => ?_⟩
      have hx' := (h'.stable x (hsub x hx)).trans (h.stable x (hsub x hx)).symm
      simp only [List.filter_cons] at hx'
      split at hx'
      · exact (List.cons.inj hx').2
      · exact hx'

/-- Items of which none is less than another have kept their order, whatever they are told by. -/
theorem Sorts.filter_eq {sorted : List α} (h : Sorts less items sorted) {p : α → Bool}
    (hp : ∀ a ∈ items, ∀ b ∈ items, p a = true → p b = true → less a b = false) :
    sorted.filter p = items.filter p := by
  by_cases hex : ∃ x ∈ items, p x = true
  · obtain ⟨x, hx, hpx⟩ := hex
    have hwithin : ∀ l : List α, (∀ a ∈ l, a ∈ items) → l.filter p = (l.filter (ties less x)).filter p := by
      intro l hl
      rw [List.filter_filter]
      refine List.filter_congr fun a ha => ?_
      cases hpa : p a with
      | false => rfl
      | true => simp [ties, hp a (hl a ha) x hx hpa hpx, hp x hx a (hl a ha) hpx hpa]
    rw [hwithin sorted fun a ha => h.perm.subset ha, hwithin items fun a ha => ha, h.stable x hx]
  · rw [List.filter_eq_nil_iff.mpr fun a ha hpa => hex ⟨a, h.perm.subset ha, hpa⟩,
      List.filter_eq_nil_iff.mpr fun a ha hpa => hex ⟨a, ha, hpa⟩]

end Consistent

/-! ## Sorting by a consistent order -/

section Everywhere

variable (hless : IsConsistentOn less fun _ => True)

include hless

/-- A list in which every item is at least the one before is in order. -/
lemma pairwise_of_isChain (h : items.IsChain fun a b => less b a = false) :
    items.Pairwise fun a b => less b a = false :=
  have : Trans (fun a b => less b a = false) (fun a b => less b a = false)
      fun a b => less b a = false :=
    ⟨fun hab hbc => hless.trans _ _ _ trivial trivial trivial hab hbc⟩
  h.pairwise

/-- A list in which every item is less than the one before is turned around by sorting it. -/
lemma sorts_reverse (h : items.IsChain fun a b => less b a = true) :
    Sorts less items items.reverse := by
  have : Trans (fun a b => less b a = true) (fun a b => less b a = true)
      fun a b => less b a = true :=
    ⟨fun hab hbc => hless.less_trans trivial trivial trivial hbc hab⟩
  have hall := h.pairwise
  refine ⟨items.reverse_perm, ?_, fun x _ => ?_⟩
  · rw [List.pairwise_reverse]
    exact hall.imp fun hba => hless.asymm _ _ trivial trivial hba
  · -- of items that are all different at most one ties with another item
    rw [List.filter_reverse]
    have hties : (items.filter (ties less x)).Pairwise fun _ _ => False := by
      refine (hall.filter _).imp_of_mem fun {a b} ha hb hba => ?_
      have := hless.not_less_of_ties trivial trivial trivial (List.mem_filter.mp hb).2
        (List.mem_filter.mp ha).2
      rw [hba] at this
      cases this
    generalize items.filter (ties less x) = tied at hties
    match tied, hties with
    | [], _ => rfl
    | [a], _ => rfl
    | a :: b :: rest, hties => exact ((List.pairwise_cons.mp hties).1 b List.mem_cons_self).elim

/-- The first run is sorted. -/
lemma exists_sorts_firstRun (items : List α) :
    ∃ initial, items = initial ++ (firstRun less items).2 ∧ Sorts less initial (firstRun less items).1 := by
  obtain ⟨initial, left, rfl, ⟨heq, hchain⟩ | ⟨heq, hchain⟩⟩ := firstRun_eq less items
  · refine ⟨initial, by rw [heq], ?_⟩
    rw [heq]
    exact ⟨.refl _, pairwise_of_isChain hless hchain, fun _ _ => rfl⟩
  · refine ⟨initial, by rw [heq], ?_⟩
    rw [heq]
    exact sorts_reverse hless hchain

omit hless in
/-- The place of an item is behind those that it is not less than, if these come first. -/
lemma place_eq {item : α} {front back : List α} (hfront : ∀ x ∈ front, less item x = false)
    (hback : ∀ x ∈ back, less item x = true) (low high : Nat) (hlow : low ≤ front.length)
    (hhigh : front.length ≤ high) (hlength : high ≤ (front ++ back).length) :
    place less item (front ++ back) low high = front.length := by
  induction low, high using place.induct less item (front ++ back) with
  | case1 low high hlt middle other hother hitem ih =>
    rw [place, if_pos hlt]
    simp only [show low + (high - low) / 2 = middle from rfl, hother, hitem, if_true]
    have hmiddle : front.length ≤ middle := by
      by_contra hbefore
      rw [List.getElem?_append_left (by omega)] at hother
      rw [hfront other (List.mem_of_getElem? hother)] at hitem
      cases hitem
    exact ih hlow hmiddle (by omega)
  | case2 low high hlt middle other hother hitem ih =>
    rw [place, if_pos hlt]
    simp only [show low + (high - low) / 2 = middle from rfl, hother, hitem]
    have hmiddle : middle < front.length := by
      by_contra hbehind
      rw [List.getElem?_append_right (by omega)] at hother
      exact hitem (hback other (List.mem_of_getElem? hother))
    exact ih hmiddle hhigh hlength
  | case3 low high hlt middle hother =>
    have : (front ++ back).length ≤ middle := List.getElem?_eq_none_iff.mp hother
    omega
  | case4 low high hge =>
    rw [place, if_neg hge]
    omega

/-- An item is inserted behind those that it is not less than and before those that it is less than. -/
lemma insert_eq {sorted : List α} (hsorted : sorted.Pairwise fun a b => less b a = false) (item : α) :
    ∃ front back, sorted = front ++ back ∧ insert less sorted item = front ++ item :: back ∧
      (∀ x ∈ front, less item x = false) ∧ ∀ x ∈ back, less item x = true := by
  obtain ⟨front, back, hsplit, hfront, hback⟩ : ∃ front back, sorted = front ++ back ∧
      (∀ x ∈ front, less item x = false) ∧ ∀ x ∈ back, less item x = true := by
    induction sorted with
    | nil => exact ⟨[], [], rfl, nofun, nofun⟩
    | cons a rest ih =>
      obtain ⟨hfirst, hrest⟩ := List.pairwise_cons.mp hsorted
      cases hitem : less item a with
      | true =>
        refine ⟨[], a :: rest, rfl, nofun, List.forall_mem_cons.mpr ⟨hitem, fun x hx => ?_⟩⟩
        by_contra hx'
        have := hless.trans a x item trivial trivial trivial (hfirst x hx) (Bool.eq_false_iff.mpr hx')
        rw [hitem] at this
        cases this
      | false =>
        obtain ⟨front, back, rfl, hfront, hback⟩ := ih hrest
        exact ⟨a :: front, back, rfl, List.forall_mem_cons.mpr ⟨hitem, hfront⟩, hback⟩
  refine ⟨front, back, hsplit, ?_, hfront, hback⟩
  have hplace := place_eq hfront hback 0 (front ++ back).length (Nat.zero_le _)
    (by rw [List.length_append]; omega) le_rfl
  rw [hsplit, insert, hplace, List.take_left, List.drop_left]

/-- Inserting one more item into what has been sorted sorts one more item. -/
lemma Sorts.insert {sorted : List α} (h : Sorts less items sorted) (item : α) :
    Sorts less (items ++ [item]) (insert less sorted item) := by
  have hperm : (Sorting.insert less sorted item).Perm (items ++ [item]) := by
    refine (insert_perm less sorted item).trans ((h.perm.cons item).trans ?_)
    exact (List.perm_append_singleton item items).symm
  obtain ⟨front, back, rfl, heq, hfront, hback⟩ := insert_eq hless h.ordered item
  rw [heq] at hperm ⊢
  obtain ⟨hordered, hordered', hcross⟩ := List.pairwise_append.mp h.ordered
  refine ⟨hperm, ?_, fun x _ => ?_⟩
  · refine List.pairwise_append.mpr ⟨hordered, List.pairwise_cons.mpr ⟨fun b hb => ?_, hordered'⟩,
      fun a ha b hb => ?_⟩
    · exact hless.asymm item b trivial trivial (hback b hb)
    · rcases List.mem_cons.mp hb with rfl | hb
      · exact hfront a ha
      · exact hcross a ha b hb
  · have hstable : (front ++ back).filter (ties less x) = items.filter (ties less x) :=
      h.filter_eq fun a _ b _ ha hb => hless.not_less_of_ties trivial trivial trivial ha hb
    rw [List.filter_append, List.filter_append, ← hstable, List.filter_append, List.filter_cons]
    cases hitem : ties less x item with
    | false => simp [hitem]
    | true =>
      have hnone : back.filter (ties less x) = [] := by
        refine List.filter_eq_nil_iff.mpr fun b hb hxb => ?_
        have := hless.not_less_of_ties trivial trivial trivial hitem hxb
        rw [hback b hb] at this
        cases this
      simp [hitem, hnone]

/-- Inserting items one after the other sorts them behind what has been sorted. -/
lemma Sorts.foldl_insert {sorted : List α} (h : Sorts less items sorted) (rest : List α) :
    Sorts less (items ++ rest) (rest.foldl (Sorting.insert less) sorted) := by
  induction rest generalizing items sorted with
  | nil => rwa [List.append_nil]
  | cons item rest ih =>
    have hrest := ih (h.insert hless item)
    rwa [List.append_assoc, List.singleton_append] at hrest

/-- Sorting by insertion sorts a list. -/
lemma sorts_insertionSort (items : List α) : Sorts less items (insertionSort less items) := by
  obtain ⟨initial, hitems, hrun⟩ := exists_sorts_firstRun hless items
  have hsorts := hrun.foldl_insert hless (firstRun less items).2
  rw [← hitems] at hsorts
  exact hsorts

/-- Sorting by merging sorts a list. -/
lemma sorts_mergeSort (items : List α) : Sorts less items (items.mergeSort fun a b => !less b a) := by
  have htrans : ∀ a b c : α, (!less b a) = true → (!less c b) = true → (!less c a) = true := by
    simp only [Bool.not_eq_true']
    exact fun a b c => hless.trans a b c trivial trivial trivial
  have htotal : ∀ a b : α, ((!less b a) || !less a b) = true := by
    intro a b
    cases hba : less b a with
    | false => rfl
    | true => simp [hless.asymm b a trivial trivial hba]
  have hperm := List.mergeSort_perm items fun a b => !less b a
  refine ⟨hperm, ?_, fun x _ => ?_⟩
  · exact (List.pairwise_mergeSort htrans htotal items).imp fun h => by simpa using h
  · -- what ties is in order already, so that it stands in the outcome as it stood in the list
    have hties : (items.filter (ties less x)).Pairwise fun a b => (!less b a) = true := by
      refine List.pairwise_of_forall_mem_list fun a ha b hb => ?_
      rw [hless.not_less_of_ties trivial trivial trivial (List.mem_filter.mp hb).2
        (List.mem_filter.mp ha).2]
      rfl
    have hsub := (List.sublist_mergeSort htrans htotal hties List.filter_sublist).filter (ties less x)
    rw [List.filter_filter] at hsub
    simp only [Bool.and_self] at hsub
    exact (hsub.eq_of_length (hperm.filter _).length_eq.symm).symm

/-- Sorting sorts a list, if the order is a consistent one. -/
lemma sorts_sort_of_forall (items : List α) : Sorts less items (sort less items) := by
  rw [sort]
  split
  · exact sorts_insertionSort hless items
  · exact sorts_mergeSort hless items

end Everywhere

/-- Sorting sorts a list, if the order is consistent on its items. -/
theorem sorts_sort (hless : IsConsistentOn less fun x => x ∈ items) :
    Sorts less items (sort less items) := by
  have hattach := sorts_sort_of_forall
    ((hless.comap (Subtype.val : {x // x ∈ items} → α)).mono fun x _ => x.2) items.attach
  have hmap : sort less items = (sort (fun a b => less a.1 b.1) items.attach).map Subtype.val := by
    rw [← sort_map (List.pairwise_of_forall_mem_list fun _ _ _ _ => rfl), List.attach_map_subtype_val]
  refine ⟨sort_perm less items, ?_, fun x hx => ?_⟩
  · rw [hmap]
    exact hattach.ordered.map _ fun _ _ h => h
  · have hstable := congrArg (List.map Subtype.val) (hattach.stable ⟨x, hx⟩ (List.mem_attach _ _))
    rw [hmap, ← List.attach_map_subtype_val items, List.filter_map, List.filter_map]
    rw [List.attach_map_subtype_val]
    exact hstable

end RecordStore.Sorting
