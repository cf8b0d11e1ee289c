import Mathlib.Data.Rat.Cast.Order
import Mathlib.Order.Compare
import Mathlib.Tactic.Common
import RecordStore.Proofs.Calendar.DayNumber
import RecordStore.Proofs.Value.Induction
import RecordStore.Proofs.Value.Sameness

/-!
# The order of values

Not all values compare, and those that do are compared differently by kind, lists by their first items that
are not the same, which may be of any kind.  But as far as values compare their comparisons fit together as
those of a linear order do, and of values that compare with themselves those that are the same are those
that are equal in the order.  What is not a number is the same as itself and does not compare with itself;
as an item of a list it is passed over beside itself nevertheless.

A value without parts is compared by its identity, and nothing else about it counts.
-/

namespace RecordStore

/-! ## Outcomes that fit together -/

/-- The outcomes of comparing a first thing with a second, the second with a third, and the first with the
third fit together: equal things compare alike, and what goes the same way twice goes that way. -/
structure Agree (ab bc ac : Ordering) : Prop where
  left : ab = .eq → ac = bc
  right : bc = .eq → ac = ab
  chain : ab = bc → ac = ab

namespace Agree

variable {ab bc ac ab' bc' ac' : Ordering}

/-- Comparisons by a linear order fit together. -/
lemma of_transCmp {α : Type} (cmp : α → α → Ordering) [Std.TransCmp cmp] (a b c : α) :
    Agree (cmp a b) (cmp b c) (cmp a c) where
  left hab := Std.TransCmp.congr_left hab
  right hbc := (Std.TransCmp.congr_right hbc).symm
  chain h := by
    cases hab : cmp a b with
    | lt => exact Std.TransCmp.lt_trans hab (h ▸ hab)
    | eq => exact Std.TransCmp.eq_trans hab (h ▸ hab)
    | gt => exact Std.TransCmp.gt_trans hab (h ▸ hab)

/-- Comparisons fit together if they are decided by comparisons that do, and, where all of these are equal,
fit together themselves. -/
lemma lexicographic (h : Agree ab bc ac) (hab : ab ≠ .eq → ab' = ab) (hbc : bc ≠ .eq → bc' = bc)
    (hac : ac ≠ .eq → ac' = ac) (htail : ab = .eq → bc = .eq → ac = .eq → Agree ab' bc' ac') :
    Agree ab' bc' ac' := by
  obtain ⟨hleft, hright, hchain⟩ := h
  by_cases hab' : ab = .eq
  · obtain rfl := hleft hab'
    by_cases hbc' : ac = .eq
    · exact htail hab' hbc' hbc'
    · obtain rfl := hbc hbc'
      obtain rfl := hac hbc'
      exact ⟨fun _ => rfl, fun heq => absurd heq hbc', fun heq => heq.symm⟩
  · obtain rfl := hab hab'
    by_cases hbc' : bc = .eq
    · obtain rfl := hright hbc'
      obtain rfl := hac hab'
      exact ⟨fun heq => absurd heq hab', fun _ => rfl, fun _ => rfl⟩
    · obtain rfl := hbc hbc'
      refine ⟨fun heq => absurd heq hab', fun heq => absurd heq hbc', fun heq => ?_⟩
      obtain rfl := hchain heq
      exact hac hab'

/-- What compares with itself as equal compares with another thing the other way round than that with it. -/
lemma swap {ba : Ordering} (h : Agree ab ba .eq) : ba = ab.swap := by
  obtain ⟨hleft, hright, hchain⟩ := h
  cases ab <;> cases ba <;> simp_all

end Agree

/-! ## Places on the line -/

namespace Position

/-- Places between the ends of the line are compared as rational numbers. -/
lemma compare_at (p q : Rat) : Position.compare (.at p) (.at q) = Ord.compare p q := by
  rw [LinearOrder.compare_eq_compareOfLessAndEq]
  rfl

instance : Std.OrientedCmp Position.compare where
  eq_swap {p q} := by
    cases p <;> cases q <;> first | rfl | (rw [compare_at, compare_at]; exact Std.OrientedCmp.eq_swap)

instance : Std.TransCmp Position.compare where
  isLE_trans {p q r} hpq hqr := by
    cases p <;> cases q <;> cases r <;> first | rfl | contradiction | skip
    rw [compare_at] at *
    exact Std.TransCmp.isLE_trans hpq hqr

instance : Std.LawfulEqCmp Position.compare where
  compare_self {p} := by
    cases p with
    | «at» value => exact (compare_at value value).trans Std.ReflCmp.compare_self
    | _ => rfl
  eq_of_compare {p q} h := by
    cases p <;> cases q <;> first | rfl | contradiction | skip
    rw [compare_at] at h
    rw [Std.LawfulEqCmp.eq_of_compare h]

end Position

/-- The place of a number is told by what it is as a key. -/
lemma Number.position?_eq_identity (n : Number) :
    n.position? = match n.identity with | .at p => some p | .notNumber _ => none := by
  cases n with
  | binary x => cases x <;> rfl
  | _ => rfl

namespace Value

/-! ## Values without parts -/

/-- The order of values without parts by what they are as keys; nothing if they do not compare. -/
def Identity.compare? : Identity → Identity → Option Ordering
  | .number (.at p), .number (.at q) => some (p.compare q)
  | .text s, .text t => some (Ord.compare s t)
  | .date d, .date e => some (d.compare e)
  | .timestamp aware i, .timestamp aware' j =>
    if aware = aware' then some (Ord.compare i j) else none
  | _, _ => none

/-- Numbers are compared by what they are as keys. -/
lemma Identity.compare?_number (m n : Number) :
    Identity.compare? (.number m.identity) (.number n.identity) = m.compare? n := by
  rw [Number.compare?, Number.position?_eq_identity, Number.position?_eq_identity]
  cases m.identity <;> cases n.identity <;> rfl

/-- The identity of a number. -/
lemma identity?_of_number? {a : Value} {m : Number} (ha : a.number? = some m) :
    a.identity? = some (.number m.identity) := by
  cases a <;> cases ha <;> rfl

/-- Values without parts compare if they do so by what they are as keys. -/
lemma compareScalar_eq_ordered_iff {a b : Value} {x y : Identity} (ha : a.identity? = some x)
    (hb : b.identity? = some y) {o : Ordering} :
    compareScalar a b = .ordered o ↔ x.compare? y = some o := by
  cases hm : a.number? with
  | some m =>
    obtain rfl := Option.some.inj ((identity?_of_number? hm).symm.trans ha)
    cases hn : b.number? with
    | some n =>
      obtain rfl := Option.some.inj ((identity?_of_number? hn).symm.trans hb)
      rw [Identity.compare?_number]
      unfold compareScalar
      cases hcompare : m.compare? n <;> simp [hm, hn, hcompare]
    | none =>
      have hfalse : compareScalar a b = .incomparable := by
        cases a <;> cases hm <;> cases b <;> first | rfl | cases hn
      rw [hfalse]
      cases b <;> cases hn <;> cases hb <;> cases m.identity <;> simp [Identity.compare?]
  | none =>
    cases a <;> cases hm <;> cases ha <;> cases b <;> cases hb <;>
      simp only [compareScalar, number?, Identity.compare?, Timestamp.compare?, Timestamp.identity] <;>
      first | simp | (split <;> simp_all)

/-- A value without parts compares with those without parts, by what they are as keys. -/
lemma compare_eq_ordered_iff {a b : Value} {x : Identity} (ha : a.identity? = some x) {o : Ordering} :
    a.compare b = .ordered o ↔ ∃ y, b.identity? = some y ∧ x.compare? y = some o := by
  have hscalar : a.compare b = a.compareScalar b := by
    cases a <;> first | rfl | cases ha
  rw [hscalar]
  cases hb : b.identity? with
  | some y => simp [compareScalar_eq_ordered_iff ha hb]
  | none =>
    have hfalse : a.compareScalar b = .incomparable := by
      cases a <;> cases ha <;> cases b <;> first | rfl | cases hb
    simp [hfalse]

/-- As keys, values that are equal in the order are the same. -/
lemma Identity.eq_of_compare? {x y : Identity} (h : x.compare? y = some .eq) : x = y := by
  unfold compare? at h
  split at h
  · rw [Std.LawfulEqCmp.eq_of_compare (Option.some.inj h)]
  · rw [Std.LawfulEqCmp.eq_of_compare (Option.some.inj h)]
  · rename_i d e
    rw [Date.dayNumber_injective (Std.LawfulEqCmp.eq_of_compare (Option.some.inj h))]
  · split at h
    · rename_i haware
      rw [haware, Std.LawfulEqCmp.eq_of_compare (Option.some.inj h)]
    · cases h
  · cases h

/-- What compares as a key compares with itself, as equal. -/
lemma Identity.compare?_self {x y : Identity} {o : Ordering} (h : x.compare? y = some o) :
    x.compare? x = some .eq ∧ y.compare? y = some .eq := by
  unfold compare? at h
  split at h
  · simp [compare?, Std.ReflCmp.compare_self]
  · simp [compare?, Std.ReflCmp.compare_self]
  · simp [compare?, Date.compare, Std.ReflCmp.compare_self]
  · simp [compare?, Std.ReflCmp.compare_self]
  · cases h

/-- The comparisons of keys fit together. -/
lemma Identity.agree {x y z : Identity} {xy yz xz : Ordering} (hxy : x.compare? y = some xy)
    (hyz : y.compare? z = some yz) (hxz : x.compare? z = some xz) : Agree xy yz xz := by
  unfold compare? at hxy
  split at hxy
  · cases z with
    | number m =>
      cases m with
      | «at» r =>
        cases hxy
        cases hyz
        cases hxz
        exact .of_transCmp Position.compare _ _ _
      | notNumber payload => cases hyz
    | _ => cases hyz
  · cases z <;> cases hyz
    cases hxy
    cases hxz
    exact .of_transCmp Ord.compare _ _ _
  · cases z <;> cases hyz
    cases hxy
    cases hxz
    exact .of_transCmp (Ord.compare (α := Nat)) _ _ _
  · cases z with
    | timestamp aware k =>
      simp only [compare?] at hyz hxz
      split at hxy <;> split at hyz <;> split at hxz <;> cases hxy <;> cases hyz <;> cases hxz
      exact .of_transCmp Ord.compare _ _ _
    | _ => cases hyz
  · cases hxy

/-! ## Sameness and equality in the order -/

/-- Lists that are the same item by item are equal in the order. -/
lemma compareAll_of_sameAll {as bs : List Value} (h : sameAll as bs = true) :
    compareAll as bs = .ordered .eq := by
  induction as generalizing bs with
  | nil => cases bs <;> first | rfl | cases h
  | cons a as ih =>
    cases bs with
    | nil => cases h
    | cons b bs =>
      rw [sameAll, Bool.and_eq_true] at h
      rw [compareAll, if_pos h.1, ih h.2]

/-- A list is equal to itself in the order. -/
lemma compareAll_self (as : List Value) : compareAll as as = .ordered .eq :=
  compareAll_of_sameAll (sameAll_self as)

/-- What compares with anything compares with itself, as equal. -/
theorem compare_self_of_ordered {a b : Value} {o : Ordering} (h : a.compare b = .ordered o) :
    a.compare a = .ordered .eq ∧ b.compare b = .ordered .eq := by
  cases hx : a.identity? with
  | some x =>
    obtain ⟨y, hy, hxy⟩ := (compare_eq_ordered_iff hx).mp h
    obtain ⟨hself, hself'⟩ := Identity.compare?_self hxy
    exact ⟨(compare_eq_ordered_iff hx).mpr ⟨x, hx, hself⟩, (compare_eq_ordered_iff hy).mpr ⟨y, hy, hself'⟩⟩
  | none =>
    cases a <;> cases hx <;> cases b <;> first | cases h | exact ⟨compareAll_self _, compareAll_self _⟩

/-- Values that are the same both compare with themselves, or neither does. -/
lemma compare_self_congr {a b : Value} (h : a.same b = true) :
    a.compare a = .ordered .eq ↔ b.compare b = .ordered .eq := by
  cases hx : a.identity? with
  | some x =>
    have hy := (same_iff_identity hx).mp h
    rw [compare_eq_ordered_iff hx, compare_eq_ordered_iff hy, hx, hy]
  | none =>
    cases a <;> cases hx <;> cases b <;> first | cases h | skip
    · simp only [compare, compareAll_self]
    · simp only [compare, compareAll_self]
    · simp only [compare]

/-- A value that compares with itself is equal in the order to those that are the same. -/
theorem compare_of_same {a b : Value} (h : a.same b = true) (ha : a.compare a = .ordered .eq) :
    a.compare b = .ordered .eq := by
  cases hx : a.identity? with
  | some x =>
    obtain ⟨y, hy, hxy⟩ := (compare_eq_ordered_iff hx).mp ha
    obtain rfl := Option.some.inj (hx.symm.trans hy)
    exact (compare_eq_ordered_iff hx).mpr ⟨x, (same_iff_identity hx).mp h, hxy⟩
  | none =>
    cases a <;> cases hx <;> cases b <;> first | cases h | skip
    · exact compareAll_of_sameAll h
    · exact compareAll_of_sameAll h
    · cases ha

/-- Lists are the same item by item if they are equal in the order, provided that this is so of the items of
the first. -/
lemma sameAll_of_compareAll {as bs : List Value}
    (hitems : ∀ a ∈ as, ∀ b, a.compare b = .ordered .eq → a.same b = true)
    (h : compareAll as bs = .ordered .eq) : sameAll as bs = true := by
  induction as generalizing bs with
  | nil => cases bs <;> first | rfl | cases h
  | cons a as ih =>
    cases bs with
    | nil => cases h
    | cons b bs =>
      obtain ⟨hitem, hitems⟩ := List.forall_mem_cons.mp hitems
      rw [compareAll] at h
      have hsame : a.same b = true := by
        by_contra hnot
        rw [if_neg hnot] at h
        exact hnot (hitem b h)
      rw [if_pos hsame] at h
      rw [sameAll, hsame, ih hitems h, Bool.and_self]

/-- Values that are equal in the order are the same. -/
theorem same_of_compare {a b : Value} (h : a.compare b = .ordered .eq) : a.same b = true := by
  induction a using inductionOn generalizing b with
  | scalar a ha =>
    obtain ⟨x, hx⟩ := Option.isSome_iff_exists.mp ha
    obtain ⟨y, hy, hxy⟩ := (compare_eq_ordered_iff hx).mp h
    rw [same_iff_identity hx, hy, Identity.eq_of_compare? hxy]
  | list items ih => cases b <;> first | cases h | exact sameAll_of_compareAll (fun a ha _ => ih a ha) h
  | tuple items ih => cases b <;> first | cases h | exact sameAll_of_compareAll (fun a ha _ => ih a ha) h
  | map entries => cases h

/-! ## The order -/

/-- The comparisons of a value with others, and of these with each other, fit together. -/
def Agrees (a : Value) : Prop :=
  ∀ {b c : Value} {ab bc ac : Ordering}, a.compare b = .ordered ab → b.compare c = .ordered bc →
    a.compare c = .ordered ac → Agree ab bc ac

/-- Lists whose first items compare are compared by these, unless they are equal. -/
lemma compareAll_cons_of_ordered {a b : Value} {as bs : List Value} {head o : Ordering}
    (hhead : a.compare b = .ordered head) (h : compareAll (a :: as) (b :: bs) = .ordered o) :
    (head ≠ .eq → o = head) ∧ (head = .eq → compareAll as bs = .ordered o) := by
  rw [compareAll] at h
  split at h
  · rename_i hsame
    have heq := hhead.symm.trans (compare_of_same hsame (compare_self_of_ordered hhead).1)
    exact ⟨fun hne => absurd (Comparison.ordered.inj heq) hne, fun _ => h⟩
  · rename_i hnot
    have heq := Comparison.ordered.inj (h.symm.trans hhead)
    exact ⟨fun _ => heq, fun heq => absurd (same_of_compare (heq ▸ hhead)) hnot⟩

/-- Among lists that compare, first items of which the one compares with itself compare. -/
lemma exists_ordered_head {a b : Value} {as bs : List Value} {o : Ordering}
    (h : compareAll (a :: as) (b :: bs) = .ordered o)
    (hself : a.compare a = .ordered .eq ∨ b.compare b = .ordered .eq) :
    ∃ head, a.compare b = .ordered head := by
  by_cases hsame : a.same b = true
  · exact ⟨.eq, compare_of_same hsame (hself.elim id (compare_self_congr hsame).mpr)⟩
  · rw [compareAll, if_neg hsame] at h
    exact ⟨o, h⟩

/-- The comparisons of lists fit together if those of the items do. -/
lemma agree_of_compareAll {as bs cs : List Value} {ab bc ac : Ordering} (hitems : ∀ a ∈ as, a.Agrees)
    (hab : compareAll as bs = .ordered ab) (hbc : compareAll bs cs = .ordered bc)
    (hac : compareAll as cs = .ordered ac) : Agree ab bc ac := by
  induction as generalizing bs cs ab bc ac with
  | nil =>
    cases bs with
    | nil =>
      cases hab
      obtain rfl := Comparison.ordered.inj (hbc.symm.trans hac)
      exact ⟨fun _ => rfl, id, Eq.symm⟩
    | cons b bs =>
      cases hab
      cases cs with
      | nil =>
        cases hbc
        cases hac
        exact ⟨nofun, nofun, nofun⟩
      | cons c cs =>
        cases hac
        exact ⟨nofun, fun _ => rfl, fun _ => rfl⟩
  | cons a as ih =>
    obtain ⟨hitem, hitems⟩ := List.forall_mem_cons.mp hitems
    cases bs with
    | nil =>
      cases hab
      cases cs with
      | nil =>
        cases hbc
        cases hac
        exact ⟨nofun, fun _ => rfl, fun _ => rfl⟩
      | cons c cs =>
        cases hbc
        exact ⟨nofun, nofun, nofun⟩
    | cons b bs =>
      cases cs with
      | nil =>
        cases hbc
        cases hac
        exact ⟨fun _ => rfl, nofun, Eq.symm⟩
      | cons c cs =>
        by_cases hself : a.compare a = .ordered .eq
        · obtain ⟨ab', hab'⟩ := exists_ordered_head hab (.inl hself)
          obtain ⟨bc', hbc'⟩ := exists_ordered_head hbc (.inl (compare_self_of_ordered hab').2)
          obtain ⟨ac', hac'⟩ := exists_ordered_head hac (.inl hself)
          have htail := compareAll_cons_of_ordered hab' hab
          have htail' := compareAll_cons_of_ordered hbc' hbc
          have htail'' := compareAll_cons_of_ordered hac' hac
          exact (hitem hab' hbc' hac').lexicographic htail.1 htail'.1 htail''.1 fun h h' h'' =>
            ih hitems (htail.2 h) (htail'.2 h') (htail''.2 h'')
        · -- an item that does not compare with itself stands only beside those that are the same
          have hsame : ∀ {d : Value} {ds : List Value} {o : Ordering},
              compareAll (a :: as) (d :: ds) = .ordered o → a.same d = true := by
            intro d ds o h
            by_contra hnot
            rw [compareAll, if_neg hnot] at h
            exact hself (compare_self_of_ordered h).1
          have hsame' : b.same c = true := by
            by_contra hnot
            rw [compareAll, if_neg hnot] at hbc
            exact hself ((compare_self_congr (hsame hab)).mpr (compare_self_of_ordered hbc).1)
          rw [compareAll, if_pos (hsame hab)] at hab
          rw [compareAll, if_pos hsame'] at hbc
          rw [compareAll, if_pos (hsame hac)] at hac
          exact ih hitems hab hbc hac

/-- The comparisons of values fit together. -/
theorem agrees (a : Value) : a.Agrees := by
  induction a using inductionOn with
  | scalar a ha =>
    obtain ⟨x, hx⟩ := Option.isSome_iff_exists.mp ha
    intro b c ab bc ac hab hbc hac
    obtain ⟨y, hy, hxy⟩ := (compare_eq_ordered_iff hx).mp hab
    obtain ⟨z, hz, hyz⟩ := (compare_eq_ordered_iff hy).mp hbc
    obtain ⟨z', hz', hxz⟩ := (compare_eq_ordered_iff hx).mp hac
    obtain rfl := Option.some.inj (hz.symm.trans hz')
    exact Identity.agree hxy hyz hxz
  | list items ih =>
    intro b c ab bc ac hab hbc hac
    cases b <;> cases c <;> first | cases hab | cases hbc | exact agree_of_compareAll ih hab hbc hac
  | tuple items ih =>
    intro b c ab bc ac hab hbc hac
    cases b <;> cases c <;> first | cases hab | cases hbc | exact agree_of_compareAll ih hab hbc hac
  | map entries =>
    intro b c ab bc ac hab
    cases hab

/-- Whether two values compare, each with the other. -/
def Comparable (a b : Value) : Prop :=
  (∃ o, a.compare b = .ordered o) ∧ ∃ o, b.compare a = .ordered o

/-- It does not matter which of two values is the first. -/
lemma Comparable.symm {a b : Value} (h : a.Comparable b) : b.Comparable a :=
  And.symm h

/-- Two values that compare both ways do so the other way round the other way. -/
theorem compare_swap {a b : Value} {o o' : Ordering} (h : a.compare b = .ordered o)
    (h' : b.compare a = .ordered o') : o' = o.swap :=
  (a.agrees h h' (compare_self_of_ordered h).1).swap

end Value

end RecordStore
