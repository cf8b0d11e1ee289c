import Mathlib.Data.List.Basic
import Mathlib.Data.Rat.Cast.Order
import Mathlib.Tactic.Common
import RecordStore.Value.Order

/-!
# Values as keys

Two values coincide as keys if they are the same.  On values without parts sameness is equality of
their identities, and on tuples it goes item by item, so that on the values that can be keys it is
an equivalence relation.  On the others it is not: a list of entries in which one entry stands twice
may be the same as another list, and the other way round not.

Equality differs from sameness only on what is not a number.  Numbers as row ids are kept apart and
ordered as integers are.
-/

namespace RecordStore

namespace Value

/-! ## Sameness of values without parts -/

/-- A value without parts is the same as exactly the values of its identity. -/
lemma same_iff_identity {a b : Value} {x : Identity} (ha : a.identity? = some x) :
    a.same b = true ↔ b.identity? = some x := by
  have hsame : a.same b = a.sameScalar b := by
    cases a <;> first | rfl | simp [identity?] at ha
  rw [hsame, sameScalar, ha]
  cases b.identity? with
  | none => simp
  | some y => simp [eq_comm]

/-- Only a value of the same identity is the same as a given value without parts. -/
lemma same_iff_identity_right {a b : Value} {x : Identity} (hb : b.identity? = some x) :
    a.same b = true ↔ a.identity? = some x := by
  cases ha : a.identity? with
  | some y => rw [same_iff_identity ha, hb, eq_comm]
  | none =>
    have hfalse : a.same b = false := by
      cases a <;> cases b <;> first | rfl | simp [identity?] at ha hb
    simp [hfalse]

/-! ## Sameness is an equivalence on keys -/

mutual

/-- Every value is the same as itself. -/
theorem same_self (a : Value) : a.same a = true := by
  cases a with
  | null => rfl
  | bool b => exact (same_iff_identity rfl).mpr rfl
  | int i => exact (same_iff_identity rfl).mpr rfl
  | float x => exact (same_iff_identity rfl).mpr rfl
  | text s => exact (same_iff_identity rfl).mpr rfl
  | date d => exact (same_iff_identity rfl).mpr rfl
  | timestamp t => exact (same_iff_identity rfl).mpr rfl
  | list items => exact sameAll_self items
  | tuple items => exact sameAll_self items
  | map entries =>
    have hwithin := sameWithin_of_subset entries entries (fun _ h => h)
    simpa [same] using hwithin

/-- Every list of values is the same as itself. -/
theorem sameAll_self (as : List Value) : sameAll as as = true := by
  cases as with
  | nil => rfl
  | cons a rest => simp [sameAll, same_self a, sameAll_self rest]

/-- Entries are all found in every list that has them. -/
theorem sameWithin_of_subset (as bs : List (Value × Value)) (h : ∀ e ∈ as, e ∈ bs) :
    sameWithin as bs = true := by
  cases as with
  | nil => rfl
  | cons entry rest =>
    have hrest := sameWithin_of_subset rest bs fun e he => h e (List.mem_cons_of_mem _ he)
    have hfirst : bs.any (sameEntry entry) = true :=
      List.any_eq_true.mpr ⟨entry, h entry List.mem_cons_self, sameEntry_self entry⟩
    simp [sameWithin, hfirst, hrest]

/-- Every entry is the same as itself. -/
theorem sameEntry_self (entry : Value × Value) : sameEntry entry entry = true := by
  obtain ⟨key, v⟩ := entry
  simp [sameEntry, same_self key, same_self v]

end

mutual

/-- Values that are the same can be keys together or not at all. -/
theorem isHashable_congr {a b : Value} (h : a.same b = true) : a.isHashable = b.isHashable := by
  cases a with
  | list as => cases b <;> first | rfl | simp [same] at h
  | map as => cases b <;> first | rfl | simp [same] at h
  | tuple as =>
    cases b with
    | tuple bs =>
      simp only [same] at h
      simpa only [isHashable] using hashableAll_congr h
    | _ => simp [same] at h
  | _ => cases b <;> first | rfl | simp [same, sameScalar, identity?] at h

/-- Lists of values that are the same can be parts of keys together or not at all. -/
theorem hashableAll_congr {as bs : List Value} (h : sameAll as bs = true) :
    isHashable.hashableAll as = isHashable.hashableAll bs := by
  cases as with
  | nil => cases bs <;> first | rfl | simp [sameAll] at h
  | cons a as =>
    cases bs with
    | nil => simp [sameAll] at h
    | cons b bs =>
      simp only [sameAll, Bool.and_eq_true] at h
      simp only [isHashable.hashableAll, isHashable_congr h.1, hashableAll_congr h.2]

end

mutual

/-- On keys, sameness is symmetric. -/
theorem same_symm {a b : Value} (ha : a.isHashable = true) (h : a.same b = true) :
    b.same a = true := by
  cases a with
  | list as => simp [isHashable] at ha
  | map as => simp [isHashable] at ha
  | tuple as =>
    cases b with
    | tuple bs => exact sameAll_symm ha h
    | _ => simp [same] at h
  | _ =>
    rw [same_iff_identity rfl] at h
    exact (same_iff_identity h).mpr rfl

/-- On parts of keys, sameness item by item is symmetric. -/
theorem sameAll_symm {as bs : List Value} (ha : isHashable.hashableAll as = true)
    (h : sameAll as bs = true) : sameAll bs as = true := by
  cases as with
  | nil => cases bs <;> first | rfl | simp [sameAll] at h
  | cons a as =>
    cases bs with
    | nil => simp [sameAll] at h
    | cons b bs =>
      simp only [isHashable.hashableAll, Bool.and_eq_true] at ha
      simp only [sameAll, Bool.and_eq_true] at h ⊢
      exact ⟨same_symm ha.1 h.1, sameAll_symm ha.2 h.2⟩

end

mutual

/-- On keys, sameness is transitive. -/
theorem same_trans {a b c : Value} (ha : a.isHashable = true) (hab : a.same b = true)
    (hbc : b.same c = true) : a.same c = true := by
  cases a with
  | list as => simp [isHashable] at ha
  | map as => simp [isHashable] at ha
  | tuple as =>
    cases b with
    | tuple bs =>
      cases c with
      | tuple cs => exact sameAll_trans ha hab hbc
      | _ => simp [same] at hbc
    | _ => simp [same] at hab
  | _ =>
    rw [same_iff_identity rfl] at hab ⊢
    rwa [same_iff_identity hab] at hbc

/-- On parts of keys, sameness item by item is transitive. -/
theorem sameAll_trans {as bs cs : List Value} (ha : isHashable.hashableAll as = true)
    (hab : sameAll as bs = true) (hbc : sameAll bs cs = true) : sameAll as cs = true := by
  cases as with
  | nil =>
    cases bs with
    | nil => exact hbc
    | cons b bs => simp [sameAll] at hab
  | cons a as =>
    cases bs with
    | nil => simp [sameAll] at hab
    | cons b bs =>
      cases cs with
      | nil => simp [sameAll] at hbc
      | cons c cs =>
        simp only [isHashable.hashableAll, Bool.and_eq_true] at ha
        simp only [sameAll, Bool.and_eq_true] at hab hbc ⊢
        exact ⟨same_trans ha.1 hab.1 hbc.1, sameAll_trans ha.2 hab.2 hbc.2⟩

end

/-! ## The same in terms of keys -/

/-- Every value is the same key as itself. -/
@[simp] lemma beq_self (a : Value) : (a == a) = true :=
  same_self a

/-- Being the same key is reflexive. -/
instance : ReflBEq Value :=
  ⟨beq_self _⟩

/-- A key and a value are the same whichever way they are compared. -/
lemma beq_comm {a b : Value} (ha : a.isHashable = true) : (a == b) = (b == a) := by
  rw [Bool.eq_iff_iff]
  constructor
  · exact fun h => same_symm ha h
  · intro h
    exact same_symm ((isHashable_congr h).trans ha) h

/-- Values that are the same key as a third one are the same key. -/
lemma beq_trans {a b c : Value} (ha : a.isHashable = true) (hab : (a == b) = true)
    (hbc : (b == c) = true) : (a == c) = true :=
  same_trans ha hab hbc

/-- What is the same as a key is a key. -/
lemma isHashable_of_beq {a b : Value} (ha : a.isHashable = true) (h : (a == b) = true) :
    b.isHashable = true :=
  (isHashable_congr h).symm.trans ha

/-- Keys that are the same are the same as the same values. -/
lemma beq_congr_left {a b : Value} (ha : a.isHashable = true) (h : (a == b) = true) (c : Value) :
    (a == c) = (b == c) := by
  have hb := isHashable_of_beq ha h
  rw [Bool.eq_iff_iff]
  constructor
  · intro hac
    exact beq_trans hb (same_symm ha h) hac
  · exact fun hbc => beq_trans ha h hbc

/-- The same values are the same as keys that are the same. -/
lemma beq_congr_right {a b : Value} (ha : a.isHashable = true) (h : (a == b) = true) (c : Value) :
    (c == a) = (c == b) := by
  rw [Bool.eq_iff_iff]
  constructor
  · intro hca
    exact beq_trans ((isHashable_congr hca).trans ha) hca h
  · intro hcb
    have hb := isHashable_of_beq ha h
    exact beq_trans ((isHashable_congr hcb).trans hb) hcb (same_symm ha h)

/-- Nothing is the same as absence but absence. -/
lemma isNull_congr {a b : Value} (h : (a == b) = true) : a.isNull = b.isNull := by
  have hnull : ∀ v : Value, v.isNull = true ↔ v.identity? = some .null := fun v => by
    cases v <;> simp [isNull, identity?]
  rw [Bool.eq_iff_iff, hnull, hnull]
  constructor
  · exact fun ha => (same_iff_identity ha).mp h
  · exact fun hb => (same_iff_identity_right hb).mp h

/-! ## Equality -/

/-- A value without parts that is a number if it is floating-point: what a column that can be
indexed holds in canonical form. -/
def isPlain (v : Value) : Bool :=
  v.identity?.isSome && !v.isNotNumber

/-- Plain values can be keys. -/
lemma isHashable_of_isPlain {v : Value} (h : v.isPlain = true) : v.isHashable = true := by
  cases v <;> first | rfl | simp [isPlain, identity?] at h

/-- A value that is a number, or none at all, equals what it is the same as. -/
lemma equals_eq_beq {v : Value} (h : v.isNotNumber = false) (w : Value) :
    v.equals w = (v == w) := by
  simp only [equals, h, Bool.not_false, Bool.and_true]
  rfl

/-- Whether a value is a number or not shows in its identity. -/
lemma isNotNumber_eq_identity (v : Value) :
    v.isNotNumber = match v.identity? with
      | some (.number (.notNumber _)) => true
      | _ => false := by
  cases v with
  | float x => cases x <;> rfl
  | _ => rfl

/-- Values that are the same are both no numbers, or neither is. -/
lemma isNotNumber_congr {v w : Value} (h : (v == w) = true) : v.isNotNumber = w.isNotNumber := by
  rw [isNotNumber_eq_identity, isNotNumber_eq_identity]
  cases hv : v.identity? with
  | some x => rw [(same_iff_identity hv).mp h]
  | none =>
    cases hw : w.identity? with
    | none => rfl
    | some y =>
      rw [(same_iff_identity_right hw).mp h] at hv
      cases hv

/-- A value equals an operand that is a number, or none at all, if it is the same. -/
lemma equals_eq_beq_of_operand (v : Value) {w : Value} (h : w.isNotNumber = false) :
    v.equals w = (v == w) := by
  cases hv : v.isNotNumber with
  | false => exact equals_eq_beq hv w
  | true =>
    have hne : (v == w) = false := by
      rw [Bool.eq_false_iff]
      intro hvw
      rw [isNotNumber_congr hvw, h] at hv
      cases hv
    simp [equals, hv, hne]

/-! ## Row ids -/

/-- Integers are the same key if they are the same integer. -/
@[simp] lemma int_beq_int (i j : Int) : (Value.int i == Value.int j) = decide (i = j) := by
  have hsame : (Value.int i).same (.int j) = true ↔ i = j := by
    rw [same_iff_identity rfl]
    simp [identity?, Number.identity, eq_comm]
  rw [Bool.eq_iff_iff, decide_eq_true_iff]
  exact hsame

/-- Whether an integer is among some does not depend on whether they are values. -/
lemma contains_map_int (is : List Int) (i : Int) :
    (is.map Value.int).contains (.int i) = is.contains i := by
  induction is with
  | nil => rfl
  | cons j rest ih => rw [List.map_cons, List.contains_cons, List.contains_cons, ih, int_beq_int, beq_eq_decide]

/-- Integers are known by their values. -/
lemma map_int_injective : Function.Injective (List.map Value.int) :=
  List.map_injective_iff.mpr fun _ _ => Value.int.inj

/-- An integer is among some if it is among them as a value. -/
lemma int_mem_map_int {is : List Int} {i : Int} : Value.int i ∈ is.map Value.int ↔ i ∈ is :=
  List.mem_map_of_injective fun _ _ => Value.int.inj

/-- Integers are ordered as values the way they are ordered. -/
lemma compare_int_int (i j : Int) :
    (Value.int i).compare (.int j) =
      .ordered (if i < j then .lt else if i = j then .eq else .gt) := by
  simp only [Value.compare, compareScalar, number?, Number.compare?, Number.position?,
    Position.compare]
  simp

end Value

end RecordStore
