import RecordStore.Index
import RecordStore.Proofs.Entries

/-!
# What an index denotes

An index whose ids are integers stands for a set of pairs of an id and a value: the ids in the
bucket of a value are those paired with something that is the same.  An index is regular if its
keys can be keys, are present and distinct, and every bucket lists at least one id in ascending
order.  Entering a row adds its pair, taking a row out removes it, and both keep the index regular.
-/

namespace RecordStore.Index

/-! ## Buckets as ordered entries -/

/-- Putting an integer in its place among ascending integers. -/
lemma insertId_int {is : List Int} (h : is.Pairwise (· < ·)) (i : Int) :
    ∃ js : List Int, insertId (.int i) (is.map .int) = js.map .int ∧ js.Pairwise (· < ·) ∧
      ∀ j, j ∈ js ↔ j = i ∨ j ∈ is := by
  induction is with
  | nil => exact ⟨[i], rfl, List.pairwise_singleton _ _, by simp⟩
  | cons first rest ih =>
    obtain ⟨hfirst, hrest⟩ := List.pairwise_cons.mp h
    rw [List.map_cons, insertId, Value.int_beq_int, Value.compare_int_int]
    rcases lt_trichotomy i first with hlt | rfl | hgt
    · refine ⟨i :: first :: rest, ?_, ?_, fun j => List.mem_cons⟩
      · simp [hlt, hlt.ne']
      · refine List.pairwise_cons.mpr ⟨fun j hj => ?_, h⟩
        rcases List.mem_cons.mp hj with rfl | hj
        · exact hlt
        · exact hlt.trans (hfirst j hj)
    · exact ⟨i :: rest, by simp, h, by simp⟩
    · obtain ⟨js, heq, hasc, hmem⟩ := ih hrest
      refine ⟨first :: js, ?_, ?_, fun j => ?_⟩
      · simp [hgt.ne, hgt.not_gt, hgt.ne', heq]
      · refine List.pairwise_cons.mpr ⟨fun j hj => ?_, hasc⟩
        rcases (hmem j).mp hj with rfl | hj
        · exact hgt
        · exact hfirst j hj
      · rw [List.mem_cons, hmem, List.mem_cons]
        tauto

/-- Adding an id puts the bucket with the id in it under the key. -/
lemma addTo_eq_put {key : Value} (hkey : key.isHashable = true) (id : RowId)
    (buckets : List (Value × List RowId)) :
    addTo key id buckets =
      Entries.put key (insertId id ((buckets.lookup key).getD [])) buckets := by
  induction buckets with
  | nil => rfl
  | cons bucket rest ih =>
    obtain ⟨k, ids⟩ := bucket
    rw [addTo, Entries.put, List.lookup_cons, Value.beq_comm hkey]
    cases hk : k == key with
    | true => rfl
    | false => simp [ih]

/-- Removing an id puts the bucket without the id under the key, or removes the key if the bucket is
left empty. -/
lemma removeFrom_eq {key : Value} (hkey : key.isHashable = true) (id : RowId)
    {buckets : List (Value × List RowId)} (hdistinct : Entries.Distinct buckets)
    {ids : List RowId} (hids : buckets.lookup key = some ids) :
    removeFrom key id buckets =
      if (ids.filter fun other => !(other == id)).isEmpty then Entries.drop key buckets
      else Entries.put key (ids.filter fun other => !(other == id)) buckets := by
  induction buckets with
  | nil => simp at hids
  | cons bucket rest ih =>
    obtain ⟨k, ids'⟩ := bucket
    obtain ⟨hfirst, hrest⟩ := List.pairwise_cons.mp hdistinct
    rw [List.lookup_cons, Value.beq_comm hkey] at hids
    cases hk : k == key with
    | true =>
      rw [hk] at hids
      obtain rfl : ids' = ids := by simpa using hids
      have hdrop : Entries.drop key rest = rest := by
        refine List.filter_eq_self.mpr fun entry hmem => ?_
        have hkk : k.isHashable = true := (Value.isHashable_congr hk).trans hkey
        have hne : (entry.1 == key) = false := by
          rw [← Value.beq_comm hkey, ← Value.beq_congr_left hkk hk]
          exact hfirst entry hmem
        simp [hne]
      rw [removeFrom, Entries.put, Entries.drop, List.filter_cons_of_neg (by simp [hk]),
        ← Entries.drop, hdrop]
      simp [hk]
    | false =>
      rw [hk] at hids
      rw [removeFrom, Entries.put, Entries.drop, List.filter_cons_of_pos (by simp [hk]),
        ← Entries.drop]
      simp only [hk, Bool.false_eq_true, if_false]
      rw [ih hrest hids]
      split <;> rfl

/-! ## Regular indexes -/

/-- The invariants of an index whose ids are integers. -/
structure Regular (index : Index) : Prop where
  /-- Every key can be a key. -/
  hashable : ∀ bucket ∈ index.buckets, bucket.1.isHashable = true
  /-- Absence is no key. -/
  present : ∀ bucket ∈ index.buckets, bucket.1.isNull = false
  /-- No key has two buckets. -/
  distinct : Entries.Distinct index.buckets
  /-- Every bucket lists at least one id, in ascending order. -/
  ascending : ∀ bucket ∈ index.buckets,
    ∃ is : List Int, bucket.2 = is.map .int ∧ is.Pairwise (· < ·) ∧ is ≠ []

/-- The index of a column without rows is regular. -/
lemma regular_empty (column : Value) : (empty column).Regular :=
  ⟨by simp [empty], by simp [empty], List.Pairwise.nil, by simp [empty]⟩

/-- In a regular index the ids under a value are integers in ascending order. -/
lemma Regular.ids_ascending {index : Index} (h : index.Regular) (v : Value) :
    ∃ is : List Int, index.ids v = is.map .int ∧ is.Pairwise (· < ·) := by
  rw [ids, bucket?]
  cases hids : index.buckets.lookup v with
  | none => exact ⟨[], rfl, List.Pairwise.nil⟩
  | some ids =>
    obtain ⟨k, hmem, -⟩ := Entries.mem_of_lookup_eq_some hids
    obtain ⟨is, heq, hasc, -⟩ := h.ascending _ hmem
    exact ⟨is, heq, hasc⟩

/-- Integers compare with each other. -/
lemma areComparable_int (is : List Int) : areComparable (is.map .int) = true := by
  induction is with
  | nil => rfl
  | cons first rest ih => simp [areComparable, ih, Value.compare_int_int]

/-- In a regular index every key can be looked up. -/
lemma Regular.lookup_eq {index : Index} (h : index.Regular) {v : Value}
    (hv : v.isHashable = true) : index.lookup v = .ok (index.ids v) := by
  obtain ⟨is, heq, -⟩ := h.ids_ascending v
  rw [lookup, hv, heq, areComparable_int]
  rfl

/-- In a regular index there is nothing under an absent value. -/
lemma Regular.ids_null {index : Index} (h : index.Regular) {v : Value} (hv : v.isNull = true) :
    index.ids v = [] := by
  rw [ids, bucket?]
  cases hids : index.buckets.lookup v with
  | none => rfl
  | some ids =>
    obtain ⟨k, hmem, hk⟩ := Entries.mem_of_lookup_eq_some hids
    have hpresent := h.present _ hmem
    rw [← Value.isNull_congr hk, hv] at hpresent
    cases hpresent

/-! ## Entering rows and taking them out -/

/-- An index with an id entered under a key. -/
def enter (index : Index) (v : Value) (id : RowId) : Index :=
  if v.isNull then index else { index with buckets := addTo v id index.buckets }

/-- An index with an id taken out from under a key. -/
def leave (index : Index) (v : Value) (id : RowId) : Index :=
  if v.isNull || !(index.ids v).any (· == id) then index
  else { index with buckets := removeFrom v id index.buckets }

/-- Entering an id leaves the column as it is. -/
@[simp] lemma enter_column (index : Index) (v : Value) (id : RowId) :
    (index.enter v id).column = index.column := by
  unfold enter
  split <;> rfl

/-- Taking an id out leaves the column as it is. -/
@[simp] lemma leave_column (index : Index) (v : Value) (id : RowId) :
    (index.leave v id).column = index.column := by
  unfold leave
  split <;> rfl

/-- An id is entered under whatever can be a key. -/
lemma add_eq_enter {v : Value} (hv : v.isHashable = true) (index : Index) (id : RowId) :
    index.add v id = .ok (index.enter v id) := by
  rw [add, enter, hv]
  split <;> rfl

/-- An id is taken out from under whatever can be a key, if it is there. -/
lemma remove_eq_leave {v : Value} (hv : v.isHashable = true) (index : Index) (id : RowId) :
    (index.remove v id).map (·.1) = .ok (index.leave v id) := by
  unfold remove leave
  cases v.isNull with
  | true => rfl
  | false =>
    rw [if_pos hv]
    cases (index.ids v).any (· == id) <;> rfl

/-- What is under a value after an id has been entered. -/
lemma ids_enter {key : Value} (hkey : key.isHashable = true) (hpresent : key.isNull = false)
    (index : Index) (id : RowId) (v : Value) :
    (index.enter key id).ids v =
      if key == v then insertId id (index.ids key) else index.ids v := by
  rw [enter, if_neg (by simp [hpresent])]
  simp only [ids, bucket?]
  rw [addTo_eq_put hkey, Entries.lookup_put hkey]
  split <;> rfl

/-- A key under which an id is found has a bucket. -/
lemma exists_lookup_of_any {index : Index} {key : Value} {id : RowId}
    (h : ¬(key.isNull || !(index.ids key).any (· == id)) = true) :
    ∃ stored, index.buckets.lookup key = some stored := by
  cases hstored : index.buckets.lookup key with
  | some stored => exact ⟨stored, rfl⟩
  | none => simp [ids, bucket?, hstored] at h

/-- What is under a value after an id has been taken out. -/
lemma ids_leave {index : Index} (h : index.Regular) {key : Value}
    (hkey : key.isHashable = true) (id : RowId) (v : Value) :
    (index.leave key id).ids v =
      if key == v then (index.ids key).filter fun other => !(other == id) else index.ids v := by
  have hcongr : ∀ {w}, (key == w) = true → index.ids w = index.ids key := fun hw => by
    rw [ids, ids, bucket?, bucket?, Entries.lookup_congr hkey hw]
  rw [leave]
  split
  · rename_i habsent
    split
    · rename_i hv
      rw [hcongr hv]
      refine (List.filter_eq_self.mpr fun other hother => ?_).symm
      rcases Bool.or_eq_true_iff.mp habsent with hnull | hnot
      · rw [h.ids_null hnull] at hother
        cases hother
      · have hall := List.any_eq_false.mp (by simpa using hnot) other hother
        simpa using hall
    · rfl
  · rename_i hthere
    obtain ⟨stored, hstored⟩ := exists_lookup_of_any hthere
    simp only [ids, bucket?]
    rw [removeFrom_eq hkey id h.distinct hstored, hstored]
    split
    · rename_i hempty
      rw [Entries.lookup_drop hkey, Option.getD_some, List.isEmpty_iff.mp hempty]
      split <;> rfl
    · rw [Entries.lookup_put hkey]
      split <;> rfl

/-- An index stays regular when a key that can be one gets a bucket with ids in ascending order. -/
lemma Regular.put {index : Index} (h : index.Regular) {key : Value} (hkey : key.isHashable = true)
    (hpresent : key.isNull = false) {is : List Int} (hasc : is.Pairwise (· < ·)) (hne : is ≠ []) :
    Regular { index with buckets := Entries.put key (is.map .int) index.buckets } := by
  refine ⟨fun bucket hb => ?_, fun bucket hb => ?_, Entries.distinct_put hkey _ h.distinct,
    fun bucket hb => ?_⟩
  · rcases Entries.mem_put hb with hb | ⟨-, hsame⟩
    · exact h.hashable bucket hb
    · exact (Value.isHashable_congr hsame).trans hkey
  · rcases Entries.mem_put hb with hb | ⟨-, hsame⟩
    · exact h.present bucket hb
    · exact (Value.isNull_congr hsame).trans hpresent
  · rcases Entries.mem_put hb with hb | ⟨hids, -⟩
    · exact h.ascending bucket hb
    · exact ⟨is, hids, hasc, hne⟩

/-- Entering an integer keeps an index regular. -/
theorem Regular.enter {index : Index} (h : index.Regular) {key : Value}
    (hkey : key.isHashable = true) (j : Int) : (index.enter key (.int j)).Regular := by
  rw [Index.enter]
  split
  · exact h
  · rename_i hpresent
    obtain ⟨is, his, hasc⟩ := h.ids_ascending key
    obtain ⟨js, hjs, hjasc, hjmem⟩ := insertId_int hasc j
    have hbuckets : addTo key (.int j) index.buckets =
        Entries.put key (js.map .int) index.buckets := by
      rw [← hjs, ← his]
      exact addTo_eq_put hkey _ _
    rw [hbuckets]
    exact h.put hkey (Bool.eq_false_iff.mpr hpresent) hjasc
      (List.ne_nil_of_mem ((hjmem j).mpr (Or.inl rfl)))

/-- Removing an integer from integers. -/
lemma filter_ne_int (is : List Int) (j : Int) :
    ((is.map Value.int).filter fun other => !(other == .int j)) =
      (is.filter fun i => !decide (i = j)).map .int := by
  rw [List.filter_map]
  congr 1
  exact List.filter_congr fun i _ => by simp

/-- Taking an integer out keeps an index regular. -/
theorem Regular.leave {index : Index} (h : index.Regular) {key : Value}
    (hkey : key.isHashable = true) (j : Int) : (index.leave key (.int j)).Regular := by
  rw [Index.leave]
  split
  · exact h
  · rename_i hthere
    obtain ⟨stored, hstored⟩ := exists_lookup_of_any hthere
    obtain ⟨k, hmem, hk⟩ := Entries.mem_of_lookup_eq_some hstored
    obtain ⟨is, his, hasc, -⟩ := h.ascending _ hmem
    obtain rfl : stored = is.map .int := his
    rw [removeFrom_eq hkey _ h.distinct hstored, filter_ne_int]
    split
    · have hsub : ∀ bucket ∈ Entries.drop key index.buckets, bucket ∈ index.buckets :=
        fun bucket hb => (List.mem_filter.mp hb).1
      exact ⟨fun bucket hb => h.hashable bucket (hsub bucket hb),
        fun bucket hb => h.present bucket (hsub bucket hb), Entries.distinct_drop key h.distinct,
        fun bucket hb => h.ascending bucket (hsub bucket hb)⟩
    · rename_i hrest
      have hpresent : key.isNull = false := (Value.isNull_congr hk).trans (h.present _ hmem)
      refine h.put hkey hpresent (hasc.sublist List.filter_sublist) fun hnil => ?_
      simp [hnil] at hrest

/-! ## Denotation -/

/-- An index denotes a set of pairs of an id and a value: the ids under a key are those paired with
a value that is the same. -/
structure Denotes (index : Index) (holds : Int → Value → Prop) : Prop where
  /-- The index satisfies its invariants. -/
  regular : index.Regular
  /-- The ids under a key are those that hold it. -/
  mem_ids : ∀ i v, v.isHashable = true →
    (Value.int i ∈ index.ids v ↔ ∃ w, holds i w ∧ (w == v) = true)

/-- What an index denotes may be given by any relation that holds of the same pairs. -/
lemma Denotes.congr {index : Index} {holds holds' : Int → Value → Prop}
    (h : index.Denotes holds) (heq : ∀ i w, holds' i w ↔ holds i w) : index.Denotes holds' :=
  ⟨h.regular, fun i v hv => by simp only [h.mem_ids i v hv, heq]⟩

/-- The index of a column without rows denotes nothing. -/
lemma denotes_empty (column : Value) : (empty column).Denotes fun _ _ => False :=
  ⟨regular_empty column, by simp [ids, bucket?, empty]⟩

/-- Entering an id adds its pair. -/
theorem Denotes.enter {index : Index} {holds : Int → Value → Prop} (h : index.Denotes holds)
    {key : Value} (hkey : key.isHashable = true) (j : Int) :
    (index.enter key (.int j)).Denotes fun i w =>
      holds i w ∨ i = j ∧ w = key ∧ key.isNull = false := by
  refine ⟨h.regular.enter hkey j, fun i v hv => ?_⟩
  cases hnull : key.isNull with
  | true =>
    rw [Index.enter, if_pos hnull, h.mem_ids i v hv]
    simp
  | false =>
    rw [ids_enter hkey hnull]
    split
    · rename_i hsame
      have hmem : Value.int i ∈ insertId (.int j) (index.ids key) ↔
          i = j ∨ Value.int i ∈ index.ids key := by
        obtain ⟨is, his, hasc⟩ := h.regular.ids_ascending key
        obtain ⟨js, hjs, -, hjmem⟩ := insertId_int hasc j
        rw [his, hjs]
        simp [hjmem]
      rw [hmem, h.mem_ids i key hkey]
      simp only [Value.beq_congr_right hkey hsame]
      constructor
      · rintro (rfl | ⟨w, hw, hwv⟩)
        · exact ⟨key, Or.inr ⟨rfl, rfl, trivial⟩, hsame⟩
        · exact ⟨w, Or.inl hw, hwv⟩
      · rintro ⟨w, hw | ⟨rfl, -⟩, hwv⟩
        · exact Or.inr ⟨w, hw, hwv⟩
        · exact Or.inl rfl
    · rename_i hother
      rw [h.mem_ids i v hv]
      constructor
      · rintro ⟨w, hw, hwv⟩
        exact ⟨w, Or.inl hw, hwv⟩
      · rintro ⟨w, hw | ⟨-, rfl, -⟩, hwv⟩
        · exact ⟨w, hw, hwv⟩
        · exact absurd hwv hother

/-- Taking an id out removes its pairs with what is the same as the key. -/
theorem Denotes.leave {index : Index} {holds : Int → Value → Prop} (h : index.Denotes holds)
    {key : Value} (hkey : key.isHashable = true) (j : Int) :
    (index.leave key (.int j)).Denotes fun i w =>
      holds i w ∧ ¬(i = j ∧ (w == key) = true) := by
  refine ⟨h.regular.leave hkey j, fun i v hv => ?_⟩
  rw [ids_leave h.regular hkey]
  split
  · rename_i hsame
    rw [List.mem_filter, h.mem_ids i key hkey]
    simp only [Value.beq_congr_right hkey hsame, Value.int_beq_int, Bool.not_eq_true',
      decide_eq_false_iff_not]
    constructor
    · rintro ⟨⟨w, hw, hwv⟩, hne⟩
      exact ⟨w, ⟨hw, fun hboth => hne hboth.1⟩, hwv⟩
    · rintro ⟨w, ⟨hw, hnot⟩, hwv⟩
      exact ⟨⟨w, hw, hwv⟩, fun hi => hnot ⟨hi, hwv⟩⟩
  · rename_i hother
    rw [h.mem_ids i v hv]
    constructor
    · rintro ⟨w, hw, hwv⟩
      refine ⟨w, ⟨hw, fun hboth => hother ?_⟩, hwv⟩
      have hwhash := (Value.isHashable_congr hwv).trans hv
      rw [← Value.beq_congr_left hwhash hboth.2]
      exact hwv
    · rintro ⟨w, ⟨hw, -⟩, hwv⟩
      exact ⟨w, hw, hwv⟩

end RecordStore.Index
