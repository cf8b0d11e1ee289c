import RecordStore.Proofs.Table.Agreement

/-!
# An index as a set of pairs

Whatever is added to an index, removed from it or built into it, the index keeps to a set of pairs of
a value and an id.  Its answers are those that the set gives, what is under a value are the ids that
the set pairs with it, and it has one key for each value of the set, whichever way the values came
and went.  A call that brings a value which can be no key is refused and leaves the index as it was.

A set is given by a list in which neither order nor repetition counts.  Values count as one if they
are the same key, which apart from what is not a number is to say that they are equal
(`Value.equals_eq_beq`).
-/

namespace RecordStore.Index

/-! ## Calls -/

/-- A call that may change an index. -/
inductive Call where
  | add (v : Value) (id : Int)
  | remove (v : Value) (id : Int)
  | build (rows : List (Int × Record))

/-- What a call answers: nothing, or whether a pair was there. -/
abbrev Answer := Except Fault (Option Bool)

/-- Records under ids as a value: pairs of an id and a record. -/
def pairsValue (rows : List (Int × Record)) : Value :=
  .list (rows.map fun row => .list [.int row.1, .map row.2])

/-- What an index answers to a call, and the index after it. -/
def perform (index : Index) : Call → Answer × Index
  | .add v id => ((index.offer v (.int id)).1.map fun _ => none, (index.offer v (.int id)).2)
  | .remove v id =>
    match index.withdraw v (.int id) with
    | .ok (index, found) => (.ok (some found), index)
    | .error fault => (.error fault, index)
  | .build rows =>
    match ofValue index.column (pairsValue rows) with
    | .ok index => (.ok none, index)
    | .error fault => (.error fault, index)

/-- The values that a call on the index of a column brings. -/
def Call.values (column : Value) : Call → List Value
  | .add v _ | .remove v _ => [v]
  | .build rows => rows.map fun row => row.2.value column

/-! ## Sets of pairs -/

/-- A set of pairs of a value and an id, in any order and with repetitions. -/
abbrev Pairs := List (Value × Int)

namespace Pairs

/-- Whether a pair is made of what is the same as a value and of an id. -/
def isOf (v : Value) (id : Int) (pair : Value × Int) : Bool :=
  pair.1 == v && decide (pair.2 = id)

/-- What a set of pairs answers to a call that brings keys only, and the set after it. -/
def turn (column : Value) (pairs : Pairs) : Call → Answer × Pairs
  | .add v id => (.ok none, if v.isNull then pairs else (v, id) :: pairs)
  | .remove v id => (.ok (some (pairs.any (isOf v id))), pairs.filter fun pair => !isOf v id pair)
  | .build rows =>
    (.ok none, (rows.map fun row => (row.2.value column, row.1)).filter fun pair => !pair.1.isNull)

/-- What a set of pairs answers to a call, and the set after it: a call that brings what can be no key
is refused. -/
def perform (column : Value) (pairs : Pairs) (call : Call) : Answer × Pairs :=
  if (call.values column).all (·.isHashable) then pairs.turn column call
  else (.error .wrongType, pairs)

/-- Some ids are those that a set pairs with a value, in ascending order and each once. -/
structure Groups (pairs : Pairs) (v : Value) (ids : List Int) : Prop where
  ascending : ids.Pairwise (· < ·)
  mem_iff : ∀ i, i ∈ ids ↔ ∃ pair ∈ pairs, (pair.1 == v) = true ∧ pair.2 = i

/-- Some values are those of a set, each once. -/
structure Enumerates (pairs : Pairs) (values : List Value) : Prop where
  distinct : values.Pairwise fun a b => (a == b) = false
  held : ∀ v ∈ values, ∃ pair ∈ pairs, (pair.1 == v) = true
  complete : ∀ pair ∈ pairs, ∃ v ∈ values, (pair.1 == v) = true

end Pairs

/-- The answers of something to calls that are made one after the other, and what it is then. -/
def answers {σ : Type} (perform : σ → Call → Answer × σ) : σ → List Call → List Answer × σ
  | state, [] => ([], state)
  | state, call :: rest =>
    ((perform state call).1 :: (answers perform (perform state call).2 rest).1,
      (answers perform (perform state call).2 rest).2)

/-- What can be seen of an index is what a set of pairs has. -/
structure StandsFor (index : Index) (pairs : Pairs) : Prop where
  /-- Absence is in no pair. -/
  present : ∀ pair ∈ pairs, pair.1.isNull = false
  /-- Absence is no key. -/
  stored : ∀ bucket ∈ index.buckets, bucket.1.isNull = false
  /-- What is looked up are the ids of a value. -/
  lookup_eq : ∀ v, v.isHashable = true →
    ∃ ids, pairs.Groups v ids ∧ index.lookup v = .ok (ids.map .int)
  /-- What can be no key is not looked up. -/
  lookup_refused : ∀ v, v.isHashable = false → index.lookup v = .error .wrongType
  /-- The size is the number of values. -/
  size_eq : ∀ values, pairs.Enumerates values → index.size = values.length
  /-- What is listed is an entry for each value with its ids. -/
  listing_eq : ∃ entries : List (Value × List Int),
    pairs.Enumerates (Entries.keys entries) ∧ (∀ entry ∈ entries, pairs.Groups entry.1 entry.2) ∧
      index.listing =
        .ok (.list (entries.map fun entry => .list [entry.1, .list (entry.2.map .int)]))

/-! ## Counting values -/

/-- Distinct keys that are all among some values are at most as many. -/
lemma length_le_of_among {vs ws : List Value} (hkeys : ∀ v ∈ vs, v.isHashable = true)
    (hdistinct : vs.Pairwise fun a b => (a == b) = false)
    (hamong : ∀ v ∈ vs, ∃ w ∈ ws, (v == w) = true) : vs.length ≤ ws.length := by
  induction vs generalizing ws with
  | nil => exact Nat.zero_le _
  | cons v rest ih =>
    obtain ⟨hv, hrest⟩ := List.forall_mem_cons.mp hkeys
    obtain ⟨hfirst, hdistinct⟩ := List.pairwise_cons.mp hdistinct
    obtain ⟨⟨w, hw, hvw⟩, hamong⟩ := List.forall_mem_cons.mp hamong
    obtain ⟨before, after, rfl⟩ := List.append_of_mem hw
    -- what the first value is the same as is left to it by the others
    have hothers : ∀ u ∈ rest, ∃ w' ∈ before ++ after, (u == w') = true := by
      intro u hu
      obtain ⟨w', hw', huw'⟩ := hamong u hu
      rcases List.mem_append.mp hw' with hbefore | hafter
      · exact ⟨w', List.mem_append_left _ hbefore, huw'⟩
      · rcases List.mem_cons.mp hafter with rfl | hafter
        · have hsame : (v == u) = true := by
            rw [Value.beq_congr_right (hrest u hu) huw']
            exact hvw
          rw [hfirst u hu] at hsame
          cases hsame
        · exact ⟨w', List.mem_append_right _ hafter, huw'⟩
    have hle := ih hrest hdistinct hothers
    simp only [List.length_append, List.length_cons] at hle ⊢
    omega

/-- All enumerations of the values of a set are equally long. -/
lemma Pairs.Enumerates.length_eq {pairs : Pairs} {vs ws : List Value}
    (hkeys : ∀ pair ∈ pairs, pair.1.isHashable = true) (hvs : pairs.Enumerates vs)
    (hws : pairs.Enumerates ws) : vs.length = ws.length := by
  have hle : ∀ {vs ws : List Value}, pairs.Enumerates vs → pairs.Enumerates ws →
      vs.length ≤ ws.length := by
    intro vs ws hvs hws
    refine length_le_of_among (fun v hv => ?_) hvs.distinct fun v hv => ?_
    · obtain ⟨pair, hpair, hsame⟩ := hvs.held v hv
      exact Value.isHashable_of_beq (hkeys pair hpair) hsame
    · obtain ⟨pair, hpair, hsame⟩ := hvs.held v hv
      obtain ⟨w, hw, hsame'⟩ := hws.complete pair hpair
      refine ⟨w, hw, ?_⟩
      rw [← Value.beq_congr_left (hkeys pair hpair) hsame]
      exact hsame'
  exact (hle hvs hws).antisymm (hle hws hvs)

/-! ## An index that keeps to a set -/

/-- An index keeps to a set of pairs: it denotes them, and they are pairs of values that are there and
can be keys. -/
structure Keeps (index : Index) (pairs : Pairs) : Prop where
  denotes : index.Denotes fun i v => (v, i) ∈ pairs
  hashable : ∀ pair ∈ pairs, pair.1.isHashable = true
  present : ∀ pair ∈ pairs, pair.1.isNull = false

variable {index : Index} {pairs : Pairs}

/-- An index of a column without rows keeps to no pairs. -/
lemma keeps_empty (column : Value) : (empty column).Keeps [] :=
  ⟨(denotes_empty column).congr fun _ _ => by simp, by simp, by simp⟩

/-- The ids that an index has under a key are those that its set pairs with it. -/
lemma Keeps.groups (h : index.Keeps pairs) {v : Value} (hv : v.isHashable = true) {ids : List Int}
    (hids : index.ids v = ids.map .int) (hascending : ids.Pairwise (· < ·)) :
    pairs.Groups v ids := by
  refine ⟨hascending, fun i => ?_⟩
  have hmem := h.denotes.mem_ids i v hv
  rw [hids, Value.int_mem_map_int] at hmem
  rw [hmem]
  constructor
  · rintro ⟨w, hw, hsame⟩
    exact ⟨(w, i), hw, hsame, rfl⟩
  · rintro ⟨⟨w, j⟩, hw, hsame, rfl⟩
    exact ⟨w, hw, hsame⟩

/-- The keys of an index are the values of its set. -/
lemma Keeps.enumerates (h : index.Keeps pairs) : pairs.Enumerates (Entries.keys index.buckets) := by
  have hregular := h.denotes.regular
  refine ⟨List.pairwise_map.mpr hregular.distinct, fun v hv => ?_, fun pair hpair => ?_⟩
  · obtain ⟨bucket, hbucket, rfl⟩ := List.mem_map.mp hv
    obtain ⟨ids, hids, -, hne⟩ := hregular.ascending bucket hbucket
    obtain ⟨i, hi⟩ := List.exists_mem_of_ne_nil ids hne
    have hlookup := hregular.distinct.lookup_eq_some (hregular.hashable bucket hbucket) hbucket
    have hmem : Value.int i ∈ index.ids bucket.1 := by
      rw [Index.ids, bucket?, hlookup, Option.getD_some, hids]
      exact List.mem_map_of_mem hi
    obtain ⟨w, hw, hsame⟩ := (h.denotes.mem_ids i _ (hregular.hashable bucket hbucket)).mp hmem
    exact ⟨(w, i), hw, hsame⟩
  · obtain ⟨v, i⟩ := pair
    have hmem : Value.int i ∈ index.ids v :=
      (h.denotes.mem_ids i v (h.hashable _ hpair)).mpr ⟨v, hpair, Value.beq_self v⟩
    rw [Index.ids, bucket?] at hmem
    cases hlookup : index.buckets.lookup v with
    | none =>
      rw [hlookup] at hmem
      cases hmem
    | some ids =>
      obtain ⟨k, hk, hsame⟩ := Entries.mem_of_lookup_eq_some hlookup
      exact ⟨k, List.mem_map_of_mem hk, hsame⟩

/-- The buckets of an index list, under each value of its set, the ids that the set pairs with it. -/
lemma Keeps.exists_entries (h : index.Keeps pairs) : ∃ entries : List (Value × List Int),
    index.buckets = entries.map (fun entry => (entry.1, entry.2.map .int)) ∧
      ∀ entry ∈ entries, pairs.Groups entry.1 entry.2 := by
  have hregular := h.denotes.regular
  have hbuckets : index.buckets ∈
      Set.range (List.map fun entry : Value × List Int => (entry.1, entry.2.map Value.int)) := by
    rw [Set.range_list_map]
    intro bucket hbucket
    obtain ⟨ids, hids, -⟩ := hregular.ascending bucket hbucket
    exact ⟨(bucket.1, ids), Prod.ext rfl hids.symm⟩
  obtain ⟨entries, hentries⟩ := hbuckets
  refine ⟨entries, hentries.symm, fun entry hentry => ?_⟩
  have hbucket : (entry.1, entry.2.map Value.int) ∈ index.buckets := by
    rw [← hentries]
    exact List.mem_map_of_mem (f := fun entry : Value × List Int => (entry.1, entry.2.map Value.int))
      hentry
  have hkey := hregular.hashable _ hbucket
  obtain ⟨ids, hids, hascending, -⟩ := hregular.ascending _ hbucket
  obtain rfl : entry.2 = ids := List.map_injective_iff.mpr (fun _ _ => Value.int.inj) hids
  refine h.groups hkey ?_ hascending
  rw [Index.ids, bucket?, hregular.distinct.lookup_eq_some hkey hbucket]
  rfl

/-- What can be seen of an index is what the set has that it keeps to. -/
theorem Keeps.standsFor (h : index.Keeps pairs) : index.StandsFor pairs := by
  refine ⟨h.present, h.denotes.regular.present, fun v hv => ?_, fun v hv => ?_,
    fun values hvalues => ?_, ?_⟩
  · obtain ⟨ids, hids, hascending⟩ := h.denotes.regular.ids_ascending v
    refine ⟨ids, h.groups hv hids hascending, ?_⟩
    rw [h.denotes.regular.lookup_eq hv, hids]
  · rw [lookup, hv]
    rfl
  · rw [← h.enumerates.length_eq h.hashable hvalues, Entries.keys, List.length_map, size]
  · obtain ⟨entries, hbuckets, hgroups⟩ := h.exists_entries
    refine ⟨entries, ?_, hgroups, ?_⟩
    · have henum := h.enumerates
      rw [hbuckets, Entries.keys, List.map_map] at henum
      exact henum
    · have hcomparable : (index.buckets.all fun bucket => areComparable bucket.2) = true := by
        rw [hbuckets, List.all_map, List.all_eq_true]
        exact fun entry _ => areComparable_int entry.2
      rw [listing, if_pos hcomparable, toValue, hbuckets, List.map_map]
      rfl

/-! ## Single calls -/

/-- An integer is entered under whatever can be a key. -/
lemma offer_int {v : Value} (hv : v.isHashable = true) (index : Index) (i : Int) :
    index.offer v (.int i) = (.ok (), index.enter v (.int i)) := by
  have hid : (v.isNull || (Value.int i).isHashable) = true := by simp [Value.isHashable]
  rw [offer, add_eq_enter hv]
  simp only [hid, if_true]

/-- An integer is taken out from under whatever can be a key, and it is told whether it was there. -/
lemma withdraw_int (h : index.Regular) {v : Value} (hv : v.isHashable = true) (i : Int) :
    index.withdraw v (.int i) =
      .ok (index.leave v (.int i), (index.ids v).any (· == .int i)) := by
  rw [withdraw, if_pos (by simp [Value.isHashable]), remove, leave]
  cases hnull : v.isNull with
  | true => rw [h.ids_null hnull]; rfl
  | false =>
    rw [if_pos hv]
    cases (index.ids v).any (· == .int i) <;> rfl

/-- Records given as pairs are added one after the other as the rows that they are. -/
lemma offerRows_eq_addRows (rows : List (Int × Record)) (index : Index) :
    index.offerRows (rows.map fun row => .list [.int row.1, .map row.2]) =
      index.addRows (Table.rowsOf rows) := by
  induction rows generalizing index with
  | nil => rfl
  | cons row rest ih =>
    rw [List.map_cons, offerRows, Table.rowsOf, List.map_cons, addRows, ← Table.rowsOf, addRow]
    cases hadd : index.add (row.2.value index.column) (.int row.1) with
    | error fault =>
      simp [rowOf, Row.pairOf, Value.items?, Row.ofValue, Row.value, Except.map, Except.bind, bind,
        offer, hadd]
    | ok added =>
      simp [rowOf, Row.pairOf, Value.items?, Row.ofValue, Row.value, Except.map, Except.bind, bind,
        offer, hadd, Value.isHashable, ih]

/-- An index that is built from records given as pairs is the one of their rows. -/
lemma ofValue_pairsValue (column : Value) (rows : List (Int × Record)) :
    ofValue column (pairsValue rows) = ofRows column (Table.rowsOf rows) :=
  offerRows_eq_addRows rows (empty column)

/-- Records one of which has no key in the column of an index are not added. -/
lemma addRows_of_not_hashable {rows : List (Int × Record)}
    (h : ∃ row ∈ rows, (row.2.value index.column).isHashable = false) :
    index.addRows (Table.rowsOf rows) = .error .wrongType := by
  induction rows generalizing index with
  | nil => simp at h
  | cons row rest ih =>
    rw [Table.rowsOf, List.map_cons, addRows, ← Table.rowsOf, addRow]
    change ((index.add (row.2.value index.column) (.int row.1)).bind _) = _
    cases hv : (row.2.value index.column).isHashable with
    | false =>
      rw [add, hv]
      cases hnull : (row.2.value index.column).isNull with
      | false => rfl
      | true =>
        have hhash : (row.2.value index.column).isHashable = true := by
          cases hvalue : row.2.value index.column <;> rw [hvalue] at hnull <;>
            first | rfl | cases hnull
        rw [hv] at hhash
        cases hhash
    | true =>
      obtain ⟨bad, hmem, hbad⟩ := h
      rcases List.mem_cons.mp hmem with rfl | hrest
      · rw [hv] at hbad
        cases hbad
      · rw [add_eq_enter hv]
        exact ih ⟨bad, hrest, by rw [enter_column]; exact hbad⟩

/-- A call that brings what can be no key is refused, and the index stays as it was. -/
theorem perform_of_not_hashable {call : Call}
    (h : ∃ v ∈ call.values index.column, v.isHashable = false) :
    index.perform call = (.error .wrongType, index) := by
  obtain ⟨w, hw, hhash⟩ := h
  have hrefused : ∀ v : Value, v.isHashable = false → v.isNull = false := fun v hv => by
    cases v <;> first | rfl | cases hv
  cases call with
  | add v i =>
    obtain rfl : w = v := List.mem_singleton.mp hw
    have hadd : index.add w (.int i) = .error .wrongType := by
      rw [add, hrefused w hhash, hhash]
      rfl
    rw [perform, offer, hadd]
    rfl
  | remove v i =>
    obtain rfl : w = v := List.mem_singleton.mp hw
    have hwithdraw : index.withdraw w (.int i) = .error .wrongType := by
      rw [withdraw, if_pos (by simp [Value.isHashable]), remove, hrefused w hhash, hhash]
      rfl
    rw [perform, hwithdraw]
  | build rows =>
    obtain ⟨row, hrow, rfl⟩ := List.mem_map.mp hw
    have hadd : (empty index.column).addRows (Table.rowsOf rows) = .error .wrongType :=
      addRows_of_not_hashable ⟨row, hrow, hhash⟩
    rw [perform, ofValue_pairsValue, ofRows, hadd]

/-- Whether an integer is under a key is whether the set has a pair of both. -/
lemma Keeps.any_ids (h : index.Keeps pairs) {v : Value} (hv : v.isHashable = true) (i : Int) :
    (index.ids v).any (· == .int i) = pairs.any (Pairs.isOf v i) := by
  obtain ⟨ids, hids, hascending⟩ := h.denotes.regular.ids_ascending v
  have hgroups := h.groups hv hids hascending
  rw [Bool.eq_iff_iff, hids, List.any_map, List.any_eq_true, List.any_eq_true]
  simp only [Function.comp_apply, Value.int_beq_int, decide_eq_true_eq, exists_eq_right,
    hgroups.mem_iff, Pairs.isOf, Bool.and_eq_true]

/-- A call that brings keys only is answered as the set answers it, and the index keeps to the set
that there is then. -/
lemma Keeps.turn (h : index.Keeps pairs) {call : Call}
    (hkeys : ∀ v ∈ call.values index.column, v.isHashable = true) :
    (index.perform call).1 = (pairs.turn index.column call).1 ∧
      (index.perform call).2.column = index.column ∧
        (index.perform call).2.Keeps (pairs.turn index.column call).2 := by
  cases call with
  | add v i =>
    have hv : v.isHashable = true := hkeys v (List.mem_singleton_self v)
    rw [perform, offer_int hv]
    refine ⟨rfl, enter_column _ _ _, (h.denotes.enter hv i).congr fun j w => ?_, ?_, ?_⟩
    all_goals rw [Pairs.turn]
    · cases hnull : v.isNull <;> simp [or_comm, and_comm]
    · split
      · exact h.hashable
      · exact List.forall_mem_cons.mpr ⟨hv, h.hashable⟩
    · split
      · exact h.present
      · rename_i hpresent
        exact List.forall_mem_cons.mpr ⟨Bool.eq_false_iff.mpr hpresent, h.present⟩
  | remove v i =>
    have hv : v.isHashable = true := hkeys v (List.mem_singleton_self v)
    rw [perform, withdraw_int h.denotes.regular hv, h.any_ids hv, Pairs.turn]
    refine ⟨rfl, leave_column _ _ _, (h.denotes.leave hv i).congr fun j w => ?_,
      fun pair hpair => h.hashable pair (List.mem_filter.mp hpair).1,
      fun pair hpair => h.present pair (List.mem_filter.mp hpair).1⟩
    simp only [Pairs.isOf, List.mem_filter, Bool.not_eq_true', Bool.and_eq_false_imp,
      decide_eq_false_iff_not]
    tauto
  | build rows =>
    have hrows : ∀ row ∈ rows, (row.2.value index.column).isHashable = true :=
      fun row hrow => hkeys _ (List.mem_map_of_mem (f := fun row => row.2.value index.column) hrow)
    have hentries : ∀ entry ∈ Table.rowsOf rows, entry.2.HasKey index.column := by
      intro entry hentry
      obtain ⟨row, hrow, rfl⟩ := List.mem_map.mp hentry
      exact ⟨_, rfl, hrows row hrow⟩
    have hbuilt := ofRows_eq_ok.mpr ⟨hentries, rfl⟩
    obtain ⟨hcolumn, hdenotes⟩ := Table.denotes_ofRows hbuilt
    rw [perform, ofValue_pairsValue, hbuilt]
    refine ⟨rfl, hcolumn, hdenotes.congr fun j w => ?_, fun pair hpair => ?_, fun pair hpair => ?_⟩
    · simp only [Pairs.turn, Table.HeldIn, List.mem_filter, List.mem_map, Prod.mk.injEq]
      constructor
      · rintro ⟨⟨⟨i, record⟩, hrow, hvalue, rfl⟩, hpresent⟩
        exact ⟨record, hrow, hvalue, by simpa using hpresent⟩
      · rintro ⟨record, hrow, hvalue, hpresent⟩
        exact ⟨⟨(j, record), hrow, hvalue, rfl⟩, by simp [hpresent]⟩
    · obtain ⟨row, hrow, rfl⟩ := List.mem_map.mp (List.mem_filter.mp hpair).1
      exact hrows row hrow
    · simpa using (List.mem_filter.mp hpair).2

/-- A call is answered as the set answers it, and the index keeps to the set that there is then. -/
theorem Keeps.perform (h : index.Keeps pairs) (call : Call) :
    (index.perform call).1 = (pairs.perform index.column call).1 ∧
      (index.perform call).2.column = index.column ∧
        (index.perform call).2.Keeps (pairs.perform index.column call).2 := by
  rw [Pairs.perform]
  split
  · rename_i hkeys
    exact h.turn (List.all_eq_true.mp hkeys)
  · rename_i hkeys
    rw [Bool.not_eq_true, List.all_eq_false] at hkeys
    obtain ⟨v, hv, hhash⟩ := hkeys
    rw [perform_of_not_hashable ⟨v, hv, Bool.eq_false_iff.mpr hhash⟩]
    exact ⟨rfl, rfl, h⟩

/-! ## Runs of calls -/

/-- Calls that are made one after the other are answered as the set answers them, and the index keeps
to the set that there is in the end. -/
theorem Keeps.answers (h : index.Keeps pairs) (calls : List Call) :
    (Index.answers Index.perform index calls).1 =
        (Index.answers (Pairs.perform index.column) pairs calls).1 ∧
      (Index.answers Index.perform index calls).2.column = index.column ∧
        (Index.answers Index.perform index calls).2.Keeps
          (Index.answers (Pairs.perform index.column) pairs calls).2 := by
  induction calls generalizing index pairs with
  | nil => exact ⟨rfl, rfl, h⟩
  | cons call rest ih =>
    obtain ⟨hanswer, hcolumn, hkeeps⟩ := h.perform call
    obtain ⟨hrest, hcolumn', hkeeps'⟩ := ih hkeeps
    rw [hcolumn] at hrest hcolumn' hkeeps'
    simp only [Index.answers]
    exact ⟨by rw [hanswer, hrest], hcolumn', hkeeps'⟩

/-- Whatever calls are made on an index that was empty, it answers them as a set of pairs does that
was empty too, and stands for the set that there is then; a call that brings what can be no key is
refused and leaves it as it is. -/
theorem exists_standsFor_answers (column : Value) (calls : List Call) :
    ∃ (given : List Answer) (index : Index) (pairs : Pairs),
      answers perform (empty column) calls = (given, index) ∧
        answers (Pairs.perform column) [] calls = (given, pairs) ∧
          index.StandsFor pairs ∧
            ∀ call : Call, (∃ v ∈ call.values column, v.isHashable = false) →
              index.perform call = (.error .wrongType, index) := by
  obtain ⟨hanswers, hcolumn, hkeeps⟩ := (keeps_empty column).answers calls
  refine ⟨_, _, _, Prod.ext rfl rfl, Prod.ext hanswers.symm rfl, hkeeps.standsFor,
    fun call hcall => perform_of_not_hashable ?_⟩
  rw [hcolumn]
  exact hcall

end RecordStore.Index
