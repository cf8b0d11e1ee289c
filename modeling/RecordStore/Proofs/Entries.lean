import RecordStore.Proofs.Value.Sameness

/-!
# Laws of ordered entries

Looking up, putting and removing entries.  Under keys that are the same the same entry is found;
what has been put under a key is found under it, and everything else is found as before.  For keys
that coincide only if they are equal, the keys in order and the entries themselves are known after
every step.
-/

namespace RecordStore.Entries

variable {β : Type}

/-- No two entries are under the same key. -/
def Distinct (entries : List (Value × β)) : Prop :=
  entries.Pairwise fun a b => (a.1 == b.1) = false

/-- Whether keys are distinct only depends on the keys. -/
lemma distinct_congr {entries entries' : List (Value × β)} (h : keys entries' = keys entries)
    (hdistinct : Distinct entries) : Distinct entries' := by
  refine List.pairwise_map.mp (?_ : (keys entries').Pairwise fun a b => (a == b) = false)
  rw [h]
  exact List.pairwise_map.mpr hdistinct

/-- Whether a key is present is said by the keys. -/
lemma has_eq_any (key : Value) (entries : List (Value × β)) :
    has key entries = (keys entries).any (· == key) := by
  rw [keys, List.any_map]
  rfl

/-- Whether a key is present only depends on the keys. -/
lemma has_congr {entries entries' : List (Value × β)} (h : keys entries' = keys entries)
    (key : Value) : has key entries' = has key entries := by
  rw [has_eq_any, has_eq_any, h]

/-- Whether something is found under a key only depends on the keys. -/
lemma isSome_lookup_congr {entries entries' : List (Value × β)} (h : keys entries' = keys entries)
    (key : Value) : (entries'.lookup key).isSome = (entries.lookup key).isSome := by
  have hany : ∀ entries : List (Value × β),
      (entries.lookup key).isSome = (keys entries).any (key == ·) := by
    intro entries
    induction entries with
    | nil => rfl
    | cons entry rest ih =>
      rw [List.lookup_cons, keys, List.map_cons, List.any_cons, ← keys, ← ih]
      cases key == entry.1 <;> rfl
  rw [hany, hany, h]

/-- Entries with the same keys are related under a key if what is found there in both is. -/
lemma rel_lookup {entries entries' : List (Value × β)} {R : β → β → Prop} {key : Value}
    (h : keys entries' = keys entries)
    (hrel : ∀ b b', entries.lookup key = some b → entries'.lookup key = some b' → R b b') :
    Option.Rel R (entries.lookup key) (entries'.lookup key) := by
  have hfound := isSome_lookup_congr h key
  cases hold : entries.lookup key with
  | none =>
    rw [hold, Option.isSome_none, Option.isSome_eq_false_iff, Option.isNone_iff_eq_none] at hfound
    rw [hfound]
    exact .none
  | some b =>
    rw [hold] at hfound
    obtain ⟨b', hnew⟩ := Option.isSome_iff_exists.mp hfound
    rw [hnew]
    exact .some (hrel b b' hold hnew)

/-! ## Entries under values -/

/-- An entry that is found is an entry under a key that is the same. -/
lemma mem_of_lookup_eq_some {κ : Type} [BEq κ] {key : κ} {v : β} {entries : List (κ × β)}
    (h : entries.lookup key = some v) : ∃ k, (k, v) ∈ entries ∧ (key == k) = true := by
  induction entries with
  | nil => simp at h
  | cons entry rest ih =>
    obtain ⟨k, w⟩ := entry
    rw [List.lookup_cons] at h
    cases hk : key == k with
    | true =>
      rw [hk] at h
      obtain rfl : w = v := by simpa using h
      exact ⟨k, List.mem_cons_self, hk⟩
    | false =>
      rw [hk] at h
      obtain ⟨k', hmem, hk'⟩ := ih h
      exact ⟨k', List.mem_cons_of_mem _ hmem, hk'⟩

/-- Under keys that are the same the same entry is found. -/
lemma lookup_congr {a b : Value} (ha : a.isHashable = true) (h : (a == b) = true)
    (entries : List (Value × β)) : entries.lookup a = entries.lookup b := by
  induction entries with
  | nil => rfl
  | cons entry rest ih =>
    obtain ⟨k, w⟩ := entry
    rw [List.lookup_cons, List.lookup_cons, Value.beq_congr_left ha h k, ih]

/-- A key is present if something is found under it. -/
lemma has_eq_isSome_lookup {key : Value} (hkey : key.isHashable = true)
    (entries : List (Value × β)) : has key entries = (entries.lookup key).isSome := by
  induction entries with
  | nil => rfl
  | cons entry rest ih =>
    obtain ⟨k, w⟩ := entry
    rw [List.lookup_cons, Value.beq_comm hkey]
    cases hk : k == key with
    | true => simp [has, hk]
    | false => simpa [has, hk] using ih

/-- A value is the same as an entry's key exactly if it is the same as what that key is. -/
lemma beq_entry_of_beq {key k : Value} (hkey : key.isHashable = true) (h : (k == key) = true)
    (a : Value) : (a == k) = (key == a) := by
  have hk : k.isHashable = true := (Value.isHashable_congr h).trans hkey
  rw [← Value.beq_comm hk, Value.beq_congr_left hk h]

/-- A value that is the same as an entry's key is not what that key is not. -/
lemma beq_eq_false_of_entry {key k a : Value} (hkey : key.isHashable = true)
    (h : (k == key) = false) (hak : (a == k) = true) : (key == a) = false := by
  rw [Bool.eq_false_iff]
  intro hka
  have hkk := Value.beq_trans hkey hka hak
  rw [Value.beq_comm hkey, h] at hkk
  cases hkk

/-- What has been put under a key is found under it, and all else as before. -/
lemma lookup_put {key : Value} (hkey : key.isHashable = true) (v : β)
    (entries : List (Value × β)) (a : Value) :
    (put key v entries).lookup a = if key == a then some v else entries.lookup a := by
  induction entries with
  | nil =>
    rw [put, List.lookup_cons, Value.beq_comm hkey]
    cases a == key <;> rfl
  | cons entry rest ih =>
    obtain ⟨k, w⟩ := entry
    rw [put]
    cases hk : k == key with
    | true =>
      simp only [if_true, List.lookup_cons, beq_entry_of_beq hkey hk]
      cases key == a <;> rfl
    | false =>
      simp only [Bool.false_eq_true, if_false, List.lookup_cons, ih]
      cases hak : a == k with
      | false => rfl
      | true => simp [beq_eq_false_of_entry hkey hk hak]

/-- Under a key that has been removed nothing is found, and all else as before. -/
lemma lookup_drop {key : Value} (hkey : key.isHashable = true) (entries : List (Value × β))
    (a : Value) :
    (drop key entries).lookup a = if key == a then none else entries.lookup a := by
  induction entries with
  | nil => simp [drop]
  | cons entry rest ih =>
    obtain ⟨k, w⟩ := entry
    rw [drop] at ih
    cases hk : k == key with
    | true =>
      rw [drop, List.filter_cons_of_neg (by simp [hk]), List.lookup_cons,
        beq_entry_of_beq hkey hk, ih]
      cases key == a <;> rfl
    | false =>
      rw [drop, List.filter_cons_of_pos (by simp [hk]), List.lookup_cons, List.lookup_cons, ih]
      cases hak : a == k with
      | false => rfl
      | true => simp [beq_eq_false_of_entry hkey hk hak]

/-- If no key stands twice, what is found under a key is its entry. -/
lemma Distinct.lookup_eq_some {entries : List (Value × β)} (h : Distinct entries) {k : Value}
    {v : β} (hk : k.isHashable = true) (hmem : (k, v) ∈ entries) : entries.lookup k = some v := by
  induction entries with
  | nil => cases hmem
  | cons entry rest ih =>
    obtain ⟨hfirst, hrest⟩ := List.pairwise_cons.mp h
    rcases List.mem_cons.mp hmem with rfl | hmem
    · rw [List.lookup_cons, Value.beq_self]
    · rw [List.lookup_cons, Value.beq_comm hk, hfirst _ hmem]
      exact ih hrest hmem

/-- An entry after a value has been put under a key is an old one, or it has that value under what
is the same as the key. -/
lemma mem_put {κ : Type} [BEq κ] [ReflBEq κ] {key : κ} {v : β} {entries : List (κ × β)}
    {entry : κ × β}
    (h : entry ∈ put key v entries) : entry ∈ entries ∨ entry.2 = v ∧ (entry.1 == key) = true := by
  induction entries with
  | nil =>
    obtain rfl : entry = (key, v) := by simpa [put] using h
    exact Or.inr ⟨rfl, BEq.rfl⟩
  | cons first rest ih =>
    rw [put] at h
    split at h
    · rename_i hfirst
      rcases List.mem_cons.mp h with rfl | hrest
      · exact Or.inr ⟨rfl, hfirst⟩
      · exact Or.inl (List.mem_cons_of_mem _ hrest)
    · rcases List.mem_cons.mp h with rfl | hrest
      · exact Or.inl List.mem_cons_self
      · exact (ih hrest).imp (List.mem_cons_of_mem _) id

/-- Putting a value under a key leaves keys distinct. -/
lemma distinct_put {key : Value} (hkey : key.isHashable = true) (v : β)
    {entries : List (Value × β)} (h : Distinct entries) : Distinct (put key v entries) := by
  induction entries with
  | nil => exact List.pairwise_singleton _ _
  | cons first rest ih =>
    obtain ⟨hfirst, hrest⟩ := List.pairwise_cons.mp h
    rw [put]
    split
    · exact List.pairwise_cons.mpr ⟨hfirst, hrest⟩
    · rename_i hne
      refine List.pairwise_cons.mpr ⟨fun entry hmem => ?_, ih hrest⟩
      rcases mem_put hmem with hold | ⟨-, hsame⟩
      · exact hfirst entry hold
      · rw [Bool.eq_false_iff]
        intro heq
        have hentry : entry.1.isHashable = true := (Value.isHashable_congr hsame).trans hkey
        exact hne (Value.beq_trans ((Value.isHashable_congr heq).trans hentry) heq hsame)

/-- Removing a key leaves keys distinct. -/
lemma distinct_drop (key : Value) {entries : List (Value × β)} (h : Distinct entries) :
    Distinct (drop key entries) :=
  h.sublist List.filter_sublist

/-- A key is present after a value has been put under a key if it was before or is that key. -/
lemma has_put {key a : Value} (hkey : key.isHashable = true) (ha : a.isHashable = true) (v : β)
    (entries : List (Value × β)) : has a (put key v entries) = (key == a || has a entries) := by
  rw [has_eq_isSome_lookup ha, has_eq_isSome_lookup ha, lookup_put hkey]
  cases key == a <;> rfl

/-- A key is present after a key has been removed if it was before and is another one. -/
lemma has_drop {key a : Value} (hkey : key.isHashable = true) (ha : a.isHashable = true)
    (entries : List (Value × β)) : has a (drop key entries) = (!(key == a) && has a entries) := by
  rw [has_eq_isSome_lookup ha, has_eq_isSome_lookup ha, lookup_drop hkey]
  cases key == a <;> rfl

/-! ## Entries from pairs -/

/-- A key that is absent goes to the end. -/
lemma put_of_has_eq_false {key : Value} {entries : List (Value × β)} (h : has key entries = false)
    (v : β) : put key v entries = entries ++ [(key, v)] := by
  induction entries with
  | nil => rfl
  | cons entry rest ih =>
    rw [has, List.any_cons, Bool.or_eq_false_iff] at h
    rw [put, h.1, if_neg Bool.false_ne_true, ih h.2]
    rfl

/-- A key that is present leaves the keys. -/
lemma keys_put_of_has {key : Value} {entries : List (Value × β)} (h : has key entries = true) (v : β) :
    keys (put key v entries) = keys entries := by
  induction entries with
  | nil => cases h
  | cons entry rest ih =>
    rw [put]
    split
    · rfl
    · rename_i hne
      rw [has, List.any_cons, Bool.eq_false_iff.mpr hne, Bool.false_or] at h
      rw [keys, List.map_cons, ← keys, ih h]
      rfl

/-- A key that is present leaves the number of entries. -/
lemma length_put_of_has {key : Value} {entries : List (Value × β)} (h : has key entries = true) (v : β) :
    (put key v entries).length = entries.length := by
  have hkeys := congrArg List.length (keys_put_of_has h v)
  rwa [keys, keys, List.length_map, List.length_map] at hkeys

/-- A key that is none of those before it is absent. -/
lemma has_eq_false_of_distinct {entries rest : List (Value × β)} {pair : Value × β}
    (h : Distinct (entries ++ pair :: rest)) : has pair.1 entries = false := by
  rw [has, List.any_eq_false]
  intro entry hentry
  rw [Bool.not_eq_true]
  exact (List.pairwise_append.mp h).2.2 entry hentry pair List.mem_cons_self

/-- Pairs under distinct keys are entered at the end, one after the other. -/
lemma foldl_put_of_distinct {entries pairs : List (Value × β)} (h : Distinct (entries ++ pairs)) :
    pairs.foldl (fun entries pair => put pair.1 pair.2 entries) entries = entries ++ pairs := by
  induction pairs generalizing entries with
  | nil => exact (List.append_nil entries).symm
  | cons pair rest ih =>
    have hstep : entries ++ pair :: rest = (entries ++ [pair]) ++ rest := by simp
    rw [List.foldl_cons, put_of_has_eq_false (has_eq_false_of_distinct h), hstep]
    rw [hstep] at h
    exact ih h

/-- Pairs under distinct keys are the entries that they make. -/
theorem ofPairs_of_distinct {pairs : List (Value × β)} (h : Distinct pairs) :
    ofPairs pairs = pairs := by
  have hpairs : Distinct ([] ++ pairs) := h
  exact foldl_put_of_distinct hpairs

/-- Entering pairs adds at most one entry for each. -/
lemma length_foldl_put_le (pairs entries : List (Value × β)) :
    (pairs.foldl (fun entries pair => put pair.1 pair.2 entries) entries).length ≤
      entries.length + pairs.length := by
  induction pairs generalizing entries with
  | nil => exact Nat.le_refl _
  | cons pair rest ih =>
    have hrest := ih (put pair.1 pair.2 entries)
    have hput : (put pair.1 pair.2 entries).length ≤ entries.length + 1 := by
      cases hhas : has pair.1 entries with
      | true =>
        rw [length_put_of_has hhas]
        omega
      | false => simp [put_of_has_eq_false hhas]
    rw [List.foldl_cons, List.length_cons]
    omega

/-- Entries stay distinct if a pair under an absent key follows them. -/
lemma Distinct.append_singleton {entries : List (Value × β)} (h : Distinct entries) {pair : Value × β}
    (hhas : has pair.1 entries = false) : Distinct (entries ++ [pair]) := by
  refine List.pairwise_append.mpr ⟨h, List.pairwise_singleton _ _, ?_⟩
  intro entry hentry last hlast
  obtain rfl := List.mem_singleton.mp hlast
  rw [has, List.any_eq_false] at hhas
  exact Bool.eq_false_iff.mpr (hhas entry hentry)

/-- If every pair adds an entry, the keys are distinct. -/
lemma distinct_of_length_foldl_put {entries pairs : List (Value × β)} (h : Distinct entries)
    (hlength : entries.length + pairs.length ≤
      (pairs.foldl (fun entries pair => put pair.1 pair.2 entries) entries).length) :
    Distinct (entries ++ pairs) := by
  induction pairs generalizing entries with
  | nil => rwa [List.append_nil]
  | cons pair rest ih =>
    obtain ⟨key, v⟩ := pair
    rw [List.foldl_cons, List.length_cons] at hlength
    dsimp only at hlength
    cases hhas : has key entries with
    | true =>
      have hrest := length_foldl_put_le rest (put key v entries)
      rw [length_put_of_has hhas] at hrest
      omega
    | false =>
      rw [put_of_has_eq_false hhas] at hlength
      have hentries : Distinct (entries ++ [(key, v)]) := h.append_singleton hhas
      have hrest := ih hentries (by
        rw [List.length_append, List.length_singleton]
        omega)
      simpa using hrest

/-- If every pair makes an entry of its own, the keys are distinct. -/
theorem distinct_of_length_ofPairs {pairs : List (Value × β)}
    (h : pairs.length ≤ (ofPairs pairs).length) : Distinct pairs := by
  have hnil : Distinct ([] : List (Value × β)) := List.Pairwise.nil
  exact distinct_of_length_foldl_put hnil (by simpa [ofPairs] using h)

/-- Removing keys one after the other leaves the entries of the other keys in their order. -/
lemma foldl_drop_eq_filter {κ : Type} [BEq κ] (ks : List κ) (entries : List (κ × β)) :
    ks.foldl (fun entries k => drop k entries) entries =
      entries.filter fun entry => !ks.contains entry.1 := by
  induction ks generalizing entries with
  | nil => exact (List.filter_eq_self.mpr fun _ _ => rfl).symm
  | cons first rest ih =>
    rw [List.foldl_cons, ih, drop, List.filter_filter]
    refine List.filter_congr fun entry _ => ?_
    rw [List.contains_cons, Bool.not_or, Bool.and_comm]

/-- No key stands twice after a key has been removed. -/
lemma nodup_keys_drop {κ : Type} [BEq κ] (key : κ) {entries : List (κ × β)}
    (h : (keys entries).Nodup) : (keys (drop key entries)).Nodup :=
  h.sublist (List.filter_sublist.map _)

/-! ## Entries under keys that coincide only if they are equal -/

section Lawful

variable {κ : Type} [BEq κ] [LawfulBEq κ]

/-- A new key goes to the end. -/
lemma put_of_not_mem {key : κ} {v : β} {entries : List (κ × β)} (h : key ∉ keys entries) :
    put key v entries = entries ++ [(key, v)] := by
  induction entries with
  | nil => rfl
  | cons entry rest ih =>
    simp only [keys, List.map_cons, List.mem_cons, not_or] at h
    have hne : (entry.1 == key) = false := beq_eq_false_iff_ne.mpr fun he => h.1 he.symm
    rw [put, hne]
    simp only [Bool.false_eq_true, if_false, List.cons_append]
    rw [ih h.2]

/-- Pairs are the entries that they make, if no key comes twice. -/
theorem ofPairs_of_nodup {pairs : List (κ × β)} (h : (keys pairs).Nodup) : ofPairs pairs = pairs := by
  have hfold : ∀ entries : List (κ × β), (keys (entries ++ pairs)).Nodup →
      pairs.foldl (fun entries pair => put pair.1 pair.2 entries) entries = entries ++ pairs := by
    clear h
    induction pairs with
    | nil => exact fun entries _ => (List.append_nil entries).symm
    | cons pair rest ih =>
      intro entries hdistinct
      have hnew : pair.1 ∉ keys entries := by
        rw [keys, List.map_append, List.map_cons] at hdistinct
        exact fun hold => (List.nodup_append.mp hdistinct).2.2 _ hold _ List.mem_cons_self rfl
      rw [List.foldl_cons, put_of_not_mem hnew, ih _ (by simpa using hdistinct)]
      simp
  exact hfold [] h

/-- What has been put under a key is found there. -/
lemma lookup_put_self (key : κ) (v : β) (entries : List (κ × β)) :
    (put key v entries).lookup key = some v := by
  induction entries with
  | nil => simp [put]
  | cons entry rest ih =>
    obtain ⟨k, w⟩ := entry
    rw [put]
    by_cases hk : k = key
    · simp [hk]
    · have hne : (key == k) = false := beq_eq_false_iff_ne.mpr (Ne.symm hk)
      rw [if_neg (by simpa using hk), List.lookup_cons, hne]
      exact ih

/-- Putting what is found under a key there again changes nothing. -/
lemma put_of_lookup_eq_some {key : κ} {v : β} {entries : List (κ × β)}
    (h : entries.lookup key = some v) : put key v entries = entries := by
  induction entries with
  | nil => simp at h
  | cons entry rest ih =>
    obtain ⟨k, w⟩ := entry
    rw [List.lookup_cons] at h
    by_cases hk : key = k
    · subst hk
      obtain rfl : w = v := by simpa using h
      simp [put]
    · have hne : (key == k) = false := beq_eq_false_iff_ne.mpr hk
      have hne' : (k == key) = false := beq_eq_false_iff_ne.mpr (Ne.symm hk)
      rw [hne] at h
      rw [put, hne', if_neg Bool.false_ne_true, ih h]

/-- Putting a value under a key that is present leaves the keys as they are. -/
lemma keys_put_of_mem {key : κ} {v : β} {entries : List (κ × β)} (h : key ∈ keys entries) :
    keys (put key v entries) = keys entries := by
  induction entries with
  | nil => simp [keys] at h
  | cons entry rest ih =>
    rw [put]
    split
    · rfl
    · rename_i hne
      simp only [keys, List.map_cons, List.mem_cons] at h
      have hrest : key ∈ keys rest := h.resolve_left fun he => hne (by simp [he])
      have hih := ih hrest
      simp only [keys, List.map_cons] at hih ⊢
      rw [hih]

/-- What has been put under a key is removed with the key. -/
lemma drop_put (key : κ) (v : β) (entries : List (κ × β)) :
    drop key (put key v entries) = drop key entries := by
  induction entries with
  | nil => simp [put, drop]
  | cons entry rest ih =>
    rw [put]
    split
    · rename_i hk
      simp [drop, hk]
    · rename_i hk
      rw [drop, List.filter_cons_of_pos (by simpa using hk), ← drop, ih, drop, drop,
        List.filter_cons_of_pos (by simpa using hk)]

/-- If no key stands twice, putting a value under a key replaces just its entry. -/
lemma mem_put_iff {key : κ} {v : β} {entries : List (κ × β)} (hnd : (keys entries).Nodup)
    {entry : κ × β} : entry ∈ put key v entries ↔
      entry = (key, v) ∨ entry ∈ entries ∧ entry.1 ≠ key := by
  induction entries with
  | nil => simp [put]
  | cons first rest ih =>
    simp only [keys, List.map_cons, List.nodup_cons] at hnd
    rw [put]
    split
    · rename_i hfirst
      obtain rfl : first.1 = key := by simpa using hfirst
      have hrest : ∀ e ∈ rest, e.1 ≠ first.1 := fun e he heq =>
        hnd.1 (List.mem_map.mpr ⟨e, he, heq⟩)
      simp only [List.mem_cons]
      constructor
      · rintro (h | h)
        · exact Or.inl h
        · exact Or.inr ⟨Or.inr h, hrest entry h⟩
      · rintro (h | ⟨rfl | h, hne⟩)
        · exact Or.inl h
        · exact absurd rfl hne
        · exact Or.inr h
    · rename_i hfirst
      have hne : first.1 ≠ key := fun he => hfirst (by simp [he])
      rw [List.mem_cons, List.mem_cons, ih hnd.2]
      constructor
      · rintro (rfl | h | h)
        · exact Or.inr ⟨Or.inl rfl, hne⟩
        · exact Or.inl h
        · exact Or.inr ⟨Or.inr h.1, h.2⟩
      · rintro (h | ⟨rfl | h, hk⟩)
        · exact Or.inr (Or.inl h)
        · exact Or.inl rfl
        · exact Or.inr (Or.inr ⟨h, hk⟩)

/-- If no key stands twice, putting values under keys that are present replaces just their
entries. -/
lemma mem_foldl_put_iff {staged entries : List (κ × β)} (hnd : (keys entries).Nodup)
    (hstaged : (keys staged).Nodup) (h : ∀ e ∈ staged, e.1 ∈ keys entries) {entry : κ × β} :
    entry ∈ staged.foldl (fun entries e => put e.1 e.2 entries) entries ↔
      entry ∈ staged ∨ entry ∈ entries ∧ entry.1 ∉ keys staged := by
  induction staged generalizing entries with
  | nil => simp [keys]
  | cons first rest ih =>
    have hkeys := keys_put_of_mem (v := first.2) (h first List.mem_cons_self)
    simp only [keys, List.map_cons, List.nodup_cons] at hstaged
    rw [List.foldl_cons, ih (by rwa [hkeys]) hstaged.2
      (fun e he => hkeys ▸ h e (List.mem_cons_of_mem _ he)), mem_put_iff hnd]
    simp only [keys, List.map_cons, List.mem_cons, not_or]
    constructor
    · rintro (hrest | ⟨rfl | ⟨hold, hne⟩, hnot⟩)
      · exact Or.inl (Or.inr hrest)
      · exact Or.inl (Or.inl rfl)
      · exact Or.inr ⟨hold, hne, hnot⟩
    · rintro ((rfl | hrest) | ⟨hold, hne, hnot⟩)
      · exact Or.inr ⟨Or.inl rfl, hstaged.1⟩
      · exact Or.inl hrest
      · exact Or.inr ⟨Or.inr ⟨hold, hne⟩, hnot⟩

/-- After a key has been removed, the entries of the other keys are left. -/
lemma mem_drop_iff {key : κ} {entries : List (κ × β)} {entry : κ × β} :
    entry ∈ drop key entries ↔ entry ∈ entries ∧ entry.1 ≠ key := by
  simp [drop]

/-- After keys have been removed, the entries of the other keys are left. -/
lemma mem_foldl_drop_iff {ks : List κ} {entries : List (κ × β)} {entry : κ × β} :
    entry ∈ ks.foldl (fun entries k => drop k entries) entries ↔
      entry ∈ entries ∧ entry.1 ∉ ks := by
  simp [foldl_drop_eq_filter]

/-- If no key stands twice, what is found under a key is its entry. -/
lemma lookup_eq_some_of_mem {entries : List (κ × β)} (hnd : (keys entries).Nodup)
    {entry : κ × β} (h : entry ∈ entries) : entries.lookup entry.1 = some entry.2 := by
  induction entries with
  | nil => simp at h
  | cons first rest ih =>
    simp only [keys, List.map_cons, List.nodup_cons] at hnd
    obtain ⟨k, w⟩ := first
    rcases List.mem_cons.mp h with rfl | hrest
    · simp
    · have hne : (entry.1 == k) = false := beq_eq_false_iff_ne.mpr fun he =>
        hnd.1 (List.mem_map.mpr ⟨entry, hrest, he⟩)
      rw [List.lookup_cons, hne]
      exact ih hnd.2 hrest

/-- If no key stands twice, a key has one entry. -/
lemma eq_of_mem {entries : List (κ × β)} (hnd : (keys entries).Nodup) {key : κ} {v w : β}
    (hv : (key, v) ∈ entries) (hw : (key, w) ∈ entries) : w = v :=
  Option.some.inj ((lookup_eq_some_of_mem hnd hw).symm.trans (lookup_eq_some_of_mem hnd hv))

/-- Putting a value under a key that is there changes its entry. -/
lemma put_eq_map {key : κ} {v : β} {entries : List (κ × β)} (hnd : (keys entries).Nodup)
    (h : key ∈ keys entries) :
    put key v entries = entries.map fun entry => (entry.1, if entry.1 == key then v else entry.2) := by
  induction entries with
  | nil => cases h
  | cons first rest ih =>
    obtain ⟨k, w⟩ := first
    rw [keys, List.map_cons, ← keys, List.nodup_cons] at hnd
    rw [put, List.map_cons]
    cases hk : k == key with
    | true =>
      obtain rfl : k = key := eq_of_beq hk
      have hrest : (rest.map fun entry => (entry.1, if entry.1 == k then v else entry.2)) = rest := by
        refine (List.map_congr_left fun entry hentry => ?_).trans (List.map_id rest)
        have hne : (entry.1 == k) = false := beq_eq_false_iff_ne.mpr fun heq =>
          hnd.1 (List.mem_map.mpr ⟨entry, hentry, heq⟩)
        rw [hne]
        rfl
      rw [hrest]
      rfl
    | false =>
      have hother : key ∈ keys rest :=
        (List.mem_cons.mp h).resolve_left (Ne.symm (beq_eq_false_iff_ne.mp hk))
      rw [ih hnd.2 hother]
      rfl

/-- Putting values under keys that are there changes their entries. -/
lemma foldl_put_eq_map {staged entries : List (κ × β)} (hnd : (keys entries).Nodup)
    (hstaged : (keys staged).Nodup) (hkeys : ∀ entry ∈ staged, entry.1 ∈ keys entries) :
    staged.foldl (fun entries entry => put entry.1 entry.2 entries) entries =
      entries.map fun entry => (entry.1, (staged.lookup entry.1).getD entry.2) := by
  induction staged generalizing entries with
  | nil => exact (List.map_id entries).symm
  | cons first rest ih =>
    obtain ⟨k, v⟩ := first
    obtain ⟨hk, hrest⟩ := List.forall_mem_cons.mp hkeys
    rw [keys, List.map_cons, ← keys, List.nodup_cons] at hstaged
    have hput := keys_put_of_mem (v := v) hk
    rw [List.foldl_cons, ih (hput ▸ hnd) hstaged.2 fun entry hentry => hput ▸ hrest entry hentry,
      put_eq_map hnd hk, List.map_map]
    refine List.map_congr_left fun entry _ => ?_
    rw [Function.comp_apply, List.lookup_cons]
    cases hkey : entry.1 == k with
    | true =>
      have hnone : rest.lookup entry.1 = none := by
        rw [eq_of_beq hkey]
        refine List.lookup_eq_none_iff.mpr fun other hother => ?_
        exact bne_iff_ne.mpr fun hk => hstaged.1 (List.mem_map.mpr ⟨other, hother, hk.symm⟩)
      rw [hnone]
      rfl
    | false => rfl

/-- Putting a value under a key leaves what is found under other keys. -/
lemma lookup_put_of_ne {key other : κ} (h : other ≠ key) (v : β) (entries : List (κ × β)) :
    (put key v entries).lookup other = entries.lookup other := by
  have hother : (other == key) = false := beq_eq_false_iff_ne.mpr h
  induction entries with
  | nil => rw [put, List.lookup_cons, hother]
  | cons entry rest ih =>
    obtain ⟨k, w⟩ := entry
    rw [put]
    by_cases hk : k = key
    · rw [if_pos (by simp [hk]), hk, List.lookup_cons, List.lookup_cons, hother]
    · rw [if_neg (by simpa using hk), List.lookup_cons, List.lookup_cons, ih]

/-- What has been removed is not found any more. -/
lemma lookup_drop_self (key : κ) (entries : List (κ × β)) : (drop key entries).lookup key = none := by
  refine List.lookup_eq_none_iff.mpr fun entry hentry => ?_
  have hne := (List.mem_filter.mp hentry).2
  rw [Bool.not_eq_true', beq_eq_false_iff_ne] at hne
  exact bne_iff_ne.mpr (Ne.symm hne)

/-- Removing what is under a key leaves what is found under other keys. -/
lemma lookup_drop_of_ne {key other : κ} (h : other ≠ key) (entries : List (κ × β)) :
    (drop key entries).lookup other = entries.lookup other := by
  induction entries with
  | nil => rfl
  | cons entry rest ih =>
    obtain ⟨k, w⟩ := entry
    rw [drop, List.filter_cons, ← drop]
    by_cases hk : k = key
    · have hother : (other == k) = false := beq_eq_false_iff_ne.mpr (hk ▸ h)
      rw [if_neg (by simp [hk]), ih, List.lookup_cons, hother]
    · rw [if_pos (by simpa using hk), List.lookup_cons, List.lookup_cons, ih]

/-- The keys after a value has been put under a key. -/
lemma mem_keys_put {key other : κ} {v : β} {entries : List (κ × β)} :
    other ∈ keys (put key v entries) ↔ other = key ∨ other ∈ keys entries := by
  by_cases hmem : key ∈ keys entries
  · rw [keys_put_of_mem hmem]
    constructor
    · exact Or.inr
    · rintro (rfl | hother)
      · exact hmem
      · exact hother
  · rw [put_of_not_mem hmem, keys, List.map_append, List.mem_append, List.map_singleton,
      List.mem_singleton, or_comm]
    rfl

/-- The keys after a key has been removed. -/
lemma mem_keys_drop {key other : κ} {entries : List (κ × β)} :
    other ∈ keys (drop key entries) ↔ other ∈ keys entries ∧ other ≠ key := by
  simp only [keys, drop, List.mem_map, List.mem_filter, Bool.not_eq_true', beq_eq_false_iff_ne]
  constructor
  · rintro ⟨entry, ⟨hentry, hne⟩, rfl⟩
    exact ⟨⟨entry, hentry, rfl⟩, hne⟩
  · rintro ⟨⟨entry, hentry, rfl⟩, hne⟩
    exact ⟨entry, ⟨hentry, hne⟩, rfl⟩

/-- No key stands twice after a value has been put under a key. -/
lemma nodup_keys_put {key : κ} {v : β} {entries : List (κ × β)} (h : (keys entries).Nodup) :
    (keys (put key v entries)).Nodup := by
  by_cases hmem : key ∈ keys entries
  · rwa [keys_put_of_mem hmem]
  · rw [put_of_not_mem hmem, keys, List.map_append]
    refine List.nodup_append.mpr ⟨h, List.pairwise_singleton _ _, fun k hk other hother => ?_⟩
    obtain rfl := List.mem_singleton.mp hother
    rintro rfl
    exact hmem hk

/-- What is found under a key has an entry there. -/
lemma mem_of_lookup {key : κ} {v : β} {entries : List (κ × β)} (h : entries.lookup key = some v) :
    (key, v) ∈ entries := by
  obtain ⟨k, hmem, hkey⟩ := mem_of_lookup_eq_some h
  obtain rfl : key = k := by simpa using hkey
  exact hmem

/-- Something is found under a key just if the key is there. -/
lemma mem_keys_iff {key : κ} {entries : List (κ × β)} :
    key ∈ keys entries ↔ ∃ v, entries.lookup key = some v := by
  constructor
  · intro hkey
    cases hlookup : entries.lookup key with
    | some v => exact ⟨v, rfl⟩
    | none =>
      obtain ⟨entry, hentry, rfl⟩ := List.mem_map.mp hkey
      have hne := List.lookup_eq_none_iff.mp hlookup entry hentry
      simp at hne
  · rintro ⟨v, hlookup⟩
    exact List.mem_map_of_mem (mem_of_lookup hlookup)

end Lawful

end RecordStore.Entries
