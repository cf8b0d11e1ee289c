import RecordStore.Proofs.Schema.Restored

/-!
# Mappings without marks

An object with a mark among its keys is read as a date or a timestamp, so that a mapping may come back
as something else.  A mapping whose keys are not written as marks comes back as a mapping, also if
several of its keys are written as the same text.  In the description of a schema a mark would stand over
a mapping, which is no text of a date; so a schema file that can be read names no column by a mark.
-/

namespace RecordStore

open Snapshot (keyText? restored timestampMark dateMark)

/-! ## Keys of entries -/

namespace Entries

variable {β : Type} {key k : Value} {v : β} {entries pairs : List (Value × β)}

/-- Every key after a value has been put under a key is an old one or the new one. -/
lemma eq_or_mem_of_mem_keys_put (h : k ∈ keys (put key v entries)) : k = key ∨ k ∈ keys entries := by
  induction entries with
  | nil => exact Or.inl (List.mem_singleton.mp h)
  | cons first rest ih =>
    rw [put] at h
    split at h
    · exact Or.inr h
    · rcases List.mem_cons.mp h with rfl | hrest
      · exact Or.inr List.mem_cons_self
      · exact (ih hrest).imp_right (List.mem_cons_of_mem _)

/-- Old keys stay when a value is put under a key. -/
lemma mem_keys_put_of_mem (h : k ∈ keys entries) : k ∈ keys (put key v entries) := by
  induction entries with
  | nil => cases h
  | cons first rest ih =>
    rw [put]
    split
    · exact h
    · rcases List.mem_cons.mp h with rfl | hrest
      · exact List.mem_cons_self
      · exact List.mem_cons_of_mem _ (ih hrest)

/-- A text under which a value has been put is a key. -/
lemma text_mem_keys_put (s : String) (v : β) (entries : List (Value × β)) :
    Value.text s ∈ keys (put (.text s) v entries) := by
  induction entries with
  | nil => exact List.mem_singleton_self _
  | cons first rest ih =>
    rw [put]
    split
    · rename_i hsame
      have hhash : first.1.isHashable = true := (Value.isHashable_congr hsame).trans rfl
      have hkey := Snapshot.eq_text_of_same (Value.same_symm hhash hsame)
      exact hkey ▸ List.mem_cons_self
    · exact List.mem_cons_of_mem _ ih

/-- Every key after pairs have been entered is a key of a pair. -/
lemma mem_keys_of_mem_keys_ofPairs (h : k ∈ keys (ofPairs pairs)) : k ∈ keys pairs := by
  have hfold : ∀ pairs entries : List (Value × β),
      k ∈ keys (pairs.foldl (fun entries pair => put pair.1 pair.2 entries) entries) →
        k ∈ keys entries ∨ k ∈ keys pairs := by
    intro pairs
    induction pairs with
    | nil => exact fun entries h => Or.inl h
    | cons pair rest ih =>
      intro entries h
      rcases ih _ h with hput | hrest
      · rcases eq_or_mem_of_mem_keys_put hput with rfl | hold
        · exact Or.inr List.mem_cons_self
        · exact Or.inl hold
      · exact Or.inr (List.mem_cons_of_mem _ hrest)
  exact (hfold pairs [] h).resolve_left List.not_mem_nil

/-- A text that is a key of a pair is a key after pairs have been entered. -/
lemma text_mem_keys_ofPairs {s : String} (h : Value.text s ∈ keys pairs) :
    Value.text s ∈ keys (ofPairs pairs) := by
  have hfold : ∀ pairs entries : List (Value × β),
      Value.text s ∈ keys entries ∨ Value.text s ∈ keys pairs →
        Value.text s ∈ keys (pairs.foldl (fun entries pair => put pair.1 pair.2 entries) entries) := by
    intro pairs
    induction pairs with
    | nil => exact fun entries h => h.resolve_right List.not_mem_nil
    | cons pair rest ih =>
      intro entries h
      refine ih _ ?_
      rcases h with hold | hnew
      · exact Or.inl (mem_keys_put_of_mem hold)
      · rcases List.mem_cons.mp hnew with heq | hrest
        · exact Or.inl (heq ▸ text_mem_keys_put s pair.2 entries)
        · exact Or.inr hrest
  exact hfold pairs [] (Or.inr h)

/-- A value that stands under a key after pairs have been entered is the value of a pair. -/
lemma exists_pair_of_mem_ofPairs {entry : Value × β} (h : entry ∈ ofPairs pairs) :
    ∃ pair ∈ pairs, pair.2 = entry.2 := by
  have hfold : ∀ pairs entries : List (Value × β),
      entry ∈ pairs.foldl (fun entries pair => put pair.1 pair.2 entries) entries →
        entry ∈ entries ∨ ∃ pair ∈ pairs, pair.2 = entry.2 := by
    intro pairs
    induction pairs with
    | nil => exact fun entries h => Or.inl h
    | cons pair rest ih =>
      intro entries h
      rcases ih _ h with hput | ⟨later, hlater, heq⟩
      · rcases mem_put hput with hold | ⟨hv, -⟩
        · exact Or.inl hold
        · exact Or.inr ⟨pair, List.mem_cons_self, hv.symm⟩
      · exact Or.inr ⟨later, List.mem_cons_of_mem _ hlater, heq⟩
  exact (hfold pairs [] h).resolve_left List.not_mem_nil

end Entries

/-! ## Marks -/

namespace Snapshot

/-- A key is not written as a mark of dates or timestamps. -/
def IsPlainKey (key : Value) : Prop :=
  (keyText? key).getD "" ≠ timestampMark ∧ (keyText? key).getD "" ≠ dateMark

variable {entries entries' : List (Value × Value)} {w : Value}

/-- Every key of entries that come back is the text of a key. -/
lemma exists_key_of_restoredEntries (h : restoredEntries entries = .ok entries') {k : Value}
    (hk : k ∈ Entries.keys entries') :
    ∃ key ∈ Entries.keys entries, k = .text ((keyText? key).getD "") := by
  obtain ⟨entry', hentry', rfl⟩ := List.mem_map.mp hk
  obtain ⟨entry, hentry, hkey, -⟩ :=
    exists_left_of_forall₂ (restoredEntries_eq_ok.mp h) hentry'
  exact ⟨entry.1, List.mem_map_of_mem hentry, hkey⟩

/-- The text of every key is a key of entries that come back. -/
lemma text_mem_keys_restoredEntries (h : restoredEntries entries = .ok entries') {key : Value}
    (hkey : key ∈ Entries.keys entries) :
    Value.text ((keyText? key).getD "") ∈ Entries.keys entries' := by
  obtain ⟨entry, hentry, rfl⟩ := List.mem_map.mp hkey
  obtain ⟨entry', hentry', htext, -⟩ :=
    exists_right_of_forall₂ (restoredEntries_eq_ok.mp h) hentry
  exact htext ▸ List.mem_map_of_mem hentry'

/-- Nothing is found under a text just if it is no key. -/
lemma lookup?_eq_none_iff_not_mem {mark : String} :
    Value.lookup? mark entries = none ↔ Value.text mark ∉ Entries.keys entries := by
  rw [lookup?_eq_none, Entries.keys, List.mem_map, not_exists]
  exact forall_congr' fun entry => not_and.symm

/-- What is read as a mapping has no marks among its keys. -/
lemma markedObject_eq_ok_map (h : markedObject entries = .ok (.map entries')) :
    entries' = entries ∧ Value.text timestampMark ∉ Entries.keys entries ∧
      Value.text dateMark ∉ Entries.keys entries := by
  rcases markedObject_cases h with ⟨heq, htimestamp, hdate⟩ | ⟨d, hd⟩ | ⟨t, ht⟩
  · exact ⟨Value.map.inj heq, lookup?_eq_none_iff_not_mem.mp htimestamp,
      lookup?_eq_none_iff_not_mem.mp hdate⟩
  · cases hd
  · cases ht

/-- A mapping comes back as a mapping just if no key is written as a mark, and then none is one of
what comes back. -/
theorem isPlainKey_of_restored (h : restored (.map entries) = .ok (.map entries')) :
    (∀ key ∈ Entries.keys entries, IsPlainKey key) ∧
      ∀ key ∈ Entries.keys entries', IsPlainKey key := by
  rw [restored] at h
  obtain ⟨read, hread, h⟩ := Outcome.bind_eq_ok.mp h
  obtain ⟨rfl, htimestamp, hdate⟩ := markedObject_eq_ok_map h
  have hplain : ∀ key ∈ Entries.keys entries, IsPlainKey key := by
    intro key hkey
    have hmem := Entries.text_mem_keys_ofPairs (text_mem_keys_restoredEntries hread hkey)
    exact ⟨fun heq => htimestamp (heq ▸ hmem), fun heq => hdate (heq ▸ hmem)⟩
  refine ⟨hplain, fun k hk => ?_⟩
  obtain ⟨key, hkey, rfl⟩ :=
    exists_key_of_restoredEntries hread (Entries.mem_keys_of_mem_keys_ofPairs hk)
  exact hplain key hkey

/-- The keys of a mapping that has come back are texts. -/
lemma exists_text_of_restored (h : restored (.map entries) = .ok (.map entries')) :
    ∀ key ∈ Entries.keys entries', ∃ s, key = .text s := by
  rw [restored] at h
  obtain ⟨read, hread, h⟩ := Outcome.bind_eq_ok.mp h
  obtain ⟨rfl, -⟩ := markedObject_eq_ok_map h
  intro key hkey
  obtain ⟨_, -, rfl⟩ := exists_key_of_restoredEntries hread (Entries.mem_keys_of_mem_keys_ofPairs hkey)
  exact ⟨_, rfl⟩

/-- A mapping none of whose keys is written as a mark comes back as a mapping. -/
theorem exists_map_of_restored (hplain : ∀ key ∈ Entries.keys entries, IsPlainKey key)
    (h : restored (.map entries) = .ok w) : ∃ entries', w = .map entries' := by
  rw [restored] at h
  obtain ⟨read, hread, h⟩ := Outcome.bind_eq_ok.mp h
  have hnone : ∀ mark, (∀ key ∈ Entries.keys entries, (keyText? key).getD "" ≠ mark) →
      Value.lookup? mark (Entries.ofPairs read) = none := by
    intro mark hmark
    refine lookup?_eq_none_iff_not_mem.mpr fun hmem => ?_
    obtain ⟨key, hkey, heq⟩ :=
      exists_key_of_restoredEntries hread (Entries.mem_keys_of_mem_keys_ofPairs hmem)
    exact hmark key hkey (Value.text.inj heq).symm
  rw [markedObject, hnone _ fun key hkey => (hplain key hkey).1,
    hnone _ fun key hkey => (hplain key hkey).2] at h
  exact ⟨_, (Except.ok.inj h).symm⟩

/-- An object of mappings is read as a mapping, or not at all. -/
lemma exists_map_of_markedObject (hmaps : ∀ entry ∈ entries, ∃ fields, entry.2 = .map fields)
    (h : markedObject entries = .ok w) : w = .map entries := by
  have hfound : ∀ {mark : String} {v : Value}, Value.lookup? mark entries = some v →
      ∃ fields, v = .map fields := by
    intro mark v hv
    obtain ⟨entry, hentry, rfl⟩ := Option.map_eq_some_iff.mp hv
    exact hmaps entry (List.mem_of_find?_eq_some hentry)
  unfold markedObject at h
  split at h
  · rename_i hv
    obtain ⟨fields, rfl⟩ := hfound hv
    cases h
  · rename_i hv
    obtain ⟨fields, rfl⟩ := hfound hv
    cases h
  · exact (Except.ok.inj h).symm

end Snapshot

/-! ## Schemas -/

namespace Schema

variable {schema : Schema}

/-- No column is named by what is written as a mark. -/
def IsUnmarked (schema : Schema) : Prop :=
  ∀ name ∈ schema.names, Snapshot.IsPlainKey name

/-- The description of a schema that can be read is a mapping. -/
theorem exists_map_of_restored_toValue {w : Value} (h : restored schema.toValue = .ok w) :
    ∃ entries, w = .map entries := by
  have hrestored := h
  rw [toValue, restored] at h
  obtain ⟨read, hread, h⟩ := Outcome.bind_eq_ok.mp h
  refine ⟨_, Snapshot.exists_map_of_markedObject (fun entry hentry => ?_) h⟩
  obtain ⟨pair, hpair, hvalue⟩ := Entries.exists_pair_of_mem_ofPairs hentry
  obtain ⟨old, hold, -, hfields⟩ :=
    Snapshot.exists_left_of_forall₂ (Snapshot.restoredEntries_eq_ok.mp hread) hpair
  obtain ⟨column, -, rfl⟩ := List.mem_map.mp hold
  obtain ⟨fields, -, heq⟩ := (Snapshot.restored_object column.objectKeys_description).mp hfields
  exact ⟨fields, by rw [← hvalue, heq]⟩

/-- A schema whose description can be read names no column by a mark. -/
theorem isUnmarked_of_restored {w : Value} (h : restored schema.toValue = .ok w) :
    schema.IsUnmarked := by
  obtain ⟨entries, rfl⟩ := exists_map_of_restored_toValue h
  have hplain := (Snapshot.isPlainKey_of_restored h).1
  rwa [keys_toRecord] at hplain

/-- A schema that is read from a mapping takes the names of its columns from it. -/
lemma mem_keys_of_mem_names {entries : List (Value × Value)}
    (h : ofValue (.map entries) = .ok schema) {name : Value} (hname : name ∈ schema.names) :
    name ∈ Entries.keys entries := by
  have hsound : schema.Sound fun c => c.name ∈ Entries.keys entries := by
    rw [ofValue] at h
    split at h
    · refine sound_ofColumns (fun entry hentry c hc => ?_) h
      obtain ⟨⟨key, properties⟩, hpair, rfl⟩ := List.mem_map.mp hentry
      rw [(Column.canonical_ofValue hc).2]
      exact List.mem_map_of_mem hpair
    · cases h
  obtain ⟨c, hc, rfl⟩ := List.mem_map.mp hname
  exact hsound.each c hc

/-- A schema that is read from the description of another one names no column by a mark. -/
theorem isUnmarked_of_ofValue {described : Schema} {w : Value}
    (h : restored described.toValue = .ok w) (hschema : ofValue w = .ok schema) :
    schema.IsUnmarked := by
  obtain ⟨entries, rfl⟩ := exists_map_of_restored_toValue h
  intro name hname
  exact (Snapshot.isPlainKey_of_restored h).2 name (mem_keys_of_mem_names hschema hname)

end Schema

end RecordStore
