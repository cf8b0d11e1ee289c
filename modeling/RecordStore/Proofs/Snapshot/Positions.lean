import RecordStore.Proofs.Snapshot.Legible
import RecordStore.Proofs.Snapshot.Lossless
import RecordStore.Proofs.Snapshot.Marks

/-!
# Mappings that stay where they are

A value inside another one has a position: the steps that lead to it, through items of lists and keys
of mappings.  A snapshot keeps the mappings of a value if it can be read again, and at every position
at which there was a mapping there is one with the same keys in the same order.  Since marks are keys
like any others, it does so only if no mapping anywhere inside has a mark among its keys; and since an
early year makes the whole file unreadable, only if all dates inside have full years.  Nothing else
stands in the way.
-/

namespace RecordStore

open Snapshot (draft keyText? restored restoredEntries EntryRestored WrittenKeys IsPlainKey HasFullYear)

namespace Value

/-! ## Positions -/

/-- A step from a value to a part of it. -/
inductive Step where
  /-- To an item of a list or a tuple. -/
  | item (i : Nat)
  /-- To the value under a key of a mapping, by the text that the key is written as. -/
  | key (s : String)

/-- The part of a value that a step leads to. -/
def part? : Step → Value → Option Value
  | .item i, .list items => items[i]?
  | .item i, .tuple items => items[i]?
  | .key s, .map entries =>
    (entries.find? fun entry => (keyText? entry.1).getD "" = s).map (·.2)
  | _, _ => none

/-- The part of a value at a position. -/
def at? : List Step → Value → Option Value
  | [], v => some v
  | step :: path, v => (v.part? step).bind (at? path)

/-- Every part of a value has a property, at whatever position. -/
def Everywhere (P : Value → Prop) (v : Value) : Prop :=
  ∀ path u, v.at? path = some u → P u

/-- A value is no mapping, or one without two keys that are written as the same text. -/
def HasKeysApart (v : Value) : Prop :=
  ∀ entries, v = .map entries →
    entries.Pairwise fun a b => (keyText? a.1).getD "" ≠ (keyText? b.1).getD ""

/-- A value is no mapping, or one of distinct texts as keys. -/
def HasTextKeys (v : Value) : Prop :=
  ∀ entries, v = .map entries →
    (∀ key ∈ Entries.keys entries, ∃ s, key = .text s) ∧ Entries.Distinct entries

/-- If a value is a mapping, then the other one is a mapping with the same keys, as they are written
and in the same order. -/
def SameKeys (v w : Value) : Prop :=
  ∀ entries, v = .map entries → ∃ entries', w = .map entries' ∧
    Entries.keys entries' = (Entries.keys entries).map fun key => .text ((keyText? key).getD "")

/-- At every position of a value there is still a value in the other one, and a mapping with the same
keys where there was a mapping. -/
def KeepsMappings (v w : Value) : Prop :=
  ∀ path u, v.at? path = some u → ∃ u', w.at? path = some u' ∧ u.SameKeys u'

variable {v w u : Value} {step : Step} {P : Value → Prop}

/-- A property holds everywhere if it holds of the value and everywhere in its parts. -/
lemma everywhere_iff :
    Everywhere P v ↔ P v ∧ ∀ step u, v.part? step = some u → Everywhere P u := by
  constructor
  · refine fun h => ⟨h [] v rfl, fun step u hu path x hx => h (step :: path) x ?_⟩
    rw [at?, hu]
    exact hx
  · rintro ⟨hself, hparts⟩ path u hu
    cases path with
    | nil =>
      obtain rfl := Option.some.inj hu
      exact hself
    | cons step path =>
      obtain ⟨part, hpart, hrest⟩ := Option.bind_eq_some_iff.mp hu
      exact hparts step part hpart path u hrest

/-- Mappings are kept if the value itself is, and each part has one in which they are kept. -/
lemma keepsMappings_iff : v.KeepsMappings w ↔
    v.SameKeys w ∧ ∀ step u, v.part? step = some u →
      ∃ u', w.part? step = some u' ∧ u.KeepsMappings u' := by
  constructor
  · intro h
    obtain ⟨self, hself, hsame⟩ := h [] v rfl
    obtain rfl := Option.some.inj hself
    refine ⟨hsame, fun step u hu => ?_⟩
    have hone : v.at? [step] = some u := by rw [at?, hu]; rfl
    obtain ⟨u', hu', -⟩ := h [step] u hone
    obtain ⟨part, hpart, -⟩ := Option.bind_eq_some_iff.mp hu'
    refine ⟨part, hpart, fun path x hx => ?_⟩
    have hmore : v.at? (step :: path) = some x := by rw [at?, hu]; exact hx
    obtain ⟨x', hx', hkeys⟩ := h (step :: path) x hmore
    rw [at?, hpart] at hx'
    exact ⟨x', hx', hkeys⟩
  · rintro ⟨hsame, hparts⟩ path u hu
    cases path with
    | nil =>
      obtain rfl := Option.some.inj hu
      exact ⟨w, rfl, hsame⟩
    | cons step path =>
      obtain ⟨part, hpart, hrest⟩ := Option.bind_eq_some_iff.mp hu
      obtain ⟨part', hpart', hkeeps⟩ := hparts step part hpart
      obtain ⟨u', hu', hkeys⟩ := hkeeps path u hrest
      exact ⟨u', by rw [at?, hpart']; exact hu', hkeys⟩

/-- A value without parts has no part that a step leads to. -/
lemma part?_of_scalar (hv : v.identity?.isSome = true) (step : Step) : v.part? step = none := by
  cases v with
  | list items => cases hv
  | tuple items => cases hv
  | map entries => cases hv
  | _ => cases step <;> rfl

/-- The part under a key is the value of an entry. -/
lemma exists_entry_of_part? {entries : List (Value × Value)}
    (h : (Value.map entries).part? step = some u) :
    ∃ entry ∈ entries, step = .key ((keyText? entry.1).getD "") ∧ entry.2 = u := by
  cases step with
  | item i => cases h
  | key s =>
    obtain ⟨entry, hfound, hvalue⟩ := Option.map_eq_some_iff.mp h
    have hkey := List.find?_some hfound
    rw [decide_eq_true_eq] at hkey
    exact ⟨entry, List.mem_of_find?_eq_some hfound, by rw [hkey], hvalue⟩

/-- The parts of a list are its items. -/
lemma forall_part_list_iff {items : List Value} :
    (∀ step u, (Value.list items).part? step = some u → P u) ↔ ∀ u ∈ items, P u := by
  constructor
  · intro h u hu
    obtain ⟨i, hi⟩ := List.mem_iff_getElem?.mp hu
    exact h (.item i) u hi
  · intro h step u hu
    cases step with
    | item i => exact h u (List.mem_of_getElem? hu)
    | key s => cases hu

/-- The parts of a tuple are those of the list of its items. -/
lemma part?_tuple (step : Step) (items : List Value) :
    (Value.tuple items).part? step = (Value.list items).part? step := by
  cases step <;> rfl

/-- If keys are written as texts of their own, each value is the part under its key. -/
lemma part?_of_mem {entries : List (Value × Value)} (hapart : HasKeysApart (.map entries))
    {entry : Value × Value} (h : entry ∈ entries) :
    (Value.map entries).part? (.key ((keyText? entry.1).getD "")) = some entry.2 := by
  have hfound : entries.find? (fun other =>
      (keyText? other.1).getD "" = (keyText? entry.1).getD "") = some entry := by
    have hpairs := hapart entries rfl
    clear hapart
    induction entries with
    | nil => cases h
    | cons first rest ih =>
      obtain ⟨hfirst, hrest⟩ := List.pairwise_cons.mp hpairs
      rcases List.mem_cons.mp h with rfl | hlater
      · exact List.find?_cons_of_pos (by simp)
      · rw [List.find?_cons_of_neg (by simpa using hfirst entry hlater)]
        exact ih hlater hrest
  rw [part?, hfound]
  rfl

/-- The parts of a mapping are its values. -/
lemma forall_part_map_iff {entries : List (Value × Value)} (hapart : HasKeysApart (.map entries)) :
    (∀ step u, (Value.map entries).part? step = some u → P u) ↔ ∀ entry ∈ entries, P entry.2 := by
  constructor
  · exact fun h entry hentry => h _ _ (part?_of_mem hapart hentry)
  · intro h step u hu
    obtain ⟨entry, hentry, -, rfl⟩ := exists_entry_of_part? hu
    exact h entry hentry

/-- Distinct texts are written as texts of their own. -/
lemma HasTextKeys.apart (h : v.HasTextKeys) : v.HasKeysApart := by
  rintro entries rfl
  obtain ⟨htext, hdistinct⟩ := h entries rfl
  refine hdistinct.imp_of_mem fun {a b} ha hb hapart heq => ?_
  obtain ⟨s, hs⟩ := htext a.1 (List.mem_map_of_mem ha)
  obtain ⟨t, ht⟩ := htext b.1 (List.mem_map_of_mem hb)
  rw [hs, ht] at hapart heq
  obtain rfl : s = t := heq
  exact absurd (Value.same_self _) (Bool.eq_false_iff.mp hapart)

/-- A property holds everywhere in a value without parts if it holds of the value. -/
lemma everywhere_scalar_iff (hv : v.identity?.isSome = true) : Everywhere P v ↔ P v := by
  rw [everywhere_iff]
  refine and_iff_left fun step u hu => ?_
  rw [part?_of_scalar hv] at hu
  cases hu

/-- A property holds everywhere in a list if it holds of the list and everywhere in its items. -/
lemma everywhere_list_iff {items : List Value} :
    Everywhere P (.list items) ↔ P (.list items) ∧ ∀ v ∈ items, Everywhere P v := by
  rw [everywhere_iff, forall_part_list_iff]

/-- A property holds everywhere in a mapping if it holds of the mapping and everywhere in its values. -/
lemma everywhere_map_iff {entries : List (Value × Value)} (hapart : HasKeysApart (.map entries)) :
    Everywhere P (.map entries) ↔ P (.map entries) ∧ ∀ entry ∈ entries, Everywhere P entry.2 := by
  rw [everywhere_iff, forall_part_map_iff hapart]

/-- A property holds of every value if it passes from the parts of a value to the value. -/
theorem inductionOnParts {P : Value → Prop} (v : Value)
    (step : ∀ v : Value, (∀ s u, v.part? s = some u → P u) → P v) : P v := by
  induction v using Value.inductionOn with
  | scalar v hv =>
    refine step v fun s u hu => ?_
    rw [part?_of_scalar hv] at hu
    cases hu
  | list items ih => exact step _ (forall_part_list_iff.mpr ih)
  | tuple items ih =>
    refine step _ fun s u hu => ?_
    rw [part?_tuple] at hu
    exact forall_part_list_iff.mpr ih s u hu
  | map entries ih =>
    refine step _ fun s u hu => ?_
    obtain ⟨entry, hentry, -, rfl⟩ := exists_entry_of_part? hu
    exact (ih entry hentry).2

end Value

/-! ## Parts that come back -/

namespace Snapshot

open Value (HasKeysApart SameKeys KeepsMappings Everywhere)

variable {v w u : Value} {step : Value.Step}

/-- The item at a place comes back at the place. -/
lemma exists_item_of_restoredAll {items items' : List Value} (h : restoredAll items = .ok items')
    {i : Nat} (hi : items[i]? = some u) : ∃ u', items'[i]? = some u' ∧ restored u = .ok u' := by
  have hforall := restoredAll_eq_ok.mp h
  obtain ⟨hless, rfl⟩ := List.getElem?_eq_some_iff.mp hi
  have hless' : i < items'.length := hforall.length_eq ▸ hless
  exact ⟨items'[i], List.getElem?_eq_getElem hless', (List.forall₂_iff_get.mp hforall).2 i hless hless'⟩

/-- The value under a key comes back under the text of the key. -/
lemma exists_entry_of_restoredEntries {entries entries' : List (Value × Value)}
    (h : List.Forall₂ EntryRestored entries entries')
    (hpart : (Value.map entries).part? step = some u) :
    ∃ u', (Value.map entries').part? step = some u' ∧ restored u = .ok u' := by
  cases step with
  | item i => cases hpart
  | key s =>
    rw [Value.part?] at hpart
    rw [Value.part?]
    induction h with
    | nil => cases hpart
    | @cons entry entry' rest rest' hfirst _ ih =>
      obtain ⟨hkey, hvalue⟩ := hfirst
      have hkey' : (keyText? entry'.1).getD "" = (keyText? entry.1).getD "" := by
        rw [hkey]
        rfl
      by_cases hs : (keyText? entry.1).getD "" = s
      · rw [List.find?_cons_of_pos (by simpa using hs)] at hpart
        rw [List.find?_cons_of_pos (by simpa [hkey'] using hs)]
        obtain rfl := Option.some.inj hpart
        exact ⟨entry'.2, rfl, hvalue⟩
      · rw [List.find?_cons_of_neg (by simpa using hs)] at hpart
        rw [List.find?_cons_of_neg (by simpa [hkey'] using hs)]
        exact ih hpart

/-- The keys of a mapping come back as their texts. -/
lemma keys_of_restoredEntries {entries entries' : List (Value × Value)}
    (h : List.Forall₂ EntryRestored entries entries') :
    Entries.keys entries' =
      (Entries.keys entries).map fun key => .text ((keyText? key).getD "") := by
  induction h with
  | nil => rfl
  | cons hfirst _ ih =>
    rw [Entries.keys, List.map_cons, hfirst.1, ← Entries.keys, ih]
    rfl

/-- What takes a mapping for no date, and what it takes to be read at all: no key is written as a mark,
and the year of a date is full. -/
def IsUnmistakable (v : Value) : Prop :=
  (∀ entries, v = .map entries → ∀ key ∈ Entries.keys entries, IsPlainKey key) ∧ HasFullYear v

/-- A mapping without marks comes back as a mapping, entry by entry, if it can be read. -/
lemma exists_entries_of_restored {entries : List (Value × Value)}
    (hapart : HasKeysApart (.map entries)) (hplain : ∀ key ∈ Entries.keys entries, IsPlainKey key)
    (h : restored (.map entries) = .ok w) :
    ∃ entries', w = .map entries' ∧ List.Forall₂ EntryRestored entries entries' := by
  have hwritten : WrittenKeys entries :=
    ⟨hapart entries rfl, fun entry hentry => hplain entry.1 (List.mem_map_of_mem hentry)⟩
  rw [restored_map hwritten] at h
  obtain ⟨entries', hentries, rfl⟩ := Outcome.map_eq_ok.mp h
  exact ⟨entries', rfl, restoredEntries_eq_ok.mp hentries⟩

/-- Each part of a value that is read as a value with the same keys comes back in its place. -/
lemma exists_part_of_restored (hapart : HasKeysApart v) (h : restored v = .ok w)
    (hsame : v.SameKeys w) (hpart : v.part? step = some u) :
    ∃ u', w.part? step = some u' ∧ restored u = .ok u' := by
  cases v with
  | list items =>
    obtain ⟨items', hitems, rfl⟩ := Outcome.map_eq_ok.mp h
    cases step with
    | item i => exact exists_item_of_restoredAll hitems hpart
    | key s => cases hpart
  | tuple items =>
    obtain ⟨items', hitems, rfl⟩ := Outcome.map_eq_ok.mp h
    cases step with
    | item i => exact exists_item_of_restoredAll hitems hpart
    | key s => cases hpart
  | map entries =>
    obtain ⟨_, rfl, -⟩ := hsame entries rfl
    have hplain := (isPlainKey_of_restored h).1
    obtain ⟨entries', hentries, hforall⟩ := exists_entries_of_restored hapart hplain h
    rw [hentries]
    exact exists_entry_of_restoredEntries hforall hpart
  | _ =>
    rw [Value.part?_of_scalar rfl] at hpart
    cases hpart

/-- A value without parts comes back just if it is unmistakable. -/
lemma exists_sameKeys_scalar_iff (hv : v.identity?.isSome = true) :
    (∃ w, restored v = .ok w ∧ v.SameKeys w) ↔
      IsUnmistakable v ∧ ∀ step u, v.part? step = some u → ∃ w, restored u = .ok w := by
  have hnoMap : ∀ entries, v ≠ .map entries := by
    rintro entries rfl
    cases hv
  have hnoPart : ∀ step u, v.part? step ≠ some u := by
    intro step u hu
    rw [Value.part?_of_scalar hv] at hu
    cases hu
  rw [IsUnmistakable, ← isOk_restored_scalar_iff hv]
  constructor
  · rintro ⟨w, hw, -⟩
    exact ⟨⟨fun entries heq => absurd heq (hnoMap entries), w, hw⟩,
      fun step u hu => absurd hu (hnoPart step u)⟩
  · rintro ⟨⟨-, w, hw⟩, -⟩
    exact ⟨w, hw, fun entries heq => absurd heq (hnoMap entries)⟩

/-- A value comes back with the same keys just if it is unmistakable and all its parts come back. -/
lemma exists_sameKeys_iff (hapart : HasKeysApart v) :
    (∃ w, restored v = .ok w ∧ v.SameKeys w) ↔
      IsUnmistakable v ∧ ∀ step u, v.part? step = some u → ∃ w, restored u = .ok w := by
  have hlist : ∀ items, (∃ w, restored (.list items) = .ok w) ↔
      ∀ step u, (Value.list items).part? step = some u → ∃ w, restored u = .ok w :=
    fun items => isOk_restored_list.trans Value.forall_part_list_iff.symm
  cases v with
  | list items =>
    rw [← hlist]
    exact ⟨fun ⟨w, hw, _⟩ => ⟨⟨nofun, nofun⟩, w, hw⟩, fun ⟨_, w, hw⟩ => ⟨w, hw, nofun⟩⟩
  | tuple items =>
    simp only [Value.part?_tuple]
    rw [← hlist]
    exact ⟨fun ⟨w, hw, _⟩ => ⟨⟨nofun, nofun⟩, w, hw⟩, fun ⟨_, w, hw⟩ => ⟨w, hw, nofun⟩⟩
  | map entries =>
    constructor
    · rintro ⟨w, hw, hsame⟩
      obtain ⟨_, rfl, -⟩ := hsame entries rfl
      refine ⟨⟨?_, nofun⟩, fun step u hu => ?_⟩
      · rintro _ ⟨⟩
        exact (isPlainKey_of_restored hw).1
      · obtain ⟨u', -, hu'⟩ := exists_part_of_restored hapart hw hsame hu
        exact ⟨u', hu'⟩
    · rintro ⟨⟨hplain, -⟩, hparts⟩
      have hwritten : WrittenKeys entries := ⟨hapart entries rfl, fun entry hentry =>
        hplain entries rfl entry.1 (List.mem_map_of_mem hentry)⟩
      obtain ⟨entries', hentries⟩ :=
        isOk_restoredEntries.mpr ((Value.forall_part_map_iff hapart).mp hparts)
      refine ⟨.map entries', ?_, ?_⟩
      · rw [restored_map hwritten, hentries]
        rfl
      · rintro _ ⟨⟩
        exact ⟨entries', rfl, keys_of_restoredEntries (restoredEntries_eq_ok.mp hentries)⟩
  | _ => exact exists_sameKeys_scalar_iff rfl

/-- A value that is written without a key twice comes back with all its mappings in their places just
if everything in it is unmistakable. -/
theorem exists_keepsMappings_iff (hapart : Everywhere HasKeysApart v) :
    (∃ w, restored v = .ok w ∧ v.KeepsMappings w) ↔ Everywhere IsUnmistakable v := by
  induction v using Value.inductionOnParts with
  | step v ih =>
    obtain ⟨hself, hparts⟩ := Value.everywhere_iff.mp hapart
    rw [Value.everywhere_iff]
    constructor
    · rintro ⟨w, hw, hkeeps⟩
      obtain ⟨hsame, hkept⟩ := Value.keepsMappings_iff.mp hkeeps
      have hcomesBack : ∀ step u, v.part? step = some u →
          ∃ u', restored u = .ok u' ∧ u.KeepsMappings u' := by
        intro step u hu
        obtain ⟨u', hu', hrestored⟩ := exists_part_of_restored hself hw hsame hu
        obtain ⟨u'', hu'', hkept⟩ := hkept step u hu
        rw [hu'] at hu''
        obtain rfl := Option.some.inj hu''
        exact ⟨u', hrestored, hkept⟩
      refine ⟨((exists_sameKeys_iff hself).mp ⟨w, hw, hsame⟩).1, fun step u hu => ?_⟩
      exact (ih step u hu (hparts step u hu)).mp (hcomesBack step u hu)
    · rintro ⟨hunmistakable, hall⟩
      have hcomesBack : ∀ step u, v.part? step = some u →
          ∃ u', restored u = .ok u' ∧ u.KeepsMappings u' :=
        fun step u hu => (ih step u hu (hparts step u hu)).mpr (hall step u hu)
      obtain ⟨w, hw, hsame⟩ := (exists_sameKeys_iff hself).mpr
        ⟨hunmistakable, fun step u hu => (hcomesBack step u hu).imp fun _ h => h.1⟩
      refine ⟨w, hw, Value.keepsMappings_iff.mpr ⟨hsame, fun step u hu => ?_⟩⟩
      obtain ⟨u', hu', hrestored⟩ := exists_part_of_restored hself hw hsame hu
      obtain ⟨u'', hu'', hkept⟩ := hcomesBack step u hu
      rw [hrestored] at hu''
      obtain rfl := Except.ok.inj hu''
      exact ⟨u', hu', hkept⟩

/-! ## What can be written -/

/-- A value that can be written as far as it goes: an integer has not too many digits, and each key has
a text. -/
def IsWritable (v : Value) : Prop :=
  (∀ i, v = .int i → i.natAbs < 10 ^ Number.digitLimit) ∧
    ∀ entries, v = .map entries → ∀ key ∈ Entries.keys entries, (keyText? key).isSome = true

/-- A value is written completely just if everything in it can be written. -/
theorem complete_draft_iff (hapart : Everywhere HasKeysApart v) :
    (draft v).complete = true ↔ Everywhere IsWritable v := by
  induction v using Value.inductionOnParts with
  | step v ih =>
    obtain ⟨hself, hparts⟩ := Value.everywhere_iff.mp hapart
    have hall : (∀ step u, v.part? step = some u → Everywhere IsWritable u) ↔
        ∀ step u, v.part? step = some u → (draft u).complete = true :=
      forall₂_congr fun step u => forall_congr' fun hu => (ih step u hu (hparts step u hu)).symm
    have hitems : ∀ items, (draft (.list items)).complete = true ↔
        ∀ step u, (Value.list items).part? step = some u → (draft u).complete = true := by
      intro items
      rw [complete_draft_list, List.all_eq_true, Value.forall_part_list_iff]
    have hnoPart : v.identity?.isSome = true → ∀ step u, v.part? step = some u →
        (draft u).complete = true := by
      intro hv step u hu
      rw [Value.part?_of_scalar hv] at hu
      cases hu
    rw [Value.everywhere_iff, hall]
    cases v with
    | list items =>
      rw [← hitems]
      exact (and_iff_right (by simp [IsWritable])).symm
    | tuple items =>
      simp only [Value.part?_tuple]
      rw [← hitems]
      exact (and_iff_right (by simp [IsWritable])).symm
    | map entries =>
      rw [complete_draft_map, List.all_eq_true, Value.forall_part_map_iff hself]
      simp only [Bool.and_eq_true, forall₂_and]
      refine and_congr_left fun _ => ⟨fun hkeys => ⟨?_, ?_⟩, fun h entry hentry => ?_⟩
      · rintro _ ⟨⟩
      · rintro _ ⟨⟩ key hkey
        obtain ⟨entry, hentry, rfl⟩ := List.mem_map.mp hkey
        exact hkeys entry hentry
      · exact h.2 entries rfl entry.1 (List.mem_map_of_mem hentry)
    | int i =>
      have hint : (draft (.int i)).complete = true ↔ i.natAbs < 10 ^ Number.digitLimit := by
        refine ⟨fun hcomplete => ?_, fun hless => (lasts_int hless).1⟩
        rw [draft, write, integerText?] at hcomplete
        cases htext : Number.integerText? i with
        | none =>
          rw [htext] at hcomplete
          cases hcomplete
        | some s => exact (Number.integerText?_eq_some.mp htext).1
      rw [hint]
      refine ⟨fun hless => ⟨⟨?_, ?_⟩, hnoPart rfl⟩, fun h => h.1.1 i rfl⟩
      · rintro _ ⟨⟩
        exact hless
      · rintro _ ⟨⟩
    | _ => exact ⟨fun _ => ⟨by simp [IsWritable], hnoPart rfl⟩, fun _ => rfl⟩

end Snapshot

/-! ## Files -/

open Snapshot (IsWritable IsUnmistakable timestampMark dateMark)

/-- Where a file can be put, a value is saved and read as something with a property just if it can be
written and comes back as that. -/
lemma World.exists_saved_iff {v : Value} {disk : Disk} {path : String} {place : Path}
    (hplace : disk.place? path = some place) (hfree : disk.isDirectory place = false)
    {P : Value → Prop} :
    (∃ disk' w, World.saveSnapshot disk path v = (disk', true) ∧ disk'.readSnapshot path = .ok w ∧
        P w) ↔ (draft v).complete = true ∧ ∃ w, restored v = .ok w ∧ P w := by
  obtain ⟨disk', hwrite⟩ := Disk.exists_write hplace hfree (.text (String.ofList (draft v).chars))
  have hsaved : World.saveSnapshot disk path v = (disk', (draft v).complete) := by
    rw [World.saveSnapshot, hwrite]
  have hstores : (draft v).complete = true → disk'.Stores path v :=
    fun hcomplete => ⟨hcomplete, Disk.find?_write hwrite⟩
  rw [hsaved]
  constructor
  · rintro ⟨_, w, heq, hread, hw⟩
    obtain ⟨rfl, hcomplete⟩ := Prod.mk.inj heq
    exact ⟨hcomplete, w, (hstores hcomplete).restored_eq_ok hread, hw⟩
  · rintro ⟨hcomplete, w, hrestored, hw⟩
    exact ⟨disk', w, by rw [hcomplete], by rw [(hstores hcomplete).readSnapshot, hrestored], hw⟩

/-- A value without a key twice is saved, wherever a file can be put, and read with all its mappings in
their places just if everything in it can be written and is unmistakable. -/
theorem World.saveSnapshot_keepsMappings_iff {v : Value} (hapart : v.Everywhere Value.HasKeysApart)
    {disk : Disk} {path : String} {place : Path} (hplace : disk.place? path = some place)
    (hfree : disk.isDirectory place = false) :
    (∃ disk' w, World.saveSnapshot disk path v = (disk', true) ∧ disk'.readSnapshot path = .ok w ∧
        v.KeepsMappings w) ↔
      v.Everywhere fun u => IsWritable u ∧ IsUnmistakable u := by
  have hboth : (v.Everywhere fun u => IsWritable u ∧ IsUnmistakable u) ↔
      v.Everywhere IsWritable ∧ v.Everywhere IsUnmistakable := by
    simp only [Value.Everywhere, imp_and, forall_and]
  rw [World.exists_saved_iff hplace hfree, hboth, Snapshot.complete_draft_iff hapart,
    Snapshot.exists_keepsMappings_iff hapart]

/-- A record whose columns are named almost like marks, with a mapping inside a list, is kept. -/
theorem World.saveSnapshot_keepsMappings_record :
    let v : Value := .map [(.text "_date_", .null),
      (.text "datetime", .list [.map [(.text "date", .null)]])]
    v.Everywhere Value.HasKeysApart ∧ Disk.empty.place? "t.json" = some ["t.json"] ∧
      Disk.empty.isDirectory ["t.json"] = false ∧
      ∃ disk' w, World.saveSnapshot .empty "t.json" v = (disk', true) ∧
        disk'.readSnapshot "t.json" = .ok w ∧ v.KeepsMappings w := by
  intro v
  have hinner : Value.HasKeysApart (.map [(.text "date", .null)]) := by
    rintro _ ⟨⟩
    exact List.pairwise_singleton _ _
  have houter : v.HasKeysApart := by
    intro entries heq
    obtain rfl := Value.map.inj heq
    exact List.pairwise_pair.mpr (by decide)
  -- What holds of the two mappings and of values that are no mappings holds everywhere.
  have heverywhere : ∀ {P : Value → Prop}, P v → P (.map [(.text "date", .null)]) → P .null →
      P (.list [.map [(.text "date", .null)]]) → v.Everywhere P := by
    intro P hv hmap hnull hlist
    refine (Value.everywhere_map_iff houter).mpr ⟨hv, ?_⟩
    have hnullEverywhere := (Value.everywhere_scalar_iff (v := .null) rfl).mpr hnull
    refine List.forall_mem_cons.mpr ⟨hnullEverywhere, List.forall_mem_singleton.mpr ?_⟩
    refine Value.everywhere_list_iff.mpr ⟨hlist, List.forall_mem_singleton.mpr ?_⟩
    exact (Value.everywhere_map_iff hinner).mpr
      ⟨hmap, List.forall_mem_singleton.mpr hnullEverywhere⟩
  have hapart : v.Everywhere Value.HasKeysApart := by
    refine heverywhere houter hinner ?_ ?_
    · rintro _ ⟨⟩
    · rintro _ ⟨⟩
  have hkeys : ∀ entries : List (Value × Value),
      (∀ key ∈ Entries.keys entries, (keyText? key).isSome = true ∧ IsPlainKey key) →
        IsWritable (.map entries) ∧ IsUnmistakable (.map entries) := by
    refine fun entries h => ⟨⟨?_, ?_⟩, ?_, ?_⟩
    · rintro _ ⟨⟩
    · rintro _ ⟨⟩ key hkey
      exact (h key hkey).1
    · rintro _ ⟨⟩ key hkey
      exact (h key hkey).2
    · rintro _ ⟨⟩
  have hplace : Disk.empty.place? "t.json" = some ["t.json"] := by decide +kernel
  have hfree : Disk.empty.isDirectory ["t.json"] = false := by decide +kernel
  refine ⟨hapart, hplace, hfree,
    (World.saveSnapshot_keepsMappings_iff hapart hplace hfree).mpr (heverywhere ?_ ?_ ?_ ?_)⟩
  · refine hkeys _ ?_
    simp [Entries.keys, keyText?, IsPlainKey, timestampMark, dateMark]
  · refine hkeys _ ?_
    simp [Entries.keys, keyText?, IsPlainKey, timestampMark, dateMark]
  · exact ⟨⟨by rintro _ ⟨⟩, by rintro _ ⟨⟩⟩, by rintro _ ⟨⟩, by rintro _ ⟨⟩⟩
  · exact ⟨⟨by rintro _ ⟨⟩, by rintro _ ⟨⟩⟩, by rintro _ ⟨⟩, by rintro _ ⟨⟩⟩

/-- Not every value that a column of objects accepts is kept, even if all its keys are texts: one under
the mark of dates is read as a date. -/
theorem World.not_keepsMappings_marked :
    ¬∀ v : Value, Kind.object.accepts v = .ok true → v.Everywhere Value.HasTextKeys →
      ∃ disk w, World.saveSnapshot .empty "t.json" v = (disk, true) ∧
        disk.readSnapshot "t.json" = .ok w ∧ v.KeepsMappings w := by
  intro hall
  have hself : (Value.map [(.text dateMark, .text "2020-01-01")]).HasTextKeys := by
    rintro _ ⟨⟩
    exact ⟨by simp [Entries.keys], List.pairwise_singleton _ _⟩
  have hkeys : (Value.map [(.text dateMark, .text "2020-01-01")]).Everywhere Value.HasTextKeys := by
    refine (Value.everywhere_map_iff hself.apart).mpr ⟨hself, List.forall_mem_singleton.mpr ?_⟩
    refine (Value.everywhere_scalar_iff rfl).mpr ?_
    rintro _ ⟨⟩
  have hplace : Disk.empty.place? "t.json" = some ["t.json"] := by decide +kernel
  obtain ⟨-, w, hw, hkeeps⟩ :=
    (World.exists_saved_iff hplace (by decide +kernel)).mp (hall _ rfl hkeys)
  obtain ⟨entries, rfl, -⟩ := (Value.keepsMappings_iff.mp hkeeps).1 _ rfl
  exact ((Snapshot.isPlainKey_of_restored hw).1 _ List.mem_cons_self).2 rfl

end RecordStore
