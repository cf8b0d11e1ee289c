import Mathlib.Data.List.Forall2
import RecordStore.Proofs.Entries
import RecordStore.Proofs.Snapshot.Restored

/-!
# Values that last

A value lasts if it can be written and comes back from the snapshot as itself.  A value that comes
back equal is just one that lasts: what a snapshot changes is told apart by equality, whether it is a
fraction of a second, an offset, the kind of a list or a key that is no text.  Lists and mappings
last with their parts, as long as the keys are distinct texts and none of them is a mark.
-/

namespace RecordStore.Snapshot

open Json (ReadError)

/-! ## What can be written -/

/-- More items can be written if each of them can. -/
lemma complete_writeItems (level : Nat) (items : List Value) :
    (writeItems level items).complete = items.all fun v => (write (level + 1) v).complete := by
  induction items with
  | nil => rfl
  | cons v items ih =>
    rw [writeItems, Draft.complete_andThen, complete_itemAfter, ih, List.all_cons]

/-- An array can be written if each of its items can. -/
lemma complete_writeArray (level : Nat) (items : List Value) :
    (writeArray level items).complete = items.all fun v => (write (level + 1) v).complete := by
  cases items with
  | nil => rfl
  | cons v items =>
    rw [writeArray, Draft.complete_andThen, complete_itemAfter, complete_writeItems, List.all_cons]

/-- An entry can be written if its key has a text and its value can be written. -/
lemma complete_writeEntry (level : Nat) (separator : List Char) (entry : Value × Value) :
    (writeEntry level separator entry).complete =
      ((keyText? entry.1).isSome && (write (level + 1) entry.2).complete) := by
  obtain ⟨key, v⟩ := entry
  rw [writeEntry]
  cases keyText? key <;> rfl

/-- More entries can be written if each of them can. -/
lemma complete_writeEntries (level : Nat) (entries : List (Value × Value)) :
    (writeEntries level entries).complete = entries.all fun entry =>
      (keyText? entry.1).isSome && (write (level + 1) entry.2).complete := by
  induction entries with
  | nil => rfl
  | cons entry entries ih =>
    rw [writeEntries, Draft.complete_andThen, complete_writeEntry, ih, List.all_cons]

/-- An object can be written if each of its entries can. -/
lemma complete_writeObject (level : Nat) (entries : List (Value × Value)) :
    (writeObject level entries).complete = entries.all fun entry =>
      (keyText? entry.1).isSome && (write (level + 1) entry.2).complete := by
  cases entries with
  | nil => rfl
  | cons entry entries =>
    have hparts : (writeObject level (entry :: entries)).complete =
        ((writeEntry level [] entry).andThen (writeEntries level entries)).complete := rfl
    rw [hparts, Draft.complete_andThen, complete_writeEntry, complete_writeEntries, List.all_cons]

/-- A test of all items is the same test if it is the same on every item. -/
lemma all_congr_of_mem {α : Type} {items : List α} {p q : α → Bool} (h : ∀ x ∈ items, p x = q x) :
    items.all p = items.all q := by
  rw [Bool.eq_iff_iff, List.all_eq_true, List.all_eq_true]
  exact forall₂_congr fun x hx => by rw [h x hx]

/-- Whether a value can be written does not depend on the level. -/
lemma complete_write (level : Nat) (v : Value) :
    (write level v).complete = (draft v).complete := by
  have hitems : ∀ {items : List Value} (level : Nat),
      (∀ v ∈ items, ∀ level, (write level v).complete = (draft v).complete) →
        (writeArray level items).complete = items.all fun v => (draft v).complete := by
    intro items level ih
    rw [complete_writeArray]
    exact all_congr_of_mem fun v hv => ih v hv (level + 1)
  induction v using Value.inductionOn generalizing level with
  | scalar v hv => cases v <;> first | rfl | cases hv
  | list items ih =>
    rw [draft, write, write, hitems level ih, hitems 0 ih]
  | tuple items ih =>
    rw [draft, write, write, hitems level ih, hitems 0 ih]
  | map entries ih =>
    rw [draft, write, write, complete_writeObject, complete_writeObject]
    refine all_congr_of_mem fun entry hentry => ?_
    rw [(ih entry hentry).2, (ih entry hentry).2]

/-- A list can be written if its items can. -/
lemma complete_draft_list (items : List Value) :
    (draft (.list items)).complete = items.all fun v => (draft v).complete := by
  rw [draft, write, complete_writeArray]
  exact all_congr_of_mem fun v _ => complete_write 1 v

/-- A mapping can be written if its keys have texts and its values can be written. -/
lemma complete_draft_map (entries : List (Value × Value)) :
    (draft (.map entries)).complete = entries.all fun entry =>
      (keyText? entry.1).isSome && (draft entry.2).complete := by
  rw [draft, write, complete_writeObject]
  exact all_congr_of_mem fun entry _ => by rw [complete_write]

/-! ## Items side by side -/

section

variable {α β γ : Type} {R : α → β → Prop} {items : List α} {others : List β}

/-- Each item of a list stands beside one that it is related to. -/
lemma exists_right_of_forall₂ (h : List.Forall₂ R items others) {a : α} (ha : a ∈ items) :
    ∃ b ∈ others, R a b := by
  induction h with
  | nil => cases ha
  | cons hfirst _ ih =>
    rcases List.mem_cons.mp ha with rfl | hrest
    · exact ⟨_, List.mem_cons_self, hfirst⟩
    · obtain ⟨b, hb, hab⟩ := ih hrest
      exact ⟨b, List.mem_cons_of_mem _ hb, hab⟩

/-- Each item of a list stands beside one that is related to it. -/
lemma exists_left_of_forall₂ (h : List.Forall₂ R items others) {b : β} (hb : b ∈ others) :
    ∃ a ∈ items, R a b :=
  exists_right_of_forall₂ (R := flip R) h.flip hb

/-- Items that stand side by side have in common what related items have in common. -/
lemma map_eq_of_forall₂ {f : α → γ} {g : β → γ} (h : List.Forall₂ R items others)
    (hsame : ∀ a ∈ items, ∀ b, R a b → g b = f a) : others.map g = items.map f := by
  induction h with
  | nil => rfl
  | cons hfirst _ ih =>
    rw [List.map_cons, List.map_cons, hsame _ List.mem_cons_self _ hfirst,
      ih fun a ha => hsame a (List.mem_cons_of_mem _ ha)]

/-- What each item of a list is related to can be listed. -/
lemma exists_forall₂ (h : ∀ a ∈ items, ∃ b, R a b) : ∃ others, List.Forall₂ R items others := by
  induction items with
  | nil => exact ⟨[], .nil⟩
  | cons a rest ih =>
    obtain ⟨⟨b, hb⟩, hrest⟩ := List.forall_mem_cons.mp h
    obtain ⟨others, hothers⟩ := ih hrest
    exact ⟨b :: others, .cons hb hothers⟩

end

/-! ## What comes back part by part -/

/-- The items of an array come back one by one. -/
lemma restoredAll_eq_ok {items restoredItems : List Value} :
    restoredAll items = .ok restoredItems ↔
      List.Forall₂ (fun v w => restored v = .ok w) items restoredItems := by
  induction items generalizing restoredItems with
  | nil =>
    rw [List.forall₂_nil_left_iff]
    simp [restoredAll, eq_comm]
  | cons v items ih =>
    rw [restoredAll_cons, Outcome.bind_eq_ok]
    constructor
    · rintro ⟨w, hw, hrest⟩
      obtain ⟨ws, hws, rfl⟩ := Outcome.map_eq_ok.mp hrest
      exact List.Forall₂.cons hw (ih.mp hws)
    · intro h
      obtain ⟨w, ws, hw, hws, rfl⟩ := List.forall₂_cons_left_iff.mp h
      exact ⟨w, hw, Outcome.map_eq_ok.mpr ⟨ws, ih.mpr hws, rfl⟩⟩

/-- An entry comes back under the text of its key. -/
def EntryRestored (entry restoredEntry : Value × Value) : Prop :=
  restoredEntry.1 = .text ((keyText? entry.1).getD "") ∧ restored entry.2 = .ok restoredEntry.2

/-- The entries of an object come back one by one. -/
lemma restoredEntries_eq_ok {entries entries' : List (Value × Value)} :
    restoredEntries entries = .ok entries' ↔ List.Forall₂ EntryRestored entries entries' := by
  induction entries generalizing entries' with
  | nil =>
    rw [List.forall₂_nil_left_iff]
    simp [restoredEntries, eq_comm]
  | cons entry entries ih =>
    obtain ⟨key, v⟩ := entry
    rw [restoredEntries, Outcome.bind_eq_ok]
    constructor
    · rintro ⟨e, he, hrest⟩
      obtain ⟨es, hes, rfl⟩ := Outcome.map_eq_ok.mp hrest
      obtain ⟨w, hw, rfl⟩ := Outcome.map_eq_ok.mp he
      exact List.Forall₂.cons ⟨rfl, hw⟩ (ih.mp hes)
    · intro h
      obtain ⟨e, es, ⟨hkey, hw⟩, hes, rfl⟩ := List.forall₂_cons_left_iff.mp h
      refine ⟨e, Outcome.map_eq_ok.mpr ⟨e.2, hw, ?_⟩, Outcome.map_eq_ok.mpr ⟨es, ih.mpr hes, rfl⟩⟩
      exact Prod.ext hkey.symm rfl

/-! ## Coming back as the same value -/

/-- A timestamp that is the same to the second has nothing more. -/
lemma truncated_eq_self_of_same {t : Timestamp}
    (h : (Value.timestamp t.truncated).same (.timestamp t) = true) : t.truncated = t := by
  have hidentity := (Value.same_iff_identity rfl).mp h
  simp only [Value.identity?, Option.some.injEq, Value.Identity.timestamp.injEq,
    Timestamp.identity] at hidentity
  obtain ⟨haware, hinstant⟩ := hidentity
  have hoffset : t.offset = none := Option.isSome_eq_false_iff.mp haware |> Option.isNone_iff_eq_none.mp
  refine t.truncated_eq_self_iff.mpr ⟨?_, hoffset⟩
  simp only [Timestamp.instant, Timestamp.microsOfDay, Timestamp.truncated, hoffset,
    Option.getD_none] at hinstant
  omega

/-- Keys that are texts and apart from each other belong to one entry each. -/
lemma getElem_eq_of_beq {entries : List (Value × Value)} (h : Entries.Distinct entries) {i j : Nat}
    (hi : i < entries.length) (hj : j < entries.length)
    (hkey : (entries[i].1 == entries[j].1) = true)
    (hhash : entries[i].1.isHashable = true) : i = j := by
  rcases Nat.lt_trichotomy i j with hlt | heq | hgt
  · have hdistinct := List.pairwise_iff_getElem.mp h i j hi hj hlt
    rw [hkey] at hdistinct
    cases hdistinct
  · exact heq
  · have hdistinct := List.pairwise_iff_getElem.mp h j i hj hi hgt
    rw [← Value.beq_comm hhash, hkey] at hdistinct
    cases hdistinct

/-- A text is the same key only as itself. -/
lemma eq_text_of_same {s : String} {v : Value} (h : (Value.text s).same v = true) : v = .text s := by
  have hidentity := (Value.same_iff_identity rfl).mp h
  cases v <;> simp_all [Value.identity?]

/-- An entry within others is the same as one of them. -/
lemma exists_same_of_sameWithin {entries others : List (Value × Value)}
    (h : Value.sameWithin entries others = true) {entry : Value × Value} (hentry : entry ∈ entries) :
    ∃ other ∈ others, entry.1.same other.1 = true ∧ entry.2.same other.2 = true := by
  induction entries with
  | nil => cases hentry
  | cons first rest ih =>
    rw [Value.sameWithin, Bool.and_eq_true] at h
    rcases List.mem_cons.mp hentry with rfl | hrest
    · obtain ⟨other, hother, hsame⟩ := List.any_eq_true.mp h.1
      obtain ⟨key, v⟩ := entry
      rw [Value.sameEntry, Bool.and_eq_true] at hsame
      exact ⟨other, hother, hsame⟩
    · exact ih h.2 hrest

/-- Entries that come back the same come back as they are. -/
lemma entries_eq_of_same {entries entries' : List (Value × Value)}
    (hrestored : List.Forall₂ EntryRestored entries entries')
    (hvalues : ∀ entry ∈ entries, ∀ w, restored entry.2 = .ok w → w.same entry.2 = true →
      w = entry.2)
    (hsame : (Value.map (Entries.ofPairs entries')).same (.map entries) = true) :
    Entries.Distinct entries' ∧ entries' = entries := by
  have hlength := hrestored.length_eq
  rw [Value.same, Bool.and_eq_true, beq_iff_eq] at hsame
  obtain ⟨hcount, hwithin⟩ := hsame
  have hdistinct : Entries.Distinct entries' := Entries.distinct_of_length_ofPairs (by omega)
  rw [Entries.ofPairs_of_distinct hdistinct] at hwithin
  refine ⟨hdistinct, List.ext_getElem hlength.symm fun i hi' hi => ?_⟩
  -- The entry that is the same as the `i`-th one is the `i`-th one, because no text stands twice.
  have hat : ∀ k (hk : k < entries.length) (hk' : k < entries'.length),
      EntryRestored entries[k] entries'[k] := fun k hk hk' =>
    (List.forall₂_iff_get.mp hrestored).2 k hk hk'
  obtain ⟨hkey, hvalue⟩ := hat i hi hi'
  obtain ⟨other, hother, hkeySame, hvalueSame⟩ :=
    exists_same_of_sameWithin hwithin (List.getElem_mem hi')
  obtain ⟨j, hj, rfl⟩ := List.getElem_of_mem hother
  rw [hkey] at hkeySame
  have hkeyj := eq_text_of_same hkeySame
  obtain ⟨hkeyj', -⟩ := hat j hj (hlength ▸ hj)
  rw [hkeyj, keyText?, Option.getD_some] at hkeyj'
  have hij : i = j := getElem_eq_of_beq hdistinct hi' (hlength ▸ hj) (by
    rw [hkey, hkeyj']
    exact Value.same_self _) (by rw [hkey]; rfl)
  subst hij
  exact Prod.ext (hkey.trans hkeyj.symm) (hvalues _ (List.getElem_mem hi) _ hvalue hvalueSame)

/-- Items that come back the same come back as they are. -/
lemma items_eq_of_same {items items' : List Value}
    (hrestored : List.Forall₂ (fun v w => restored v = .ok w) items items')
    (hvalues : ∀ v ∈ items, ∀ w, restored v = .ok w → w.same v = true → w = v)
    (hsame : Value.sameAll items' items = true) : items' = items := by
  induction hrestored with
  | nil => rfl
  | cons hfirst hrest ih =>
    rw [Value.sameAll, Bool.and_eq_true] at hsame
    rw [hvalues _ List.mem_cons_self _ hfirst hsame.1,
      ih (fun v hv => hvalues v (List.mem_cons_of_mem _ hv)) hsame.2]

/-- What becomes of an object is no mapping, or the mapping of its entries. -/
lemma markedObject_cases {entries : List (Value × Value)} {v : Value}
    (h : markedObject entries = .ok v) :
    v = .map entries ∧ Value.lookup? timestampMark entries = none ∧
        Value.lookup? dateMark entries = none ∨
      (∃ d, v = .date d) ∨ ∃ t, v = .timestamp t := by
  have hmarked : ∀ {read? : List Char → Option Value} {u : Value},
      readMarked read? u = .ok v → ∃ cs, read? cs = some v := by
    intro read? u hread
    unfold readMarked at hread
    split at hread
    · split at hread
      · rename_i hfound
        obtain rfl := Except.ok.inj hread
        exact ⟨_, hfound⟩
      · cases hread
    · cases hread
  unfold markedObject at h
  split at h
  · obtain ⟨cs, hcs⟩ := hmarked h
    obtain ⟨t, -, rfl⟩ := Option.map_eq_some_iff.mp hcs
    exact Or.inr (Or.inr ⟨t, rfl⟩)
  · obtain ⟨cs, hcs⟩ := hmarked h
    obtain ⟨d, -, rfl⟩ := Option.map_eq_some_iff.mp hcs
    exact Or.inr (Or.inl ⟨d, rfl⟩)
  · rename_i htimestamp hdate
    obtain rfl := Except.ok.inj h
    exact Or.inl ⟨rfl, htimestamp, hdate⟩

/-- A value that comes back the same comes back as itself. -/
theorem eq_of_restored_same {v w : Value} (h : restored v = .ok w) (hsame : w.same v = true) :
    w = v := by
  induction v using Value.inductionOn generalizing w with
  | scalar v hv =>
    cases v with
    | float x =>
      obtain rfl := Except.ok.inj h
      cases x with
      | notNumber payload =>
        have hidentity := (Value.same_iff_identity rfl).mp hsame
        obtain rfl : payload = 0 := by
          simpa [restoredNumber, Value.identity?, Number.identity] using hidentity
        rfl
      | finite negative m e hcanonical => rfl
      | infinite negative => rfl
    | date d =>
      rw [restored] at h
      split at h
      · exact (Except.ok.inj h).symm
      · cases h
    | timestamp t =>
      rw [restored] at h
      split at h
      · obtain rfl := Except.ok.inj h
        rw [truncated_eq_self_of_same hsame]
      · cases h
    | null => exact (Except.ok.inj h).symm
    | bool b => exact (Except.ok.inj h).symm
    | int i => exact (Except.ok.inj h).symm
    | text s => exact (Except.ok.inj h).symm
    | list items => cases hv
    | tuple items => cases hv
    | map entries => cases hv
  | list items ih =>
    obtain ⟨items', hitems, rfl⟩ := Outcome.map_eq_ok.mp h
    rw [items_eq_of_same (restoredAll_eq_ok.mp hitems) (fun v hv w => ih v hv) hsame]
  | tuple items ih =>
    obtain ⟨items', -, rfl⟩ := Outcome.map_eq_ok.mp h
    cases hsame
  | map entries ih =>
    obtain ⟨entries', hentries, hobject⟩ := Outcome.bind_eq_ok.mp h
    rcases markedObject_cases hobject with ⟨rfl, -, -⟩ | ⟨d, rfl⟩ | ⟨t, rfl⟩
    · obtain ⟨hdistinct, rfl⟩ := entries_eq_of_same (restoredEntries_eq_ok.mp hentries)
        (fun entry hentry w => (ih entry hentry).2) hsame
      rw [Entries.ofPairs_of_distinct hdistinct]
    · cases hsame
    · cases hsame

/-! ## Values that last -/

/-- A value can be written and comes back as itself. -/
def Lasts (v : Value) : Prop :=
  (draft v).complete = true ∧ restored v = .ok v

/-- A value can be written and what is read back is equal to it. -/
def ComesBackEqual (v : Value) : Prop :=
  (draft v).complete = true ∧ ∃ w, read (draft v).chars = .ok w ∧ w.equals v = true

instance (v : Value) : Decidable (ComesBackEqual v) :=
  let readsEqual : Bool :=
    match read (draft v).chars with
    | .ok w => w.equals v
    | .error _ => false
  decidable_of_iff ((draft v).complete = true ∧ readsEqual = true) <| by
    dsimp only [readsEqual]
    refine and_congr_right fun _ => ?_
    cases read (draft v).chars <;> simp

/-- A value comes back equal just if it lasts and is a number, or none at all. -/
theorem comesBackEqual_iff {v : Value} : ComesBackEqual v ↔ Lasts v ∧ v.isNotNumber = false := by
  constructor
  · rintro ⟨hcomplete, w, hread, hequals⟩
    rw [read_draft hcomplete] at hread
    rw [Value.equals, Bool.and_eq_true, Bool.not_eq_true'] at hequals
    obtain rfl := eq_of_restored_same hread hequals.1
    exact ⟨⟨hcomplete, hread⟩, hequals.2⟩
  · rintro ⟨⟨hcomplete, hrestored⟩, hnumber⟩
    refine ⟨hcomplete, v, by rw [read_draft hcomplete, hrestored], ?_⟩
    rw [Value.equals, Value.same_self, hnumber]
    rfl

/-- A list lasts just if its items do. -/
theorem lasts_list {items : List Value} : Lasts (.list items) ↔ ∀ v ∈ items, Lasts v := by
  have hself : restored (.list items) = .ok (.list items) ↔ ∀ v ∈ items, restored v = .ok v := by
    rw [restored, Outcome.map_eq_ok]
    constructor
    · rintro ⟨items', hitems, hlist⟩
      obtain rfl := Value.list.inj hlist
      exact List.forall₂_same.mp (restoredAll_eq_ok.mp hitems)
    · exact fun h => ⟨items, restoredAll_eq_ok.mpr (List.forall₂_same.mpr h), rfl⟩
  rw [Lasts, hself, complete_draft_list, List.all_eq_true, ← forall₂_and]
  rfl

/-- Nothing is found under a text that is no key. -/
lemma lookup?_eq_none {mark : String} {entries : List (Value × Value)} :
    Value.lookup? mark entries = none ↔ ∀ entry ∈ entries, entry.1 ≠ .text mark := by
  rw [Value.lookup?, Option.map_eq_none_iff, List.find?_eq_none]
  refine forall₂_congr fun entry _ => ?_
  cases entry.1 <;> simp [Value.text?]

/-- The keys of a mapping have texts of their own, and none of these is a mark. -/
structure WrittenKeys (entries : List (Value × Value)) : Prop where
  /-- No two keys have the same text. -/
  distinct : entries.Pairwise fun a b => (keyText? a.1).getD "" ≠ (keyText? b.1).getD ""
  unmarked : ∀ entry ∈ entries, (keyText? entry.1).getD "" ≠ timestampMark ∧
    (keyText? entry.1).getD "" ≠ dateMark

/-- A mapping whose keys have texts of their own stays a mapping. -/
lemma restored_map {entries : List (Value × Value)} (h : WrittenKeys entries) :
    restored (.map entries) = (restoredEntries entries).map .map := by
  rw [restored]
  cases hrestored : restoredEntries entries with
  | error e => rfl
  | ok entries' =>
    have hforall := restoredEntries_eq_ok.mp hrestored
    have hlength := hforall.length_eq
    have hat : ∀ k (hk' : k < entries'.length), entries'[k].1 =
        .text ((keyText? (entries.get ⟨k, hlength ▸ hk'⟩).1).getD "") := fun k hk' =>
      ((List.forall₂_iff_get.mp hforall).2 k (hlength ▸ hk') hk').1
    have hdistinct : Entries.Distinct entries' := by
      refine List.pairwise_iff_getElem.mpr fun i j hi hj hij => ?_
      have hne := List.pairwise_iff_getElem.mp h.distinct i j (hlength ▸ hi) (hlength ▸ hj) hij
      rw [hat i hi, hat j hj, Bool.eq_false_iff]
      intro hsame
      exact hne (Value.text.inj (eq_text_of_same hsame)).symm
    have hunmarked : ∀ mark, (∀ entry ∈ entries, (keyText? entry.1).getD "" ≠ mark) →
        Value.lookup? mark entries' = none := by
      intro mark hmark
      refine lookup?_eq_none.mpr fun entry hentry => ?_
      obtain ⟨k, hk, rfl⟩ := List.getElem_of_mem hentry
      rw [hat k hk]
      exact fun htext => hmark _ (List.getElem_mem _) (Value.text.inj htext)
    simp only [Except.bind, Except.map, Entries.ofPairs_of_distinct hdistinct, markedObject,
      hunmarked timestampMark fun entry hentry => (h.unmarked entry hentry).1,
      hunmarked dateMark fun entry hentry => (h.unmarked entry hentry).2]

/-- The entries of an object can be read just if each of its values can. -/
lemma isOk_restoredEntries {entries : List (Value × Value)} :
    (∃ entries', restoredEntries entries = .ok entries') ↔
      ∀ entry ∈ entries, ∃ w, restored entry.2 = .ok w := by
  induction entries with
  | nil => exact ⟨fun _ entry hentry => by (cases hentry), fun _ => ⟨[], rfl⟩⟩
  | cons entry rest ih =>
    rw [List.forall_mem_cons, ← ih]
    constructor
    · rintro ⟨entries', h⟩
      obtain ⟨e, es, ⟨-, hw⟩, hes, rfl⟩ :=
        List.forall₂_cons_left_iff.mp (restoredEntries_eq_ok.mp h)
      exact ⟨⟨e.2, hw⟩, es, restoredEntries_eq_ok.mpr hes⟩
    · rintro ⟨⟨w, hw⟩, es, hes⟩
      exact ⟨(.text ((keyText? entry.1).getD ""), w) :: es, restoredEntries_eq_ok.mpr
        (List.Forall₂.cons ⟨rfl, hw⟩ (restoredEntries_eq_ok.mp hes))⟩

/-- The keys of a mapping are those of an object: distinct texts, none of which is a mark. -/
structure ObjectKeys (entries : List (Value × Value)) : Prop where
  text : ∀ entry ∈ entries, ∃ s, entry.1 = .text s
  distinct : Entries.Distinct entries
  unmarked : ∀ entry ∈ entries, entry.1 ≠ .text timestampMark ∧ entry.1 ≠ .text dateMark

/-- The key of an object is its text. -/
lemma ObjectKeys.key_eq {entries : List (Value × Value)} (h : ObjectKeys entries)
    {entry : Value × Value} (hentry : entry ∈ entries) :
    entry.1 = .text ((keyText? entry.1).getD "") ∧ (keyText? entry.1).isSome = true := by
  obtain ⟨s, hs⟩ := h.text entry hentry
  rw [hs]
  exact ⟨rfl, rfl⟩

/-- The keys of an object have texts of their own. -/
lemma ObjectKeys.written {entries : List (Value × Value)} (h : ObjectKeys entries) :
    WrittenKeys entries := by
  constructor
  · refine h.distinct.imp_of_mem fun {a b} ha hb hapart heq => ?_
    rw [(h.key_eq ha).1, (h.key_eq hb).1, heq] at hapart
    rw [show (Value.text _ == Value.text _) = true from Value.same_self _] at hapart
    cases hapart
  · intro entry hentry
    have hne := h.unmarked entry hentry
    rw [(h.key_eq hentry).1] at hne
    exact ⟨fun heq => hne.1 (by rw [heq]), fun heq => hne.2 (by rw [heq])⟩

/-- Fields under different names, none of which is a mark, have the keys of an object. -/
lemma objectKeys_ofFields {fields : Fields} (hnames : (fields.map (·.1)).Nodup)
    (hunmarked : ∀ name ∈ fields.map (·.1), name ≠ timestampMark ∧ name ≠ dateMark) :
    ObjectKeys (fields.map fun field => (.text field.1, field.2)) := by
  refine ⟨?_, ?_, ?_⟩
  · intro entry hentry
    obtain ⟨field, -, rfl⟩ := List.mem_map.mp hentry
    exact ⟨field.1, rfl⟩
  · refine List.pairwise_map.mpr ((List.pairwise_map.mp hnames).imp fun {a b} hne => ?_)
    rw [Bool.eq_false_iff]
    intro hsame
    exact hne (Value.text.inj (eq_text_of_same hsame)).symm
  · intro entry hentry
    obtain ⟨field, hfield, rfl⟩ := List.mem_map.mp hentry
    obtain ⟨htimestamp, hdate⟩ := hunmarked field.1 (List.mem_map_of_mem hfield)
    exact ⟨fun heq => htimestamp (Value.text.inj heq), fun heq => hdate (Value.text.inj heq)⟩

/-- An entry comes back under its own key. -/
def ValueRestored (entry restoredEntry : Value × Value) : Prop :=
  restoredEntry.1 = entry.1 ∧ restored entry.2 = .ok restoredEntry.2

/-- A mapping with the keys of an object comes back as a mapping, entry by entry. -/
theorem restored_object {entries : List (Value × Value)} (h : ObjectKeys entries) {w : Value} :
    restored (.map entries) = .ok w ↔
      ∃ entries', List.Forall₂ ValueRestored entries entries' ∧ .map entries' = w := by
  have hkeys : ∀ {entries : List (Value × Value)},
      (∀ entry ∈ entries, entry.1 = .text ((keyText? entry.1).getD "")) → ∀ entries',
        List.Forall₂ EntryRestored entries entries' ↔
          List.Forall₂ ValueRestored entries entries' := by
    intro entries
    induction entries with
    | nil => exact fun _ entries' => by rw [List.forall₂_nil_left_iff, List.forall₂_nil_left_iff]
    | cons entry rest ih =>
      intro htext entries'
      obtain ⟨hfirst, hrest⟩ := List.forall_mem_cons.mp htext
      have hentry : ∀ entry', EntryRestored entry entry' ↔ ValueRestored entry entry' := by
        intro entry'
        rw [EntryRestored, ValueRestored, ← hfirst]
      rw [List.forall₂_cons_left_iff, List.forall₂_cons_left_iff]
      simp only [hentry, ih hrest]
  rw [restored_map h.written, Outcome.map_eq_ok]
  refine exists_congr fun entries' => and_congr_left fun _ => ?_
  rw [restoredEntries_eq_ok]
  exact hkeys (fun entry hentry => (h.key_eq hentry).1) entries'

/-- A mapping with the keys of an object comes back as itself just if its values do. -/
lemma restored_object_self {entries : List (Value × Value)} (h : ObjectKeys entries) :
    restored (.map entries) = .ok (.map entries) ↔
      ∀ entry ∈ entries, restored entry.2 = .ok entry.2 := by
  rw [restored_object h]
  constructor
  · rintro ⟨entries', hentries, hmap⟩
    obtain rfl := Value.map.inj hmap
    exact fun entry hentry => (List.forall₂_same.mp hentries entry hentry).2
  · exact fun hvalues => ⟨entries, List.forall₂_same.mpr fun entry hentry =>
      ⟨rfl, hvalues entry hentry⟩, rfl⟩

/-- A mapping with the keys of an object lasts just if its values do. -/
theorem lasts_map {entries : List (Value × Value)} (h : ObjectKeys entries) :
    Lasts (.map entries) ↔ ∀ entry ∈ entries, Lasts entry.2 := by
  rw [Lasts, restored_object_self h, complete_draft_map, List.all_eq_true, ← forall₂_and]
  refine forall₂_congr fun entry hentry => ?_
  rw [(h.key_eq hentry).2, Bool.true_and]
  rfl

end RecordStore.Snapshot
