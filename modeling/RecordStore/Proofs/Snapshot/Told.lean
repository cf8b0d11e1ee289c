import RecordStore.Proofs.Entries
import RecordStore.Proofs.Query.Reading
import RecordStore.World

/-!
# What can be read from a snapshot

Whatever a snapshot file holds, what is read from it has a text, since an integer that can be read can
be written, and if it is a mapping its keys are texts.  If it cannot be read, then mostly the file is
reported; only a mark over what is no text is a fault of its own.
-/

namespace RecordStore

namespace Value

/-! ## Values with texts -/

/-- A value has a text exactly if it has one inside another value. -/
lemma isTold_iff_innerText? (v : Value) : v.IsTold ↔ v.innerText?.isSome = true := by
  cases v <;> simp [IsTold, display?, innerText?]

/-- A list has a text if its items have. -/
lemma isTold_list {items : List Value} (h : ∀ v ∈ items, v.IsTold) : (Value.list items).IsTold := by
  have htexts : (innerTexts? items).isSome = true := by
    induction items with
    | nil => rfl
    | cons v rest ih =>
      obtain ⟨hfirst, hrest⟩ := List.forall_mem_cons.mp h
      obtain ⟨text, htext⟩ := Option.isSome_iff_exists.mp ((isTold_iff_innerText? v).mp hfirst)
      obtain ⟨texts, htexts⟩ := Option.isSome_iff_exists.mp (ih hrest)
      rw [innerTexts?, htext, htexts]
      rfl
  rw [isTold_iff_innerText?, innerText?, Option.isSome_map]
  exact htexts

/-- A mapping has a text exactly if its keys and its values have. -/
lemma isTold_map_iff {entries : List (Value × Value)} : (Value.map entries).IsTold ↔
    ∀ entry ∈ entries, entry.1.IsTold ∧ entry.2.IsTold := by
  have htexts : (entryTexts? entries).isSome = true ↔
      ∀ entry ∈ entries, entry.1.IsTold ∧ entry.2.IsTold := by
    induction entries with
    | nil => simp [entryTexts?]
    | cons entry rest ih =>
      obtain ⟨key, v⟩ := entry
      rw [List.forall_mem_cons, ← ih, isTold_iff_innerText?, isTold_iff_innerText?, entryTexts?,
        entryText?]
      cases key.innerText? <;> cases v.innerText? <;> cases entryTexts? rest <;> simp
  rw [isTold_iff_innerText?, innerText?, Option.isSome_map]
  exact htexts

/-- A value that has a text and that has texts for keys if it is a mapping. -/
structure IsPlain (v : Value) : Prop where
  told : v.IsTold
  keys : ∀ entries, v = .map entries → ∀ entry ∈ entries, ∃ s, entry.1 = .text s

/-- A value without parts is plain if it has a text. -/
lemma isPlain_scalar {v : Value} (hv : v.identity?.isSome = true) (h : v.IsTold) : v.IsPlain := by
  refine ⟨h, ?_⟩
  rintro entries rfl
  cases hv

/-- A list of plain values is plain. -/
lemma isPlain_list {items : List Value} (h : ∀ v ∈ items, v.IsPlain) : (Value.list items).IsPlain := by
  refine ⟨isTold_list fun v hv => (h v hv).told, ?_⟩
  rintro entries ⟨⟩

/-- An entry with a text for its key and a plain value. -/
def IsPlainEntry (entry : Value × Value) : Prop :=
  (∃ s, entry.1 = .text s) ∧ entry.2.IsPlain

/-- A mapping of plain entries is plain. -/
lemma isPlain_map {entries : List (Value × Value)} (h : ∀ entry ∈ entries, IsPlainEntry entry) :
    (Value.map entries).IsPlain := by
  refine ⟨isTold_map_iff.mpr fun entry hentry => ?_, fun others heq entry hentry => ?_⟩
  · obtain ⟨⟨s, hs⟩, hv⟩ := h entry hentry
    rw [hs]
    exact ⟨rfl, hv.told⟩
  · obtain rfl := Value.map.inj heq
    exact (h entry hentry).1

/-- Entries from pairs are plain if the pairs are. -/
lemma isPlainEntry_of_mem_ofPairs {pairs : List (Value × Value)}
    (h : ∀ pair ∈ pairs, IsPlainEntry pair) :
    ∀ entry ∈ Entries.ofPairs pairs, IsPlainEntry entry := by
  have hput : ∀ (pair : Value × Value) (entries : List (Value × Value)), IsPlainEntry pair →
      (∀ entry ∈ entries, IsPlainEntry entry) →
        ∀ entry ∈ Entries.put pair.1 pair.2 entries, IsPlainEntry entry := by
    intro pair entries hpair hentries
    induction entries with
    | nil =>
      intro entry hentry
      obtain rfl := List.mem_singleton.mp hentry
      exact hpair
    | cons first rest ih =>
      obtain ⟨hfirst, hrest⟩ := List.forall_mem_cons.mp hentries
      rw [Entries.put]
      split
      · exact List.forall_mem_cons.mpr ⟨⟨hfirst.1, hpair.2⟩, hrest⟩
      · exact List.forall_mem_cons.mpr ⟨hfirst, ih hrest⟩
  exact List.foldlRecOn (motive := fun entries => ∀ entry ∈ entries, IsPlainEntry entry) pairs _
    (List.forall_mem_nil _)
    (fun entries hentries pair hpair => hput pair entries (h pair hpair) hentries)

end Value

namespace Json

/-! ## Steps of the reader -/

section

variable {α β : Type} {P : α → Prop} {Q : β → Prop} {step : Except ReadError α}

/-- Something with a property is read, or the text is not in the format, or a fault comes up that is no
refusal. -/
def Gives (P : α → Prop) : Except ReadError α → Prop
  | .ok a => P a
  | .error .malformed => True
  | .error (.fault fault) => fault.isRefusal = false

/-- What is read has the property. -/
lemma Gives.of_eq_ok {a : α} (h : Gives P step) (heq : step = .ok a) : P a := by
  rw [heq] at h
  exact h

/-- A sequence of steps gives what the last one gives. -/
lemma Gives.seq {next : α → Except ReadError β} (h : Gives P step)
    (hnext : ∀ a, P a → Gives Q (next a)) : Gives Q (step >>= next) := by
  cases step with
  | ok a => exact hnext a h
  | error cause =>
    cases cause with
    | malformed => trivial
    | fault fault => exact h

/-- A step whose result is changed afterwards gives what it is changed to. -/
lemma Gives.map {f : α → β} (h : Gives P step) (hf : ∀ a, P a → Q (f a)) : Gives Q (step.map f) := by
  cases step with
  | ok a => exact hf a h
  | error cause =>
    cases cause with
    | malformed => trivial
    | fault fault => exact h

end

/-! ## What is read -/

variable {object : ObjectReader}

/-- Of entries that are plain a function makes a plain value, if it makes any. -/
def KeepsPlain (object : ObjectReader) : Prop :=
  ∀ entries, (∀ entry ∈ entries, Value.IsPlainEntry entry) → Gives Value.IsPlain (object entries)

/-- A string is read, or the text is not in the format. -/
lemma gives_readString (fuel : Nat) (cs : List Char) :
    Gives (fun _ => True) (readString fuel cs) := by
  induction fuel generalizing cs with
  | zero =>
    unfold readString
    split <;> trivial
  | succ fuel ih =>
    unfold readString
    split
    · trivial
    · contradiction
    · rename_i less hless _
      obtain rfl := Nat.succ.inj hless
      split
      · exact (ih _).map (Q := fun _ => True) fun _ _ => trivial
      · trivial

/-- A value without parts that is read is plain. -/
lemma gives_readAtom (cs : List Char) : Gives (fun read => read.1.IsPlain) (readAtom cs) := by
  rw [readAtom]
  split
  · rename_i result hfound
    obtain ⟨word, hword, hdropped⟩ := List.exists_of_findSome?_eq_some hfound
    obtain ⟨after, -, rfl⟩ := Option.map_eq_some_iff.mp hdropped
    simp only [words, List.mem_cons, List.not_mem_nil, or_false] at hword
    rcases hword with rfl | rfl | rfl | rfl | rfl | rfl <;> exact Value.isPlain_scalar rfl rfl
  · unfold readNumber
    dsimp only
    split
    · trivial
    · split
      · rename_i n hnumber
        exact Value.isPlain_scalar (by cases n <;> rfl) (Value.isTold_ofNumber hnumber)
      · trivial

/-- Whatever is read is plain, if objects become plain values. -/
lemma gives_read (hobject : KeepsPlain object) (fuel : Nat) (cs : List Char) :
    Gives (fun read => read.1.IsPlain) (readValue object fuel cs) ∧
      Gives (fun read => ∀ v ∈ read.1, v.IsPlain) (readItems object fuel cs) ∧
        Gives (fun read => ∀ entry ∈ read.1, Value.IsPlainEntry entry) (readEntries object fuel cs) := by
  induction fuel generalizing cs with
  | zero => exact ⟨trivial, trivial, trivial⟩
  | succ fuel ih =>
    refine ⟨?_, ?_, ?_⟩
    · unfold readValue
      split
      · exact (gives_readString fuel _).map fun _ _ => Value.isPlain_scalar rfl rfl
      · split
        · exact Value.isPlain_list (List.forall_mem_nil _)
        · exact (ih _).2.1.map fun _ hitems => Value.isPlain_list hitems
      · split
        · exact (hobject [] (List.forall_mem_nil _)).map fun _ hv => hv
        · refine (ih _).2.2.seq fun read hentries => ?_
          exact (hobject _ (Value.isPlainEntry_of_mem_ofPairs hentries)).seq fun _ hv => hv
      · exact gives_readAtom _
    · rw [readItems]
      refine (ih cs).1.seq fun read hfirst => ?_
      dsimp only
      split
      · exact List.forall_mem_singleton.mpr hfirst
      · exact (ih _).2.1.seq fun others hothers => List.forall_mem_cons.mpr ⟨hfirst, hothers⟩
      · trivial
    · unfold readEntries
      split
      · refine (gives_readString fuel _).seq fun key _ => ?_
        dsimp only
        split
        · refine (ih _).1.seq fun read hv => ?_
          have hfirst : Value.IsPlainEntry (.text (String.ofList key.1), read.1) := ⟨⟨_, rfl⟩, hv⟩
          split
          · exact List.forall_mem_singleton.mpr hfirst
          · exact (ih _).2.2.seq fun others hothers => List.forall_mem_cons.mpr ⟨hfirst, hothers⟩
          · trivial
        · trivial
      · trivial

end Json

namespace Snapshot

/-- Objects become dates and timestamps, or stay mappings, that are plain. -/
lemma keepsPlain_markedObject : Json.KeepsPlain markedObject := by
  intro entries hentries
  have hmarked : ∀ (read? : List Char → Option Value) (v : Value),
      (∀ cs w, read? cs = some w → w.IsPlain) → Json.Gives Value.IsPlain (readMarked read? v) := by
    intro read? v hread
    unfold readMarked
    split
    · split
      · rename_i hsome
        exact hread _ _ hsome
      · trivial
    · rfl
  unfold markedObject
  split
  · refine hmarked _ _ fun cs w hw => ?_
    obtain ⟨t, -, rfl⟩ := Option.map_eq_some_iff.mp hw
    exact Value.isPlain_scalar rfl rfl
  · refine hmarked _ _ fun cs w hw => ?_
    obtain ⟨d, -, rfl⟩ := Option.map_eq_some_iff.mp hw
    exact Value.isPlain_scalar rfl rfl
  · exact Value.isPlain_map hentries

/-- What is read from a snapshot is plain. -/
theorem gives_isPlain_read (cs : List Char) : Json.Gives Value.IsPlain (read cs) := by
  refine (Json.gives_read keepsPlain_markedObject _ _).1.seq fun found hv => ?_
  dsimp only
  split
  · exact hv
  · trivial

end Snapshot

namespace Disk

variable {disk : Disk} {path : String}

/-- A file holds an object that cannot be turned into a value: it has a mark over what is no text, and
the reader comes upon it before anything that is not in the format. -/
def Trips (disk : Disk) (path : String) : Prop :=
  ∃ s fault, disk.find? path = some (.file (.text s)) ∧
    Snapshot.read s.toList = .error (.fault fault)

/-- A snapshot that is read is plain; one that is not read is reported, or the reader trips over it. -/
lemma readSnapshot_cases (disk : Disk) (path : String) :
    (∃ v, disk.readSnapshot path = .ok v ∧ v.IsPlain) ∧ ¬disk.Trips path ∨
      disk.readSnapshot path = .error (.unreadable path) ∧ ¬disk.Trips path ∨
        Escapes (disk.readSnapshot path) ∧ disk.Trips path := by
  rw [readSnapshot, Trips]
  split
  · rename_i hfind
    rw [hfind]
    refine Or.inl ⟨⟨_, rfl, Value.isPlain_scalar rfl rfl⟩, ?_⟩
    rintro ⟨s, fault, heq, -⟩
    cases heq
  · rename_i s hfind
    rw [hfind]
    have hgives := Snapshot.gives_isPlain_read s.toList
    cases hread : Snapshot.read s.toList with
    | ok v =>
      refine Or.inl ⟨⟨v, rfl, hgives.of_eq_ok hread⟩, ?_⟩
      rintro ⟨t, fault, heq, hfault⟩
      cases heq
      cases hread.symm.trans hfault
    | error cause =>
      rw [hread] at hgives
      cases cause with
      | malformed =>
        refine Or.inr (Or.inl ⟨rfl, ?_⟩)
        rintro ⟨t, fault, heq, hfault⟩
        cases heq
        cases hread.symm.trans hfault
      | fault fault => exact Or.inr (Or.inr ⟨⟨fault, rfl, hgives⟩, s, fault, rfl, hread⟩)
  · rename_i found htext hfind
    refine Or.inr (Or.inl ⟨rfl, ?_⟩)
    rintro ⟨s, fault, heq, -⟩
    rw [hfind] at heq
    exact htext s (Option.some.inj heq)

/-- What is read from a snapshot file is plain. -/
lemma isPlain_of_readSnapshot {v : Value} (h : disk.readSnapshot path = .ok v) : v.IsPlain := by
  rcases disk.readSnapshot_cases path with ⟨⟨w, hw, hplain⟩, -⟩ | ⟨hbad, -⟩ | ⟨⟨fault, hfault, -⟩, -⟩
  · obtain rfl := Except.ok.inj (hw.symm.trans h)
    exact hplain
  · cases hbad.symm.trans h
  · cases hfault.symm.trans h

/-- A fault that is no refusal comes up in the reading of a snapshot file if the reader trips over
it. -/
lemma escapes_readSnapshot : Escapes (disk.readSnapshot path) ↔ disk.Trips path := by
  rcases disk.readSnapshot_cases path with ⟨⟨v, hv, -⟩, hno⟩ | ⟨hbad, hno⟩ | ⟨hescapes, htrips⟩
  · rw [hv]
    exact iff_of_false (not_escapes_ok v) hno
  · rw [hbad]
    exact iff_of_false (not_escapes_error rfl) hno
  · exact iff_of_true hescapes htrips

end Disk

end RecordStore
