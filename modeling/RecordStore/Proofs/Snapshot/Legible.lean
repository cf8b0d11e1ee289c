import RecordStore.Proofs.Calendar.DayNumber
import RecordStore.Proofs.Snapshot.Dates

/-!
# What can be read again

A list or an object can be read again if its parts can.  A part that cannot be read, such as a date in
an early year, makes the whole file no text in the format, which is told apart from the other faults
of reading.  A key that is the same as a value that lasts can be read again, although the key may be
written in another form.
-/

namespace RecordStore.Snapshot

open Json (ReadError)

variable {items : List Value} {entries : List (Value × Value)}

/-! ## Lists and objects -/

/-- A list can be read again just if all its items can. -/
lemma isOk_restored_list :
    (∃ w, restored (.list items) = .ok w) ↔ ∀ v ∈ items, ∃ w, restored v = .ok w := by
  have hall : (∃ ws, restoredAll items = .ok ws) ↔ ∀ v ∈ items, ∃ w, restored v = .ok w := by
    simp only [restoredAll_eq_ok]
    induction items with
    | nil => exact ⟨fun _ v hv => absurd hv List.not_mem_nil, fun _ => ⟨[], .nil⟩⟩
    | cons v rest ih =>
      rw [List.forall_mem_cons, ← ih]
      constructor
      · rintro ⟨ws, hws⟩
        obtain ⟨w, others, hw, hothers, rfl⟩ := List.forall₂_cons_left_iff.mp hws
        exact ⟨⟨w, hw⟩, others, hothers⟩
      · rintro ⟨⟨w, hw⟩, others, hothers⟩
        exact ⟨w :: others, .cons hw hothers⟩
  rw [← hall]
  constructor
  · rintro ⟨w, hw⟩
    obtain ⟨ws, hws, -⟩ := Outcome.map_eq_ok.mp hw
    exact ⟨ws, hws⟩
  · rintro ⟨ws, hws⟩
    exact ⟨.list ws, Outcome.map_eq_ok.mpr ⟨ws, hws, rfl⟩⟩

/-- An object can be read again just if all its values can. -/
lemma isOk_restored_object (h : ObjectKeys entries) :
    (∃ w, restored (.map entries) = .ok w) ↔ ∀ entry ∈ entries, ∃ w, restored entry.2 = .ok w := by
  rw [← isOk_restoredEntries, restored_map h.written]
  constructor
  · rintro ⟨w, hw⟩
    obtain ⟨entries', hentries, -⟩ := Outcome.map_eq_ok.mp hw
    exact ⟨entries', hentries⟩
  · rintro ⟨entries', hentries⟩
    exact ⟨.map entries', Outcome.map_eq_ok.mpr ⟨entries', hentries, rfl⟩⟩

/-! ## Reading that fails -/

/-- What is written of a value can be read again, or is no text in the format. -/
def Legible (v : Value) : Prop :=
  ∀ fault, restored v ≠ .error (.fault fault)

/-- What is legible can be read again, or is no text in the format. -/
lemma Legible.cases {v : Value} (h : Legible v) :
    restored v = .error .malformed ∨ ∃ w, restored v = .ok w := by
  cases hrestored : restored v with
  | ok w => exact Or.inr ⟨w, rfl⟩
  | error e =>
    cases e with
    | malformed => exact Or.inl rfl
    | fault fault => exact absurd hrestored (h fault)

/-- Values without parts are legible. -/
lemma legible_scalar {v : Value} (h : v.identity?.isSome = true) : Legible v := by
  intro fault hfault
  cases v with
  | date d =>
    rw [restored] at hfault
    split at hfault <;> cases hfault
  | timestamp t =>
    rw [restored] at hfault
    split at hfault <;> cases hfault
  | list items => cases h
  | tuple items => cases h
  | map entries => cases h
  | _ => cases hfault

/-- A list is legible if its items are. -/
lemma legible_list (h : ∀ v ∈ items, Legible v) : Legible (.list items) := by
  have hall : ∀ fault, restoredAll items ≠ .error (.fault fault) := by
    intro fault
    induction items with
    | nil => exact nofun
    | cons v rest ih =>
      obtain ⟨hfirst, hrest⟩ := List.forall_mem_cons.mp h
      rw [restoredAll_cons]
      rcases hfirst.cases with hbad | ⟨w, hw⟩
      · rw [hbad]
        exact nofun
      · rw [hw]
        exact mt Outcome.map_eq_error.mp (ih hrest)
  exact fun fault => mt Outcome.map_eq_error.mp (hall fault)

/-- An object is legible if its values are. -/
lemma legible_object (hkeys : ObjectKeys entries) (h : ∀ entry ∈ entries, Legible entry.2) :
    Legible (.map entries) := by
  have hall : ∀ fault, restoredEntries entries ≠ .error (.fault fault) := by
    clear hkeys
    intro fault
    induction entries with
    | nil =>
      intro hfault
      cases hfault
    | cons entry rest ih =>
      obtain ⟨hfirst, hrest⟩ := List.forall_mem_cons.mp h
      obtain ⟨key, v⟩ := entry
      rw [restoredEntries, restoredEntry]
      rcases hfirst.cases with hbad | ⟨w, hw⟩
      · dsimp only at hbad
        rw [hbad]
        intro hfault
        cases hfault
      · dsimp only at hw
        rw [hw]
        exact mt Outcome.map_eq_error.mp (ih hrest)
  rw [Legible, restored_map hkeys.written]
  exact fun fault => mt Outcome.map_eq_error.mp (hall fault)

/-! ## Keys -/

/-- What is the same as a value without parts has no parts. -/
lemma isSome_identity_of_same {v key : Value} (hv : v.identity?.isSome = true)
    (hsame : (v == key) = true) : key.identity?.isSome = true := by
  obtain ⟨x, hx⟩ := Option.isSome_iff_exists.mp hv
  rw [(Value.same_iff_identity hx).mp hsame]
  rfl

/-- A key that is the same as a value that lasts can be read again. -/
lemma isOk_restored_of_same {v key : Value} (hv : v.identity?.isSome = true)
    (hlasts : restored v = .ok v) (hsame : (v == key) = true) : ∃ w, restored key = .ok w := by
  have hkey := isSome_identity_of_same hv hsame
  rw [isOk_restored_scalar_iff hkey]
  obtain ⟨x, hx⟩ := Option.isSome_iff_exists.mp hv
  have hidentity := (Value.same_iff_identity hx).mp hsame
  have hyear := (isOk_restored_scalar_iff hv).mp ⟨v, hlasts⟩
  intro d hd
  cases key with
  | date e =>
    cases v <;> rw [← hx] at hidentity <;> cases hidentity
    exact hyear d hd
  | timestamp s =>
    cases v with
    | timestamp t =>
      rw [← hx] at hidentity
      obtain ⟨haware, hinstant⟩ : s.offset.isSome = t.offset.isSome ∧ s.instant = t.instant := by
        simpa [Value.identity?, Timestamp.identity] using hidentity
      have htruncated : (if 1000 ≤ t.date.year then .ok (.timestamp t.truncated)
          else .error .malformed : Except ReadError Value) = .ok (.timestamp t) := hlasts
      rw [if_pos (hyear t.date rfl)] at htruncated
      have hlocal : t.offset = none :=
        (t.truncated_eq_self_iff.mp (Value.timestamp.inj (Except.ok.inj htruncated))).2
      have hlocal' : s.offset = none := by
        rw [hlocal] at haware
        exact Option.isSome_eq_false_iff.mp haware |> Option.isNone_iff_eq_none.mp
      obtain rfl := Option.some.inj hd
      rw [Timestamp.year_eq_of_instant_eq hlocal' hlocal hinstant]
      exact hyear t.date rfl
    | _ =>
      rw [← hx] at hidentity
      cases hidentity
  | _ => cases hd

end RecordStore.Snapshot
