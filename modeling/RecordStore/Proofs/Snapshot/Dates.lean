import RecordStore.Proofs.Kind
import RecordStore.Proofs.Snapshot.Lasting
import RecordStore.Table.Row

/-!
# Dates in snapshots

What becomes of a date or a timestamp that a column of dates stores: a row with it can always be
written, it can be read again exactly if the year has four digits, and the date comes back equal
exactly if, besides, it has no fraction of a second and no offset.  So the written form is too short
for much of what a column accepts: fractions and offsets are dropped without a word, and a year that
is not padded makes the whole file unreadable.
-/

namespace RecordStore.Snapshot

/-- The day of a date or of a timestamp. -/
def day? : Value → Option Date
  | .date d => some d
  | .timestamp t => some t.date
  | _ => none

/-- The year of a date or a timestamp has four digits. -/
def HasFullYear (v : Value) : Prop :=
  ∀ d, day? v = some d → 1000 ≤ d.year

/-- A value has no fraction of a second and no offset. -/
def IsWholeSecond : Value → Prop
  | .timestamp t => t.microsecond = 0 ∧ t.offset = none
  | _ => True

/-- A date or a timestamp in the form in which a column of dates stores it. -/
lemma exists_day_of_isCanonical {v : Value} (h : Kind.date.isCanonical v = true) :
    (∃ d, v = .date d) ∨ ∃ t, v = .timestamp t := by
  cases v with
  | date d => exact Or.inl ⟨d, rfl⟩
  | timestamp t => exact Or.inr ⟨t, rfl⟩
  | _ => cases h

/-- A stored date can be written. -/
lemma complete_draft_of_date {v : Value} (h : Kind.date.isCanonical v = true) :
    (draft v).complete = true := by
  rcases exists_day_of_isCanonical h with ⟨d, rfl⟩ | ⟨t, rfl⟩ <;> rfl

/-- A value without parts can be read again just if its year, if it has one, has four digits. -/
lemma isOk_restored_scalar_iff {v : Value} (h : v.identity?.isSome = true) :
    (∃ w, restored v = .ok w) ↔ HasFullYear v := by
  cases v with
  | date d => by_cases hyear : 1000 ≤ d.year <;> simp [restored, HasFullYear, day?, hyear]
  | timestamp t =>
    by_cases hyear : 1000 ≤ t.date.year <;> simp [restored, HasFullYear, day?, hyear]
  | list items => cases h
  | tuple items => cases h
  | map entries => cases h
  | _ =>
    refine ⟨fun _ d hd => ?_, fun _ => ⟨_, rfl⟩⟩
    cases hd

/-- A stored date can be read again just if its year has four digits. -/
lemma isOk_restored_date_iff {v : Value} (h : Kind.date.isCanonical v = true) :
    (∃ w, restored v = .ok w) ↔ HasFullYear v := by
  rcases exists_day_of_isCanonical h with ⟨d, rfl⟩ | ⟨t, rfl⟩ <;> exact isOk_restored_scalar_iff rfl

/-- A stored date lasts just if its year has four digits and it has no fraction of a second and no
offset. -/
theorem lasts_date_iff {v : Value} (h : Kind.date.isCanonical v = true) :
    Lasts v ↔ HasFullYear v ∧ IsWholeSecond v := by
  have hcomplete := complete_draft_of_date h
  rcases exists_day_of_isCanonical h with ⟨d, rfl⟩ | ⟨t, rfl⟩
  · by_cases hyear : 1000 ≤ d.year <;>
      simp [Lasts, hcomplete, restored, HasFullYear, IsWholeSecond, day?, hyear]
  · by_cases hyear : 1000 ≤ t.date.year <;>
      simp [Lasts, hcomplete, restored, HasFullYear, IsWholeSecond, day?, hyear,
        Timestamp.truncated_eq_self_iff]

/-! ## Dates in rows -/

/-- A record with a stored date in one column, while everything in its other columns lasts. -/
structure HoldsDate (record : Record) (column : String) (stored : Value) : Prop where
  keys : ObjectKeys record
  field : (.text column, stored) ∈ record
  others : ∀ entry ∈ record, entry.1 ≠ .text column → Lasts entry.2

variable {record : Record} {column : String} {stored : Value}

/-- An entry of a record with a date is the date, or lasts. -/
lemma HoldsDate.cases (h : HoldsDate record column stored) {entry : Value × Value}
    (hentry : entry ∈ record) : entry.2 = stored ∨ Lasts entry.2 := by
  by_cases hkey : entry.1 = .text column
  · left
    obtain ⟨key, v⟩ := entry
    dsimp only at hkey
    subst hkey
    have hentryFound := h.keys.distinct.lookup_eq_some (k := .text column) rfl hentry
    have hfieldFound := h.keys.distinct.lookup_eq_some (k := .text column) rfl h.field
    rw [hfieldFound] at hentryFound
    exact (Option.some.inj hentryFound).symm
  · exact Or.inr (h.others entry hentry hkey)

/-- A record with a date can be written. -/
lemma HoldsDate.complete (h : HoldsDate record column stored)
    (hstored : Kind.date.isCanonical stored = true) : (draft (.map record)).complete = true := by
  rw [complete_draft_map, List.all_eq_true]
  intro entry hentry
  rw [(h.keys.key_eq hentry).2, Bool.true_and]
  rcases h.cases hentry with heq | hlasts
  · rw [heq]
    exact complete_draft_of_date hstored
  · exact hlasts.1

/-- A record with a date can be read again just if the date can. -/
lemma HoldsDate.isOk_restored_iff (h : HoldsDate record column stored) :
    (∃ w, restored (.map record) = .ok w) ↔ ∃ w, restored stored = .ok w := by
  have hentries : (∃ w, restored (.map record) = .ok w) ↔
      ∃ entries', restoredEntries record = .ok entries' := by
    rw [restored_map h.keys.written]
    constructor
    · rintro ⟨w, hw⟩
      obtain ⟨entries', hentries, -⟩ := Outcome.map_eq_ok.mp hw
      exact ⟨entries', hentries⟩
    · rintro ⟨entries', hentries⟩
      exact ⟨.map entries', Outcome.map_eq_ok.mpr ⟨entries', hentries, rfl⟩⟩
  rw [hentries, isOk_restoredEntries]
  constructor
  · exact fun hall => hall _ h.field
  · intro hstored entry hentry
    rcases h.cases hentry with heq | hlasts
    · rwa [heq]
    · exact ⟨_, hlasts.2⟩

/-- What is read in the column of the date is what the date becomes. -/
lemma HoldsDate.value_of_restored (h : HoldsDate record column stored) {record' : Record}
    (hrecord : restored (.map record) = .ok (.map record')) :
    restored stored = .ok (record'.value (.text column)) := by
  rw [restored_map h.keys.written] at hrecord
  obtain ⟨entries', hentries, hmap⟩ := Outcome.map_eq_ok.mp hrecord
  obtain rfl := Value.map.inj hmap
  have hforall := restoredEntries_eq_ok.mp hentries
  obtain ⟨⟨key, w⟩, hfield, hkey, hvalue⟩ := exists_right_of_forall₂ hforall h.field
  obtain rfl : key = .text column := hkey
  have hdistinct : Entries.Distinct entries' :=
    Entries.distinct_congr (map_eq_of_forall₂ hforall fun entry hentry entry' hrestored =>
      hrestored.1.trans (h.keys.key_eq hentry).1.symm) h.keys.distinct
  dsimp only at hvalue
  rw [hvalue, Record.value, hdistinct.lookup_eq_some rfl hfield]
  rfl

/-- A value accepted by a column of dates and stored in a row can always be written.  The row can be
read again exactly if the year has four digits, and the column then holds what is equal to the
stored value exactly if this has, besides, no fraction of a second and no offset. -/
theorem dateField_comesBack_iff {v : Value} (haccepts : Kind.date.accepts v = .ok true)
    (h : HoldsDate record column (Kind.date.coerce v)) :
    (draft (Row.record record).toValue).complete = true ∧
      ((∃ w, read (draft (Row.record record).toValue).chars = .ok w) ↔
        HasFullYear (Kind.date.coerce v)) ∧
      ((∃ record' : Record, read (draft (Row.record record).toValue).chars = .ok (.map record') ∧
          (record'.value (.text column)).equals (Kind.date.coerce v) = true) ↔
        HasFullYear (Kind.date.coerce v) ∧ IsWholeSecond (Kind.date.coerce v)) := by
  have hcanonical := Kind.isCanonical_coerce haccepts
  have hcomplete := h.complete hcanonical
  rw [Row.toValue, read_draft hcomplete]
  refine ⟨hcomplete, by rw [h.isOk_restored_iff, isOk_restored_date_iff hcanonical], ?_⟩
  rw [← lasts_date_iff hcanonical]
  constructor
  · rintro ⟨record', hrecord, hequals⟩
    have hvalue := h.value_of_restored hrecord
    rw [Value.equals, Bool.and_eq_true] at hequals
    have heq := eq_of_restored_same hvalue hequals.1
    rw [heq] at hvalue
    exact ⟨complete_draft_of_date hcanonical, hvalue⟩
  · intro hlasts
    have hall : Lasts (.map record) := (lasts_map h.keys).mpr fun entry hentry => by
      rcases h.cases hentry with heq | hentryLasts
      · rwa [heq]
      · exact hentryLasts
    refine ⟨record, hall.2, ?_⟩
    have hvalue := h.value_of_restored hall.2
    rw [hlasts.2] at hvalue
    obtain hself := Except.ok.inj hvalue
    rw [← hself, Value.equals, Value.same_self]
    rcases exists_day_of_isCanonical hcanonical with ⟨d, hd⟩ | ⟨t, ht⟩
    · rw [hd]
      rfl
    · rw [ht]
      rfl

/-- A date of four digits without a time of day, given as text, comes back. -/
theorem dateField_comesBack_newYear :
    Kind.date.accepts (.text "2024-01-01") = .ok true ∧
      HoldsDate [(.text "d", Kind.date.coerce (.text "2024-01-01"))] "d"
        (Kind.date.coerce (.text "2024-01-01")) ∧
      ∃ record' : Record,
        read (draft (Row.record [(.text "d", Kind.date.coerce (.text "2024-01-01"))]).toValue).chars =
            .ok (.map record') ∧
          (record'.value (.text "d")).equals (Kind.date.coerce (.text "2024-01-01")) = true := by
  have haccepts : Kind.date.accepts (.text "2024-01-01") = .ok true := by decide +kernel
  have hholds : HoldsDate [(.text "d", Kind.date.coerce (.text "2024-01-01"))] "d"
      (Kind.date.coerce (.text "2024-01-01")) :=
    ⟨⟨by simp, by simp [Entries.Distinct], by simp [timestampMark, dateMark]⟩, by simp, by simp⟩
  refine ⟨haccepts, hholds, (dateField_comesBack_iff haccepts hholds).2.2.mpr ?_⟩
  have hparse : Moment.parse? "2024-01-01" = some (.date ⟨2024, 1, 1, by decide⟩) := by
    decide +kernel
  have hcoerce : Kind.date.coerce (.text "2024-01-01") = .date ⟨2024, 1, 1, by decide⟩ := by
    rw [Kind.coerce, hparse]
    rfl
  rw [hcoerce]
  refine ⟨fun d hd => ?_, trivial⟩
  obtain rfl := Option.some.inj hd
  decide

/-- Not every accepted value comes back: of a text with a fraction of a second the fraction is
dropped, and with a year below 1000 the row cannot be read again. -/
theorem not_dateField_comesBack :
    ¬∀ v : Value, Kind.date.accepts v = .ok true → ∃ record' : Record,
      read (draft (Row.record [(.text "d", Kind.date.coerce v)]).toValue).chars =
          .ok (.map record') ∧
        (record'.value (.text "d")).equals (Kind.date.coerce v) = true := by
  intro hall
  have haccepts : Kind.date.accepts (.text "2024-01-05 10:20:30.5") = .ok true := by decide +kernel
  have hparse : Moment.parse? "2024-01-05 10:20:30.5" =
      some (.timestamp ⟨⟨2024, 1, 5, by decide⟩, 10, 20, 30, 500000, none, by decide⟩) := by
    decide +kernel
  have hcoerce : Kind.date.coerce (.text "2024-01-05 10:20:30.5") =
      .timestamp ⟨⟨2024, 1, 5, by decide⟩, 10, 20, 30, 500000, none, by decide⟩ := by
    rw [Kind.coerce, hparse]
    rfl
  have hholds : HoldsDate [(.text "d", Kind.date.coerce (.text "2024-01-05 10:20:30.5"))] "d"
      (Kind.date.coerce (.text "2024-01-05 10:20:30.5")) :=
    ⟨⟨by simp, by simp [Entries.Distinct], by simp [timestampMark, dateMark]⟩, by simp, by simp⟩
  have hwhole := ((dateField_comesBack_iff haccepts hholds).2.2.mp (hall _ haccepts)).2
  rw [hcoerce] at hwhole
  exact absurd hwhole.1 (by decide)

end RecordStore.Snapshot
