import Mathlib.Tactic.IntervalCases
import RecordStore.Calendar.Timestamp

/-!
# Years and days

The days of a year come before those of the next one, so that dates and local times that are the same
day, counted from the first one, are in the same year.  So do the days of a month in their year: a date
is known by the number of its day.
-/

namespace RecordStore

namespace Date

/-- The days before a year and those in it are the days before the next one. -/
lemma daysBeforeYear_succ {year : Nat} (h : 1 ≤ year) :
    daysBeforeYear (year + 1) = daysBeforeYear year + yearLength year := by
  obtain ⟨past, rfl⟩ : ∃ past, year = past + 1 := ⟨year - 1, by omega⟩
  have hleap : isLeap (past + 1) = true ↔
      (past + 1) % 4 = 0 ∧ ((past + 1) % 100 ≠ 0 ∨ (past + 1) % 400 = 0) := by
    simp [isLeap]
  have hless : past / 100 ≤ past / 4 := by omega
  simp only [daysBeforeYear, yearLength, Nat.add_sub_cancel]
  by_cases hfour : (past + 1) % 4 = 0
  · have hnext : (past + 1) / 4 = past / 4 + 1 := by omega
    by_cases hhundred : (past + 1) % 100 = 0
    · have hcentury : (past + 1) / 100 = past / 100 + 1 := by omega
      by_cases hmany : (past + 1) % 400 = 0
      · have hlong : (past + 1) / 400 = past / 400 + 1 := by omega
        rw [if_pos (hleap.mpr ⟨hfour, Or.inr hmany⟩), hnext, hcentury, hlong]
        omega
      · have hlong : (past + 1) / 400 = past / 400 := by omega
        have hplain : ¬isLeap (past + 1) = true := fun hyes =>
          (hleap.mp hyes).2.elim (absurd hhundred) (absurd · hmany)
        rw [if_neg hplain, hnext, hcentury, hlong]
        omega
    · have hcentury : (past + 1) / 100 = past / 100 := by omega
      have hlong : (past + 1) / 400 = past / 400 := by omega
      rw [if_pos (hleap.mpr ⟨hfour, Or.inl hhundred⟩), hnext, hcentury, hlong]
      omega
  · have hnext : (past + 1) / 4 = past / 4 := by omega
    have hcentury : (past + 1) / 100 = past / 100 := by omega
    have hlong : (past + 1) / 400 = past / 400 := by omega
    rw [if_neg fun hyes => hfour (hleap.mp hyes).1, hnext, hcentury, hlong]
    omega

/-- Later years have at least as many days before them. -/
lemma daysBeforeYear_mono {year later : Nat} (h : 1 ≤ year) (hlater : year ≤ later) :
    daysBeforeYear year ≤ daysBeforeYear later := by
  induction later, hlater using Nat.le_induction with
  | base => exact le_refl _
  | succ later hle ih =>
    rw [daysBeforeYear_succ (h.trans hle)]
    omega

/-- A date is on one of the days of its year. -/
lemma dayNumber_lt (d : Date) : d.dayNumber < daysBeforeYear (d.year + 1) := by
  obtain ⟨year, month, day, hyear, -, hfirst, hlast, hday, hlength⟩ := d
  rw [daysBeforeYear_succ hyear]
  have hwithin : ((monthLengths year).take (month - 1)).foldl (· + ·) 0 + (day - 1) <
      yearLength year := by
    unfold monthLength at hlength
    unfold yearLength
    cases hleap : isLeap year <;>
      interval_cases month <;> simp [monthLengths, hleap] at hlength ⊢ <;> omega
  change daysBeforeYear year + ((monthLengths year).take (month - 1)).foldl (· + ·) 0 + (day - 1) < _
  omega

/-- A date is not before the first day of its year. -/
lemma daysBeforeYear_le (d : Date) : daysBeforeYear d.year ≤ d.dayNumber := by
  rw [dayNumber]
  omega

/-- Dates on the same day are in the same year. -/
theorem year_eq_of_dayNumber_eq {a b : Date} (h : a.dayNumber = b.dayNumber) :
    a.year = b.year := by
  have hbefore : ∀ {a b : Date}, a.year < b.year → a.dayNumber < b.dayNumber := by
    intro a b hlt
    have hmono := daysBeforeYear_mono (Nat.le_add_left 1 a.year) hlt
    have ha := a.dayNumber_lt
    have hb := b.daysBeforeYear_le
    omega
  rcases Nat.lt_trichotomy a.year b.year with hlt | heq | hgt
  · exact absurd h (hbefore hlt).ne
  · exact heq
  · exact absurd h (hbefore hgt).ne'

/-- The number of days of a year before a month of it. -/
def daysBeforeMonth (year month : Nat) : Nat :=
  ((monthLengths year).take (month - 1)).foldl (· + ·) 0

/-- The days before a month and those in it are the days before the next one. -/
lemma daysBeforeMonth_succ (year : Nat) {month : Nat} (hfirst : 1 ≤ month) (hlast : month ≤ 12) :
    daysBeforeMonth year (month + 1) = daysBeforeMonth year month + monthLength year month := by
  interval_cases month <;> rfl

/-- Later months have at least as many days before them. -/
lemma daysBeforeMonth_mono (year : Nat) {month later : Nat} (h : 1 ≤ month) (hlater : month ≤ later)
    (hlast : later ≤ 12) : daysBeforeMonth year month ≤ daysBeforeMonth year later := by
  induction later, hlater using Nat.le_induction with
  | base => exact le_refl _
  | succ later hle ih =>
    rw [daysBeforeMonth_succ year (h.trans hle) (by omega)]
    exact (ih (by omega)).trans (Nat.le_add_right _ _)

/-- A date is known by its day. -/
theorem dayNumber_injective {a b : Date} (h : a.dayNumber = b.dayNumber) : a = b := by
  have hyear := year_eq_of_dayNumber_eq h
  have hwithin : ∀ d : Date, d.dayNumber =
      daysBeforeYear d.year + daysBeforeMonth d.year d.month + (d.day - 1) := fun _ => rfl
  have hbefore : ∀ {a b : Date}, a.year = b.year → a.month < b.month → a.dayNumber < b.dayNumber := by
    intro a b hyear hlt
    obtain ⟨-, -, hfirst, hlast, hday, hlength⟩ := a.valid
    obtain ⟨-, -, -, hlast', -, -⟩ := b.valid
    have hmono := daysBeforeMonth_mono a.year (Nat.le_add_left 1 a.month) hlt hlast'
    rw [daysBeforeMonth_succ a.year hfirst hlast] at hmono
    rw [hwithin a, hwithin b, ← hyear]
    omega
  have hmonth : a.month = b.month := by
    rcases Nat.lt_trichotomy a.month b.month with hlt | heq | hgt
    · exact absurd h (hbefore hyear hlt).ne
    · exact heq
    · exact absurd h (hbefore hyear.symm hgt).ne'
  obtain ⟨-, -, -, -, hday, -⟩ := a.valid
  obtain ⟨-, -, -, -, hday', -⟩ := b.valid
  rw [hwithin a, hwithin b, hyear, hmonth] at h
  have hd : a.day = b.day := by omega
  cases a
  cases b
  simp_all

end Date

namespace Timestamp

/-- A time of day is shorter than a day. -/
lemma microsOfDay_lt (t : Timestamp) : t.microsOfDay < microsPerDay := by
  obtain ⟨hhour, hminute, hsecond, hmicro, -⟩ := t.valid
  unfold microsOfDay microsPerDay
  unfold microsPerSecond at hmicro ⊢
  omega

/-- Local times at the same instant are in the same year. -/
theorem year_eq_of_instant_eq {a b : Timestamp} (ha : a.offset = none) (hb : b.offset = none)
    (h : a.instant = b.instant) : a.date.year = b.date.year := by
  apply Date.year_eq_of_dayNumber_eq
  rw [instant, instant, ha, hb, Option.getD_none, Int.sub_zero, Int.sub_zero] at h
  have hsame : a.date.dayNumber * microsPerDay + a.microsOfDay =
      b.date.dayNumber * microsPerDay + b.microsOfDay := Int.ofNat.inj h
  have hday : ∀ t : Timestamp,
      (t.date.dayNumber * microsPerDay + t.microsOfDay) / microsPerDay = t.date.dayNumber := by
    intro t
    rw [Nat.mul_comm, Nat.mul_add_div (by decide), Nat.div_eq_of_lt t.microsOfDay_lt, Nat.add_zero]
  rw [← hday a, hsame, hday b]

end Timestamp

end RecordStore
