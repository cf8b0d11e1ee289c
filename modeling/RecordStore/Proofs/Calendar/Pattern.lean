import Mathlib.Tactic.Lemma
import RecordStore.Calendar.Pattern
import RecordStore.Proofs.Number.Digits
import RecordStore.Snapshot.Writer

/-!
# Reading written dates

A date is written by fields of two digits and a year without padding.  The pattern takes each of
these fields as a whole, because the spelling with two digits is preferred and nothing before it
fits; so the preferred match reaches the end of the text, and it gives the date back.  A year of
less than four digits fits no year of the pattern.

A timestamp is written to the second and without its offset, and this is what is read.
-/

namespace RecordStore

namespace Pattern

/-! ## The preferred match -/

/-- The preferred match of pieces at the front of a text gives some values and leaves a rest. -/
def Leads (pieces : List Piece) (cs : List Char) (values : List Nat) (rest : List Char) : Prop :=
  (allMatches pieces cs).head? = some (values, rest)

/-- A preferred match that reaches the end gives the values of a text. -/
lemma Leads.values? {pieces : List Piece} {cs : List Char} {values : List Nat}
    (h : Leads pieces cs values []) : Pattern.values? pieces cs = some values := by
  rw [Pattern.values?, h]

/-- Without pieces the whole text is left. -/
lemma leads_nil (cs : List Char) : Leads [] cs [] cs := rfl

/-- A separator is passed. -/
lemma Leads.mark {pieces : List Piece} {c : Char} {cs rest : List Char} {values : List Nat}
    (h : Leads pieces cs values rest) (hc : (c.toUpper == c) = true) :
    Leads (.mark c :: pieces) (c :: cs) values rest := by
  unfold Leads allMatches
  dsimp only
  rw [if_pos hc]
  exact h

/-- A single blank is passed. -/
lemma Leads.blank {pieces : List Piece} {cs rest : List Char} {values : List Nat}
    (h : Leads pieces cs values rest) (hcs : ∀ c, cs.head? = some c → Text.isBlank c = false) :
    Leads (.blanks :: pieces) (' ' :: cs) values rest := by
  have hstop : afterBlanks cs = [] := by
    cases cs with
    | nil => rfl
    | cons c cs => rw [afterBlanks, hcs c rfl, if_neg Bool.false_ne_true]
  have hblank : Text.isBlank ' ' = true := by decide
  unfold Leads allMatches
  rw [afterBlanks, if_pos hblank, hstop, List.nil_append, List.flatMap_singleton]
  exact h

/-- The first spelling that fits is taken first. -/
lemma Leads.field {pieces : List Piece} {spellings : List (List (Char → Bool))}
    {cs taken tail rest : List Char} {values : List Nat}
    (htaken : spellings.findSome? (takeSpelling? · cs) = some (taken, tail))
    (h : Leads pieces tail values rest) :
    Leads (.field spellings :: pieces) cs (fieldValue taken :: values) rest := by
  rw [← List.head?_filterMap] at htaken
  obtain ⟨others, hothers⟩ := List.head?_eq_some_iff.mp htaken
  unfold Leads at h ⊢
  rw [allMatches, hothers, List.flatMap_cons, List.head?_append, List.head?_map, h]
  rfl

/-! ## Fields -/

/-- Whether the preferred spelling of a field is just the given characters. -/
def takesWhole : Piece → List Char → Bool
  | .field spellings, cs =>
    (spellings.all fun spelling => spelling.length ≤ cs.length) &&
      (spellings.findSome? fun spelling => takeSpelling? spelling cs) == some (cs, [])
  | .mark _, _ => false
  | .blanks, _ => false

/-- A spelling that is no longer than some characters only looks at these. -/
lemma takeSpelling?_append {spelling : List (Char → Bool)} {cs : List Char}
    (h : spelling.length ≤ cs.length) (tail : List Char) :
    takeSpelling? spelling (cs ++ tail) =
      (takeSpelling? spelling cs).map fun (taken, rest) => (taken, rest ++ tail) := by
  induction spelling generalizing cs with
  | nil => rfl
  | cons p spelling ih =>
    cases cs with
    | nil => simp at h
    | cons c cs =>
      have hlength : spelling.length ≤ cs.length := by simpa using h
      have hrest := ih hlength
      rw [List.cons_append, takeSpelling?, takeSpelling?]
      split
      · rw [hrest, Option.map_map, Option.map_map]
        rfl
      · rfl

/-- A field that takes some characters as a whole takes them off the front of a text. -/
lemma Leads.whole {piece : Piece} {pieces : List Piece} {field tail rest : List Char}
    {values : List Nat} (hfield : takesWhole piece field = true)
    (h : Leads pieces tail values rest) :
    Leads (piece :: pieces) (field ++ tail) (fieldValue field :: values) rest := by
  cases piece with
  | field spellings =>
    rw [takesWhole, Bool.and_eq_true, List.all_eq_true, beq_iff_eq] at hfield
    obtain ⟨hlength, hfirst⟩ := hfield
    refine Leads.field ?_ h
    have hcongr : spellings.findSome? (takeSpelling? · (field ++ tail)) =
        (spellings.findSome? fun spelling => takeSpelling? spelling field).map
          fun (taken, rest) => (taken, rest ++ tail) := by
      clear hfirst
      induction spellings with
      | nil => rfl
      | cons spelling spellings ih =>
        have happend := takeSpelling?_append
          (of_decide_eq_true (hlength spelling List.mem_cons_self)) tail
        have hrest := ih fun s hs => hlength s (List.mem_cons_of_mem _ hs)
        rw [List.findSome?_cons, List.findSome?_cons, happend]
        cases takeSpelling? spelling field with
        | none => exact hrest
        | some found => rfl
    rw [hcongr, hfirst]
    rfl
  | mark c => cases hfield
  | blanks => cases hfield

/-- A padded number is read back. -/
lemma fieldValue_padded (width n : Nat) : fieldValue (Text.padded width n) = n :=
  Numeral.naturalOf_padded width n

/-- Every month of two digits is taken as a whole. -/
lemma takesWhole_month : ∀ n < 13, 1 ≤ n → takesWhole month (Text.padded 2 n) = true := by
  decide +kernel

/-- Every day of two digits is taken as a whole. -/
lemma takesWhole_day : ∀ n < 32, 1 ≤ n → takesWhole day (Text.padded 2 n) = true := by
  decide +kernel

/-- Every hour of two digits is taken as a whole. -/
lemma takesWhole_hour : ∀ n < 24, takesWhole hour (Text.padded 2 n) = true := by
  decide +kernel

/-- Every minute of two digits is taken as a whole. -/
lemma takesWhole_minute : ∀ n < 60, takesWhole minute (Text.padded 2 n) = true := by
  decide +kernel

/-- Every second of two digits is taken as a whole. -/
lemma takesWhole_second : ∀ n < 60, takesWhole second (Text.padded 2 n) = true := by
  decide +kernel

/-- A padded number begins with a digit, which is not blank. -/
lemma isBlank_head_padded {width n : Nat} {tail : List Char} {c : Char}
    (h : (Text.padded width n ++ tail).head? = some c) : Text.isBlank c = false := by
  have hmem : c ∈ Text.padded width n := by
    obtain ⟨d, rest, heq⟩ : ∃ d rest, Text.padded width n = d :: rest :=
      List.exists_cons_of_ne_nil (by simp [Text.padded, Nat.toDigits_ne_nil])
    rw [heq, List.cons_append, List.head?_cons] at h
    rw [heq, ← Option.some.inj h]
    exact List.mem_cons_self
  refine Text.isBlank_of_isDigit ?_
  rcases List.mem_append.mp hmem with hzero | hdigit
  · rw [List.eq_of_mem_replicate hzero]
    rfl
  · exact isDigit_of_mem_toDigits hdigit

/-! ## Years -/

/-- A run of decimal digits is taken by as many decimal places. -/
lemma takeSpelling?_decimals {digits : List Char}
    (h : ∀ c ∈ digits, Text.isDecimal c = true) :
    takeSpelling? (List.replicate digits.length Text.isDecimal) digits = some (digits, []) := by
  induction digits with
  | nil => rfl
  | cons c digits ih =>
    rw [List.length_cons, List.replicate_succ, takeSpelling?, if_pos (h c List.mem_cons_self),
      ih fun d hd => h d (List.mem_cons_of_mem c hd)]
    rfl

/-- Decimal places do not go beyond what is no digit. -/
lemma takeSpelling?_short {digits tail : List Char} {count : Nat} {stop : Char}
    (hcount : digits.length < count) (hstop : Text.isDecimal stop = false) :
    takeSpelling? (List.replicate count Text.isDecimal) (digits ++ stop :: tail) = none := by
  induction digits generalizing count with
  | nil =>
    obtain ⟨k, rfl⟩ : ∃ k, count = k + 1 := ⟨count - 1, by simp at hcount; omega⟩
    rw [List.replicate_succ, List.nil_append, takeSpelling?, hstop, if_neg Bool.false_ne_true]
  | cons c digits ih =>
    obtain ⟨k, rfl⟩ : ∃ k, count = k + 1 := ⟨count - 1, by simp at hcount; omega⟩
    rw [List.replicate_succ, List.cons_append, takeSpelling?]
    split
    · rw [ih (by simpa using hcount)]
      rfl
    · rfl

/-- The digits of a year of four digits are taken as a whole. -/
lemma takesWhole_year {y : Nat} (hlow : 1000 ≤ y) (hhigh : y ≤ 9999) :
    takesWhole year (Nat.toDigits 10 y) = true := by
  have hlength : (Nat.toDigits 10 y).length = 4 := by
    have hle : (Nat.toDigits 10 y).length ≤ 4 :=
      (Nat.length_toDigits_le_iff (by decide) (by decide)).mpr (by omega)
    have hge : ¬(Nat.toDigits 10 y).length ≤ 3 := fun h => by
      have hless := (Nat.length_toDigits_le_iff (by decide) (by decide)).mp h
      omega
    omega
  have htaken := takeSpelling?_decimals fun c hc =>
    Text.isDecimal_of_isDigit (isDigit_of_mem_toDigits (n := y) hc)
  rw [hlength] at htaken
  have hspelling : List.replicate 4 Text.isDecimal =
      [Text.isDecimal, Text.isDecimal, Text.isDecimal, Text.isDecimal] := rfl
  rw [hspelling] at htaken
  simp [takesWhole, year, hlength, htaken]

/-- A year of less than four digits is no year of the pattern. -/
lemma allMatches_shortYear {y : Nat} (hy : y < 1000) (pieces : List Piece) (tail : List Char) :
    allMatches (year :: pieces) (Nat.toDigits 10 y ++ '-' :: tail) = [] := by
  have hlength : (Nat.toDigits 10 y).length ≤ 3 :=
    (Nat.length_toDigits_le_iff (by decide) (by decide)).mpr hy
  have hnone : takeSpelling? (List.replicate 4 Text.isDecimal) (Nat.toDigits 10 y ++ '-' :: tail) =
      none :=
    takeSpelling?_short (by omega) (by decide +kernel)
  have hspelling : List.replicate 4 Text.isDecimal =
      [Text.isDecimal, Text.isDecimal, Text.isDecimal, Text.isDecimal] := rfl
  rw [hspelling] at hnone
  rw [year, allMatches, List.filterMap_cons, hnone]
  rfl

end Pattern

/-! ## Dates and timestamps -/

namespace Date

/-- No month has more than 31 days. -/
lemma monthLength_le (year month : Nat) : monthLength year month ≤ 31 := by
  rw [monthLength]
  split
  · omega
  · have hall : ∀ n ∈ monthLengths year, n ≤ 31 := by
      intro n hn
      simp only [monthLengths, List.mem_cons, List.not_mem_nil, or_false] at hn
      split at hn <;> omega
    rw [List.getD_eq_getElem?_getD]
    cases hlength : (monthLengths year)[month - 1]? with
    | none => simp
    | some n => exact hall n (List.mem_of_getElem? hlength)

/-- The parts of a date denote it. -/
lemma make?_self (d : Date) : make? d.year d.month d.day = some d :=
  dif_pos d.valid

end Date

namespace Pattern

/-- The preferred match goes through the fields of a written date. -/
lemma Leads.date {pieces : List Piece} {tail rest : List Char} {values : List Nat} {d : Date}
    (hyear : 1000 ≤ d.year) (h : Leads pieces tail values rest) :
    Leads (datePieces ++ pieces) (Snapshot.dateText d ++ tail)
      (d.year :: d.month :: d.day :: values) rest := by
  obtain ⟨-, hyearMax, hmonth, hmonthMax, hday, hdayMax⟩ := d.valid
  have hlength := Date.monthLength_le d.year d.month
  have hdays := Leads.whole (takesWhole_day d.day (by omega) hday) h
  have hmonths := Leads.whole (takesWhole_month d.month (by omega) hmonth)
    (hdays.mark (c := '-') (by decide))
  have hyears := Leads.whole (takesWhole_year hyear hyearMax) (hmonths.mark (c := '-') (by decide))
  have hvalue : fieldValue (Nat.toDigits 10 d.year) = d.year := Numeral.naturalOf_toDigits d.year
  rw [hvalue, fieldValue_padded, fieldValue_padded] at hyears
  simpa [datePieces, Snapshot.dateText] using hyears

/-- A written date matches no pattern if its year has less than four digits. -/
lemma values?_shortYear {d : Date} (hyear : d.year < 1000) (pieces : List Piece)
    (tail : List Char) : values? (datePieces ++ pieces) (Snapshot.dateText d ++ tail) = none := by
  have hnone := allMatches_shortYear hyear (.mark '-' :: month :: .mark '-' :: day :: pieces)
    (Text.padded 2 d.month ++ '-' :: (Text.padded 2 d.day ++ tail))
  rw [values?]
  simp only [datePieces, Snapshot.dateText, List.cons_append, List.nil_append, List.append_assoc]
  rw [hnone]
  rfl

/-- A written date is read back if its year has four digits, and otherwise not read. -/
theorem readDate?_dateText (d : Date) :
    readDate? (Snapshot.dateText d) = if 1000 ≤ d.year then some d else none := by
  rw [readDate?]
  split
  · rename_i hyear
    have hleads := Leads.date hyear (leads_nil [])
    rw [List.append_nil, List.append_nil] at hleads
    rw [hleads.values?]
    exact d.make?_self
  · rename_i hyear
    have hnone := values?_shortYear (Nat.lt_of_not_le hyear) [] []
    rw [List.append_nil, List.append_nil] at hnone
    rw [hnone]
    rfl

end Pattern

namespace Timestamp

/-- A timestamp to the second, without its offset. -/
def truncated (t : Timestamp) : Timestamp :=
  ⟨t.date, t.hour, t.minute, t.second, 0, none,
    ⟨t.valid.1, t.valid.2.1, t.valid.2.2.1, by decide, rfl⟩⟩

/-- A timestamp is what it is to the second if nothing is lost. -/
lemma truncated_eq_self_iff (t : Timestamp) :
    t.truncated = t ↔ t.microsecond = 0 ∧ t.offset = none := by
  constructor
  · intro h
    exact ⟨(congrArg Timestamp.microsecond h).symm, (congrArg Timestamp.offset h).symm⟩
  · rintro ⟨hmicrosecond, hoffset⟩
    obtain ⟨date, hour, minute, second, microsecond, offset, valid⟩ := t
    subst hmicrosecond hoffset
    rfl

end Timestamp

namespace Pattern

/-- A written timestamp is read back to the second if its year has four digits, and otherwise not
read. -/
theorem readMoment?_timestampText (t : Timestamp) :
    readMoment? .blanks (Snapshot.timestampText t) =
      if 1000 ≤ t.date.year then some t.truncated else none := by
  obtain ⟨hhour, hminute, hsecond, -, -⟩ := t.valid
  have hshape : Snapshot.timestampText t = Snapshot.dateText t.date ++
      ' ' :: (Text.padded 2 t.hour ++ ':' :: (Text.padded 2 t.minute ++
        ':' :: (Text.padded 2 t.second ++ []))) := by
    simp [Snapshot.timestampText]
  rw [readMoment?, momentPieces, hshape]
  split
  · rename_i hyear
    have hseconds := Leads.whole (takesWhole_second t.second hsecond) (leads_nil [])
    have hminutes := Leads.whole (takesWhole_minute t.minute hminute)
      (hseconds.mark (c := ':') (by decide))
    have hhours := Leads.whole (takesWhole_hour t.hour hhour) (hminutes.mark (c := ':') (by decide))
    have hleads := Leads.date hyear (hhours.blank fun c hc => isBlank_head_padded hc)
    rw [hleads.values?, fieldValue_padded, fieldValue_padded, fieldValue_padded]
    simp only [Option.bind_some, Date.make?_self]
    exact dif_pos t.truncated.valid
  · rename_i hyear
    rw [values?_shortYear (Nat.lt_of_not_le hyear)]
    rfl

end Pattern

end RecordStore
