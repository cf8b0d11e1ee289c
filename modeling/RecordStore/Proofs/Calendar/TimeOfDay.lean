import Mathlib.Data.List.Forall2
import RecordStore.Kind.Conversion
import RecordStore.Proofs.Text.Blank
import RecordStore.Proofs.Value.Sameness

/-!
# Texts with a time of day

A text that is read as a date has a time of day if something comes after its date: after the separator of
the standard form, or in the longer one of the patterns.  Which of these it is shows in the length of the
text, because no date has more than ten characters and a date with a time has more than ten; except that in
the standard form a week without dashes, any one character and an hour make exactly ten characters too.
Such a text is taken for a plain date, and its hour is lost.
-/

namespace RecordStore

/-! ## Lengths of patterns -/

namespace Pattern

/-- A piece of a pattern may stand for a number of characters. -/
def Piece.Takes : Piece → Nat → Prop
  | .field spellings, n => ∃ spelling ∈ spellings, spelling.length = n
  | .mark _, n => n = 1
  | .blanks, n => 1 ≤ n

/-- A spelling takes as many characters as it has off the front of a text. -/
lemma append_of_takeSpelling? {spelling : List (Char → Bool)} {cs taken rest : List Char}
    (h : takeSpelling? spelling cs = some (taken, rest)) :
    cs = taken ++ rest ∧ taken.length = spelling.length := by
  induction spelling generalizing cs taken with
  | nil =>
    obtain ⟨rfl, rfl⟩ := Prod.mk.inj (Option.some.inj h)
    exact ⟨rfl, rfl⟩
  | cons p spelling ih =>
    cases cs with
    | nil => cases h
    | cons c cs =>
      rw [takeSpelling?] at h
      split at h
      · obtain ⟨⟨taken', rest'⟩, htake, heq⟩ := Option.map_eq_some_iff.mp h
        obtain ⟨rfl, rfl⟩ := Prod.mk.inj heq
        obtain ⟨rfl, hlength⟩ := ih htake
        exact ⟨rfl, congrArg (· + 1) hlength⟩
      · cases h

/-- A run of blanks takes at least one character. -/
lemma length_of_mem_afterBlanks {cs rest : List Char} (h : rest ∈ afterBlanks cs) :
    ∃ n, 1 ≤ n ∧ cs.length = n + rest.length := by
  induction cs with
  | nil => cases h
  | cons c cs ih =>
    rw [afterBlanks] at h
    split at h
    · rcases List.mem_append.mp h with hmem | hmem
      · obtain ⟨n, -, hlength⟩ := ih hmem
        exact ⟨n + 1, Nat.le_add_left 1 n, by rw [List.length_cons, hlength]; omega⟩
      · rw [List.mem_singleton.mp hmem]
        exact ⟨1, le_rfl, by rw [List.length_cons, Nat.add_comm]⟩
    · cases h

/-- Pieces that match take characters one after the other. -/
lemma exists_takes_of_mem_allMatches {pieces : List Piece} {cs rest : List Char} {values : List Nat}
    (h : (values, rest) ∈ allMatches pieces cs) :
    ∃ ns, List.Forall₂ Piece.Takes pieces ns ∧ cs.length = ns.sum + rest.length := by
  induction pieces generalizing cs values with
  | nil =>
    obtain ⟨-, rfl⟩ := Prod.mk.inj (List.mem_singleton.mp h)
    exact ⟨[], .nil, (Nat.zero_add _).symm⟩
  | cons piece pieces ih =>
    -- what the first piece takes, and what the others take of the rest
    have hcons : ∀ {n : Nat} {tail : List Char} {values' : List Nat}, piece.Takes n →
        cs.length = n + tail.length → (values', rest) ∈ allMatches pieces tail →
          ∃ ns, List.Forall₂ Piece.Takes (piece :: pieces) ns ∧ cs.length = ns.sum + rest.length := by
      intro n tail values' hn hlength hmem
      obtain ⟨ns, hns, hrest⟩ := ih hmem
      exact ⟨n :: ns, .cons hn hns, by rw [hlength, hrest, List.sum_cons, Nat.add_assoc]⟩
    cases piece with
    | field spellings =>
      obtain ⟨⟨taken, tail⟩, htaken, hmem⟩ := List.mem_flatMap.mp h
      obtain ⟨spelling, hspelling, htake⟩ := List.mem_filterMap.mp htaken
      obtain ⟨⟨values', rest'⟩, hrest, heq⟩ := List.mem_map.mp hmem
      obtain ⟨-, rfl⟩ := Prod.mk.inj heq
      obtain ⟨rfl, hlength⟩ := append_of_takeSpelling? htake
      exact hcons ⟨spelling, hspelling, hlength.symm⟩ List.length_append hrest
    | mark c =>
      cases cs with
      | nil => cases h
      | cons d cs =>
        rw [allMatches] at h
        split at h
        · exact hcons (n := 1) rfl (by rw [List.length_cons, Nat.add_comm]) h
        · cases h
    | blanks =>
      obtain ⟨tail, htail, hmem⟩ := List.mem_flatMap.mp h
      obtain ⟨n, hn, hlength⟩ := length_of_mem_afterBlanks htail
      exact hcons hn hlength hmem

/-- A text whose values are read is taken by the pieces as a whole. -/
lemma exists_takes_of_values? {pieces : List Piece} {cs : List Char} {values : List Nat}
    (h : values? pieces cs = some values) :
    ∃ ns, List.Forall₂ Piece.Takes pieces ns ∧ cs.length = ns.sum := by
  rw [values?] at h
  split at h
  · rename_i found hfound
    exact exists_takes_of_mem_allMatches (List.mem_of_mem_head? hfound)
  · cases h

/-- A date with dashes has at most ten characters. -/
lemma length_le_of_readDate? {cs : List Char} {d : Date} (h : readDate? cs = some d) :
    cs.length ≤ 10 := by
  obtain ⟨values, hvalues, -⟩ := Option.bind_eq_some_iff.mp h
  obtain ⟨ns, hns, hlength⟩ := exists_takes_of_values? hvalues
  simp only [datePieces, List.forall₂_cons_left_iff, List.forall₂_nil_left_iff] at hns
  obtain ⟨y, -, hyear, ⟨a, -, hfirst, ⟨m, -, hmonth, ⟨b, -, hsecond, ⟨k, -, hday, rfl, rfl⟩, rfl⟩,
    rfl⟩, rfl⟩, rfl⟩ := hns
  have hy : y = 4 := by simpa [year, Piece.Takes, eq_comm] using hyear
  have hm : m ≤ 2 := by
    simp only [month, Piece.Takes, List.mem_cons, List.not_mem_nil, or_false] at hmonth
    obtain ⟨spelling, rfl | rfl | rfl, rfl⟩ := hmonth <;> decide
  have hk : k ≤ 2 := by
    simp only [day, Piece.Takes, List.mem_cons, List.not_mem_nil, or_false] at hday
    obtain ⟨spelling, rfl | rfl | rfl | rfl | rfl, rfl⟩ := hday <;> decide
  obtain rfl : a = 1 := hfirst
  obtain rfl : b = 1 := hsecond
  rw [hlength]
  simp only [List.sum_cons, List.sum_nil]
  omega

/-- A date with dashes is no week. -/
lemma readDate?_week {front rest : List Char} (hfront : front.length = 4) :
    readDate? (front ++ 'W' :: rest) = none := by
  have hnone : allMatches datePieces (front ++ 'W' :: rest) = [] := by
    rw [datePieces, year, allMatches, List.flatMap_eq_nil_iff]
    intro found hfound
    obtain ⟨spelling, hspelling, htake⟩ := List.mem_filterMap.mp hfound
    obtain rfl := List.mem_singleton.mp hspelling
    obtain ⟨heq, hlength⟩ := append_of_takeSpelling? htake
    obtain ⟨-, hrest⟩ := List.append_inj heq (hfront.trans hlength.symm)
    dsimp only
    rw [← hrest]
    rfl
  rw [readDate?, values?, hnone]
  rfl

/-- Whether a piece takes something of every text that it matches. -/
def Piece.isSome : Piece → Bool
  | .field spellings => spellings.all fun spelling => 1 ≤ spelling.length
  | .mark _ => true
  | .blanks => true

/-- A piece that takes something takes at least one character. -/
lemma Piece.Takes.pos {piece : Piece} {n : Nat} (h : piece.Takes n) (hsome : piece.isSome = true) :
    1 ≤ n := by
  cases piece with
  | field spellings =>
    obtain ⟨spelling, hspelling, rfl⟩ := h
    simpa using List.all_eq_true.mp hsome spelling hspelling
  | mark c => exact le_of_eq (Eq.symm h)
  | blanks => exact h

/-- Pieces that take something take at least as many characters as there are pieces. -/
lemma length_le_sum_of_takes {pieces : List Piece} {ns : List Nat}
    (h : List.Forall₂ Piece.Takes pieces ns) (hsome : pieces.all Piece.isSome = true) :
    pieces.length ≤ ns.sum := by
  induction h with
  | nil => exact le_rfl
  | cons hfirst hrest ih =>
    rw [List.all_cons, Bool.and_eq_true] at hsome
    have hpos := hfirst.pos hsome.1
    have hle := ih hsome.2
    rw [List.length_cons, List.sum_cons]
    omega

/-- A date with a time of day has more than ten characters. -/
lemma lt_length_of_readMoment? {separator : Piece} (hseparator : separator.isSome = true)
    {cs : List Char} {t : Timestamp} (h : readMoment? separator cs = some t) : 10 < cs.length := by
  obtain ⟨values, hvalues, -⟩ := Option.bind_eq_some_iff.mp h
  obtain ⟨ns, hns, hlength⟩ := exists_takes_of_values? hvalues
  have hsome : (momentPieces separator).all Piece.isSome = true := by
    rw [momentPieces, List.all_append, List.all_cons, hseparator]
    rfl
  have hle := length_le_sum_of_takes hns hsome
  rw [hlength]
  exact hle

end Pattern

/-! ## Lengths in the standard form -/

namespace Standard

/-- The date ends after seven, eight or ten characters. -/
lemma separatorIndex_cases (cs : List Char) :
    separatorIndex cs = 7 ∨ separatorIndex cs = 8 ∨ separatorIndex cs = 10 := by
  unfold separatorIndex
  split
  · exact Or.inl rfl
  split
  · split
    · split
      · split
        · exact Or.inr (Or.inl rfl)
        · exact Or.inr (Or.inr rfl)
      · exact Or.inr (Or.inl rfl)
    · exact Or.inr (Or.inr rfl)
  split
  · dsimp only
    split
    · omega
    · split
      · exact Or.inl rfl
      · exact Or.inr (Or.inl rfl)
  · exact Or.inr (Or.inl rfl)

/-- A date that ends after seven characters, while the text goes on, is a week without dashes. -/
lemma charAt_of_separatorIndex {cs : List Char} (h : separatorIndex cs = 7) (hmore : 7 < cs.length) :
    charAt cs 4 = 'W' := by
  unfold separatorIndex at h
  rw [if_neg hmore.ne'] at h
  split at h
  · split at h
    · split at h
      · split at h <;> cases h
      · cases h
    · cases h
  · split at h
    · assumption
    · cases h

/-- A week without dashes ends after seven or eight characters. -/
lemma separatorIndex_le_of_week {cs : List Char} (h : charAt cs 4 = 'W') : separatorIndex cs ≤ 8 := by
  unfold separatorIndex
  rw [h, if_neg (by decide : 'W' ≠ '-'), if_pos rfl]
  split
  · omega
  · dsimp only
    split
    · omega
    · split <;> omega

/-- Digits are taken off the front of a text. -/
lemma length_of_takeDigits? {count n m : Nat} {cs rest : List Char}
    (h : takeDigits? count n cs = some (m, rest)) : cs.length = count + rest.length := by
  induction count generalizing n cs with
  | zero =>
    obtain ⟨-, rfl⟩ := Prod.mk.inj (Option.some.inj h)
    exact (Nat.zero_add _).symm
  | succ count ih =>
    cases cs with
    | nil => cases h
    | cons c cs =>
      obtain ⟨d, -, hrest⟩ := Option.bind_eq_some_iff.mp h
      rw [List.length_cons, ih hrest]
      omega

/-- A week without dashes that is followed by any one character and an hour ends before them. -/
lemma separatorIndex_weekHour (a b c d f g separator : Char) {h i : Char}
    (hh : (digit? h).isSome = true) (hi : (digit? i).isSome = true) :
    separatorIndex [a, b, c, d, 'W', f, g, separator, h, i] = 7 := by
  have hweek : charAt [a, b, c, d, 'W', f, g, separator, h, i] 4 = 'W' := rfl
  unfold separatorIndex
  rw [hweek, if_neg (by decide : 'W' ≠ '-'), if_pos rfl]
  cases hs : (digit? separator).isSome <;> simp [hs, hh, hi]

/-- What follows a week without dashes does not count for its date. -/
lemma readDate?_week (a b c d f g : Char) (rest : List Char) :
    readDate? (a :: b :: c :: d :: 'W' :: f :: g :: rest) 7 =
      readDate? [a, b, c, d, 'W', f, g] 7 := by
  simp [readDate?, takeDigits?, Option.bind_assoc]

/-- A date begins with a digit. -/
lemma isSome_digit?_of_readDate? {c : Char} {cs : List Char} {stop : Nat} {d : Date}
    (h : readDate? (c :: cs) stop = some d) : (digit? c).isSome = true := by
  obtain ⟨found, hfound, -⟩ := Option.bind_eq_some_iff.mp h
  obtain ⟨n, hn, -⟩ := Option.bind_eq_some_iff.mp hfound
  rw [hn]
  rfl

/-- A digit is not blank. -/
lemma isBlank_of_isSome_digit? {c : Char} (h : (digit? c).isSome = true) :
    Text.isBlank c = false := by
  rw [digit?] at h
  split at h
  · rename_i hrange
    have hlow : 48 ≤ c.toNat := hrange.1
    have hhigh : c.toNat ≤ 57 := hrange.2
    simp only [Text.isBlank, Text.inRanges, Text.blankRanges, List.any_cons, List.any_nil,
      Bool.or_false, Bool.or_eq_false_iff, Bool.and_eq_false_iff, decide_eq_false_iff_not]
    omega
  · cases h

/-- A time of day that is read is one of the given date. -/
lemma date_of_readTime? {d : Date} {cs : List Char} {t : Timestamp} (h : readTime? d cs = some t) :
    t.date = d := by
  have hmake : ∀ {hour minute second microsecond : Nat} {offset : Option Int},
      Timestamp.make? d hour minute second microsecond offset = some t → t.date = d := by
    intro hour minute second microsecond offset hmade
    rw [Timestamp.make?] at hmade
    split at hmade
    · obtain rfl := Option.some.inj hmade
      rfl
    · cases hmade
  obtain ⟨⟨clock, more⟩, -, h⟩ := Option.bind_eq_some_iff.mp h
  dsimp only at h
  split at h
  · split at h
    · cases h
    · exact hmake h
  · obtain ⟨shift, -, h⟩ := Option.bind_eq_some_iff.mp h
    exact hmake h

/-- A time of day has at least two characters. -/
lemma two_le_length_of_readTime? {d : Date} {cs : List Char} {t : Timestamp}
    (h : readTime? d cs = some t) : 2 ≤ cs.length := by
  obtain ⟨⟨clock, more⟩, hclock, -⟩ := Option.bind_eq_some_iff.mp h
  obtain ⟨parts, hparts, -⟩ := Option.map_eq_some_iff.mp hclock
  rw [readParts?] at hparts
  obtain ⟨⟨n, rest⟩, htake, -⟩ := Option.bind_eq_some_iff.mp hparts
  have hlength := length_of_takeDigits? htake
  have hle := (List.takeWhile_sublist (l := cs) fun c => !startsOffset c).length_le
  omega

end Standard

namespace Moment

/-! ## What a text denotes -/

/-- Whether the characters of a date, as they are read, have a time of day: something after the date of
the standard form, or the longer one of the patterns. -/
def hasTime (cs : List Char) : Bool :=
  if (Standard.read? cs).isSome then decide (Standard.separatorIndex cs < cs.length)
  else (Pattern.readDate? cs).isNone

/-- What the characters of a date denote: a plain date if they have no time of day, and otherwise the date
with the time of day and the offset that are read. -/
def denoted? (cs : List Char) : Option Moment :=
  (timestampOf? cs).map fun t => if hasTime cs then .timestamp t else .date t.date

/-- The instant of a moment, and whether its offset is known; a plain date is the start of its day. -/
def identity : Moment → Bool × Int
  | .date d => (startOfDay d).identity
  | .timestamp t => t.identity

/-- A week without dashes, any one character and an hour. -/
def IsWeekHour (cs : List Char) : Prop :=
  ∃ year week hour : List Char, ∃ separator : Char,
    cs = year ++ 'W' :: week ++ separator :: hour ∧
      year.length = 4 ∧ week.length = 2 ∧ hour.length = 2

variable {cs : List Char} {t : Timestamp}

/-- Characters without a time of day are at most ten. -/
lemma length_le_of_hasTime (hnone : hasTime cs = false) : cs.length ≤ 10 := by
  rw [hasTime] at hnone
  split at hnone
  · have hstop := of_decide_eq_false hnone
    rcases Standard.separatorIndex_cases cs with h | h | h <;> omega
  · cases hdate : Pattern.readDate? cs with
    | some d => exact Pattern.length_le_of_readDate? hdate
    | none =>
      rw [hdate] at hnone
      cases hnone

/-- Ten characters whose fifth is the one of weeks are a week without dashes and something else. -/
lemma isWeekHour_iff : IsWeekHour cs ↔ cs.length = 10 ∧ Standard.charAt cs 4 = 'W' := by
  constructor
  · rintro ⟨year, week, hour, separator, rfl, hyear, hweek, hhour⟩
    match year, hyear with
    | [a, b, c, d], _ => exact ⟨by simp [hweek, hhour], rfl⟩
  · rintro ⟨hlength, hweek⟩
    match cs, hlength with
    | [a, b, c, d, e, f, g, h, i, j], _ =>
      obtain rfl : e = 'W' := hweek
      exact ⟨[a, b, c, d], [f, g], [i, j], h, rfl, rfl, rfl, rfl⟩

/-- A time of day that is read from at most ten characters is in the standard form, after a date of seven
characters and a separator. -/
lemma read?_of_hasTime (hread : timestampOf? cs = some t) (htime : hasTime cs = true)
    (hlength : cs.length ≤ 10) :
    Standard.read? cs = some t ∧ Standard.separatorIndex cs = 7 ∧ cs.length = 10 := by
  rw [hasTime] at htime
  split at htime
  · rename_i hstandard
    have hstop := of_decide_eq_true htime
    obtain ⟨t', ht'⟩ := Option.isSome_iff_exists.mp hstandard
    rw [timestampOf?, ht', Option.some_or] at hread
    obtain ⟨d, -, hrest⟩ := Option.bind_eq_some_iff.mp ht'
    -- the time of day needs two characters behind the separator
    have htwo : Standard.separatorIndex cs + 3 ≤ cs.length := by
      split at hrest
      · rename_i hdrop
        have := List.drop_eq_nil_iff.mp hdrop
        omega
      · rename_i c time hdrop
        have htwo := Standard.two_le_length_of_readTime? hrest
        have hdropped := congrArg List.length hdrop
        rw [List.length_drop, List.length_cons] at hdropped
        omega
    refine ⟨ht'.trans hread, ?_, ?_⟩
    all_goals rcases Standard.separatorIndex_cases cs with h | h | h <;> omega
  · rename_i hstandard
    have hnone : Standard.read? cs = none := Option.not_isSome_iff_eq_none.mp hstandard
    rw [timestampOf?, hnone, Option.isNone_iff_eq_none.mp htime] at hread
    simp only [Option.map_none, Option.none_or] at hread
    rcases Option.or_eq_some_iff.mp hread with h | ⟨-, h⟩
    · have := Pattern.lt_length_of_readMoment? rfl h
      omega
    · have := Pattern.lt_length_of_readMoment? rfl h
      omega

/-- A time of day that is read from at most ten characters is an hour after a week without dashes. -/
lemma isWeekHour_of_hasTime (hread : timestampOf? cs = some t) (htime : hasTime cs = true)
    (hlength : cs.length ≤ 10) : IsWeekHour cs := by
  obtain ⟨-, hstop, hten⟩ := read?_of_hasTime hread htime hlength
  exact isWeekHour_iff.mpr ⟨hten, Standard.charAt_of_separatorIndex hstop (by omega)⟩

/-- A week without dashes and an hour has a time of day. -/
lemma IsWeekHour.hasTime_eq (h : IsWeekHour cs) : hasTime cs = true := by
  rw [hasTime]
  split
  · obtain ⟨hlength, hweek⟩ := isWeekHour_iff.mp h
    have hstop := Standard.separatorIndex_le_of_week hweek
    exact decide_eq_true (by omega)
  · obtain ⟨year, week, hour, separator, rfl, hyear, -⟩ := h
    rw [List.append_assoc, List.cons_append, Pattern.readDate?_week hyear]
    rfl

/-- A week without dashes and an hour is read as the hour on the first day of the week. -/
lemma read_weekHour {a b c d f g separator h i : Char}
    (hread : timestampOf? [a, b, c, d, 'W', f, g, separator, h, i] = some t) :
    Standard.readDate? [a, b, c, d, 'W', f, g] 7 = some t.date := by
  have hweek : IsWeekHour [a, b, c, d, 'W', f, g, separator, h, i] :=
    ⟨[a, b, c, d], [f, g], [h, i], separator, rfl, rfl, rfl, rfl⟩
  obtain ⟨hstandard, hstop, -⟩ := read?_of_hasTime hread hweek.hasTime_eq le_rfl
  obtain ⟨day, hday, htime⟩ := Option.bind_eq_some_iff.mp hstandard
  rw [hstop] at hday htime
  rw [Standard.readDate?_week] at hday
  rw [hday, Standard.date_of_readTime? htime]

/-- The first hour of a day. -/
def firstHour (d : Date) : Timestamp :=
  ⟨d, 1, 0, 0, 0, none, by decide⟩

/-- The start of a day and its first hour are different instants. -/
lemma identity_firstHour_ne (d : Date) : (firstHour d).identity ≠ (startOfDay d).identity := by
  simp [Timestamp.identity, Timestamp.instant, Timestamp.microsOfDay, firstHour, startOfDay,
    microsPerSecond]

/-- After a week without dashes any other hour can be read that stands there. -/
lemma timestampOf?_weekHour {a b c d f g h i : Char} {day : Date} (separator : Char)
    (hday : Standard.readDate? [a, b, c, d, 'W', f, g] 7 = some day)
    (hh : (Standard.digit? h).isSome = true) (hi : (Standard.digit? i).isSome = true)
    (htime : Standard.readTime? day [h, i] = some t) :
    timestampOf? [a, b, c, d, 'W', f, g, separator, h, i] = some t := by
  have hstandard : Standard.read? [a, b, c, d, 'W', f, g, separator, h, i] = some t := by
    rw [Standard.read?, Standard.separatorIndex_weekHour a b c d f g separator hh hi,
      Standard.readDate?_week, hday]
    exact htime
  rw [timestampOf?, hstandard, Option.some_or]

/-- A text that is read denotes something. -/
lemma exists_denoted? {s : String} (hread : (parse? s).isSome = true) :
    ∃ m, denoted? (Text.stripChars s.toList) = some m := by
  obtain ⟨m, hm⟩ := Option.isSome_iff_exists.mp hread
  obtain ⟨t, ht, -⟩ := Option.map_eq_some_iff.mp hm
  rw [denoted?, ht]
  exact ⟨_, rfl⟩

/-- A text is read as what it denotes exactly if it is no week without dashes with an hour. -/
theorem parse?_eq_denoted?_iff {s : String} (hread : (parse? s).isSome = true) :
    parse? s = denoted? (Text.stripChars s.toList) ↔ ¬IsWeekHour (Text.stripChars s.toList) := by
  obtain ⟨m, hm⟩ := Option.isSome_iff_exists.mp hread
  obtain ⟨t, ht, -⟩ := Option.map_eq_some_iff.mp hm
  rw [parse?, denoted?, ht, Option.map_some, Option.map_some, Option.some.injEq]
  cases htime : hasTime (Text.stripChars s.toList) with
  | false =>
    refine iff_of_true ?_ fun hweek => ?_
    · rw [if_pos (length_le_of_hasTime htime)]
      rfl
    · rw [hweek.hasTime_eq] at htime
      cases htime
  | true =>
    rw [if_pos rfl]
    by_cases hlength : (Text.stripChars s.toList).length ≤ 10
    · rw [if_pos hlength]
      exact iff_of_false nofun fun hnot => hnot (isWeekHour_of_hasTime ht htime hlength)
    · rw [if_neg hlength]
      refine iff_of_true rfl fun hweek => hlength ?_
      exact (isWeekHour_iff.mp hweek).1.le

/-- A text that denotes something, and is no week without dashes with an hour, is read as it. -/
lemma parse?_eq_of_denoted? {s : String} {m : Moment}
    (h : denoted? (Text.stripChars s.toList) = some m)
    (hs : ¬IsWeekHour (Text.stripChars s.toList)) : parse? s = some m := by
  obtain ⟨t, ht, -⟩ := Option.map_eq_some_iff.mp h
  have hread : (parse? s).isSome = true := by
    rw [parse?, ht]
    rfl
  rw [(parse?_eq_denoted?_iff hread).mpr hs, h]

/-! ## Stored dates -/

/-- Moments of different instants are stored as different values. -/
lemma ofMoment_beq_of_ne {m m' : Moment} (h : m.identity ≠ m'.identity) :
    (Value.ofMoment m == Value.ofMoment m') = false := by
  rw [Bool.eq_false_iff]
  intro hsame
  cases m with
  | date d =>
    have hid := (Value.same_iff_identity (a := Value.date d) rfl).mp hsame
    cases m' with
    | date d' =>
      obtain rfl : d' = d := by simpa [Value.ofMoment, Value.identity?] using hid
      exact h rfl
    | timestamp t' => simp [Value.ofMoment, Value.identity?] at hid
  | timestamp t =>
    have hid := (Value.same_iff_identity (a := Value.timestamp t) rfl).mp hsame
    cases m' with
    | date d' => simp [Value.ofMoment, Value.identity?] at hid
    | timestamp t' =>
      have hboth : t.identity.1 = t'.identity.1 ∧ t.identity.2 = t'.identity.2 := by
        simpa [Value.ofMoment, Value.identity?, eq_comm] using hid
      exact h (Prod.ext hboth.1 hboth.2)

/-- What is stored for a text is the moment that it is read as. -/
lemma coerce_text {s : String} {m : Moment} (h : parse? s = some m) :
    Kind.date.coerce (.text s) = .ofMoment m := by
  rw [Kind.coerce, h]
  rfl

/-- The first day of a week is stored for every hour after the week without dashes. -/
lemma exists_stored_weekHour {s : String} {a b c d f g i : Char} {day : Date} {t : Timestamp}
    (separator : Char) (hread : parse? s = some (.date day))
    (hday : Standard.readDate? [a, b, c, d, 'W', f, g] 7 = some day)
    (hi : (Standard.digit? i).isSome = true) (htime : Standard.readTime? day ['0', i] = some t) :
    ∃ s', denoted? (Text.stripChars s'.toList) = some (.timestamp t) ∧
      (Kind.date.coerce (.text s) == Kind.date.coerce (.text s')) = true := by
  have hfirst := Standard.isBlank_of_isSome_digit? (Standard.isSome_digit?_of_readDate? hday)
  have hstrip : Text.stripChars (String.ofList [a, b, c, d, 'W', f, g, separator, '0', i]).toList =
      [a, b, c, d, 'W', f, g, separator, '0', i] := by
    rw [String.toList_ofList]
    refine Text.Trimmed.stripChars_eq ⟨?_, ?_⟩
    · rintro c ⟨⟩
      exact hfirst
    · rintro c ⟨⟩
      exact Standard.isBlank_of_isSome_digit? hi
  have hthere := timestampOf?_weekHour separator hday rfl hi htime
  have hweek : IsWeekHour [a, b, c, d, 'W', f, g, separator, '0', i] :=
    ⟨[a, b, c, d], [f, g], ['0', i], separator, rfl, rfl, rfl, rfl⟩
  refine ⟨String.ofList [a, b, c, d, 'W', f, g, separator, '0', i], ?_, ?_⟩
  · rw [hstrip, denoted?, hthere, Option.map_some, hweek.hasTime_eq]
    rfl
  · have hread' : parse? (String.ofList [a, b, c, d, 'W', f, g, separator, '0', i]) =
        some (.date day) := by
      rw [parse?, hstrip, hthere, Option.map_some, Standard.date_of_readTime? htime]
      rfl
    rw [coerce_text hread, coerce_text hread']
    exact Value.beq_self _

/-- A text that is a week without dashes with an hour is stored as the first day of the week, and so is
another text that denotes another instant. -/
theorem exists_collision {s : String} {m : Moment}
    (hdenoted : denoted? (Text.stripChars s.toList) = some m)
    (hweek : IsWeekHour (Text.stripChars s.toList)) :
    ∃ s' m', denoted? (Text.stripChars s'.toList) = some m' ∧ m.identity ≠ m'.identity ∧
      (Kind.date.coerce (.text s) == Kind.date.coerce (.text s')) = true := by
  obtain ⟨t, ht, hm⟩ := Option.map_eq_some_iff.mp hdenoted
  have hread : parse? s = some (.date t.date) := by
    rw [parse?, ht, Option.map_some, if_pos (isWeekHour_iff.mp hweek).1.le]
  obtain ⟨hlength, hfifth⟩ := isWeekHour_iff.mp hweek
  match hcs : Text.stripChars s.toList, hlength with
  | [a, b, c, d, e, f, g, separator, h, i], _ =>
    rw [hcs] at ht hfifth
    obtain rfl : e = 'W' := hfifth
    have hday := read_weekHour ht
    -- the start of the day or the first hour is another instant
    by_cases hstart : (startOfDay t.date).identity = m.identity
    · obtain ⟨s', hs', hsame⟩ :=
        exists_stored_weekHour (i := '1') (t := firstHour t.date) separator hread hday rfl rfl
      refine ⟨s', _, hs', ?_, hsame⟩
      rw [← hstart]
      exact (identity_firstHour_ne t.date).symm
    · obtain ⟨s', hs', hsame⟩ :=
        exists_stored_weekHour (i := '0') (t := startOfDay t.date) separator hread hday rfl rfl
      exact ⟨s', _, hs', Ne.symm hstart, hsame⟩

/-- No time of day is dropped, except for the hour after a week without dashes.  A text that is read
denotes a moment, and it is read as this moment exactly if it is no week without dashes with an hour.  Two
texts that are none and denote different instants are stored as different values; and a text that is one is
stored as the same value as a text that denotes another instant. -/
theorem keepsTime_iff_not_isWeekHour {s : String} (hread : (parse? s).isSome = true) :
    ∃ m, denoted? (Text.stripChars s.toList) = some m ∧
      (parse? s = some m ↔ ¬IsWeekHour (Text.stripChars s.toList)) ∧
      (¬IsWeekHour (Text.stripChars s.toList) →
        ∀ s' m', denoted? (Text.stripChars s'.toList) = some m' →
          ¬IsWeekHour (Text.stripChars s'.toList) → m.identity ≠ m'.identity →
            (Kind.date.coerce (.text s) == Kind.date.coerce (.text s')) = false) ∧
      (IsWeekHour (Text.stripChars s.toList) →
        ∃ s' m', denoted? (Text.stripChars s'.toList) = some m' ∧ m.identity ≠ m'.identity ∧
          (Kind.date.coerce (.text s) == Kind.date.coerce (.text s')) = true) := by
  obtain ⟨m, hm⟩ := exists_denoted? hread
  refine ⟨m, hm, ?_, fun hs s' m' hm' hs' hne => ?_, exists_collision hm⟩
  · rw [← hm]
    exact parse?_eq_denoted?_iff hread
  · rw [coerce_text (parse?_eq_of_denoted? hm hs), coerce_text (parse?_eq_of_denoted? hm' hs')]
    exact ofMoment_beq_of_ne hne

/-- A day and a minute on it are stored as different values; an hour after a week without dashes is stored as
the value of another text. -/
theorem keepsTime_iff_not_isWeekHour_minute :
    (parse? " 2024-01-05 10:20").isSome = true ∧
    (Kind.date.coerce (.text " 2024-01-05 10:20") == Kind.date.coerce (.text "20240105")) = false ∧
    (parse? "2024W01T00").isSome = true ∧
    ∃ s' m', denoted? (Text.stripChars s'.toList) = some m' ∧
      (startOfDay ⟨2024, 1, 1, by decide⟩).identity ≠ m'.identity ∧
        (Kind.date.coerce (.text "2024W01T00") == Kind.date.coerce (.text s')) = true := by
  have hread : (parse? " 2024-01-05 10:20").isSome = true := by decide +kernel
  have hread' : (parse? "2024W01T00").isSome = true := by decide +kernel
  have hminute : ¬IsWeekHour (Text.stripChars " 2024-01-05 10:20".toList) := by
    rw [isWeekHour_iff]
    decide +kernel
  have hday : ¬IsWeekHour (Text.stripChars "20240105".toList) := by
    rw [isWeekHour_iff]
    decide +kernel
  have hhour : IsWeekHour (Text.stripChars "2024W01T00".toList) := by
    rw [isWeekHour_iff]
    decide +kernel
  refine ⟨hread, ?_, hread', ?_⟩
  · obtain ⟨m, hm, -, hdiffers, -⟩ := keepsTime_iff_not_isWeekHour hread
    have htold : denoted? (Text.stripChars " 2024-01-05 10:20".toList) =
        some (.timestamp ⟨⟨2024, 1, 5, by decide⟩, 10, 20, 0, 0, none, by decide⟩) := by
      decide +kernel
    obtain rfl := Option.some.inj (hm.symm.trans htold)
    exact hdiffers hminute _ (.date ⟨2024, 1, 5, by decide⟩) (by decide +kernel) hday
      (by decide +kernel)
  · obtain ⟨m, hm, -, -, hcollides⟩ := keepsTime_iff_not_isWeekHour hread'
    have htold : denoted? (Text.stripChars "2024W01T00".toList) =
        some (.timestamp (startOfDay ⟨2024, 1, 1, by decide⟩)) := by
      decide +kernel
    obtain rfl := Option.some.inj (hm.symm.trans htold)
    exact hcollides hhour

/-- Ten o'clock on the first day of a week is read as the day. -/
theorem parse?_ne_denoted?_weekHour :
    denoted? (Text.stripChars "2024W01T10".toList) =
      some (.timestamp ⟨⟨2024, 1, 1, by decide⟩, 10, 0, 0, 0, none, by decide⟩) ∧
    parse? "2024W01T10" = some (.date ⟨2024, 1, 1, by decide⟩) := by
  decide +kernel

end Moment

end RecordStore
