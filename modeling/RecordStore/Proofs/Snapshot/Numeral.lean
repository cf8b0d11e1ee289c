import RecordStore.Proofs.Number.Shortest
import RecordStore.Snapshot.Escape

/-!
# Numbers in files

A number is written as a numeral in the strict form that the reader expects: no zero in front of
other digits, no point and no power of ten without digits.  Read from the front of a text in which
nothing continues it, such a numeral comes back as the number that it denotes, so integers and
floating-point numbers survive being written and read.
-/

namespace RecordStore

open Json (isDigit)

namespace Numeral

/-- The characters of a sign. -/
def signChars (negative : Bool) : List Char :=
  if negative then ['-'] else []

/-- The characters of a fraction, if there is one. -/
def fractionChars (fraction : Option (List Char)) : List Char :=
  fraction.elim [] fun digits => '.' :: digits

/-- The characters of a power of ten, if there is one. -/
def powerChars (power : Option (Bool × List Char)) : List Char :=
  power.elim [] fun power => 'e' :: (if power.1 then '-' else '+') :: power.2

/-- The characters of a numeral. -/
def chars (numeral : Numeral) : List Char :=
  signChars numeral.negative ++
    (numeral.whole ++ (fractionChars numeral.fraction ++ powerChars numeral.power))

/-- A nonempty run of ASCII digits. -/
def IsRun (digits : List Char) : Prop :=
  digits ≠ [] ∧ ∀ c ∈ digits, isDigit c = true

/-- A numeral in the strict form of files. -/
structure IsStrict (numeral : Numeral) : Prop where
  whole : IsRun numeral.whole
  /-- A zero stands before the point only alone. -/
  whole_zero : ∀ rest, numeral.whole = '0' :: rest → rest = []
  fraction : ∀ digits, numeral.fraction = some digits → IsRun digits
  power : ∀ power, numeral.power = some power → IsRun power.2

/-- The digits of a number are a run. -/
lemma isRun_toDigits (n : Nat) : IsRun (Nat.toDigits 10 n) :=
  ⟨Nat.toDigits_ne_nil, fun _ hc => isDigit_of_mem_toDigits hc⟩

/-- Zeros and a run of digits are a run. -/
lemma IsRun.zeros_append {digits : List Char} (h : IsRun digits) (count : Nat) :
    IsRun (List.replicate count '0' ++ digits) := by
  refine ⟨by simp [h.1], fun c hc => ?_⟩
  rcases List.mem_append.mp hc with hzero | hdigit
  · rw [List.eq_of_mem_replicate hzero]
    rfl
  · exact h.2 c hdigit

/-- The digits of a number do not begin with a zero that is not alone. -/
lemma toDigits_zero_cons {n : Nat} {rest : List Char} (h : Nat.toDigits 10 n = '0' :: rest) :
    rest = [] := by
  by_cases hn : n = 0
  · rw [hn, Nat.toDigits_zero] at h
    exact (List.cons.inj h).2.symm
  · obtain ⟨c, rest', heq, hc⟩ := toDigits_eq_cons hn
    rw [heq] at h
    exact absurd (List.cons.inj h).1 hc

end Numeral

namespace Json

/-! ## Reading a numeral -/

/-- Nothing at the front of a text continues a number. -/
def EndsNumber (rest : List Char) : Prop :=
  ∀ c, rest.head? = some c → isDigit c = false ∧ c ≠ '.' ∧ c ≠ 'e' ∧ c ≠ 'E'

/-- Nothing at the front of a text continues a run of digits. -/
def EndsDigits (rest : List Char) : Prop :=
  ∀ c, rest.head? = some c → isDigit c = false

/-- The digits before the point are taken off the front. -/
lemma takeWhole?_append {numeral : Numeral} (h : numeral.IsStrict) {rest : List Char}
    (hrest : EndsDigits rest) : takeWhole? (numeral.whole ++ rest) = some (numeral.whole, rest) := by
  obtain ⟨⟨hne, hdigits⟩, hzero, -, -⟩ := h
  obtain ⟨c, digits, heq⟩ := List.exists_cons_of_ne_nil hne
  rw [heq] at hdigits hzero ⊢
  by_cases hc : c = '0'
  · subst hc
    rw [hzero digits rfl]
    rfl
  · have hspan := Text.span_append (fun d hd => hdigits d (List.mem_cons_of_mem c hd)) hrest
    rw [List.cons_append, takeWhole?]
    · rw [hdigits c List.mem_cons_self, if_pos rfl, hspan.1, hspan.2]
    · rintro rfl
      exact hc rfl

/-- The fraction of a numeral is taken off the front. -/
lemma takeFraction_append {fraction : Option (List Char)}
    (h : ∀ digits, fraction = some digits → Numeral.IsRun digits) {rest : List Char}
    (hrest : EndsDigits rest) (hpoint : rest.head? ≠ some '.') :
    takeFraction (Numeral.fractionChars fraction ++ rest) = (fraction, rest) := by
  cases fraction with
  | none =>
    rw [Numeral.fractionChars, Option.elim_none, List.nil_append]
    unfold takeFraction
    split
    · exact absurd rfl hpoint
    · rfl
  | some digits =>
    obtain ⟨hne, hdigits⟩ := h digits rfl
    have hspan := Text.span_append hdigits hrest
    rw [Numeral.fractionChars, Option.elim_some, List.cons_append, takeFraction, hspan.1, hspan.2]
    simp [hne]

/-- The power of ten of a numeral is taken off the front. -/
lemma takePower_append {power : Option (Bool × List Char)}
    (h : ∀ p, power = some p → Numeral.IsRun p.2) {rest : List Char} (hrest : EndsNumber rest) :
    takePower (Numeral.powerChars power ++ rest) = (power, rest) := by
  cases power with
  | none =>
    rw [Numeral.powerChars, Option.elim_none, List.nil_append]
    cases rest with
    | nil => rfl
    | cons c rest =>
      obtain ⟨-, -, hlower, hupper⟩ := hrest c rfl
      rw [takePower, if_neg (by simp [hlower, hupper])]
  | some power =>
    obtain ⟨negative, digits⟩ := power
    obtain ⟨hne, hdigits⟩ := h (negative, digits) rfl
    have hspan := Text.span_append hdigits fun c hc => (hrest c hc).1
    have hsign : Numeral.splitSign ((if negative then '-' else '+') :: (digits ++ rest)) =
        (negative, digits ++ rest) := by
      cases negative <;> rfl
    simp only [Numeral.powerChars, Option.elim_some, List.cons_append, takePower, true_or, if_true,
      hsign, hspan.1, hspan.2, List.isEmpty_eq_false_iff.mpr hne, Bool.false_eq_true, if_false]

/-- What begins with a fraction or a power of ten, or ends a number, ends a run of digits. -/
lemma endsDigits_powerChars (power : Option (Bool × List Char)) {rest : List Char}
    (hrest : EndsNumber rest) : EndsDigits (Numeral.powerChars power ++ rest) := by
  cases power with
  | none => exact fun c hc => (hrest c hc).1
  | some power =>
    rintro c ⟨⟩
    rfl

/-- What begins with a fraction ends a run of digits, as does what follows without one. -/
lemma endsDigits_fractionChars (fraction : Option (List Char)) {rest : List Char}
    (hrest : EndsDigits rest) : EndsDigits (Numeral.fractionChars fraction ++ rest) := by
  cases fraction with
  | none => exact hrest
  | some digits =>
    rintro c ⟨⟩
    rfl

/-- A number is read after its sign, part by part. -/
lemma readNumber_of_parts {negative : Bool} {body whole afterWhole afterFraction rest : List Char}
    {fraction : Option (List Char)} {power : Option (Bool × List Char)} {n : Number}
    (hbody : body.head? ≠ some '-') (hwhole : takeWhole? body = some (whole, afterWhole))
    (hfraction : takeFraction afterWhole = (fraction, afterFraction))
    (hpower : takePower afterFraction = (power, rest))
    (hn : (Numeral.mk negative whole fraction power).number? = some n) :
    readNumber (Numeral.signChars negative ++ body) = .ok (.ofNumber n, rest) := by
  unfold readNumber
  split
  rename_i negative' body' hsign
  have hparts : negative' = negative ∧ body' = body := by
    cases negative with
    | true =>
      obtain ⟨rfl, rfl⟩ := Prod.mk.inj hsign
      exact ⟨rfl, rfl⟩
    | false =>
      rw [Numeral.signChars, if_neg Bool.false_ne_true, List.nil_append] at hsign
      split at hsign
      · exact absurd rfl hbody
      · obtain ⟨rfl, rfl⟩ := Prod.mk.inj hsign
        exact ⟨rfl, rfl⟩
  obtain ⟨rfl, rfl⟩ := hparts
  simp only [hwhole, hfraction, hpower, hn]

/-- A strict numeral is read as the number that it denotes. -/
theorem readNumber_chars {numeral : Numeral} (h : numeral.IsStrict) {n : Number}
    (hn : numeral.number? = some n) {rest : List Char} (hrest : EndsNumber rest) :
    readNumber (numeral.chars ++ rest) = .ok (.ofNumber n, rest) := by
  have hpower := takePower_append h.power hrest
  have hafterWhole := endsDigits_powerChars numeral.power hrest
  have hpoint : (Numeral.powerChars numeral.power ++ rest).head? ≠ some '.' := by
    cases numeral.power with
    | none => exact fun hc => (hrest '.' hc).2.1 rfl
    | some power => simp [Numeral.powerChars]
  have hfraction := takeFraction_append h.fraction hafterWhole hpoint
  have hwhole := takeWhole?_append h (endsDigits_fractionChars numeral.fraction hafterWhole)
  have hminus : (numeral.whole ++ (Numeral.fractionChars numeral.fraction ++
      (Numeral.powerChars numeral.power ++ rest))).head? ≠ some '-' := by
    obtain ⟨first, digits, heq⟩ := List.exists_cons_of_ne_nil h.whole.1
    have hfirst : isDigit first = true := h.whole.2 first (heq ▸ List.mem_cons_self)
    rw [heq, List.cons_append, List.head?_cons, ne_eq, Option.some.injEq]
    rintro rfl
    exact absurd hfirst (by decide)
  rw [Numeral.chars]
  simp only [List.append_assoc]
  exact readNumber_of_parts hminus hwhole hfraction hpower hn

end Json

/-! ## Integers and floating-point numbers -/

namespace Numeral

/-- The numeral by which an integer is written. -/
def ofInteger (i : Int) : Numeral :=
  ⟨decide (i < 0), Nat.toDigits 10 i.natAbs, none, none⟩

/-- The characters of an integer are those of its numeral. -/
lemma chars_ofInteger (i : Int) : (ofInteger i).chars = Number.integerChars i := by
  simp [chars, ofInteger, Number.integerChars, signChars, fractionChars, powerChars]

/-- The numeral of an integer is strict. -/
lemma isStrict_ofInteger (i : Int) : (ofInteger i).IsStrict :=
  ⟨isRun_toDigits _, fun _ => toDigits_zero_cons, by simp [ofInteger], by simp [ofInteger]⟩

/-- The numeral of an integer within the limit of digits denotes it. -/
lemma number?_ofInteger {i : Int} (h : i.natAbs < 10 ^ Number.digitLimit) :
    (ofInteger i).number? = some (.whole i) := by
  have hlength := Number.length_toDigits_le h
  simp only [number?, ofInteger, if_pos hlength, naturalOf_toDigits, Number.signed_natAbs]

/-- What remains of digits when zeros at the end are dropped are digits. -/
lemma isRun_trimZeros {n : Nat} (hn : n ≠ 0) :
    IsRun (Binary64.trimZeros (Nat.toDigits 10 n)) := by
  refine ⟨trimZeros_toDigits_ne_nil hn, fun c hc => ?_⟩
  obtain ⟨count, heq⟩ := exists_trimZeros_append (Nat.toDigits 10 n)
  refine isDigit_of_mem_toDigits (n := n) ?_
  rw [← heq]
  exact List.mem_append_left _ hc

/-- What remains of the digits of a number does not begin with a zero. -/
lemma head_trimZeros_ne {n : Nat} (hn : n ≠ 0) {rest : List Char} :
    Binary64.trimZeros (Nat.toDigits 10 n) ≠ '0' :: rest := by
  intro hzero
  obtain ⟨c, digits, hcons, hc⟩ := toDigits_eq_cons hn
  obtain ⟨count, heq⟩ := exists_trimZeros_append (Nat.toDigits 10 n)
  rw [hzero, hcons, List.cons_append] at heq
  exact hc (List.cons.inj heq).1.symm

/-- Parts of a run of digits are made of digits. -/
lemma IsRun.isDigit_of_sublist {digits part : List Char} (h : IsRun digits)
    (hpart : part.Sublist digits) : ∀ c ∈ part, isDigit c = true :=
  fun c hc => h.2 c (hpart.subset hc)

/-- A numeral by which digits are laid out is strict if they do not begin with a zero. -/
lemma isStrict_laidOut (negative : Bool) {digits : List Char} (h : IsRun digits)
    (hzero : ∀ rest, digits ≠ '0' :: rest) (point : Int) :
    (laidOut negative digits point).IsStrict := by
  obtain ⟨c, rest, heq⟩ := List.exists_cons_of_ne_nil h.1
  have hc : c ≠ '0' := by
    rintro rfl
    exact hzero rest heq
  rw [laidOut]
  split
  · split
    · refine ⟨⟨by simp, by simp [isDigit]⟩, by simp, ?_, by simp⟩
      rintro _ ⟨⟩
      exact h.zeros_append _
    · rename_i hpoint
      obtain ⟨n, hn⟩ : ∃ n, point.toNat = n + 1 := Nat.exists_eq_succ_of_ne_zero (by omega)
      have htake : digits.take point.toNat = c :: rest.take n := by rw [heq, hn, List.take_succ_cons]
      refine ⟨⟨by simp [htake], fun d hd => ?_⟩, ?_, ?_, by simp⟩
      · rcases List.mem_append.mp hd with htaken | hzeros
        · exact h.isDigit_of_sublist (List.take_sublist _ _) d htaken
        · rw [List.eq_of_mem_replicate hzeros]
          rfl
      · intro tail htail
        rw [htake, List.cons_append] at htail
        exact absurd (List.cons.inj htail).1 hc
      · rintro fraction ⟨⟩
        split
        · exact ⟨by simp, by simp [isDigit]⟩
        · rename_i hmore
          exact ⟨by simpa using hmore, h.isDigit_of_sublist (List.drop_sublist _ _)⟩
  · have htake : digits.take 1 = [c] := by rw [heq]; rfl
    refine ⟨⟨by simp [htake], h.isDigit_of_sublist (List.take_sublist _ _)⟩, ?_, ?_, ?_⟩
    · intro tail htail
      dsimp only at htail
      rw [htake] at htail
      exact absurd (List.cons.inj htail).1 hc
    · intro fraction hfraction
      dsimp only at hfraction
      split at hfraction
      · cases hfraction
      · rename_i hmore
        obtain rfl := Option.some.inj hfraction
        exact ⟨by simpa using hmore, h.isDigit_of_sublist (List.drop_sublist _ _)⟩
    · rintro power ⟨⟩
      exact (isRun_toDigits _).zeros_append _

/-- The numeral of a finite number is strict. -/
theorem isStrict_ofFinite (negative : Bool) {m : Nat} {e : Int}
    (hcanonical : Binary64.Canonical m e) : (ofFinite negative m e).IsStrict := by
  rw [ofFinite]
  split
  · refine ⟨⟨by simp, by simp [isDigit]⟩, by simp, ?_, by simp⟩
    rintro _ ⟨⟩
    exact ⟨by simp, by simp [isDigit]⟩
  · rename_i hm
    have hdigits := Binary64.shortest_ne_zero hm hcanonical
    exact isStrict_laidOut negative (isRun_trimZeros hdigits) (fun _ => head_trimZeros_ne hdigits) _

/-- Digits are laid out as the characters of the numeral. -/
lemma chars_laidOut (negative : Bool) (digits : List Char) (point : Int) :
    (laidOut negative digits point).chars = signChars negative ++ Binary64.layOut digits point := by
  have hcond : (decide (-3 ≤ point) && decide (point ≤ 16)) = true ↔ -3 ≤ point ∧ point ≤ 16 := by
    simp
  unfold laidOut Binary64.layOut
  rw [ite_congr (propext hcond) (fun _ => rfl) (fun _ => rfl)]
  split
  · split <;> simp [chars, fractionChars, powerChars]
  · by_cases hmore : (digits.drop 1).isEmpty = true
    · simp only [chars, hmore, if_true, fractionChars, powerChars, Option.elim_none,
        Option.elim_some, List.nil_append, List.append_nil, decide_eq_true_eq]
    · simp only [chars, hmore, if_false, fractionChars, powerChars, Option.elim_some,
        decide_eq_true_eq, List.append_assoc, List.cons_append, Bool.false_eq_true]

/-- A finite number is written by the characters of its numeral. -/
lemma chars_ofFinite (negative : Bool) (m : Nat) (e : Int) :
    (ofFinite negative m e).chars = signChars negative ++ Binary64.unsignedText m e := by
  rw [ofFinite, Binary64.unsignedText]
  split
  · rfl
  · exact chars_laidOut negative _ _

end Numeral

end RecordStore
