import RecordStore.Proofs.Outcome
import RecordStore.Proofs.Snapshot.Numeral
import RecordStore.Proofs.Snapshot.Quote
import RecordStore.Snapshot.Writer

/-!
# Reading what has been laid out

What the reader makes of the text that the writer lays out, piece by piece: values without parts,
strings, and one step in the items of an array or the entries of an object.  A step says what is
read from a piece and what follows, whatever the value in the piece comes to.
-/

namespace RecordStore

namespace Json

open Snapshot (lineBreak quote escapeChar)

variable {object : ObjectReader} {fuel : Nat}

/-! ## White space -/

/-- What opens a value is neither white space nor the end of an array. -/
def OpensValue (cs : List Char) : Prop :=
  ∃ c rest, cs = c :: rest ∧ isSpace c = false ∧ c ≠ ']'

/-- Nothing is skipped where a value opens. -/
lemma skipSpace_of_opens {cs : List Char} (h : OpensValue cs) : skipSpace cs = cs := by
  obtain ⟨c, rest, rfl, hc, -⟩ := h
  rw [skipSpace, List.dropWhile_cons, hc, if_neg Bool.false_ne_true]

/-- A value still opens with more text behind it. -/
lemma OpensValue.append {cs : List Char} (h : OpensValue cs) (rest : List Char) :
    OpensValue (cs ++ rest) := by
  obtain ⟨c, more, rfl, hc, hclose⟩ := h
  exact ⟨c, more ++ rest, rfl, hc, hclose⟩

/-- A line break and its indentation are skipped. -/
lemma skipSpace_lineBreak (level : Nat) (cs : List Char) :
    skipSpace (lineBreak level ++ cs) = skipSpace cs := by
  have hspaces : ∀ c ∈ lineBreak level, isSpace c = true := by
    intro c hc
    rcases List.mem_cons.mp hc with rfl | hspace
    · rfl
    · rw [List.eq_of_mem_replicate hspace]
      rfl
  exact List.dropWhile_append_of_pos hspaces

/-- A line break ends a number. -/
lemma endsNumber_lineBreak (level : Nat) (cs : List Char) :
    EndsNumber (lineBreak level ++ cs) := by
  rintro c ⟨⟩
  decide

/-- A comma ends a number. -/
lemma endsNumber_comma (cs : List Char) : EndsNumber (',' :: cs) := by
  rintro c ⟨⟩
  decide

/-! ## Values without parts -/

/-- What does not open a string, an array or an object is read as a value without parts. -/
lemma readValue_eq_readAtom {c : Char} {cs : List Char} (hquote : c ≠ '"') (harray : c ≠ '[')
    (hobject : c ≠ '\x7b') : readValue object (fuel + 1) (c :: cs) = readAtom (c :: cs) := by
  rw [readValue]
  · exact fun rest h => hquote (List.cons.inj h).1
  · exact fun rest h => harray (List.cons.inj h).1
  · exact fun rest h => hobject (List.cons.inj h).1

/-- No word begins like a number. -/
lemma findWord_eq_none {numeral : Numeral} (h : numeral.IsStrict) (rest : List Char) :
    (words.findSome? fun (word, v) =>
      (drop? word (numeral.chars ++ rest)).map fun rest => (v, rest)) = none := by
  obtain ⟨first, digits, heq⟩ := List.exists_cons_of_ne_nil h.whole.1
  have hfirst : isDigit first = true := h.whole.2 first (heq ▸ List.mem_cons_self)
  have hne : ∀ c : Char, isDigit c = false → c ≠ first := by
    rintro c hc rfl
    rw [hfirst] at hc
    cases hc
  have hn := hne 'n' rfl
  have ht := hne 't' rfl
  have hf := hne 'f' rfl
  have hN := hne 'N' rfl
  have hI := hne 'I' rfl
  have hminus := hne '-' rfl
  rw [Numeral.chars, heq]
  cases numeral.negative with
  | true => simp [words, Numeral.signChars, drop?, hI]
  | false => simp [words, Numeral.signChars, drop?, hn, ht, hf, hN, hI, hminus]

/-- A strict numeral opens like a sign or a digit. -/
lemma exists_chars_eq_cons {numeral : Numeral} (h : numeral.IsStrict) :
    ∃ c rest, numeral.chars = c :: rest ∧ (c = '-' ∨ isDigit c = true) := by
  obtain ⟨first, digits, heq⟩ := List.exists_cons_of_ne_nil h.whole.1
  have hfirst : isDigit first = true := h.whole.2 first (heq ▸ List.mem_cons_self)
  rw [Numeral.chars, heq]
  cases numeral.negative with
  | true => exact ⟨'-', _, rfl, Or.inl rfl⟩
  | false => exact ⟨first, _, rfl, Or.inr hfirst⟩

/-- A strict numeral opens a value. -/
lemma opensValue_chars {numeral : Numeral} (h : numeral.IsStrict) : OpensValue numeral.chars := by
  obtain ⟨c, rest, heq, hc⟩ := exists_chars_eq_cons h
  refine ⟨c, rest, heq, ?_⟩
  rcases hc with rfl | hdigit
  · decide
  · constructor
    · rw [Bool.eq_false_iff]
      intro hspace
      simp only [isSpace, Bool.or_eq_true, beq_iff_eq] at hspace
      rcases hspace with ((rfl | rfl) | rfl) | rfl <;> exact absurd hdigit (by decide)
    · rintro rfl
      exact absurd hdigit (by decide)

/-- A strict numeral is read as the value of the number that it denotes. -/
theorem readValue_chars {numeral : Numeral} (h : numeral.IsStrict) {n : Number}
    (hn : numeral.number? = some n) {rest : List Char} (hrest : EndsNumber rest) :
    readValue object (fuel + 1) (numeral.chars ++ rest) = .ok (.ofNumber n, rest) := by
  have hword := findWord_eq_none h rest
  have hread := readNumber_chars h hn hrest
  obtain ⟨c, more, heq, hc⟩ := exists_chars_eq_cons h
  have hne : ∀ d : Char, d ≠ '-' → isDigit d = false → c ≠ d := by
    rintro d hd hdigit rfl
    rcases hc with hminus | hc
    · exact hd hminus
    · rw [hc] at hdigit
      cases hdigit
  rw [heq, List.cons_append] at hword hread ⊢
  rw [readValue_eq_readAtom (hne '"' (by decide) rfl) (hne '[' (by decide) rfl)
    (hne '\x7b' (by decide) rfl), readAtom, hword]
  exact hread

/-! ## Strings -/

/-- A quoted string is its escaped characters between two quotes. -/
lemma quote_append (s : String) (rest : List Char) :
    quote s ++ rest = '"' :: (s.toList.flatMap escapeChar ++ '"' :: rest) := by
  simp [quote]

/-- A quoted string is read as its text. -/
theorem readValue_quote {s : String} (hfuel : (quote s).length ≤ fuel) (rest : List Char) :
    readValue object fuel (quote s ++ rest) = .ok (.text s, rest) := by
  have hlength := length_le_flatMap s.toList
  simp only [quote, List.length_cons, List.length_append, List.length_nil] at hfuel
  obtain ⟨fuel, rfl⟩ : ∃ k, fuel = k + 1 := ⟨fuel - 1, by omega⟩
  have hchars : s.toList.length ≤ fuel := by omega
  have hread := readString_flatMap hchars rest
  rw [quote_append, readValue, hread]
  simp [Except.map]

/-- A quoted string opens a value. -/
lemma opensValue_quote (s : String) : OpensValue (quote s) :=
  ⟨'"', _, rfl, by decide, by decide⟩

/-! ## Arrays -/

/-- An array is read by its items. -/
lemma readValue_array {level : Nat} {cs : List Char} (hcs : OpensValue cs) :
    readValue object (fuel + 1) ('[' :: (lineBreak level ++ cs)) =
      (readItems object fuel cs).map fun (items, rest) => (.list items, rest) := by
  have hskip : skipSpace (lineBreak level ++ cs) = cs := by
    rw [skipSpace_lineBreak, skipSpace_of_opens hcs]
  obtain ⟨c, rest, rfl, -, hclose⟩ := hcs
  rw [readValue, hskip]
  split
  · rename_i heq
    exact absurd (List.cons.inj heq).1 hclose
  · rfl

/-- The last item is followed by the end of the array. -/
lemma readItems_last {level : Nat} {cs rest : List Char} {x : Except ReadError Value}
    (hread : readValue object fuel cs = x.map fun v => (v, lineBreak level ++ ']' :: rest)) :
    readItems object (fuel + 1) cs = x.map fun v => ([v], rest) := by
  have hskip : skipSpace (lineBreak level ++ ']' :: rest) = ']' :: rest :=
    skipSpace_lineBreak level _
  rw [readItems, hread]
  cases x with
  | error e => rfl
  | ok v => simp only [Except.map, bind, Except.bind, hskip, pure, Except.pure]

/-- An item is followed by a comma and more items. -/
lemma readItems_more {level : Nat} {cs more : List Char} {x : Except ReadError Value}
    (hmore : OpensValue more)
    (hread : readValue object fuel cs = x.map fun v => (v, ',' :: (lineBreak level ++ more))) :
    readItems object (fuel + 1) cs =
      x.bind fun v => (readItems object fuel more).map fun (items, rest) => (v :: items, rest) := by
  have hcomma : skipSpace (',' :: (lineBreak level ++ more)) = ',' :: (lineBreak level ++ more) :=
    rfl
  have hskip : skipSpace (lineBreak level ++ more) = more := by
    rw [skipSpace_lineBreak, skipSpace_of_opens hmore]
  rw [readItems, hread]
  cases x with
  | error e => rfl
  | ok v =>
    simp only [Except.map, bind, Except.bind, hcomma, hskip]
    cases readItems object fuel more <;> rfl

/-! ## Objects -/

/-- An object is read by its entries. -/
lemma readValue_object {level : Nat} {cs : List Char} :
    readValue object (fuel + 1) ('\x7b' :: (lineBreak level ++ '"' :: cs)) =
      (readEntries object fuel ('"' :: cs)).bind fun (entries, rest) =>
        (object (Entries.ofPairs entries)).map fun v => (v, rest) := by
  have hskip : skipSpace (lineBreak level ++ '"' :: cs) = '"' :: cs :=
    skipSpace_lineBreak level _
  rw [readValue, hskip]
  split
  · rename_i heq
    cases heq
  · simp only [bind, Except.bind]
    cases readEntries object fuel ('"' :: cs) with
    | error e => rfl
    | ok result =>
      dsimp only
      cases object (Entries.ofPairs result.1) <;> rfl

/-- The key of an entry is read up to its closing quote. -/
lemma readString_key {key : String} (hfuel : (quote key).length ≤ fuel + 1) (rest : List Char) :
    readString fuel (key.toList.flatMap escapeChar ++ '"' :: rest) = .ok (key.toList, rest) := by
  have hlength := length_le_flatMap key.toList
  simp only [quote, List.length_cons, List.length_append, List.length_nil] at hfuel
  exact readString_flatMap (by omega) rest

/-- The last entry is followed by the end of the object. -/
lemma readEntries_last {key : String} (hfuel : (quote key).length ≤ fuel + 1) {level : Nat}
    {cs rest : List Char} (hcs : OpensValue cs) {x : Except ReadError Value}
    (hread : readValue object fuel cs = x.map fun v => (v, lineBreak level ++ '\x7d' :: rest)) :
    readEntries object (fuel + 1) (quote key ++ ':' :: ' ' :: cs) =
      x.map fun v => ([(.text key, v)], rest) := by
  have hskip : skipSpace (lineBreak level ++ '\x7d' :: rest) = '\x7d' :: rest :=
    skipSpace_lineBreak level _
  have hcolon : skipSpace (':' :: ' ' :: cs) = ':' :: ' ' :: cs := rfl
  have hvalue : skipSpace (' ' :: cs) = cs := skipSpace_of_opens hcs
  rw [quote_append, readEntries, readString_key hfuel]
  simp only [bind, Except.bind, hcolon, hvalue, hread, String.ofList_toList]
  cases x with
  | error e => rfl
  | ok v => simp only [Except.map, hskip, pure, Except.pure]

/-- An entry is followed by a comma and more entries. -/
lemma readEntries_more {key : String} (hfuel : (quote key).length ≤ fuel + 1) {level : Nat}
    {cs more : List Char} (hcs : OpensValue cs) {x : Except ReadError Value}
    (hmore : OpensValue more)
    (hread : readValue object fuel cs = x.map fun v => (v, ',' :: (lineBreak level ++ more))) :
    readEntries object (fuel + 1) (quote key ++ ':' :: ' ' :: cs) =
      x.bind fun v => (readEntries object fuel more).map fun (entries, rest) =>
        ((.text key, v) :: entries, rest) := by
  have hcomma : skipSpace (',' :: (lineBreak level ++ more)) = ',' :: (lineBreak level ++ more) :=
    rfl
  have hskip : skipSpace (lineBreak level ++ more) = more := by
    rw [skipSpace_lineBreak, skipSpace_of_opens hmore]
  have hcolon : skipSpace (':' :: ' ' :: cs) = ':' :: ' ' :: cs := rfl
  have hvalue : skipSpace (' ' :: cs) = cs := skipSpace_of_opens hcs
  rw [quote_append, readEntries, readString_key hfuel]
  simp only [bind, Except.bind, hcolon, hvalue, hread, String.ofList_toList]
  cases x with
  | error e => rfl
  | ok v =>
    simp only [Except.map, hcomma, hskip]
    cases readEntries object fuel more <;> rfl

end Json

end RecordStore
