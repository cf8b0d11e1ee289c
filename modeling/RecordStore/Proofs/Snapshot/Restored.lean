import RecordStore.Proofs.Calendar.Pattern
import RecordStore.Proofs.Snapshot.Reading
import RecordStore.Proofs.Value.Induction
import RecordStore.Snapshot.Reader

/-!
# What a snapshot gives back

Every value that can be written is read back as a value that is told here without any text: numbers
and texts come back as they are, tuples as lists, keys as texts, timestamps to the second, and what
is not a number without its payload.  A year of less than four digits cannot be read, and a mapping
with a mark among its keys is taken for a date or a timestamp.

The proof goes along the writer.  A complete draft in front of any text that does not continue a
number is taken off by the reader as far as it goes, and an item or an entry is read before those
that follow.
-/

namespace RecordStore.Snapshot

open Json (ReadError OpensValue EndsNumber readValue readItems readEntries)

/-! ## The value that is read -/

/-- A number as it is read back: the payload of what is not a number is lost. -/
def restoredNumber (x : Binary64) : Binary64 :=
  match x with
  | .notNumber _ => .notNumber 0
  | x => x

mutual

/-- What a value becomes when it is written and read back. -/
def restored : Value → Except ReadError Value
  | .null => .ok .null
  | .bool b => .ok (.bool b)
  | .int i => .ok (.int i)
  | .float x => .ok (.float (restoredNumber x))
  | .text s => .ok (.text s)
  | .date d => if 1000 ≤ d.year then .ok (.date d) else .error .malformed
  | .timestamp t =>
    if 1000 ≤ t.date.year then .ok (.timestamp t.truncated) else .error .malformed
  | .list items => (restoredAll items).map .list
  | .tuple items => (restoredAll items).map .list
  | .map entries =>
    (restoredEntries entries).bind fun entries => markedObject (Entries.ofPairs entries)
termination_by structural v => v

/-- What the items of an array become. -/
def restoredAll : List Value → Except ReadError (List Value)
  | [] => .ok []
  | v :: rest => (restored v).bind fun v => (restoredAll rest).map (v :: ·)
termination_by structural items => items

/-- What the entries of an object become. -/
def restoredEntries : List (Value × Value) → Except ReadError (List (Value × Value))
  | [] => .ok []
  | entry :: rest =>
    (restoredEntry entry).bind fun entry => (restoredEntries rest).map (entry :: ·)
termination_by structural entries => entries

/-- What an entry of an object becomes: its key becomes text. -/
def restoredEntry : Value × Value → Except ReadError (Value × Value)
  | (key, v) => (restored v).map fun v => (.text ((keyText? key).getD ""), v)
termination_by structural entry => entry

end

/-- The first item is restored before the others. -/
lemma restoredAll_cons (v : Value) (items : List Value) :
    restoredAll (v :: items) = (restored v).bind fun v => (restoredAll items).map (v :: ·) := rfl

/-- The first entry is restored before the others, under the text of its key. -/
lemma restoredEntries_cons {key : Value} {text : String} (h : keyText? key = some text) (v : Value)
    (entries : List (Value × Value)) :
    restoredEntries ((key, v) :: entries) =
      (restored v).bind fun v => (restoredEntries entries).map ((.text text, v) :: ·) := by
  rw [restoredEntries, restoredEntry, h]
  cases restored v <;> rfl

/-! ## Drafts -/

namespace Draft

/-- Drafts in a row are complete if both are. -/
lemma complete_andThen (first second : Draft) :
    (first.andThen second).complete = (first.complete && second.complete) := by
  unfold andThen
  cases h : first.complete with
  | true => rw [if_pos rfl, Bool.true_and]
  | false => rw [if_neg Bool.false_ne_true, h, Bool.false_and]

/-- Drafts in a row hold the characters of both. -/
lemma chars_andThen {first : Draft} (h : first.complete = true) (second : Draft) :
    (first.andThen second).chars = first.chars ++ second.chars := by
  rw [andThen, if_pos h]

end Draft

/-- An item with its separator is complete if it is itself. -/
lemma complete_itemAfter (separator : List Char) (v : Value) (draft : Draft) :
    (itemAfter separator v draft).complete = draft.complete := by
  rw [itemAfter]
  split
  · rename_i h
    rw [Bool.and_eq_true, Bool.not_eq_true'] at h
    rw [h.2]
    rfl
  · rfl

/-- A complete item stands after its separator. -/
lemma chars_itemAfter {draft : Draft} (h : draft.complete = true) (separator : List Char)
    (v : Value) : (itemAfter separator v draft).chars = separator ++ draft.chars := by
  rw [itemAfter, h, Bool.not_true, Bool.and_false, if_neg Bool.false_ne_true]
  rfl

/-- An array is complete if its items are. -/
lemma complete_writeArray_cons {level : Nat} {v : Value} {items : List Value}
    (h : (writeArray level (v :: items)).complete = true) :
    (write (level + 1) v).complete = true ∧ (writeItems level items).complete = true := by
  rwa [writeArray, Draft.complete_andThen, complete_itemAfter, Bool.and_eq_true] at h

/-- The text of an array opens with its first item. -/
lemma chars_writeArray_cons {level : Nat} {v : Value} {items : List Value}
    (h : (writeArray level (v :: items)).complete = true) :
    (writeArray level (v :: items)).chars =
      '[' :: (lineBreak (level + 1) ++ ((write (level + 1) v).chars ++
        (writeItems level items).chars)) := by
  obtain ⟨hv, -⟩ := complete_writeArray_cons h
  rw [writeArray, Draft.chars_andThen (by rwa [complete_itemAfter]), chars_itemAfter hv]
  simp

/-- More items are complete if each of them is. -/
lemma complete_writeItems_cons {level : Nat} {v : Value} {items : List Value}
    (h : (writeItems level (v :: items)).complete = true) :
    (write (level + 1) v).complete = true ∧ (writeItems level items).complete = true := by
  rwa [writeItems, Draft.complete_andThen, complete_itemAfter, Bool.and_eq_true] at h

/-- The text of more items opens with a comma. -/
lemma chars_writeItems_cons {level : Nat} {v : Value} {items : List Value}
    (h : (writeItems level (v :: items)).complete = true) :
    (writeItems level (v :: items)).chars =
      ',' :: (lineBreak (level + 1) ++ ((write (level + 1) v).chars ++
        (writeItems level items).chars)) := by
  obtain ⟨hv, -⟩ := complete_writeItems_cons h
  rw [writeItems, Draft.chars_andThen (by rwa [complete_itemAfter]), chars_itemAfter hv]
  simp

/-- An entry is complete if its key has a text and its value is complete. -/
lemma exists_keyText_of_complete {level : Nat} {separator : List Char} {key v : Value}
    (h : (writeEntry level separator (key, v)).complete = true) :
    ∃ text, keyText? key = some text ∧ (write (level + 1) v).complete = true ∧
      (writeEntry level separator (key, v)).chars =
        separator ++ (quote text ++ ':' :: ' ' :: (write (level + 1) v).chars) := by
  rw [writeEntry] at h ⊢
  cases hkey : keyText? key with
  | none =>
    rw [hkey] at h
    cases h
  | some text =>
    rw [hkey] at h
    exact ⟨text, rfl, h, by simp [Draft.after]⟩

/-- An object is complete if its entries are. -/
lemma complete_writeObject_cons {level : Nat} {entry : Value × Value}
    {entries : List (Value × Value)}
    (h : (writeObject level (entry :: entries)).complete = true) :
    (writeEntry level [] entry).complete = true ∧ (writeEntries level entries).complete = true := by
  change ((writeEntry level [] entry).andThen (writeEntries level entries)).complete = true at h
  rwa [Draft.complete_andThen, Bool.and_eq_true] at h

/-- More entries are complete if each of them is. -/
lemma complete_writeEntries_cons {level : Nat} {entry : Value × Value}
    {entries : List (Value × Value)}
    (h : (writeEntries level (entry :: entries)).complete = true) :
    (writeEntry level (',' :: lineBreak (level + 1)) entry).complete = true ∧
      (writeEntries level entries).complete = true := by
  rwa [writeEntries, Draft.complete_andThen, Bool.and_eq_true] at h

/-! ## Reading a draft -/

/-- What is not a number is written by one word. -/
lemma floatText_notNumber (payload : Nat) : floatText (.notNumber payload) = ['N', 'a', 'N'] := by
  change "NaN".toList = ['N', 'a', 'N']
  rfl

/-- A complete draft opens a value. -/
lemma opensValue_write {level : Nat} {v : Value} (h : (write level v).complete = true) :
    OpensValue (write level v).chars := by
  cases v with
  | null => exact ⟨'n', _, rfl, by decide, by decide⟩
  | bool b => cases b <;> exact ⟨_, _, rfl, by decide, by decide⟩
  | int i =>
    rw [write, integerText?] at h ⊢
    cases htext : Number.integerText? i with
    | none =>
      rw [htext] at h
      cases h
    | some s =>
      obtain ⟨-, rfl⟩ := Number.integerText?_eq_some.mp htext
      simp only [Option.map_some, Draft.ofOption, Option.elim_some, Draft.whole,
        String.toList_ofList, ← Numeral.chars_ofInteger]
      exact Json.opensValue_chars (Numeral.isStrict_ofInteger i)
  | float x =>
    cases x with
    | finite negative m e hcanonical =>
      have hopens := Json.opensValue_chars (Numeral.isStrict_ofFinite negative hcanonical)
      rw [Numeral.chars_ofFinite] at hopens
      simpa [write, Draft.whole, floatText, Binary64.textWith, Numeral.signChars] using hopens
    | infinite negative => cases negative <;> exact ⟨_, _, rfl, by decide, by decide⟩
    | notNumber payload =>
      rw [write, Draft.whole, floatText_notNumber]
      exact ⟨'N', _, rfl, by decide, by decide⟩
  | text s => exact Json.opensValue_quote s
  | date d => exact ⟨'\x7b', _, rfl, by decide, by decide⟩
  | timestamp t => exact ⟨'\x7b', _, rfl, by decide, by decide⟩
  | list items =>
    cases items with
    | nil => exact ⟨'[', _, rfl, by decide, by decide⟩
    | cons v items =>
      rw [write] at h ⊢
      rw [chars_writeArray_cons h]
      exact ⟨'[', _, rfl, by decide, by decide⟩
  | tuple items =>
    cases items with
    | nil => exact ⟨'[', _, rfl, by decide, by decide⟩
    | cons v items =>
      rw [write] at h ⊢
      rw [chars_writeArray_cons h]
      exact ⟨'[', _, rfl, by decide, by decide⟩
  | map entries => cases entries <;> exact ⟨'\x7b', _, rfl, by decide, by decide⟩

/-- An object of one marked text is read by the text. -/
lemma readValue_marked {level fuel : Nat} {mark : String} {text : List Char}
    (hfuel : (marked level mark text).length ≤ fuel) (rest : List Char) :
    readValue markedObject fuel (marked level mark text ++ rest) =
      (markedObject [(.text mark, .text (String.ofList text))]).map fun v => (v, rest) := by
  have hshape : marked level mark text ++ rest = '\x7b' :: (lineBreak (level + 1) ++
      (quote mark ++ ':' :: ' ' ::
        (quote (String.ofList text) ++ (lineBreak level ++ '\x7d' :: rest)))) := by
    simp [marked]
  have hlengths : (quote mark).length + (quote (String.ofList text)).length + 2 ≤ fuel := by
    refine le_trans ?_ hfuel
    simp only [marked, List.length_append, List.length_cons, List.length_nil]
    omega
  obtain ⟨fuel, rfl⟩ : ∃ k, fuel = k + 1 + 1 := ⟨fuel - 2, by omega⟩
  have hvalue : readValue markedObject fuel
        (quote (String.ofList text) ++ (lineBreak level ++ '\x7d' :: rest)) =
      (Except.ok (.text (String.ofList text))).map fun v => (v, lineBreak level ++ '\x7d' :: rest) :=
    Json.readValue_quote (by omega) _
  have hkey : (quote mark).length ≤ fuel + 1 := by omega
  have hlast := Json.readEntries_last hkey ((Json.opensValue_quote _).append _) hvalue
  rw [Json.quote_append mark] at hlast
  rw [hshape, Json.quote_append mark, Json.readValue_object, hlast]
  rfl

/-- A marked text stands for a date if it is one. -/
lemma markedObject_date (s : String) :
    markedObject [(.text dateMark, .text s)] =
      readMarked (fun cs => (Pattern.readDate? cs).map .date) (.text s) := rfl

/-- A marked text stands for a timestamp if it is one. -/
lemma markedObject_timestamp (s : String) :
    markedObject [(.text timestampMark, .text s)] =
      readMarked (fun cs => (Pattern.readMoment? .blanks cs).map .timestamp) (.text s) := rfl

/-- A complete draft of a value is taken off the front of a text and read as what the value
becomes. -/
def ReadsBack (v : Value) : Prop :=
  ∀ level fuel rest, (write level v).complete = true → (write level v).chars.length ≤ fuel →
    EndsNumber rest →
      readValue markedObject fuel ((write level v).chars ++ rest) =
        (restored v).map fun v => (v, rest)

/-- The reader of a complete draft has fuel left for a step. -/
lemma exists_fuel_eq_succ {level fuel : Nat} {v : Value} (h : (write level v).complete = true)
    (hfuel : (write level v).chars.length ≤ fuel) : ∃ k, fuel = k + 1 := by
  obtain ⟨c, cs, heq, -⟩ := opensValue_write h
  rw [heq, List.length_cons] at hfuel
  exact ⟨fuel - 1, by omega⟩

/-- A value without parts reads back. -/
lemma readsBack_of_scalar {v : Value} (hv : v.identity?.isSome = true) : ReadsBack v := by
  intro level fuel rest h hfuel hrest
  obtain ⟨fuel, rfl⟩ := exists_fuel_eq_succ h hfuel
  cases v with
  | null => rfl
  | bool b => cases b <;> rfl
  | int i =>
    rw [write, integerText?] at h ⊢
    cases htext : Number.integerText? i with
    | none =>
      rw [htext] at h
      cases h
    | some s =>
      obtain ⟨hless, rfl⟩ := Number.integerText?_eq_some.mp htext
      simp only [Option.map_some, Draft.ofOption, Option.elim_some, Draft.whole,
        String.toList_ofList, ← Numeral.chars_ofInteger]
      rw [Json.readValue_chars (Numeral.isStrict_ofInteger i) (Numeral.number?_ofInteger hless)
        hrest]
      rfl
  | float x =>
    cases x with
    | finite negative m e hcanonical =>
      have hchars : (write level (.float (.finite negative m e hcanonical))).chars =
          (Numeral.ofFinite negative m e).chars := by
        rw [Numeral.chars_ofFinite]
        simp [write, Draft.whole, floatText, Binary64.textWith, Numeral.signChars]
      rw [hchars, Json.readValue_chars (Numeral.isStrict_ofFinite negative hcanonical)
        (Numeral.number?_ofFinite negative hcanonical) hrest]
      rfl
    | infinite negative => cases negative <;> rfl
    | notNumber payload =>
      rw [write, Draft.whole, floatText_notNumber]
      rfl
  | text s => exact Json.readValue_quote hfuel rest
  | date d =>
    refine (readValue_marked hfuel rest).trans ?_
    rw [markedObject_date, readMarked, String.toList_ofList, Pattern.readDate?_dateText, restored]
    by_cases hyear : 1000 ≤ d.year
    · rw [if_pos hyear, if_pos hyear]
      rfl
    · rw [if_neg hyear, if_neg hyear]
      rfl
  | timestamp t =>
    refine (readValue_marked hfuel rest).trans ?_
    rw [markedObject_timestamp, readMarked, String.toList_ofList,
      Pattern.readMoment?_timestampText, restored]
    by_cases hyear : 1000 ≤ t.date.year
    · rw [if_pos hyear, if_pos hyear]
      rfl
    · rw [if_neg hyear, if_neg hyear]
      rfl
  | list items => cases hv
  | tuple items => cases hv
  | map entries => cases hv

/-- The items of a complete draft are read one after the other. -/
lemma readItems_write {items : List Value} {v : Value} (hv : ReadsBack v)
    (hall : ∀ w ∈ items, ReadsBack w) {level fuel : Nat} (h : (write (level + 1) v).complete = true)
    (hitems : (writeItems level items).complete = true)
    (hfuel : (write (level + 1) v).chars.length + (writeItems level items).chars.length ≤ fuel)
    (rest : List Char) :
    readItems markedObject fuel
        ((write (level + 1) v).chars ++ ((writeItems level items).chars ++ rest)) =
      (restoredAll (v :: items)).map fun items => (items, rest) := by
  induction items generalizing v fuel with
  | nil =>
    have htail : (writeItems level []).chars ++ rest = lineBreak level ++ ']' :: rest := by
      simp [writeItems, Draft.whole]
    have hlength : 1 ≤ (writeItems level []).chars.length := by simp [writeItems, Draft.whole]
    obtain ⟨fuel, rfl⟩ : ∃ k, fuel = k + 1 := ⟨fuel - 1, by omega⟩
    have hread := hv (level + 1) fuel (lineBreak level ++ ']' :: rest) h (by omega)
      (Json.endsNumber_lineBreak level _)
    rw [htail, Json.readItems_last hread, restoredAll_cons]
    cases restored v <;> rfl
  | cons w items ih =>
    obtain ⟨hw, hmore⟩ := complete_writeItems_cons hitems
    have htail := chars_writeItems_cons hitems
    rw [htail] at hfuel ⊢
    simp only [List.length_cons, List.length_append, List.cons_append, List.append_assoc] at hfuel ⊢
    obtain ⟨fuel, rfl⟩ : ∃ k, fuel = k + 1 := ⟨fuel - 1, by omega⟩
    have hread := hv (level + 1) fuel (',' :: (lineBreak (level + 1) ++
      ((write (level + 1) w).chars ++ ((writeItems level items).chars ++ rest)))) h (by omega)
      (Json.endsNumber_comma _)
    have hlengths : (write (level + 1) w).chars.length + (writeItems level items).chars.length ≤
        fuel := by omega
    have hrest := ih (hall w List.mem_cons_self) (fun u hu => hall u (List.mem_cons_of_mem w hu)) hw
      hmore hlengths
    rw [Json.readItems_more ((opensValue_write hw).append _) hread, hrest, restoredAll_cons v]
    cases restored v with
    | error e => rfl
    | ok v => cases restoredAll (w :: items) <;> rfl

/-- The entries of a complete draft are read one after the other. -/
lemma readEntries_write {entries : List (Value × Value)} {key v : Value} {text : String}
    (hkey : keyText? key = some text) (hv : ReadsBack v)
    (hall : ∀ entry ∈ entries, ReadsBack entry.2) {level fuel : Nat}
    (h : (write (level + 1) v).complete = true)
    (hentries : (writeEntries level entries).complete = true)
    (hfuel : (quote text).length + (write (level + 1) v).chars.length +
      (writeEntries level entries).chars.length ≤ fuel) (rest : List Char) :
    readEntries markedObject fuel (quote text ++ ':' :: ' ' ::
        ((write (level + 1) v).chars ++ ((writeEntries level entries).chars ++ rest))) =
      (restoredEntries ((key, v) :: entries)).map fun entries => (entries, rest) := by
  induction entries generalizing key v text fuel with
  | nil =>
    have htail : (writeEntries level []).chars ++ rest = lineBreak level ++ '\x7d' :: rest := by
      simp [writeEntries, Draft.whole]
    have hlength : 1 ≤ (writeEntries level []).chars.length := by simp [writeEntries, Draft.whole]
    obtain ⟨fuel, rfl⟩ : ∃ k, fuel = k + 1 := ⟨fuel - 1, by omega⟩
    have hread := hv (level + 1) fuel (lineBreak level ++ '\x7d' :: rest) h (by omega)
      (Json.endsNumber_lineBreak level _)
    rw [htail, Json.readEntries_last (by omega) ((opensValue_write h).append _) hread,
      restoredEntries_cons hkey]
    cases restored v <;> rfl
  | cons entry entries ih =>
    obtain ⟨key', w⟩ := entry
    obtain ⟨hentry, hmore⟩ := complete_writeEntries_cons hentries
    obtain ⟨text', hkey', hw, hchars⟩ := exists_keyText_of_complete hentry
    have htail : (writeEntries level ((key', w) :: entries)).chars =
        ',' :: (lineBreak (level + 1) ++ (quote text' ++ ':' :: ' ' ::
          ((write (level + 1) w).chars ++ (writeEntries level entries).chars))) := by
      rw [writeEntries, Draft.chars_andThen hentry, hchars]
      simp
    rw [htail] at hfuel ⊢
    simp only [List.length_cons, List.length_append, List.cons_append, List.append_assoc] at hfuel ⊢
    obtain ⟨fuel, rfl⟩ : ∃ k, fuel = k + 1 := ⟨fuel - 1, by omega⟩
    have hread := hv (level + 1) fuel (',' :: (lineBreak (level + 1) ++ (quote text' ++ ':' :: ' ' ::
      ((write (level + 1) w).chars ++ ((writeEntries level entries).chars ++ rest))))) h (by omega)
      (Json.endsNumber_comma _)
    have hwreads : ReadsBack w := hall (key', w) List.mem_cons_self
    have hlengths : (quote text').length + (write (level + 1) w).chars.length +
        (writeEntries level entries).chars.length ≤ fuel := by omega
    have hrest := ih hkey' hwreads (fun e he => hall e (List.mem_cons_of_mem (key', w) he)) hw
      hmore hlengths
    rw [Json.readEntries_more (by omega) ((opensValue_write h).append _)
      ((Json.opensValue_quote _).append _) hread, hrest, restoredEntries_cons hkey]
    cases restored v with
    | error e => rfl
    | ok v => cases restoredEntries ((key', w) :: entries) <;> rfl

/-- A complete array is read as the list of what its items become. -/
lemma readValue_writeArray {items : List Value} (hall : ∀ v ∈ items, ReadsBack v)
    {level fuel : Nat} (h : (writeArray level items).complete = true)
    (hfuel : (writeArray level items).chars.length ≤ fuel) (rest : List Char) :
    readValue markedObject fuel ((writeArray level items).chars ++ rest) =
      ((restoredAll items).map .list).map fun v => (v, rest) := by
  cases items with
  | nil =>
    obtain ⟨fuel, rfl⟩ : ∃ k, fuel = k + 1 := ⟨fuel - 1, by
      change 2 ≤ fuel at hfuel
      omega⟩
    rfl
  | cons v items =>
    obtain ⟨hv, hitems⟩ := complete_writeArray_cons h
    rw [chars_writeArray_cons h] at hfuel ⊢
    simp only [List.length_cons, List.length_append, List.cons_append, List.append_assoc] at hfuel ⊢
    obtain ⟨fuel, rfl⟩ : ∃ k, fuel = k + 1 := ⟨fuel - 1, by omega⟩
    have hlengths : (write (level + 1) v).chars.length + (writeItems level items).chars.length ≤
        fuel := by omega
    have hread := readItems_write (hall v List.mem_cons_self)
      (fun w hw => hall w (List.mem_cons_of_mem v hw)) hv hitems hlengths rest
    rw [Json.readValue_array ((opensValue_write hv).append _), hread]
    cases restoredAll (v :: items) <;> rfl

/-- A complete object is read as what is made of its entries. -/
lemma readValue_writeObject {entries : List (Value × Value)}
    (hall : ∀ entry ∈ entries, ReadsBack entry.2) {level fuel : Nat}
    (h : (writeObject level entries).complete = true)
    (hfuel : (writeObject level entries).chars.length ≤ fuel) (rest : List Char) :
    readValue markedObject fuel ((writeObject level entries).chars ++ rest) =
      ((restoredEntries entries).bind fun entries =>
        markedObject (Entries.ofPairs entries)).map fun v => (v, rest) := by
  cases entries with
  | nil =>
    obtain ⟨fuel, rfl⟩ : ∃ k, fuel = k + 1 := ⟨fuel - 1, by
      change 2 ≤ fuel at hfuel
      omega⟩
    rfl
  | cons entry entries =>
    obtain ⟨key, v⟩ := entry
    obtain ⟨hentry, hentries⟩ := complete_writeObject_cons h
    obtain ⟨text, hkey, hv, hchars⟩ := exists_keyText_of_complete hentry
    have hshape : (writeObject level ((key, v) :: entries)).chars =
        '\x7b' :: (lineBreak (level + 1) ++ (quote text ++ ':' :: ' ' ::
          ((write (level + 1) v).chars ++ (writeEntries level entries).chars))) := by
      rw [writeObject, Draft.after, Draft.chars_andThen hentry, hchars]
      simp
    rw [hshape] at hfuel ⊢
    simp only [List.length_cons, List.length_append, List.cons_append, List.append_assoc] at hfuel ⊢
    obtain ⟨fuel, rfl⟩ : ∃ k, fuel = k + 1 := ⟨fuel - 1, by omega⟩
    have hreads : ReadsBack v := hall (key, v) List.mem_cons_self
    have hlengths : (quote text).length + (write (level + 1) v).chars.length +
        (writeEntries level entries).chars.length ≤ fuel := by omega
    have hread := readEntries_write hkey hreads
      (fun e he => hall e (List.mem_cons_of_mem (key, v) he)) hv hentries hlengths rest
    rw [Json.quote_append] at hread
    rw [Json.quote_append, Json.readValue_object, hread]
    cases restoredEntries ((key, v) :: entries) with
    | error e => rfl
    | ok restored => rfl

/-- Every value reads back. -/
theorem readsBack (v : Value) : ReadsBack v := by
  induction v using Value.inductionOn with
  | scalar v hv => exact readsBack_of_scalar hv
  | list items ih =>
    intro level fuel rest h hfuel hrest
    exact readValue_writeArray ih h hfuel rest
  | tuple items ih =>
    intro level fuel rest h hfuel hrest
    exact readValue_writeArray ih h hfuel rest
  | map entries ih =>
    intro level fuel rest h hfuel hrest
    exact readValue_writeObject (fun entry hentry => (ih entry hentry).2) h hfuel rest

/-- A complete snapshot is read as what its value becomes. -/
theorem read_draft {v : Value} (h : (draft v).complete = true) :
    read (draft v).chars = restored v := by
  have hopens : OpensValue (write 0 v).chars := opensValue_write h
  have hends : EndsNumber [] := fun c hc => by cases hc
  have hread := readsBack v 0 ((draft v).chars.length + 1) [] h (Nat.le_succ _) hends
  rw [List.append_nil] at hread
  rw [read, Json.read, draft, Json.skipSpace_of_opens hopens]
  rw [draft] at hread
  simp only [hread, bind, Except.bind]
  cases restored v <;> rfl

end RecordStore.Snapshot
