import Mathlib.Tactic.Common
import RecordStore.Proofs.Filter.Suiting
import RecordStore.Proofs.Query.Coherence

/-!
# Patterns asked of a column

A column is asked for a pattern, and the records are found whose value is there and has a text that the
pattern matches, whatever the kind of the column.  All values are turned into text, so that one that has
no text lets the whole question fail.

A column of dates reads what it is asked for as a date first, and a pattern is no exception: a text that
can be read as a date stands for the text of the date, though it may hold wildcards, since any character
may separate the date from the time of day.
-/

namespace RecordStore

namespace Moment

/-- The text of a date or a timestamp. -/
def text : Moment → String
  | .date d => d.text
  | .timestamp t => t.text

end Moment

namespace Table

variable {table : Table} {records : List (Int × Record)}

/-- The pattern for which a column is asked by a text: a column of dates reads a date in it, if it can. -/
def patternFor (schema : Schema) (column : Value) (p : String) : String :=
  match schema.column? column with
  | some c => if c.kind = .date then ((Moment.parse? p).map Moment.text).getD p else p
  | none => p

/-- What a column is compared with for a text is there, and shown as the pattern. -/
lemma operandFor_text (schema : Schema) (column : Value) (p : String) :
    (operandFor schema column (.text p)).isNull = false ∧
      (operandFor schema column (.text p)).display? = some (patternFor schema column p) := by
  rw [operandFor, patternFor]
  cases schema.column? column with
  | none => exact ⟨rfl, rfl⟩
  | some c =>
    by_cases hdate : c.kind = .date
    · simp only [hdate, if_true]
      cases Moment.parse? p with
      | none => exact ⟨rfl, rfl⟩
      | some moment => cases moment <;> exact ⟨rfl, rfl⟩
    · simp only [hdate, if_false]
      exact ⟨rfl, rfl⟩

/-- A text that cannot be read as a date is the pattern itself. -/
lemma patternFor_of_parse?_eq_none {p : String} (h : Moment.parse? p = none) (schema : Schema)
    (column : Value) : patternFor schema column p = p := by
  rw [patternFor, h]
  split
  · exact ite_self p
  · rfl

/-- In a column of dates a text that can be read as a date is the text of the date. -/
lemma patternFor_of_parse? {p : String} {moment : Moment} (h : Moment.parse? p = some moment)
    {schema : Schema} {column : Value} {c : Column} (hcolumn : schema.column? column = some c)
    (hdate : c.kind = .date) : patternFor schema column p = moment.text := by
  rw [patternFor, hcolumn, h]
  exact if_pos hdate

/-- The ids of some of the records lead to these records. -/
lemma mapM_recordAt (hrows : table.rows = rowsOf records) (hnodup : (Entries.keys records).Nodup)
    {chosen : List (Int × Record)} (hchosen : chosen ⊆ records) :
    ((Entries.keys chosen).map .int).mapM table.recordAt = .ok (chosen.map (·.2)) := by
  induction chosen with
  | nil => rfl
  | cons entry rest ih =>
    obtain ⟨hentry, hrest⟩ := List.cons_subset.mp hchosen
    have hrecord : table.recordAt (.int entry.1) = .ok entry.2 := recordAt_of_mem hrows hnodup hentry
    rw [Entries.keys, List.map_cons, List.map_cons, List.mapM_cons, hrecord, ← Entries.keys, ih hrest]
    rfl

/-- The records whose values in a column suit a pattern, in their order. -/
def suiting (records : List (Int × Record)) (column : Value) (pattern : String) : List Record :=
  (records.filter fun entry => (entry.2.value column).Suits pattern).map (·.2)

/-- A table that has records for rows finds those whose values suit the pattern that it is asked for, if all
values in the column have texts. -/
theorem find_like (hrows : table.rows = rowsOf records) (hnodup : (Entries.keys records).Nodup)
    (column : Value) (p : String) :
    table.find (asking column .like (.text p)) =
      if ∀ entry ∈ records, (entry.2.value column).IsTold then
        .ok (suiting records column (patternFor table.schema column p))
      else .error .longInteger := by
  obtain ⟨hpresent, hpattern⟩ := operandFor_text table.schema column p
  have hlike : Operator.like ≠ .equal := nofun
  rw [find, matching_asking_eq_scanFor table column (.text p) hlike, hrows,
    scanFor_answered records column (Value.holds_like hpresent hpattern)]
  split
  · exact mapM_recordAt hrows hnodup (List.filter_subset_self _)
  · rfl

/-! ## Every state of a table -/

/-- In every state of a table, whatever has been asked of it and with whatever outcome, a column that is
asked for a pattern gives the records, in their order, whose values are there and have texts that the
pattern matches; in a column of dates, a pattern that can be read as a date is the text of the date.  If
some value in the column has no text, the question fails. -/
theorem find_like_run {source : SchemaSource} (hsource : source.Declares fun _ => True)
    {name directory : String} {created : Table} {effects : List Effect}
    (hcreate : Table.create name source directory = .ok (created, effects)) (requests : List Request)
    (column : Value) (p : String) :
    ∃ records, (created.run requests).rows = rowsOf records ∧
      (created.run requests).find (asking column .like (.text p)) =
        if ∀ entry ∈ records, (entry.2.value column).IsTold then
          .ok (suiting records column (patternFor created.schema column p))
        else .error .longInteger := by
  obtain ⟨schema, hschema, -⟩ := create_eq_ok hcreate
  have htracks := (tracks_of_create (hsource.sound (fun _ _ => trivial) hschema) hschema hcreate).2
  obtain ⟨next, records, htracks⟩ := htracks.run requests
  have hkept : (created.run requests).schema = created.schema := (sameFiles_run created requests).schema
  refine ⟨records, htracks.rows, ?_⟩
  rw [find_like htracks.rows htracks.nodup, hkept]

/-- The columns of a small table: a date and an object. -/
def dateAndObject : SchemaSource :=
  .columns
    [(.text "d", .described (.map [(.text "type", .text "date")])),
      (.text "o", .described (.map [(.text "type", .text "object")]))]

/-- A day. -/
def fifthOfJanuary : Date :=
  ⟨2024, 1, 5, by decide⟩

/-- A time on that day. -/
def twentyPastTen : Timestamp :=
  ⟨fifthOfJanuary, 10, 20, 0, 0, none, by decide⟩

/-- An integer of too many digits. -/
def longInteger : Int :=
  10 ^ Number.digitLimit

/-- The day, the time, and an object that holds the long integer are inserted into such a table. -/
def requestsOnDates : List Request :=
  [.insert (.map [(.text "d", .date fifthOfJanuary)]),
    .insert (.map [(.text "d", .timestamp twentyPastTen)]),
    .insert (.map [(.text "o", .map [(.text "n", .int longInteger)])])]

/-- The records that the table has then. -/
def datedRecords : List (Int × Record) :=
  [(1, [(.text "d", .date fifthOfJanuary)]), (2, [(.text "d", .timestamp twentyPastTen)]),
    (3, [(.text "o", .map [(.text "n", .int longInteger)])])]

/-- The day and the time have texts, and so has the value that is not there. -/
lemma isTold_datedRecords : ∀ entry ∈ datedRecords, (entry.2.value (.text "d")).IsTold := by
  simp only [datedRecords, List.forall_mem_cons]
  exact ⟨rfl, rfl, rfl, nofun⟩

/-- Of a day and a time on it, the time is found by a pattern for its end. -/
theorem find_like_run_dates : ∃ created effects,
    Table.create "t" dateAndObject "d" = .ok (created, effects) ∧
      (dateAndObject.Declares fun _ => True) ∧
      (created.run requestsOnDates).find (asking (.text "d") .like (.text "%:20:__")) =
        .ok [[(.text "d", .timestamp twentyPastTen)]] := by
  have hdescribed : dateAndObject.IsDescribed := by
    simp [dateAndObject, SchemaSource.IsDescribed]
  have hnoDate : Moment.parse? "%:20:__" = none := by decide +kernel
  refine ⟨_, _, rfl, hdescribed.declares, ?_⟩
  obtain ⟨records, hrows, hfind⟩ :=
    find_like_run hdescribed.declares rfl requestsOnDates (.text "d") "%:20:__"
  obtain rfl : records = datedRecords := rowsOf_injective (hrows.symm.trans rfl)
  rw [hfind, if_pos isTold_datedRecords, patternFor_of_parse?_eq_none hnoDate]
  rfl

/-- A column finds the records whose values suit the pattern that it is asked for, as it stands. -/
def FindsSuiting (table : Table) (column : Value) (p : String) : Prop :=
  ∃ records, table.rows = rowsOf records ∧
    table.find (asking column .like (.text p)) = .ok (suiting records column p)

/-- If all values have texts, the pattern is taken as it stands exactly if the one that it is read as finds the
same records. -/
lemma findsSuiting_iff (hrows : table.rows = rowsOf records) (hnodup : (Entries.keys records).Nodup)
    {column : Value} (htold : ∀ entry ∈ records, (entry.2.value column).IsTold) (p : String) :
    table.FindsSuiting column p ↔
      suiting records column (patternFor table.schema column p) = suiting records column p := by
  rw [FindsSuiting, find_like hrows hnodup, if_pos htold]
  constructor
  · rintro ⟨records', hrows', hfind⟩
    obtain rfl : records' = records := rowsOf_injective (hrows'.symm.trans hrows)
    exact Except.ok.inj hfind
  · intro heq
    exact ⟨records, hrows, congrArg Except.ok heq⟩

/-- The object with the long integer has no text. -/
lemma not_isTold_datedRecords :
    ¬∀ entry ∈ datedRecords, (entry.2.value (.text "o")).IsTold := by
  have hnone : Number.integerText? longInteger = none := by decide +kernel
  intro hall
  have hobject := hall (3, [(.text "o", .map [(.text "n", .int longInteger)])]) (by simp [datedRecords])
  change (Value.display? (.map [(.text "n", .int longInteger)])).isSome = true at hobject
  simp [Value.display?, Value.innerText?, Value.entryTexts?, Value.entryText?, hnone] at hobject

/-- A column does not take all patterns as they stand.  In a column of dates, digits that stand for a day find
the day, whose text they do not match; and a wildcard behind a day separates it from an hour, so that a text
that it matches is not found.  And a value without a text lets all patterns fail. -/
theorem not_findsSuiting_dates : ∃ created effects,
    Table.create "t" dateAndObject "d" = .ok (created, effects) ∧
      ¬(created.run requestsOnDates).FindsSuiting (.text "d") "20240105" ∧
      ¬(created.run requestsOnDates).FindsSuiting (.text "d") "2024-01-05%00" ∧
      ¬(created.run requestsOnDates).FindsSuiting (.text "o") "%" := by
  have hday : Moment.parse? "20240105" = some (.date fifthOfJanuary) := by decide +kernel
  have hhour : Moment.parse? "2024-01-05%00" = some (.timestamp (Moment.startOfDay fifthOfJanuary)) := by
    decide +kernel
  have hnodup : (Entries.keys datedRecords).Nodup := by decide
  refine ⟨_, _, rfl, ?_, ?_, ?_⟩
  · rw [findsSuiting_iff (show _ = rowsOf datedRecords from rfl) hnodup isTold_datedRecords,
      patternFor_of_parse? hday rfl rfl]
    exact fun heq => absurd (congrArg List.length heq) (by decide +kernel)
  · rw [findsSuiting_iff (show _ = rowsOf datedRecords from rfl) hnodup isTold_datedRecords,
      patternFor_of_parse? hhour rfl rfl]
    exact fun heq => absurd (congrArg List.length heq) (by decide +kernel)
  · rintro ⟨records, -, hfind⟩
    rw [find_like (show _ = rowsOf datedRecords from rfl) hnodup, if_neg not_isTold_datedRecords] at hfind
    cases hfind

end Table

end RecordStore
