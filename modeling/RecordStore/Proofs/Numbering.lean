import RecordStore.Proofs.Number.Rounding
import RecordStore.Proofs.Validation
import RecordStore.Table.Change

/-!
# Numbered columns

The number that fills a numbered column is the successor of the greatest number that the rows hold
there, so it is in canonical form if these are.  A record is completed by filling the numbered
columns that are absent: everything else that it holds stays as it is.
-/

namespace RecordStore.Table

/-! ## The next number -/

/-- The numbers that rows hold in a column are values of rows. -/
lemma exists_row_of_mem_numbersIn {column : Value} {rows : List (RowId × Row)}
    {numbers : List Number} (h : numbersIn column rows = .ok numbers) {n : Number}
    (hn : n ∈ numbers) : ∃ entry ∈ rows, entry.2.value column = .ok (.ofNumber n) := by
  induction rows generalizing numbers with
  | nil =>
    cases h
    cases hn
  | cons entry rest ih =>
    obtain ⟨id, row⟩ := entry
    obtain ⟨v, hv, h⟩ := Outcome.seq_eq_ok.mp h
    obtain ⟨others, hothers, h⟩ := Outcome.seq_eq_ok.mp h
    have hsplit : n ∈ others ∨ v = .ofNumber n := by
      obtain rfl := Outcome.pure_eq_ok.mp h
      revert hn
      split
      · intro hn
        exact (List.mem_cons.mp hn).symm.imp_right fun he => by rw [he]; rfl
      · intro hn
        exact (List.mem_cons.mp hn).symm.imp_right fun he => by rw [he]; rfl
      · exact Or.inl
    rcases hsplit with hn | rfl
    · obtain ⟨entry, hmem, hentry⟩ := ih hothers hn
      exact ⟨entry, List.mem_cons_of_mem _ hmem, hentry⟩
    · exact ⟨(id, row), List.mem_cons_self, hv⟩

/-- The greatest of some numbers is one of them, or zero if there are none. -/
lemma greatest_mem (numbers : List Number) :
    greatest numbers = .whole 0 ∨ greatest numbers ∈ numbers := by
  have hfold : ∀ (rest : List Number) (n : Number), rest.foldl Number.larger n ∈ n :: rest := by
    intro rest
    induction rest with
    | nil => simp
    | cons m rest ih =>
      intro n
      have hlarger : n.larger m = n ∨ n.larger m = m := by
        rw [Number.larger]
        split
        · exact Or.inr rfl
        · exact Or.inl rfl
      have hmem := ih (n.larger m)
      rw [List.foldl_cons]
      rcases List.mem_cons.mp hmem with he | hrest
      · rw [he]
        rcases hlarger with hl | hl <;> simp [hl]
      · simp [hrest]
  cases numbers with
  | nil => exact Or.inl rfl
  | cons n rest => exact Or.inr (hfold rest n)

/-- The successor of a number in canonical form is in canonical form. -/
lemma isCanonical_successor {n : Number} (h : Kind.number.isCanonical (.ofNumber n) = true) :
    Kind.number.isCanonical (.ofNumber n.successor) = true := by
  cases n with
  | flag b => cases h
  | whole i => rfl
  | binary x => exact Binary64.isFinite_successor h

/-- The number that fills a column is a number. -/
lemma nextNumber_eq {table : Table} {column v : Value} (h : table.nextNumber column = .ok v) :
    ∃ n : Number, v = .ofNumber n := by
  obtain ⟨numbers, -, h⟩ := Outcome.seq_eq_ok.mp h
  split at h
  · exact ⟨.binary (.notNumber (freshPayload (numbers ++ table.numberKeys column))),
      (Outcome.pure_eq_ok.mp h).symm⟩
  · exact ⟨(greatest numbers).successor, (Outcome.pure_eq_ok.mp h).symm⟩

/-- The number that fills a column is there and can be a key. -/
lemma isHashable_nextNumber {table : Table} {column v : Value}
    (h : table.nextNumber column = .ok v) : v.isNull = false ∧ v.isHashable = true := by
  obtain ⟨n, rfl⟩ := nextNumber_eq h
  cases n <;> exact ⟨rfl, rfl⟩

/-- The number that fills a column whose values are in canonical form is the successor of the
greatest number there. -/
theorem nextNumber_eq_successor {table : Table} {column v : Value}
    (hrows : ∀ entry ∈ table.rows, ∀ w, entry.2.value column = .ok w →
      w.isNull = true ∨ Kind.number.isCanonical w = true)
    (h : table.nextNumber column = .ok v) :
    ∃ numbers, numbersIn column table.rows = .ok numbers ∧
      v = .ofNumber (greatest numbers).successor ∧ Kind.number.isCanonical v = true := by
  obtain ⟨numbers, hnumbers, h⟩ := Outcome.seq_eq_ok.mp h
  have hgreatest : Kind.number.isCanonical (.ofNumber (greatest numbers)) = true := by
    rcases greatest_mem numbers with he | hmem
    · rw [he]
      rfl
    · obtain ⟨entry, hentry, hvalue⟩ := exists_row_of_mem_numbersIn hnumbers hmem
      rcases hrows entry hentry _ hvalue with hnull | hcanonical
      · cases hn : greatest numbers <;> rw [hn] at hnull <;> cases hnull
      · exact hcanonical
  have hsuccessor := isCanonical_successor hgreatest
  refine ⟨numbers, hnumbers, ?_⟩
  split at h
  · rename_i payload hundefined
    rw [hundefined] at hsuccessor
    cases hsuccessor
  · obtain rfl := Outcome.pure_eq_ok.mp h
    exact ⟨rfl, hsuccessor⟩

/-! ## Filling -/

/-- What is found in a record after numbered columns have been filled: what was there before, or
the number of a column that was absent. -/
lemma lookup_fillNumbers {table : Table} {columns : List Value} {record filled : Record}
    (hcolumns : ∀ column ∈ columns, column.isHashable = true)
    (h : table.fillNumbers record columns = .ok filled) (k : Value) (hk : k.isHashable = true) :
    filled.lookup k = record.lookup k ∨
      record.lookup k = none ∧ ∃ column ∈ columns, (k == column) = true ∧
        ∃ v, table.nextNumber column = .ok v ∧ filled.lookup k = some v := by
  induction columns generalizing record with
  | nil =>
    cases h
    exact Or.inl rfl
  | cons column rest ih =>
    obtain ⟨v, hv, h⟩ := Outcome.seq_eq_ok.mp h
    have hcolumn := hcolumns column List.mem_cons_self
    have hrest := ih (fun c hc => hcolumns c (List.mem_cons_of_mem _ hc)) h
    rw [Entries.has_eq_isSome_lookup hcolumn] at hrest
    cases hpresent : record.lookup column with
    | some w =>
      rw [hpresent] at hrest
      refine hrest.imp_right fun ⟨hnone, c, hc, hfound⟩ => ?_
      exact ⟨hnone, c, List.mem_cons_of_mem _ hc, hfound⟩
    | none =>
      simp only [hpresent, Option.isSome_none, Bool.false_eq_true, if_false, List.lookup_append]
        at hrest
      cases hkc : k == column with
      | true =>
        have hnone : record.lookup k = none := by
          rw [Entries.lookup_congr hk hkc, hpresent]
        simp only [hnone, Option.none_or, List.lookup_cons, hkc] at hrest
        rcases hrest with hfilled | ⟨habsurd, -⟩
        · exact Or.inr ⟨hnone, column, List.mem_cons_self, hkc, v, hv, hfilled⟩
        · cases habsurd
      | false =>
        simp only [List.lookup_cons, hkc, List.lookup_nil, Option.or_none] at hrest
        refine hrest.imp_right fun ⟨hnone, c, hc, hfound⟩ => ?_
        exact ⟨hnone, c, List.mem_cons_of_mem _ hc, hfound⟩

/-- A record in the order of the columns holds what it held in every column. -/
lemma lookup_inOrder {P : Column → Prop} {schema : Schema} (hschema : schema.Sound P)
    (record : Record) {c : Column} (hc : c ∈ schema.columns) :
    (inOrder schema record).lookup c.name = record.lookup c.name := by
  rw [inOrder, Schema.names]
  obtain ⟨hhashable, hdistinct, -, -⟩ := hschema
  generalize schema.columns = columns at hc hhashable hdistinct
  induction columns with
  | nil => cases hc
  | cons column rest ih =>
    obtain ⟨hfirst, hdistinct⟩ := List.pairwise_cons.mp hdistinct
    have hrest : ∀ d ∈ rest, d.name.isHashable = true :=
      fun d hd => hhashable d (List.mem_cons_of_mem _ hd)
    rw [List.map_cons, List.filterMap_cons]
    rcases List.mem_cons.mp hc with rfl | hc
    · cases hfound : record.lookup c.name with
      | some v => simp
      | none =>
        simp only [Option.map_none]
        refine List.lookup_eq_none_iff.mpr fun entry hentry => ?_
        obtain ⟨name, hname, hentry⟩ := List.mem_filterMap.mp hentry
        obtain ⟨d, hd, rfl⟩ := List.mem_map.mp hname
        obtain ⟨v, -, rfl⟩ := Option.map_eq_some_iff.mp hentry
        rw [bne, hfirst d hd]
        rfl
    · have hne : (c.name == column.name) = false := by
        rw [Value.beq_comm (hrest c hc)]
        exact hfirst c hc
      cases hfound : record.lookup column.name with
      | some v =>
        simp only [Option.map_some, List.lookup_cons, hne]
        exact ih hc hrest hdistinct
      | none =>
        simp only [Option.map_none]
        exact ih hc hrest hdistinct

/-- A completed record holds in every column what it held before, or the next number if the column
is a numbered one that was absent. -/
theorem lookup_complete {P : Column → Prop} {table : Table} (hschema : table.schema.Sound P)
    {record completed : Record} (h : table.complete record = .ok completed) {c : Column}
    (hc : c ∈ table.schema.columns) :
    completed.lookup c.name = record.lookup c.name ∨
      record.lookup c.name = none ∧ c.isNumbered = true ∧
        ∃ v, table.nextNumber c.name = .ok v ∧ completed.lookup c.name = some v := by
  rw [complete] at h
  split at h
  · cases h
    exact Or.inl rfl
  · obtain ⟨filled, hfilled, rfl⟩ := Outcome.map_eq_ok.mp h
    rw [lookup_inOrder hschema _ hc]
    have hauto : ∀ column ∈ table.schema.autoNames,
        ∃ d ∈ table.schema.columns, d.name = column ∧ d.isNumbered = true := by
      intro column hcolumn
      obtain ⟨d, hd, rfl⟩ := List.mem_map.mp hcolumn
      obtain ⟨hd, hnumbered⟩ := List.mem_filter.mp hd
      exact ⟨d, hd, rfl, hnumbered⟩
    have hhashable : ∀ column ∈ table.schema.autoNames, column.isHashable = true := by
      intro column hcolumn
      obtain ⟨d, hd, rfl, -⟩ := hauto column hcolumn
      exact hschema.hashable d hd
    refine (lookup_fillNumbers hhashable hfilled c.name (hschema.hashable c hc)).imp_right ?_
    rintro ⟨hnone, column, hcolumn, hsame, v, hv, hfound⟩
    obtain ⟨d, hd, rfl, hnumbered⟩ := hauto column hcolumn
    obtain rfl := hschema.eq_of_beq hc hd hsame
    exact ⟨hnone, hnumbered, v, hv, hfound⟩

/-- What a completed record holds has every property of what it held before and of next numbers. -/
theorem holds_of_complete {P : Column → Prop} {table : Table} (hschema : table.schema.Sound P)
    {Q : Column → Value → Prop}
    (hnumber : ∀ c ∈ table.schema.columns, c.isNumbered = true → ∀ v,
      table.nextNumber c.name = .ok v → Q c v)
    {record completed : Record} (hrecord : table.schema.Holds Q record)
    (h : table.complete record = .ok completed) : table.schema.Holds Q completed := by
  intro c hc v hv
  rcases lookup_complete hschema h hc with hsame | ⟨-, hnumbered, w, hw, hfound⟩
  · exact hrecord c hc v (hsame ▸ hv)
  · obtain rfl : w = v := by simpa [hfound] using hv
    exact hnumber c hc hnumbered w hw

end RecordStore.Table
