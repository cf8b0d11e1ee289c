import RecordStore.Proofs.Number.Order
import RecordStore.Proofs.Table.Conformance
import RecordStore.Proofs.Table.Saving

/-!
# Numbers that are filled in

An insertion that leaves a numbered column absent fills it with the successor of the greatest number
that rows hold there.  In every state of a table all these numbers are finite, whatever the defaults of
its columns are: values that are supplied have been checked, a numbered column never takes its default,
and the successor of a finite number is finite.

So the number that is filled in is new exactly if the greatest number is less than its successor.  It is
for integers of any size, and for floating-point numbers below `2 ^ 53`; beyond, one can be absorbed, and
two rows are given the same number.
-/

namespace RecordStore.Table

variable {table : Table} {P : Record → Prop}

/-! ## Rows after requests -/

/-- A row that is put among rows is a record with a property if they are. -/
lemma EachRecord.withRow (h : table.EachRecord P) {record : Record} (hrecord : P record)
    (id : RowId) : (table.withRow id (.record record)).EachRecord P := by
  intro entry hentry
  rcases Entries.mem_put hentry with hold | ⟨hnew, -⟩
  · exact h entry hold
  · exact ⟨record, hnew, hrecord⟩

/-- Replacing rows by records with a property keeps it, also if it breaks off. -/
lemma EachRecord.replaceRows (h : table.EachRecord P) {staged : List (RowId × Record)}
    (hstaged : ∀ entry ∈ staged, P entry.2) : (table.replaceRows staged).1.EachRecord P := by
  induction staged generalizing table with
  | nil => exact h
  | cons entry rest ih =>
    obtain ⟨id, record⟩ := entry
    obtain ⟨hfirst, hrest⟩ := List.forall_mem_cons.mp hstaged
    have hleft : (table.unindexRow id ((table.row? id).getD (.record []))).1.EachRecord P := h
    rw [Table.replaceRows]
    generalize table.unindexRow id ((table.row? id).getD (.record [])) = left at hleft ⊢
    obtain ⟨between, _ | fault⟩ := left
    · have hentered : ((between.withRow id (.record record)).indexRow id
          (.record record)).1.EachRecord P := EachRecord.withRow hleft hfirst id
      dsimp only
      generalize (between.withRow id (.record record)).indexRow id (.record record) = entered
        at hentered ⊢
      obtain ⟨after, _ | fault⟩ := entered
      · exact ih hentered hrest
      · exact hentered
    · exact hleft

/-- Removing rows keeps a property of the others, also if it breaks off. -/
lemma EachRecord.removeRows (h : table.EachRecord P) (ids : List RowId) :
    (table.removeRows ids).1.EachRecord P := by
  induction ids generalizing table with
  | nil => exact h
  | cons id rest ih =>
    rw [Table.removeRows]
    cases table.rowAt id with
    | error fault => exact h
    | ok row =>
      have hleft : ((table.withoutRow id).unindexRow id row).1.EachRecord P :=
        fun entry hentry => h entry (List.mem_filter.mp hentry).1
      dsimp only
      generalize (table.withoutRow id).unindexRow id row = left at hleft ⊢
      obtain ⟨between, _ | fault⟩ := left
      · exact ih hleft
      · exact hleft

/-- An insertion that is admitted appends its record, whether it goes through or breaks off. -/
lemma EachRecord.insert (h : table.EachRecord P) {v : Value}
    (hadmits : ∀ record, table.Admits v record → P record) :
    (table.insert v).table.EachRecord P := by
  rw [Table.insert]
  split
  · rename_i record hadmitted
    have hcounted : EachRecord P { table with nextRowId := table.nextRowId.successor } := h
    have happended : (({ table with nextRowId := table.nextRowId.successor }.withRow
        (.ofNumber table.nextRowId) (.record record)).indexRow (.ofNumber table.nextRowId)
          (.record record)).1.EachRecord P :=
      hcounted.withRow (hadmits record (Outcome.bind_eq_ok.mp hadmitted)) _
    rw [append]
    generalize ({ table with nextRowId := table.nextRowId.successor }.withRow
      (.ofNumber table.nextRowId) (.record record)).indexRow (.ofNumber table.nextRowId)
        (.record record) = entered at happended ⊢
    obtain ⟨after, _ | fault⟩ := entered <;> exact happended
  · exact h

/-- A property of all records that a request may store is kept by it, whatever its outcome. -/
theorem EachRecord.reply (h : table.EachRecord P) {request : Request}
    (hadmits : ∀ v, request = .insert v → ∀ record, table.Admits v record → P record)
    (hstages : ∀ conditions patch staged, table.prepareUpdate conditions patch = .ok staged →
      ∀ entry ∈ staged, P entry.2) : (table.reply request).table.EachRecord P := by
  cases request with
  | insert v => exact h.insert (hadmits v rfl)
  | update conditions patch =>
    change (table.update conditions patch).table.EachRecord P
    unfold Table.update
    split
    · exact h
    · exact h
    · rename_i staged _ hstaged
      have hreplaced := h.replaceRows (hstages _ _ _ hstaged)
      generalize table.replaceRows staged = replaced at hreplaced ⊢
      obtain ⟨after, _ | fault⟩ := replaced <;> exact hreplaced
  | delete conditions =>
    change (table.delete conditions).table.EachRecord P
    unfold Table.delete
    split
    · exact h
    · exact h
    · rename_i targets _ _
      have hremoved := h.removeRows targets
      generalize table.removeRows targets = removed at hremoved ⊢
      obtain ⟨after, _ | fault⟩ := removed <;> exact hremoved
  | createIndex column =>
    exact fun entry hentry => h entry ((rows_createIndex table column).1 ▸ hentry)
  | rebuildIndex column =>
    exact fun entry hentry => h entry ((rows_rebuildIndex table column).1 ▸ hentry)
  | dropIndex column =>
    exact fun entry hentry => h entry ((rows_dropIndex table column).1 ▸ hentry)

/-! ## Finite numbers -/

/-- What a numbered column holds is finite if it is a floating-point number. -/
def FiniteIn (column : Column) (v : Value) : Prop :=
  column.isNumbered = true → ∀ x, v = .float x → x.isFinite = true

/-- What a kind accepts is finite if it is a floating-point number. -/
lemma finiteIn_of_accepts {c : Column} {v : Value} (h : c.kind.accepts v = .ok true) :
    FiniteIn c (c.kind.coerce v) := by
  rintro - x hx
  have hcanonical := Kind.isCanonical_coerce h
  rw [hx] at hcanonical
  cases hkind : c.kind <;> rw [hkind] at hcanonical <;> first | exact hcanonical | cases hcanonical

/-- What a validated record holds in numbered columns is finite: a numbered column never takes its
default. -/
lemma finiteIn_of_validate {schema : Schema} {Q : Column → Prop} (hschema : schema.Sound Q)
    {isTaken : TakenTest} {updating : Bool} {given record : Record}
    (h : schema.validate isTaken updating given = .ok record) : schema.Holds FiniteIn record := by
  intro c hc v hv hnumbered
  obtain ⟨verdict, hpasses, hlookup⟩ := Schema.lookup_of_validate hschema h c hc
  rw [hlookup] at hv
  cases hnull : (given.value c.name).isNull with
  | true =>
    rcases Column.passes_absent hnull hpasses with rfl | ⟨d, -, -, -, hplain⟩
    · cases hv
    · rw [hnumbered] at hplain
      cases hplain
  | false =>
    obtain ⟨rfl, haccepts, -⟩ := Column.passes_present hnull hpasses
    obtain rfl := Option.some.inj hv
    exact finiteIn_of_accepts haccepts hnumbered

/-- A row holds a number in a column; truth values do not count. -/
def HoldsNumber (table : Table) (column : Value) (n : Number) : Prop :=
  (∀ b, n ≠ .flag b) ∧ ∃ entry ∈ table.rows, entry.2.value column = .ok (.ofNumber n)

/-- The numbers that are looked at are those that rows hold. -/
lemma mem_numbersIn_iff {column : Value} {numbers : List Number}
    (h : numbersIn column table.rows = .ok numbers) (n : Number) :
    n ∈ numbers ↔ table.HoldsNumber column n := by
  rw [HoldsNumber]
  generalize table.rows = rows at h ⊢
  induction rows generalizing numbers with
  | nil =>
    cases h
    simp
  | cons entry rest ih =>
    obtain ⟨id, row⟩ := entry
    obtain ⟨v, hv, h⟩ := Outcome.seq_eq_ok.mp h
    obtain ⟨others, hothers, h⟩ := Outcome.seq_eq_ok.mp h
    obtain rfl := Outcome.pure_eq_ok.mp h
    rw [List.exists_mem_cons_iff, hv, Except.ok.injEq, and_or_left, ← ih hothers]
    cases v <;> cases n <;> simp [Value.ofNumber, eq_comm]

/-- The numbers that rows hold in a numbered column have values. -/
lemma EachRecord.exists_value? {schema : Schema}
    (h : table.EachRecord (schema.Holds FiniteIn)) {c : Column} (hc : c ∈ schema.columns)
    (hnumbered : c.isNumbered = true) {n : Number} (hn : table.HoldsNumber c.name n) :
    ∃ q, n.value? = some q := by
  obtain ⟨hflag, entry, hentry, hvalue⟩ := hn
  obtain ⟨record, hrecord, hholds⟩ := h entry hentry
  rw [hrecord] at hvalue
  have hvalue : record.value c.name = .ofNumber n := Except.ok.inj hvalue
  cases n with
  | flag b => exact absurd rfl (hflag b)
  | whole i => exact ⟨_, rfl⟩
  | binary x =>
    refine Binary64.exists_value? ?_
    cases hlookup : record.lookup c.name with
    | none =>
      rw [Record.value, hlookup] at hvalue
      cases hvalue
    | some v =>
      rw [Record.value, hlookup] at hvalue
      obtain rfl : v = .float x := hvalue
      exact hholds c hc _ hlookup hnumbered x rfl

/-! ## The greatest number -/

/-- The greatest of numbers with values has a value, and none of them is above it. -/
lemma exists_value?_greatest {numbers : List Number}
    (hvalues : ∀ n ∈ numbers, ∃ q, n.value? = some q) :
    ∃ q, (greatest numbers).value? = some q ∧
      ∀ n ∈ numbers, ∀ p, n.value? = some p → p ≤ q := by
  -- the numbers before those that are left are not above the greatest so far
  have hfold : ∀ (rest : List Number) (first : Number) (q : Rat), first.value? = some q →
      (∀ n ∈ rest, ∃ p, n.value? = some p) →
      ∃ r, (rest.foldl Number.larger first).value? = some r ∧ q ≤ r ∧
        ∀ n ∈ rest, ∀ p, n.value? = some p → p ≤ r := by
    intro rest
    induction rest with
    | nil => exact fun first q hq _ => ⟨q, hq, le_rfl, by simp⟩
    | cons second rest ih =>
      intro first q hq hrest
      obtain ⟨⟨p, hp⟩, hrest⟩ := List.forall_mem_cons.mp hrest
      have hlarger : (first.larger second).value? = some (max q p) := by
        rw [Number.larger]
        split
        · rename_i hless
          rw [hp, max_eq_right ((Number.less_iff hq hp).mp hless).le]
        · rename_i hnot
          rw [hq, max_eq_left (not_lt.mp (mt (Number.less_iff hq hp).mpr hnot))]
      obtain ⟨r, hr, hle, hall⟩ := ih _ _ hlarger hrest
      refine ⟨r, hr, (le_max_left q p).trans hle, List.forall_mem_cons.mpr ⟨fun p' hp' => ?_, hall⟩⟩
      obtain rfl : p = p' := Option.some.inj (hp.symm.trans hp')
      exact (le_max_right q p).trans hle
  cases numbers with
  | nil => exact ⟨0, rfl, by simp⟩
  | cons first rest =>
    obtain ⟨⟨q, hq⟩, hrest⟩ := List.forall_mem_cons.mp hvalues
    obtain ⟨r, hr, hle, hall⟩ := hfold rest first q hq hrest
    refine ⟨r, hr, List.forall_mem_cons.mpr ⟨fun p hp => ?_, hall⟩⟩
    obtain rfl : q = p := Option.some.inj (hq.symm.trans hp)
    exact hle

/-- A number is new to a column: it is greater than all numbers that rows hold there, and so it equals
none of them. -/
def IsNew (table : Table) (column : Value) (n : Number) : Prop :=
  ∀ m, table.HoldsNumber column m →
    m.less n = true ∧ (Value.ofNumber m).equals (.ofNumber n) = false

/-- The greatest number that rows hold in a column is not less than its successor: it absorbs one. -/
def AbsorbsOne (table : Table) (column : Value) : Prop :=
  ∃ numbers, numbersIn column table.rows = .ok numbers ∧
    (greatest numbers).less (greatest numbers).successor = false

/-- Of numbers with values, all are less than the successor of the greatest one if that one is. -/
lemma less_successor_greatest_iff {numbers : List Number}
    (hvalues : ∀ n ∈ numbers, ∃ q, n.value? = some q) :
    (∀ n ∈ numbers, n.less (greatest numbers).successor = true) ↔
      (greatest numbers).less (greatest numbers).successor = true := by
  obtain ⟨q, hq, hall⟩ := exists_value?_greatest hvalues
  obtain ⟨r, hr⟩ := Number.exists_value?_successor hq
  constructor
  · intro hless
    rcases greatest_mem numbers with hzero | hmem
    · rw [hzero]
      rfl
    · exact hless _ hmem
  · intro hless n hn
    obtain ⟨p, hp⟩ := hvalues n hn
    exact (Number.less_iff hp hr).mpr ((hall n hn p hp).trans_lt ((Number.less_iff hq hr).mp hless))

/-- A number does not equal one that is less. -/
lemma equals_eq_false_of_less {a b : Number} {p q : Rat} (ha : a.value? = some p)
    (hb : b.value? = some q) (h : a.less b = true) :
    (Value.ofNumber a).equals (.ofNumber b) = false := by
  have hsame : (Value.ofNumber a).same (.ofNumber b) = decide (a.identity = b.identity) := by
    cases a <;> cases b <;> simp [Value.ofNumber, Value.same, Value.sameScalar, Value.identity?]
  have hne : a.identity ≠ b.identity := by
    rw [Number.identity_eq ha, Number.identity_eq hb]
    intro heq
    obtain rfl : p = q := by simpa using heq
    exact lt_irrefl p ((Number.less_iff ha hb).mp h)
  rw [Value.equals, hsame, decide_eq_false hne, Bool.false_and]

/-! ## Insertions -/

variable {schema : Schema} {Q : Column → Prop} {c : Column}

/-- The number that fills a numbered column is the successor of the greatest one if that has a value. -/
lemma nextNumber_eq_ok {column : Value} {numbers : List Number}
    (hnumbers : numbersIn column table.rows = .ok numbers) {q : Rat}
    (hq : (greatest numbers).successor.value? = some q) :
    table.nextNumber column = .ok (.ofNumber (greatest numbers).successor) := by
  refine Outcome.seq_eq_ok.mpr ⟨numbers, hnumbers, ?_⟩
  generalize (greatest numbers).successor = next at hq ⊢
  cases next with
  | binary x =>
    cases x with
    | notNumber payload => cases hq
    | _ => rfl
  | _ => rfl

/-- The number that fills a numbered column has a value, and it is new exactly if the greatest number
there does not absorb one. -/
lemma EachRecord.nextNumber_eq (h : table.EachRecord (schema.Holds FiniteIn))
    (hc : c ∈ schema.columns) (hnumbered : c.isNumbered = true) {v : Value}
    (hnext : table.nextNumber c.name = .ok v) :
    ∃ n q, v = .ofNumber n ∧ n.value? = some q ∧
      (table.IsNew c.name n ↔ ¬table.AbsorbsOne c.name) := by
  obtain ⟨numbers, hnumbers, -⟩ := Outcome.seq_eq_ok.mp hnext
  have hvalues : ∀ n ∈ numbers, ∃ q, n.value? = some q := fun n hn =>
    h.exists_value? hc hnumbered ((mem_numbersIn_iff hnumbers n).mp hn)
  obtain ⟨q, hq, -⟩ := exists_value?_greatest hvalues
  obtain ⟨r, hr⟩ := Number.exists_value?_successor hq
  have hsuccessor : v = .ofNumber (greatest numbers).successor :=
    Except.ok.inj (hnext.symm.trans (nextNumber_eq_ok hnumbers hr))
  refine ⟨_, r, hsuccessor, hr, ?_⟩
  have habsorbs : ¬table.AbsorbsOne c.name ↔
      (greatest numbers).less (greatest numbers).successor = true := by
    rw [AbsorbsOne, hnumbers]
    simp
  rw [habsorbs, ← less_successor_greatest_iff hvalues, IsNew]
  constructor
  · exact fun hnew n hn => (hnew n ((mem_numbersIn_iff hnumbers n).mp hn)).1
  · intro hless n hn
    have hn := (mem_numbersIn_iff hnumbers n).mpr hn
    obtain ⟨p, hp⟩ := hvalues n hn
    exact ⟨hless n hn, equals_eq_false_of_less hp hr (hless n hn)⟩

/-- What an insertion gives has been admitted. -/
lemma admits_of_insert {v : Value} {record : Record} (h : (table.insert v).result = .ok record) :
    table.Admits v record := by
  rw [insert] at h
  split at h
  · rename_i admitted hadmitted
    have hsame : admitted = record := by
      rw [append] at h
      split at h
      · cases h
      · exact Except.ok.inj h
    rw [← hsame]
    exact Outcome.bind_eq_ok.mp hadmitted
  · cases h

/-- An admitted record holds finite numbers in numbered columns. -/
lemma EachRecord.finiteIn_of_admits (h : table.EachRecord (table.schema.Holds FiniteIn))
    (hschema : table.schema.Sound Q) {v : Value} {record : Record} (hadmits : table.Admits v record) :
    table.schema.Holds FiniteIn record := by
  obtain ⟨checked, hchecked, hcomplete⟩ := exists_validate_of_admits hadmits
  refine holds_of_complete hschema (fun c hc hnumbered w hw _ x hx => ?_)
    (finiteIn_of_validate hschema hchecked) hcomplete
  obtain ⟨n, q, rfl, hq, -⟩ := h.nextNumber_eq hc hnumbered hw
  cases n with
  | binary y =>
    obtain rfl : y = x := Value.float.inj hx
    exact Binary64.isFinite_of_value? hq
  | _ => cases hx

/-- An insertion that leaves a numbered column absent fills it with a number, which is new exactly if the
greatest number there does not absorb one. -/
theorem EachRecord.isNew_iff (h : table.EachRecord (table.schema.Holds FiniteIn))
    (hschema : table.schema.Sound Q) {given record : Record}
    (hinsert : (table.insert (.map given)).result = .ok record) (hc : c ∈ table.schema.columns)
    (hnumbered : c.isNumbered = true) (habsent : (given.value c.name).isNull = true) :
    ∃ n, record.value c.name = .ofNumber n ∧
      (table.IsNew c.name n ↔ ¬table.AbsorbsOne c.name) := by
  obtain ⟨checked, hchecked, hcomplete⟩ := admits_of_insert hinsert
  have hleft : checked.lookup c.name = none := by
    obtain ⟨verdict, hpasses, hlookup⟩ := Schema.lookup_of_validate hschema hchecked c hc
    rcases Column.passes_absent habsent hpasses with rfl | ⟨d, -, -, -, hplain⟩
    · exact hlookup
    · rw [hnumbered] at hplain
      cases hplain
  rcases lookup_complete hschema hcomplete hc with hsame | ⟨-, -, v, hnext, hfound⟩
  · have hthere := isSome_lookup_complete hschema hcomplete hc hnumbered
    rw [hsame, hleft] at hthere
    cases hthere
  · obtain ⟨n, q, rfl, -, hnew⟩ := h.nextNumber_eq hc hnumbered hnext
    exact ⟨n, by rw [Record.value, hfound]; rfl, hnew⟩

/-! ## Every state -/

/-- A property of all records that may be admitted and all that an update may stage is one of the rows in
every state of a table that has been made without rows. -/
theorem eachRecord_run {created : Table} (hnone : created.rows = [])
    (hadmits : ∀ table : Table, table.schema = created.schema → table.EachRecord P →
      ∀ v record, table.Admits v record → P record)
    (hstages : ∀ table : Table, table.schema = created.schema → ∀ conditions patch staged,
      table.prepareUpdate conditions patch = .ok staged → ∀ entry ∈ staged, P entry.2)
    (requests : List Request) : (created.run requests).EachRecord P := by
  induction requests using List.reverseRecOn with
  | nil =>
    intro entry hentry
    change entry ∈ created.rows at hentry
    rw [hnone] at hentry
    cases hentry
  | append_singleton done request ih =>
    have hkept := (sameFiles_run created done).schema
    rw [run, List.foldl_append, ← run]
    exact ih.reply (fun v _ => hadmits _ hkept ih v) (hstages _ hkept)

/-- In every state of a table the rows hold finite numbers in numbered columns. -/
theorem eachRecord_finiteIn_run {created : Table} (hschema : created.schema.Sound Q)
    (hnone : created.rows = []) (requests : List Request) :
    (created.run requests).schema = created.schema ∧
      (created.run requests).EachRecord (created.schema.Holds FiniteIn) := by
  refine ⟨(sameFiles_run created requests).schema, eachRecord_run hnone ?_ ?_ requests⟩
  · intro table hkept hrecords v record hadmits
    rw [← hkept] at hrecords hschema ⊢
    exact hrecords.finiteIn_of_admits hschema hadmits
  · intro table hkept conditions patch staged hstaged
    rw [← hkept] at hschema ⊢
    exact holds_of_prepareUpdate hschema (fun _ _ => finiteIn_of_accepts) hstaged

/-- The greatest number in a column absorbs one only if it is a floating-point number from `2 ^ 53` on. -/
theorem not_absorbsOne {column : Value}
    (hvalues : ∀ n, table.HoldsNumber column n → ∃ q, n.value? = some q)
    (hsmall : ∀ x q, table.HoldsNumber column (.binary x) → x.value? = some q → |q| < 2 ^ 53) :
    ¬table.AbsorbsOne column := by
  rintro ⟨numbers, hnumbers, habsorbs⟩
  rcases greatest_mem numbers with hzero | hmem
  · rw [hzero] at habsorbs
    cases habsorbs
  · have hheld := (mem_numbersIn_iff hnumbers _).mp hmem
    obtain ⟨q, hq⟩ := hvalues _ hheld
    rw [Number.less_successor hq] at habsorbs
    · cases habsorbs
    · cases hgreatest : greatest numbers with
      | flag b => exact absurd hgreatest (hheld.1 b)
      | whole i => exact Or.inl ⟨i, rfl⟩
      | binary x =>
        rw [hgreatest] at hheld hq
        exact Or.inr (hsmall x q hheld hq)

/-- In every state of a table, whatever has been asked of it and with whatever outcome, an insertion that
succeeds and leaves a numbered column absent stores a number there that is greater than all numbers that
rows hold there before, exactly if the greatest of these does not absorb one. -/
theorem isNew_insert_run_iff {source : SchemaSource} (hsource : source.Declares fun _ => True)
    (hschema : Schema.ofSource source = .ok schema) {name directory : String} {created : Table}
    {effects : List Effect}
    (hcreate : Table.create name source directory = .ok (created, effects))
    (requests : List Request) {given record : Record}
    (hinsert : ((created.run requests).insert (.map given)).result = .ok record)
    (hc : c ∈ schema.columns) (hnumbered : c.isNumbered = true)
    (habsent : (given.value c.name).isNull = true) :
    ∃ n, record.value c.name = .ofNumber n ∧
      ((created.run requests).IsNew c.name n ↔ ¬(created.run requests).AbsorbsOne c.name) := by
  have hsound := hsource.sound (fun _ _ => trivial) hschema
  obtain ⟨made, hmade, hall⟩ := create_eq_ok hcreate
  obtain rfl : made = schema := Except.ok.inj (hmade.symm.trans hschema)
  obtain ⟨hreaches, hnone, -⟩ := hall hsound
  have hmade : created.schema = made := hreaches.schema_eq
  rw [← hmade] at hsound hc
  obtain ⟨hkept, hrecords⟩ := eachRecord_finiteIn_run hsound hnone requests
  rw [← hkept] at hsound hc hrecords
  exact hrecords.isNew_iff hsound hinsert hc hnumbered habsent

/-- The column of a small table that numbers its rows. -/
def numberedColumn : SchemaSource :=
  .columns
    [(.text "a", .described (.map
      [(.text "type", .text "number"), (.text "autoIncrement", .bool true)]))]

/-- A numbered column is declared by its description alone. -/
lemma isDescribed_numberedColumn : numberedColumn.IsDescribed := by
  simp [numberedColumn, SchemaSource.IsDescribed]

/-- After a row with the number five the next one is given six. -/
theorem isNew_insert_run_iff_numberedColumn : ∃ schema created effects c,
    Schema.ofSource numberedColumn = .ok schema ∧
      Table.create "t" numberedColumn "d" = .ok (created, effects) ∧
      c ∈ schema.columns ∧ c.isNumbered = true ∧
      ((created.run [.insert (.map [(.text "a", .int 5)])]).insert (.map [])).result =
        .ok [(.text "a", .int 6)] ∧
      ∃ n, Record.value c.name [(.text "a", .int 6)] = .ofNumber n ∧
        ((created.run [.insert (.map [(.text "a", .int 5)])]).IsNew c.name n ↔
          ¬(created.run [.insert (.map [(.text "a", .int 5)])]).AbsorbsOne c.name) :=
  ⟨_, _, _, _, rfl, rfl, List.mem_cons_self, rfl, rfl,
    isNew_insert_run_iff isDescribed_numberedColumn.declares rfl rfl _ rfl List.mem_cons_self rfl
      (show (Record.value (.text "a") []).isNull = true from rfl)⟩

/-- Ten to the sixteenth as a floating-point number. -/
def tenToSixteen : Binary64 :=
  .finite false 5000000000000000 1 (by decide)

/-- Ten to the sixteenth absorbs one. -/
lemma successor_tenToSixteen : tenToSixteen.successor = tenToSixteen := by
  decide +kernel

/-- A table without indexes that numbers its rows and nothing else stores the next number if it is
given nothing. -/
lemma result_insert_numberedColumn {table : Table}
    (hschema : Schema.ofSource numberedColumn = .ok table.schema) (hindexes : table.indexes = [])
    {v : Value} (hnext : table.nextNumber (.text "a") = .ok v) :
    (table.insert (.map [])).result = .ok [(.text "a", v)] := by
  have hadmits : (table.schema.validateValue (table.isTaken []) (.map [])).bind table.complete =
      .ok [(.text "a", v)] := by
    rw [Outcome.bind_eq_ok]
    refine ⟨[], ?_, ?_⟩
    · rw [← Except.ok.inj hschema]
      rfl
    · rw [complete, ← Except.ok.inj hschema]
      change ((table.nextNumber (.text "a")).bind _).map _ = _
      rw [hnext]
      rfl
  rw [insert, hadmits]
  dsimp only
  rw [append, indexRow, withRow, hindexes]
  rfl

/-- After a row with ten to the sixteenth as a floating-point number the next one is given the same
number. -/
theorem not_isNew_tenToSixteen : ∃ schema created effects,
    Schema.ofSource numberedColumn = .ok schema ∧
      Table.create "t" numberedColumn "d" = .ok (created, effects) ∧
      ((created.run [.insert (.map [(.text "a", .float tenToSixteen)])]).insert
          (.map [])).result = .ok [(.text "a", .float tenToSixteen)] ∧
      ¬(created.run [.insert (.map [(.text "a", .float tenToSixteen)])]).IsNew (.text "a")
        (.binary tenToSixteen) := by
  obtain ⟨q, hq⟩ : ∃ q, (Number.binary tenToSixteen).value? = some q :=
    Binary64.exists_value? (x := tenToSixteen) rfl
  have hsame : (greatest [.binary tenToSixteen]).successor = .binary tenToSixteen :=
    congrArg Number.binary successor_tenToSixteen
  refine ⟨_, _, _, rfl, rfl, result_insert_numberedColumn rfl rfl ?_, fun hnew => ?_⟩
  · refine (nextNumber_eq_ok (show numbersIn _ _ = .ok [.binary tenToSixteen] from rfl)
      (hsame ▸ hq)).trans ?_
    rw [hsame]
    rfl
  · obtain ⟨hless, -⟩ := hnew (.binary tenToSixteen) ⟨nofun, _, List.mem_cons_self, rfl⟩
    exact lt_irrefl q ((Number.less_iff hq hq).mp hless)

end RecordStore.Table
