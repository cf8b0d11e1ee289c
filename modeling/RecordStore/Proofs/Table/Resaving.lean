import RecordStore.Proofs.Schema.Ruling
import RecordStore.Proofs.Table.Increment
import RecordStore.Proofs.Table.Uniqueness

/-!
# Rows that are saved again

An update checks whole rows again, also the columns that its patch does not name.  What a value has
passed once it passes always: the form in which it is stored is stored as it is, and the form that is
measured is the one that is stored.  So a row can only fail on what has been filled in without having
passed: a default that is too long, a next number that is out of the range of floating-point numbers,
and either of them if it is held already in a unique column.

As long as nothing of the kind is filled in, every row comes back as it is when it is checked again, and
an update is refused only for what its patch names.
-/

namespace RecordStore

/-! ## Values -/

/-- The form in which a kind stores a value it stores as it is. -/
lemma Kind.StoresAs.stored {kind : Kind} {v w : Value} (h : kind.StoresAs v w) :
    kind.StoresAs w w := by
  cases h with
  | @dateText s moment hread =>
    cases moment with
    | date d => exact .date d
    | timestamp t => exact .timestamp t
  | _ => constructor <;> assumption

/-- A violation is one for which a record is refused in a column. -/
inductive Violation.IsAbout (column : Column) : Violation → Prop
  | missing : IsAbout column (.missing column.label)
  | wrongKind : IsAbout column (.wrongKind column.label column.kind)
  | tooLong (shown : String) : IsAbout column (.tooLong column.label shown)
  | duplicate : IsAbout column (.duplicate column.label)

/-- Only a text for a column of its name is too long. -/
lemma Violation.IsAbout.label_eq {column : Column} {name shown : String}
    (h : (Violation.tooLong name shown).IsAbout column) : name = column.label := by
  generalize hviolation : Violation.tooLong name shown = violation at h
  cases h <;> cases hviolation
  rfl

namespace Column

variable {column : Column} {isTaken : TakenTest} {updating : Bool} {v : Value}

/-- A column keeps a value: it stores it as it is. -/
structure Keeps (column : Column) (v : Value) : Prop where
  storesAs : column.kind.StoresAs v v
  fits : column.Fits v

/-- What a column keeps is there. -/
lemma Keeps.isNull_eq_false (h : column.Keeps v) : v.isNull = false :=
  h.storesAs.isNull_eq_false

/-- What passes is stored in a form that the column keeps. -/
lemma keeps_of_passes {verdict : Verdict} (hpresent : v.isNull = false)
    (h : column.Passes isTaken updating v verdict) :
    verdict = .stored (column.kind.coerce v) ∧ column.Keeps (column.kind.coerce v) := by
  obtain ⟨hverdict, hstores⟩ := stores_of_passes hpresent h
  obtain ⟨-, haccepts, -⟩ := passes_present hpresent h
  exact ⟨hverdict, (Kind.storesAs_iff.mpr ⟨haccepts, rfl⟩).stored, hstores.fits⟩

/-- What a column keeps passes as it is, unless it is taken. -/
lemma Canonical.passes_of_keeps (h : column.Canonical) (hkeeps : column.Keeps v) :
    column.Passes (fun _ _ => false) updating v (.stored v) := by
  classical
  obtain ⟨haccepts, hcoerce⟩ := Kind.storesAs_iff.mp hkeeps.storesAs
  constructor
  · simp [Column.verdict, hkeeps.isNull_eq_false, haccepts, hcoerce, Except.bind, h.sizeVerdict_eq,
      hkeeps.fits]
  · simp [Verdict.broken]

/-- An absent value that is not needed passes in a row that is stored already. -/
lemma passes_of_not_isNeeded (hnull : v.isNull = true) (h : ¬column.IsNeeded) :
    column.Passes isTaken true v .absent := by
  rw [IsNeeded, not_or, Bool.not_eq_true, Bool.not_eq_true] at h
  refine ⟨?_, rfl⟩
  rw [Column.verdict, if_pos hnull, absentVerdict, h.1, h.2]
  cases column.defaultValue <;> rfl

end Column

/-! ## Records -/

namespace Schema

variable {schema : Schema} {isTaken : TakenTest} {record : Record}

/-- Every required column and every numbered one is there. -/
def HasNeeded (schema : Schema) (record : Record) : Prop :=
  ∀ c ∈ schema.columns, c.IsNeeded → (record.lookup c.name).isSome = true

/-- A record in the order of the columns is what the columns find in it. -/
lemma Orders.filterMap_eq {P : Column → Prop} (hschema : schema.Sound P)
    (h : schema.Orders record) :
    (schema.columns.filterMap fun c => (record.lookup c.name).map fun v => (c.name, v)) =
      record := by
  have hhashable := hschema.hashable
  have hdistinct := hschema.distinct
  rw [Orders, names] at h
  generalize schema.columns = columns at h hhashable hdistinct
  induction columns generalizing record with
  | nil =>
    obtain rfl : record = [] := List.map_eq_nil_iff.mp (List.sublist_nil.mp h)
    rfl
  | cons column rest ih =>
    obtain ⟨-, hhashable⟩ := List.forall_mem_cons.mp hhashable
    obtain ⟨hfirst, hdistinct⟩ := List.pairwise_cons.mp hdistinct
    rcases List.sublist_cons_iff.mp h with hrest | ⟨keys, hkeys, hrest⟩
    · have hnone : record.lookup column.name = none :=
        List.lookup_eq_none_iff.mpr fun entry hentry => by
          obtain ⟨c, hc, hname⟩ := List.mem_map.mp (hrest.subset (List.mem_map_of_mem hentry))
          rw [bne, ← hname, hfirst c hc]
          rfl
      rw [List.filterMap_cons, hnone]
      exact ih hrest hhashable hdistinct
    · obtain ⟨⟨key, v⟩, others, rfl, rfl, rfl⟩ := List.map_eq_cons_iff.mp hkeys
      rw [List.filterMap_cons, List.lookup_cons_self, Option.map_some]
      refine congrArg (List.cons (column.name, v)) (Eq.trans ?_ (ih hrest hhashable hdistinct))
      refine List.filterMap_congr fun c hc => ?_
      rw [List.lookup_cons, Value.beq_comm (hhashable c hc), hfirst c hc]

/-- Columns pass that keep what they are given, or are given nothing and need nothing. -/
lemma exists_checkColumns {valueOf : Value → Value} {columns : List Column}
    (hcanonical : ∀ c ∈ columns, c.Canonical)
    (h : ∀ c ∈ columns, c.Keeps (valueOf c.name) ∨
      (valueOf c.name).isNull = true ∧ ¬c.IsNeeded) :
    ∃ record, checkColumns (fun _ _ => false) true valueOf columns = .ok (record, []) := by
  induction columns with
  | nil => exact ⟨[], rfl⟩
  | cons column rest ih =>
    obtain ⟨hown, hcanonical⟩ := List.forall_mem_cons.mp hcanonical
    obtain ⟨hfirst, hrest⟩ := List.forall_mem_cons.mp h
    obtain ⟨others, hothers⟩ := ih hcanonical hrest
    rcases hfirst with hkeeps | ⟨hnull, hfree⟩
    · exact ⟨_, checkColumns_cons_iff.mpr ⟨_, _, hown.passes_of_keeps hkeeps, hothers, rfl⟩⟩
    · exact ⟨_, checkColumns_cons_iff.mpr
        ⟨_, _, Column.passes_of_not_isNeeded hnull hfree, hothers, rfl⟩⟩

/-- A stored record comes back as it is exactly if its columns keep what it holds. -/
theorem validate_eq_self_iff {P : Column → Prop} (hschema : schema.Sound P)
    (hcanonical : ∀ c ∈ schema.columns, c.Canonical) (horders : schema.Orders record)
    (hneeded : schema.HasNeeded record)
    (hpresent : ∀ c ∈ schema.columns, ∀ v, record.lookup c.name = some v → v.isNull = false) :
    schema.validate (fun _ _ => false) true record = .ok record ↔
      schema.Holds Column.Keeps record := by
  constructor
  · intro h c hc v hv
    have hvalue : record.value c.name = v := by
      rw [Record.value, hv]
      rfl
    obtain ⟨verdict, hpasses, hlookup⟩ := lookup_of_validate hschema h c hc
    rw [hvalue] at hpasses
    obtain ⟨rfl, hkeeps⟩ := Column.keeps_of_passes (hpresent c hc v hv) hpasses
    rw [hv] at hlookup
    rwa [← Option.some.inj hlookup] at hkeeps
  · intro h
    obtain ⟨checked, hchecked⟩ : ∃ checked, checkColumns (fun _ _ => false) true
        (fun name => record.value name) schema.columns = .ok (checked, []) := by
      refine exists_checkColumns hcanonical fun c hc => ?_
      rw [Record.value]
      cases hlookup : record.lookup c.name with
      | none => exact Or.inr ⟨rfl, fun hneed => by simpa [hlookup] using hneeded c hc hneed⟩
      | some v => exact Or.inl (h c hc v hlookup)
    have hvalid := validate_eq_ok_iff.mpr hchecked
    have hsame : checked = record := by
      rw [eq_filterMap_of_validate hvalid]
      refine Eq.trans (List.filterMap_congr fun c hc => ?_) (horders.filterMap_eq hschema)
      rw [Record.value]
      cases hlookup : record.lookup c.name with
      | none => rfl
      | some v =>
        have hkeeps := h c hc v hlookup
        change (if v.isNull then none else some (c.name, c.kind.coerce v)) = some (c.name, v)
        rw [hkeeps.isNull_eq_false, (Kind.storesAs_iff.mp hkeeps.storesAs).2]
        rfl
    rwa [hsame] at hvalid

/-- The columns of a stored record that passes keep what comes back. -/
lemma keeps_of_validate {P : Column → Prop} (hschema : schema.Sound P) {given : Record}
    (h : schema.validate isTaken true given = .ok record) : schema.Holds Column.Keeps record := by
  intro c hc v hv
  obtain ⟨verdict, hpasses, hlookup⟩ := lookup_of_validate hschema h c hc
  rw [hlookup] at hv
  cases hnull : (given.value c.name).isNull with
  | true =>
    rw [Column.value?_of_passes_updating hpasses, hnull] at hv
    cases hv
  | false =>
    obtain ⟨rfl, hkeeps⟩ := Column.keeps_of_passes hnull hpasses
    rwa [← Option.some.inj hv]

end Schema

namespace Table

variable {table : Table} {records : List (Int × Record)}

/-! ## Rows -/

/-- Every row passes as one that is being updated, and comes back as it is. -/
def PassesAgain (table : Table) : Prop :=
  ∀ entry ∈ table.rows, ∃ record, entry.2 = .record record ∧
    table.schema.validate (table.isTaken [entry.1]) true record = .ok record

/-- What holds in every state of a table that is made from descriptions, and of what its rows hold. -/
structure Filled (table : Table) (records : List (Int × Record)) : Prop where
  tidy : table.Tidy records
  /-- Every record has what is needed. -/
  needed : table.EachRecord table.schema.HasNeeded

/-- A value is not taken exactly if only the excluded rows hold it. -/
lemma Settled.isTaken_eq_false_iff (h : table.Settled records) {c : Column}
    (hc : c ∈ table.schema.columns) (hunique : c.isUnique = true) (excluded : List Int) {v : Value}
    (hhash : v.isHashable = true) (hpresent : v.isNull = false) :
    table.isTaken (excluded.map .int) c.name v = false ↔
      ∀ entry ∈ records, (entry.2.value c.name == v) = true → entry.1 ∈ excluded := by
  obtain ⟨-, index, -, hindex, -, -⟩ :=
    h.steady.named.exists_index h.steady.schema h.indexed hc hunique
  rw [isTaken, hindex]
  dsimp only
  rw [h.lists.ids_of_index? h.steady hindex, hpresent, hhash]
  simp [idsOf, Entries.keys]

/-- A record of a table passes again exactly if the columns keep what it holds and no other record holds the
same in a unique column. -/
lemma Filled.validate_eq_self_iff (h : table.Filled records) {entry : Int × Record}
    (hentry : entry ∈ records) :
    table.schema.validate (table.isTaken [.int entry.1]) true entry.2 = .ok entry.2 ↔
      table.schema.Holds Column.Keeps entry.2 ∧
        ∀ c ∈ table.schema.columns, c.isUnique = true → (entry.2.value c.name).isNull = false →
          ∀ other ∈ records, (other.2.value c.name == entry.2.value c.name) = true →
            other.1 ∈ [entry.1] := by
  have hsettled := h.tidy.settled
  have hsound := hsettled.described
  have hholds := hsettled.holds hentry
  have hneeded := (eachRecord_iff hsettled.lists.rows).mp h.needed entry hentry
  rw [Schema.validate_updating_iff hsound, Schema.validate_eq_self_iff hsound
    h.tidy.built.canonical (h.tidy.orders hentry) hneeded
    fun c hc v hv => Kind.isNull_of_isCanonical (hholds c hc v hv)]
  refine and_congr_right fun _ => forall₂_congr fun c hc => forall₂_congr fun hunique hpresent => ?_
  have hhash := (isHashable_value hholds hc (hsettled.isIndexable hc hunique)).1
  exact hsettled.isTaken_eq_false_iff hc hunique [entry.1] hhash hpresent

/-- The rows of a table pass again exactly if the columns keep what they hold and they hold different
values in unique columns. -/
theorem Filled.passesAgain_iff (h : table.Filled records) :
    table.PassesAgain ↔
      table.EachRecord (table.schema.Holds Column.Keeps) ∧ table.KeysDistinct := by
  have hsettled := h.tidy.settled
  have hrows := hsettled.lists.rows
  have hpass : table.PassesAgain ↔ ∀ entry ∈ records,
      table.schema.validate (table.isTaken [.int entry.1]) true entry.2 = .ok entry.2 := by
    rw [PassesAgain, hrows, rowsOf, List.forall_mem_map]
    simp
  rw [hpass, hsettled.keysDistinct_iff, eachRecord_iff hrows]
  constructor
  · intro hall
    have hboth := fun entry hentry => (h.validate_eq_self_iff hentry).mp (hall entry hentry)
    refine ⟨fun entry hentry => (hboth entry hentry).1, fun c hc hunique a ha b hb hab hpresent => ?_⟩
    rw [Bool.eq_false_iff]
    intro hsame
    have hhash := (isHashable_value (hsettled.holds ha) hc (hsettled.isIndexable hc hunique)).1
    rw [Value.beq_comm hhash] at hsame
    have hid := (hboth a ha).2 c hc hunique hpresent b hb hsame
    exact hab (List.mem_singleton.mp hid).symm
  · rintro ⟨hkeeps, hapart⟩ entry hentry
    refine (h.validate_eq_self_iff hentry).mpr ⟨hkeeps entry hentry, ?_⟩
    intro c hc hunique hpresent other hother hsame
    rw [List.mem_singleton]
    by_contra hne
    have hnull := (Value.isNull_congr hsame).trans hpresent
    rw [hapart c hc hunique other hother entry hentry hne hnull] at hsame
    cases hsame

/-! ## What is filled in -/

/-- Inserting a value fills no column with what the column does not keep. -/
def FillsKept (table : Table) (v : Value) : Prop :=
  ∀ record, table.Admits v record → ∀ c ∈ table.schema.columns,
    ((given v).value c.name).isNull = true → ∀ w, record.lookup c.name = some w → c.Keeps w

/-- The columns keep what an admitted record holds if they keep what has been filled in. -/
lemma FillsKept.holds {P : Column → Prop} (hschema : table.schema.Sound P) {v : Value}
    (h : table.FillsKept v) {record : Record} (hadmits : table.Admits v record) :
    table.schema.Holds Column.Keeps record := by
  intro c hc w hw
  cases hgiven : ((given v).value c.name).isNull with
  | true => exact h record hadmits c hc hgiven w hw
  | false =>
    obtain ⟨verdict, hpasses, hlookup⟩ := passes_of_admits hschema hadmits hc hgiven
    obtain ⟨rfl, hkeeps⟩ := Column.keeps_of_passes hgiven hpasses
    rw [hlookup] at hw
    rwa [← Option.some.inj hw]

/-- The columns keep what the records of a prepared update hold. -/
lemma keeps_of_prepareUpdate {P : Column → Prop} (hschema : table.schema.Sound P)
    {conditions patch : Value} {staged : List (RowId × Record)}
    (h : table.prepareUpdate conditions patch = .ok staged) :
    ∀ entry ∈ staged, table.schema.Holds Column.Keeps entry.2 := by
  intro entry hentry
  obtain ⟨isTaken, given, hvalid⟩ := exists_validate_of_prepareUpdate h entry hentry
  exact Schema.keeps_of_validate hschema hvalid

/-- After an insertion the columns keep what the rows hold exactly if they keep what is filled in. -/
lemma Settled.keeps_insert_iff (h : table.Settled records)
    (hkeeps : table.EachRecord (table.schema.Holds Column.Keeps)) (v : Value) :
    (table.insert v).table.EachRecord (table.schema.Holds Column.Keeps) ↔ table.FillsKept v := by
  constructor
  · intro hafter record hadmits c hc _ w hw
    rw [h.table_insert hadmits] at hafter
    obtain ⟨next, -, -, hlists⟩ := h.lists.appended h.steady (h.steady.holds_of_admits hadmits)
    exact (eachRecord_iff hlists.rows).mp hafter (next, record) (by simp) c hc w hw
  · exact fun hfills => hkeeps.insert fun record hadmits => hfills.holds h.described hadmits

/-- A table that is made from descriptions has no rows, and so they are filled. -/
lemma filled_of_create {source : SchemaSource} (hsource : source.IsDescribed) {name directory : String}
    {effects : List Effect} (h : Table.create name source directory = .ok (table, effects)) :
    table.Filled [] := by
  have htidy := tidy_of_create hsource h
  refine ⟨htidy, (eachRecord_iff htidy.settled.lists.rows).mpr nofun⟩

/-- Requests keep rows filled. -/
lemma Filled.run (h : table.Filled records) (requests : List Request) :
    ∃ records', (table.run requests).Filled records' := by
  have hreaches := h.tidy.settled.steady.reaches_run requests
  generalize table.run requests = after at hreaches
  induction hreaches with
  | refl => exact ⟨records, h⟩
  | tail _ hstep ih =>
    obtain ⟨listed, hfilled⟩ := ih
    obtain ⟨records', htidy⟩ := hfilled.tidy.step hstep
    have hsound := hfilled.tidy.settled.described
    refine ⟨records', htidy, ?_⟩
    rw [hstep.schema_eq]
    exact hstep.eachRecord hfilled.needed
      (fun _ _ hadmits _ hc hneeded => isSome_of_admits hsound hadmits hc hneeded)
      fun _ _ _ hstaged entry hentry _ hc hneeded =>
        isSome_of_prepareUpdate hsound hstaged hc hneeded entry hentry

/-! ## Refusals -/

/-- A comparison only ends with a fault that is no refusal. -/
lemma isRefusal_of_holds {operator : Operator} {v operand : Value} {fault : Fault}
    (h : operator.holds v operand = .error fault) : fault.isRefusal = false := by
  have hlike : ∀ {fault : Fault}, Operator.isLike v operand = .error fault →
      fault.isRefusal = false := by
    intro fault h
    rcases Outcome.seq_eq_error.mp h with hpattern | ⟨pattern, -, h⟩
    · exact Value.isRefusal_of_display hpattern
    rcases Outcome.seq_eq_error.mp h with hshown | ⟨shown, -, h⟩
    · exact Value.isRefusal_of_display hshown
    · cases h
  unfold Operator.holds at h
  repeat' split at h
  all_goals first | exact hlike h | cases h

/-- Trying predicates only ends with a fault that is no refusal. -/
lemma isRefusal_of_allHold {row : Row} {predicates : List Predicate} {fault : Fault}
    (h : Predicate.allHold row predicates = .error fault) : fault.isRefusal = false := by
  induction predicates with
  | nil => cases h
  | cons predicate rest ih =>
    rcases Outcome.seq_eq_error.mp h with hholds | ⟨holds, -, h⟩
    · rcases Outcome.seq_eq_error.mp hholds with hvalue | ⟨v, -, hholds⟩
      · cases row with
        | record entries => cases hvalue
        | other v =>
          obtain rfl := Except.error.inj hvalue
          rfl
      · exact isRefusal_of_holds hholds
    · cases holds with
      | true => exact ih h
      | false => cases h

/-- A scan only ends with a fault that is no refusal. -/
lemma isRefusal_of_scanFor {predicates : List Predicate} {rows : List (RowId × Row)} {fault : Fault}
    (h : scanFor predicates rows = .error fault) : fault.isRefusal = false := by
  induction rows with
  | nil => cases h
  | cons entry rest ih =>
    rcases Outcome.seq_eq_error.mp h with hmatched | ⟨matched, -, h⟩
    · exact isRefusal_of_allHold hmatched
    rcases Outcome.seq_eq_error.mp h with hothers | ⟨others, -, h⟩
    · exact ih hothers
    · cases h

/-- Matching only ends with a fault that is no refusal. -/
lemma isRefusal_of_matching {conditions : Value} {fault : Fault}
    (h : table.matching conditions = .error fault) : fault.isRefusal = false := by
  unfold matching at h
  split at h
  · split at h
    · rw [matchPredicates] at h
      split at h
      · cases h
      · exact isRefusal_of_scanFor h
    · obtain rfl := Except.error.inj h
      rfl
  · cases h

/-- What is refused of a record in a column is about the column. -/
lemma isAbout_of_broken {column : Column} {isTaken : TakenTest} {verdict : Verdict}
    {broken : List Violation} (h : verdict.broken column isTaken = .ok broken) :
    ∀ violation ∈ broken, violation.IsAbout column := by
  cases verdict with
  | missing =>
    obtain rfl := Except.ok.inj h
    simpa using Violation.IsAbout.missing
  | wrongKind =>
    obtain rfl := Except.ok.inj h
    simpa using Violation.IsAbout.wrongKind
  | tooLong size =>
    obtain ⟨shown, -, rfl⟩ := Outcome.map_eq_ok.mp h
    simpa using Violation.IsAbout.tooLong shown
  | stored v =>
    obtain rfl := Except.ok.inj h
    split
    · simpa using Violation.IsAbout.duplicate
    · exact nofun
  | _ =>
    obtain rfl := Except.ok.inj h
    exact nofun

/-- A violation that is found in checking columns is found by the verdict of one of them. -/
lemma exists_of_mem_checkColumns {isTaken : TakenTest} {updating : Bool} {valueOf : Value → Value}
    {columns : List Column} {record : Record} {all : List Violation}
    (h : Schema.checkColumns isTaken updating valueOf columns = .ok (record, all)) :
    ∀ violation ∈ all, ∃ c ∈ columns, ∃ verdict broken,
      c.verdict updating (valueOf c.name) = .ok verdict ∧
        verdict.broken c isTaken = .ok broken ∧ violation ∈ broken := by
  induction columns generalizing record all with
  | nil =>
    cases h
    exact nofun
  | cons column rest ih =>
    obtain ⟨verdict, hverdict, h⟩ := Outcome.seq_eq_ok.mp h
    obtain ⟨broken, hbroken, h⟩ := Outcome.seq_eq_ok.mp h
    obtain ⟨⟨others, more⟩, hrest, h⟩ := Outcome.seq_eq_ok.mp h
    obtain ⟨-, rfl⟩ := Prod.mk.inj (Outcome.pure_eq_ok.mp h)
    intro violation hviolation
    rcases List.mem_append.mp hviolation with hown | hother
    · exact ⟨column, List.mem_cons_self, verdict, broken, hverdict, hbroken, hown⟩
    · obtain ⟨c, hc, hfound⟩ := ih hrest violation hother
      exact ⟨c, List.mem_cons_of_mem _ hc, hfound⟩

/-- What the merge of a row with a patch is refused for is about columns that the patch names, if the row
passes again. -/
lemma isAbout_of_validate {schema : Schema} {P : Column → Prop} (hschema : schema.Sound P)
    {isTaken isTaken' : TakenTest} (hfree : ∀ c v, isTaken' c v = false → isTaken c v = false)
    {record changes : Record} (hkeys : ∀ entry ∈ changes, entry.1.isHashable = true)
    (hpasses : schema.validate isTaken' true record = .ok record) {all : List Violation}
    (hrefused : schema.validate isTaken true (merge record changes) = .error (.violations all)) :
    ∀ violation ∈ all, ∃ c ∈ schema.columns, Entries.has c.name changes = true ∧
      violation.IsAbout c := by
  intro violation hviolation
  obtain ⟨⟨checked, hchecked⟩, -⟩ := Schema.validate_eq_violations_iff.mp hrefused
  obtain ⟨c, hc, verdict, broken, hverdict, hbroken, hmem⟩ :=
    exists_of_mem_checkColumns hchecked violation hviolation
  refine ⟨c, hc, ?_, isAbout_of_broken hbroken violation hmem⟩
  by_contra hnot
  rw [value_merge_of_has_eq_false hkeys (Bool.eq_false_iff.mpr hnot)] at hverdict
  -- what the column holds has passed before, and is not taken by others
  obtain ⟨verdict', hbefore, -⟩ := Schema.lookup_of_validate hschema hpasses c hc
  obtain rfl := Except.ok.inj (hbefore.1.symm.trans hverdict)
  obtain ⟨huntaken, hothers⟩ := Column.passes_iff_untaken.mp hbefore
  have hnone := (Column.passes_iff_untaken.mpr
    ⟨huntaken, fun hunique w hw => hfree _ _ (hothers hunique w hw)⟩).2
  obtain rfl := Except.ok.inj (hnone.symm.trans hbroken)
  cases hmem

/-- An update by a patch whose keys are columns is refused only for what is about columns that the patch
names. -/
def BlamesPatch (table : Table) (conditions : Value) (changes : Record) : Prop :=
  (∀ entry ∈ changes, table.schema.has entry.1 = true) → ∀ all,
    (table.update conditions (.map changes)).result = .error (.violations all) →
      ∀ violation ∈ all, ∃ c ∈ table.schema.columns, Entries.has c.name changes = true ∧
        violation.IsAbout c

/-- What is not taken by rows other than one is not taken by rows other than some with that one. -/
lemma isTaken_of_mem {id : RowId} {excluded : List RowId} (hid : id ∈ excluded) {column v : Value}
    (h : table.isTaken [id] column v = false) : table.isTaken excluded column v = false := by
  rw [isTaken] at h ⊢
  split at h
  · refine List.any_eq_false.mpr fun other hother => ?_
    have hsame := List.any_eq_false.mp h other hother
    rw [Bool.not_eq_true, Bool.not_eq_false'] at hsame ⊢
    obtain ⟨same, hsame, hbeq⟩ := List.contains_iff_exists_mem_beq.mp hsame
    obtain rfl := List.mem_singleton.mp hsame
    exact List.contains_iff_exists_mem_beq.mpr ⟨same, hid, hbeq⟩
  · rfl

/-- A patch whose keys are columns passes the check of its keys. -/
lemma checkKeys_of_has {schema : Schema} {P : Column → Prop} (hschema : schema.Sound P)
    {keys : List Value} (hknown : ∀ key ∈ keys, schema.has key = true) :
    checkKeys schema keys = .ok () := by
  refine checkKeys_eq_ok_iff.mpr fun key hkey => ⟨?_, hknown key hkey⟩
  obtain ⟨c, hc, hsame⟩ := List.any_eq_true.mp (hknown key hkey)
  exact (Value.isHashable_congr hsame).symm.trans (hschema.hashable c hc)

/-- A change of the primary key is not refused for violations. -/
lemma checkKeyChange_ne_violations {patch : Value} {targets : List RowId} {all : List Violation} :
    table.checkKeyChange patch targets ≠ .error (.violations all) := by
  intro h
  rw [checkKeyChange] at h
  split at h
  · cases h
  rcases Outcome.seq_eq_error.mp h with hpatch | ⟨changes, -, h⟩
  · cases patch <;> cases hpatch
  dsimp only at h
  split at h
  · cases h
  rcases Outcome.seq_eq_error.mp h with haccepts | ⟨accepted, -, h⟩
  · rcases Kind.accepts_cases _ _ with ⟨hover, -⟩ | ⟨⟨accepted, hok⟩, -⟩
    · cases hover.symm.trans haccepts
    · cases hok.symm.trans haccepts
  rcases Outcome.seq_eq_error.mp h with hholders | ⟨holders, -, h⟩
  · cases isRefusal_of_matching hholders
  · split at h <;> cases h

/-- If staging breaks off, it is at the merge of a row. -/
lemma exists_of_stage_eq_error {changes : Record} {isTaken : TakenTest} {ids : List RowId}
    {fault : Fault} (hids : ∀ id ∈ ids, ∃ record, table.recordAt id = .ok record)
    (h : table.stage (.map changes) isTaken ids = .error fault) :
    ∃ id ∈ ids, ∃ record, table.recordAt id = .ok record ∧
      table.schema.validate isTaken true (merge record changes) = .error fault := by
  induction ids with
  | nil => cases h
  | cons id rest ih =>
    obtain ⟨⟨record, hrecord⟩, hids⟩ := List.forall_mem_cons.mp hids
    rcases Outcome.seq_eq_error.mp h with hfault | ⟨old, hold, h⟩
    · cases hrecord.symm.trans hfault
    obtain rfl := Except.ok.inj (hrecord.symm.trans hold)
    rcases Outcome.seq_eq_error.mp h with hfault | ⟨changes', hchanges, h⟩
    · cases hfault
    obtain rfl := Except.ok.inj hchanges
    rcases Outcome.seq_eq_error.mp h with hfault | ⟨merged, -, h⟩
    · exact ⟨id, List.mem_cons_self, record, hrecord, hfault⟩
    rcases Outcome.seq_eq_error.mp h with hfault | ⟨others, -, h⟩
    · obtain ⟨other, hother, hfound⟩ := ih hids hfault
      exact ⟨other, List.mem_cons_of_mem _ hother, hfound⟩
    · cases h

/-- Staged records are refused only for a unique column that the patch names. -/
lemma exists_of_checkStaged_eq_error {changes : Record} {staged : List (RowId × Record)}
    {columns : List Value} {fault : Fault} (h : checkStaged changes staged columns = .error fault) :
    ∃ column ∈ columns, Entries.has column changes = true ∧
      fault = .violations [.duplicate column.label] := by
  induction columns with
  | nil => cases h
  | cons column rest ih =>
    rw [checkStaged] at h
    dsimp only at h
    split at h
    · rename_i hrepeat
      exact ⟨column, List.mem_cons_self, (Bool.and_eq_true _ _ ▸ hrepeat).1,
        (Except.error.inj h).symm⟩
    · obtain ⟨other, hother, hfound⟩ := ih h
      exact ⟨other, List.mem_cons_of_mem _ hother, hfound⟩

/-- If an update by columns is refused for violations, they are those of the merge of a row that matches, or
that of a unique column in which rows would be equal. -/
lemma Settled.prepareUpdate_eq_violations (h : table.Settled records) {conditions : Value}
    {changes : Record} (hknown : ∀ entry ∈ changes, table.schema.has entry.1 = true)
    {all : List Violation}
    (hrefused : table.prepareUpdate conditions (.map changes) = .error (.violations all)) :
    (∃ is : List Int, ∃ i ∈ is, ∃ record, (i, record) ∈ records ∧
        table.schema.validate (table.isTaken (is.map .int)) true (merge record changes) =
          .error (.violations all)) ∨
      ∃ column ∈ table.schema.uniqueNames, Entries.has column changes = true ∧
        all = [.duplicate column.label] := by
  have hchecked : checkKeys table.schema (Entries.keys changes) = .ok () :=
    checkKeys_of_has h.described (List.forall_mem_map.mpr hknown)
  rcases Outcome.seq_eq_error.mp hrefused with hkeys | ⟨keys, hkeys, hrefused⟩
  · cases hkeys
  obtain rfl : Entries.keys changes = keys := Except.ok.inj hkeys
  rcases Outcome.seq_eq_error.mp hrefused with hfault | ⟨⟨⟩, -, hrefused⟩
  · cases hchecked.symm.trans hfault
  rcases Outcome.seq_eq_error.mp hrefused with hfault | ⟨targets, htargets, hrefused⟩
  · cases isRefusal_of_matching hfault
  obtain ⟨is, rfl, -, hids⟩ := h.lists.matching_eq_ok h.steady htargets
  split at hrefused
  · cases hrefused
  rcases Outcome.seq_eq_error.mp hrefused with hfault | ⟨⟨⟩, -, hrefused⟩
  · exact absurd hfault checkKeyChange_ne_violations
  rcases Outcome.seq_eq_error.mp hrefused with hfault | ⟨staged, -, hrefused⟩
  · obtain ⟨id, hid, record, hrecord, hmerged⟩ :=
      exists_of_stage_eq_error (h.recordAt_of_matching htargets) hfault
    obtain ⟨i, hi, rfl⟩ := List.mem_map.mp hid
    exact Or.inl ⟨is, i, hi, record, mem_of_recordAt h.lists.rows hrecord, hmerged⟩
  rcases Outcome.seq_eq_error.mp hrefused with hfault | ⟨changes', hchanges, hrefused⟩
  · cases hfault
  obtain rfl := Except.ok.inj hchanges
  rcases Outcome.seq_eq_error.mp hrefused with hfault | ⟨⟨⟩, -, hrefused⟩
  · obtain ⟨column, hcolumn, hhas, heq⟩ := exists_of_checkStaged_eq_error hfault
    exact Or.inr ⟨column, hcolumn, hhas, Fault.violations.inj heq⟩
  · cases hrefused

/-- If rows pass again, updates are refused only for what their patches name. -/
theorem Settled.blamesPatch (h : table.Settled records) (hpasses : table.PassesAgain)
    (conditions : Value) (changes : Record) : table.BlamesPatch conditions changes := by
  intro hknown all hrefused
  have hprepare : table.prepareUpdate conditions (.map changes) = .error (.violations all) := by
    unfold update at hrefused
    split at hrefused
    · rename_i fault hfault
      rw [hfault, Except.error.inj hrefused]
    · cases hrefused
    · rename_i staged _ hstaged
      simp only [h.steady.replaceRows_eq (h.steady.holds_of_prepareUpdate hstaged)] at hrefused
      cases hrefused
  rcases h.prepareUpdate_eq_violations hknown hprepare with
    ⟨is, i, hi, record, hrecord, hmerged⟩ | ⟨column, hcolumn, hhas, rfl⟩
  · obtain ⟨same, hsame, hpass⟩ := hpasses _ (h.lists.mem_rows hrecord)
    obtain rfl := Row.record.inj hsame
    have hchecked : checkKeys table.schema (Entries.keys changes) = .ok () :=
      checkKeys_of_has h.described (List.forall_mem_map.mpr hknown)
    exact isAbout_of_validate h.described (fun _ _ => isTaken_of_mem (List.mem_map_of_mem hi))
      (fun entry hentry => (checkKeys_eq_ok_iff.mp hchecked _ (List.mem_map_of_mem hentry)).1)
      hpass hmerged
  · obtain ⟨c, hc, rfl⟩ := List.mem_map.mp hcolumn
    intro violation hviolation
    obtain rfl := List.mem_singleton.mp hviolation
    exact ⟨c, (List.mem_filter.mp hc).1, hhas, .duplicate⟩

/-! ## Every state -/

/-- In the states of a table whose columns have been described by mappings, whatever has been asked of it
and with whatever outcome, the rows pass again and updates are refused only for what their patches name,
exactly as long as no insertion fills a column with what it does not keep, or a unique column with what a
row holds already. -/
theorem passesAgain_run_iff {source : SchemaSource} (hsource : source.IsDescribed)
    {name directory : String} {created : Table} {effects : List Effect}
    (hcreate : Table.create name source directory = .ok (created, effects))
    (requests : List Request) :
    (∀ done, done <+: requests → (created.run done).PassesAgain ∧
        ∀ conditions changes, (created.run done).BlamesPatch conditions changes) ↔
      ∀ done v rest, requests = done ++ .insert v :: rest →
        (created.run done).FillsKept v ∧ (created.run done).FillsFresh v := by
  have hcreated := filled_of_create hsource hcreate
  have hschema : ∀ done, (created.run done).schema = created.schema := fun done =>
    (hcreated.tidy.settled.steady.reaches_run done).schema_eq
  have hgood : ∀ done, ((created.run done).PassesAgain ∧
      ∀ conditions changes, (created.run done).BlamesPatch conditions changes) ↔
        (created.run done).EachRecord (created.schema.Holds Column.Keeps) ∧
          (created.run done).KeysDistinct := by
    intro done
    obtain ⟨records, hdone⟩ := hcreated.run done
    rw [← hschema done, ← hdone.passesAgain_iff]
    exact ⟨And.left, fun hpasses => ⟨hpasses, hdone.tidy.settled.blamesPatch hpasses⟩⟩
  simp only [hgood]
  refine forall_run_iff
    (fun table => table.EachRecord (created.schema.Holds Column.Keeps) ∧ table.KeysDistinct)
    (fun table v => table.FillsKept v ∧ table.FillsFresh v)
    ⟨(eachRecord_iff hcreated.tidy.settled.lists.rows).mpr nofun,
      hcreated.tidy.settled.keysDistinct_iff.mpr fun c _ _ a ha => nomatch ha⟩
    (fun done hbefore v => ?_) (fun done hbefore request hother => ?_) requests
  · obtain ⟨records, hdone⟩ := hcreated.run done
    have hsettled := hdone.tidy.settled
    rw [← hschema done] at hbefore ⊢
    exact and_congr (hsettled.keeps_insert_iff hbefore.1 v)
      (hsettled.keysDistinct_insert_iff hbefore.2 v)
  · obtain ⟨records, hdone⟩ := hcreated.run done
    have hsettled := hdone.tidy.settled
    rw [← hschema done] at hbefore ⊢
    exact ⟨hbefore.1.reply (fun v hv => absurd hv (hother v))
        fun _ _ _ hstaged => keeps_of_prepareUpdate hsettled.described hstaged,
      hsettled.keysDistinct_reply hbefore.2 fun v hv => absurd hv (hother v)⟩

/-- In a table with a unique column of numbers and a column of texts the rows pass again as long as no
insertion fills the first one with a number that is there. -/
theorem passesAgain_run_iff_twoColumns : ∃ created effects,
    Table.create "t" twoColumns "d" = .ok (created, effects) ∧
      ((∀ done, done <+: requestsOnTwo → (created.run done).PassesAgain ∧
          ∀ conditions changes, (created.run done).BlamesPatch conditions changes) ↔
        ∀ done v rest, requestsOnTwo = done ++ .insert v :: rest →
          (created.run done).FillsKept v ∧ (created.run done).FillsFresh v) :=
  ⟨_, _, rfl, passesAgain_run_iff isDescribed_twoColumns rfl requestsOnTwo⟩

/-- The columns of a small table: a text of at most two characters with a default of three, and a
number. -/
def longDefault : SchemaSource :=
  .columns
    [(.text "a", .described (.map [(.text "size", .int 2), (.text "defaultValue", .text "abc")])),
      (.text "b", .described (.map [(.text "type", .text "number")]))]

/-- After an insertion that leaves the text out, an update of the number is refused because the text is too
long. -/
theorem not_blamesPatch_longDefault : ∃ created effects,
    longDefault.IsDescribed ∧ Table.create "t" longDefault "d" = .ok (created, effects) ∧
      ¬(created.run [.insert (.map [(.text "b", .int 1)])]).BlamesPatch (.map [])
        [(.text "b", .int 2)] := by
  refine ⟨_, _, by simp [longDefault, SchemaSource.IsDescribed], rfl, fun hblames => ?_⟩
  obtain ⟨c, hc, hnamed, habout⟩ :=
    hblames (by simp; rfl) [.tooLong "a" "2"] (by decide +kernel) _ List.mem_cons_self
  fin_cases hc
  · cases hnamed
  · exact absurd habout.label_eq (by decide)

end Table

end RecordStore
