import Mathlib.Logic.Relation
import RecordStore.Proofs.Table.Steady

/-!
# Steps of a table

What one operation can do to a steady table: append a record that has been admitted, replace the
rows that an update has prepared, remove matching rows, put an index on a column or take one off.
Every operation, whether it succeeds or not, is one of these steps or does nothing, and an operation
that fails has done nothing at all, unless it is a deletion that has come upon an id without a row.

What holds of all tables that are reached is proved once for each kind of step.
-/

namespace RecordStore

namespace Table

/-- A value is admitted as a record: it passes validation and is completed. -/
def Admits (table : Table) (v : Value) (record : Record) : Prop :=
  ∃ checked, table.schema.validateValue (table.isTaken []) v = .ok checked ∧
    table.complete checked = .ok record

/-- The record that is given by a value. -/
def given (v : Value) : Record :=
  match v with
  | .map record => record
  | _ => []

/-- What one operation can do to a table. -/
inductive Step (table : Table) : Table → Prop where
  | idle : Step table table
  | append {v : Value} {record : Record} (h : table.Admits v record) :
      Step table (table.appended record)
  | replace {conditions patch : Value} {staged : List (RowId × Record)}
      (h : table.prepareUpdate conditions patch = .ok staged) :
      Step table (table.replacedAll staged)
  | remove {conditions : Value} {targets : List RowId}
      (h : table.matching conditions = .ok targets) {ids : List RowId} (hids : ids <+: targets) :
      Step table (table.removedAll ids)
  | index {column : Value} {index : Index} (hcolumn : column.isHashable = true)
      (hindexable :
        ∃ c ∈ table.schema.columns, (column == c.name) = true ∧ c.kind.isIndexable = true)
      (hindex : Index.ofRows column table.rows = .ok index) :
      Step table (table.withIndex column index)
  | unindex {column : Value} (hcolumn : column.isHashable = true)
      (hfree : table.schema.uniqueNames.contains column = false) :
      Step table (table.withoutIndex column)

/-- A table is reached from another one by steps. -/
abbrev Reaches : Table → Table → Prop :=
  Relation.ReflTransGen Step

variable {table table' : Table}

/-! ## What has been checked -/

/-- An admitted record is a validated one that has been completed. -/
lemma exists_validate_of_admits {v : Value} {record : Record}
    (h : table.Admits v record) :
    ∃ checked, table.schema.validate (table.isTaken []) false (given v) = .ok checked ∧
      table.complete checked = .ok record := by
  obtain ⟨checked, hchecked, hcomplete⟩ := h
  refine ⟨checked, ?_, hcomplete⟩
  unfold Schema.validateValue at hchecked
  split at hchecked
  · exact hchecked
  · split at hchecked
    · rename_i hnone
      obtain rfl := Except.ok.inj hchecked
      rw [Schema.validate, Schema.validateValues, List.isEmpty_iff.mp hnone]
      rfl
    · cases hchecked

/-- What an admitted record holds has every property of accepted values, defaults and next
numbers. -/
lemma holds_of_admits {P : Column → Prop} (hschema : table.schema.Sound P)
    {Q : Column → Value → Prop}
    (haccepted : ∀ c v, c.kind.accepts v = .ok true → Q c (c.kind.coerce v))
    (hdefault : ∀ c, P c → ∀ v, c.defaultValue = some v → Q c v)
    (hnumber : ∀ c ∈ table.schema.columns, c.isNumbered = true → ∀ v,
      table.nextNumber c.name = .ok v → Q c v)
    {v : Value} {record : Record} (h : table.Admits v record) :
    table.schema.Holds Q record := by
  obtain ⟨checked, hchecked, hcomplete⟩ := exists_validate_of_admits h
  exact holds_of_complete hschema hnumber
    (Schema.holds_of_validate hschema haccepted (fun _ => hdefault) hchecked) hcomplete

/-- The staged records are what the rows under the ids become under the patch. -/
lemma stage_eq_ok_iff {patch : Value} {isTaken : TakenTest} {ids : List RowId}
    {staged : List (RowId × Record)} :
    table.stage patch isTaken ids = .ok staged ↔
      staged.map (·.1) = ids ∧ ∀ entry ∈ staged, ∃ old changes,
        table.recordAt entry.1 = .ok old ∧ patchRecord patch = .ok changes ∧
          table.schema.validate isTaken true (merge old changes) = .ok entry.2 := by
  induction ids generalizing staged with
  | nil =>
    constructor
    · intro h
      cases h
      exact ⟨rfl, by simp⟩
    · rintro ⟨hnone, -⟩
      rw [List.map_eq_nil_iff.mp hnone]
      rfl
  | cons id rest ih =>
    constructor
    · intro h
      obtain ⟨old, hold, h⟩ := Outcome.seq_eq_ok.mp h
      obtain ⟨changes, hchanges, h⟩ := Outcome.seq_eq_ok.mp h
      obtain ⟨record, hrecord, h⟩ := Outcome.seq_eq_ok.mp h
      obtain ⟨others, hothers, h⟩ := Outcome.seq_eq_ok.mp h
      obtain rfl := Outcome.pure_eq_ok.mp h
      obtain ⟨hids, hall⟩ := ih.mp hothers
      refine ⟨by rw [List.map_cons, hids], List.forall_mem_cons.mpr ⟨?_, hall⟩⟩
      exact ⟨old, changes, hold, hchanges, hrecord⟩
    · rintro ⟨hids, hall⟩
      obtain ⟨entry, others, rfl, rfl, hothers⟩ := List.map_eq_cons_iff.mp hids
      obtain ⟨⟨old, changes, hold, hchanges, hrecord⟩, hrest⟩ := List.forall_mem_cons.mp hall
      refine Outcome.seq_eq_ok.mpr ⟨old, hold, Outcome.seq_eq_ok.mpr ⟨changes, hchanges, ?_⟩⟩
      refine Outcome.seq_eq_ok.mpr ⟨entry.2, hrecord, Outcome.seq_eq_ok.mpr ⟨others, ?_, rfl⟩⟩
      exact ih.mpr ⟨hothers, hrest⟩

/-- The keys of a patch are passed exactly if they can be keys and are columns. -/
lemma checkKeys_eq_ok_iff {schema : Schema} {keys : List Value} :
    checkKeys schema keys = .ok () ↔
      ∀ key ∈ keys, key.isHashable = true ∧ schema.has key = true := by
  constructor
  · intro h key hkey
    obtain ⟨unknown, hunknown, h⟩ := Outcome.seq_eq_ok.mp h
    obtain ⟨broken, hbroken, h⟩ := Outcome.seq_eq_ok.mp h
    rw [unknownKeys] at hunknown
    split at hunknown
    · rename_i hall
      obtain rfl := Except.ok.inj hunknown
      refine ⟨List.all_eq_true.mp hall key hkey, ?_⟩
      by_contra hnew
      have hmem : key ∈ keys.filter fun key => !schema.has key :=
        List.mem_filter.mpr ⟨hkey, by simpa using hnew⟩
      cases hlist : keys.filter fun key => !schema.has key with
      | nil =>
        rw [hlist] at hmem
        cases hmem
      | cons first rest =>
        rw [hlist, List.mapM_cons] at hbroken
        obtain ⟨violation, -, hbroken⟩ := Outcome.seq_eq_ok.mp hbroken
        obtain ⟨others, -, hbroken⟩ := Outcome.seq_eq_ok.mp hbroken
        obtain rfl := Outcome.pure_eq_ok.mp hbroken
        cases h
    · cases hunknown
  · intro h
    have hall : keys.all (·.isHashable) = true := List.all_eq_true.mpr fun key hkey => (h key hkey).1
    have hnone : (keys.filter fun key => !schema.has key) = [] :=
      List.filter_eq_nil_iff.mpr fun key hkey => by simp [(h key hkey).2]
    rw [checkKeys, unknownKeys, if_pos hall, hnone]
    rfl

/-- An update is prepared exactly if the patch names columns only and nothing matches, or all checks
are passed. -/
lemma prepareUpdate_eq_ok_iff {conditions patch : Value} {staged : List (RowId × Record)} :
    table.prepareUpdate conditions patch = .ok staged ↔
      ∃ keys targets, patchKeys patch = .ok keys ∧ checkKeys table.schema keys = .ok () ∧
        table.matching conditions = .ok targets ∧
          (targets = [] ∧ staged = [] ∨ targets ≠ [] ∧ ∃ changes, patch = .map changes ∧
            table.checkKeyChange patch targets = .ok () ∧
            table.stage patch (table.isTaken targets) targets = .ok staged ∧
            checkStaged changes staged table.schema.uniqueNames = .ok ()) := by
  constructor
  · intro h
    obtain ⟨keys, hkeys, h⟩ := Outcome.seq_eq_ok.mp h
    obtain ⟨⟨⟩, hchecked, h⟩ := Outcome.seq_eq_ok.mp h
    obtain ⟨targets, htargets, h⟩ := Outcome.seq_eq_ok.mp h
    refine ⟨keys, targets, hkeys, hchecked, htargets, ?_⟩
    split at h
    · rename_i hempty
      exact Or.inl ⟨List.isEmpty_iff.mp hempty, (Outcome.pure_eq_ok.mp h).symm⟩
    · rename_i hsome
      obtain ⟨⟨⟩, hkey, h⟩ := Outcome.seq_eq_ok.mp h
      obtain ⟨found, hstage, h⟩ := Outcome.seq_eq_ok.mp h
      obtain ⟨changes, hchanges, h⟩ := Outcome.seq_eq_ok.mp h
      obtain ⟨⟨⟩, hstaged, h⟩ := Outcome.seq_eq_ok.mp h
      obtain rfl := Outcome.pure_eq_ok.mp h
      have hpatch : patch = .map changes := by
        unfold patchRecord at hchanges
        split at hchanges
        · rw [Except.ok.inj hchanges]
        · cases hchanges
      refine Or.inr ⟨fun hnone => hsome ?_, changes, hpatch, hkey, hstage, hstaged⟩
      rw [hnone]
      rfl
  · rintro ⟨keys, targets, hkeys, hchecked, htargets, h⟩
    refine Outcome.seq_eq_ok.mpr ⟨keys, hkeys, Outcome.seq_eq_ok.mpr ⟨(), hchecked, ?_⟩⟩
    refine Outcome.seq_eq_ok.mpr ⟨targets, htargets, ?_⟩
    rcases h with ⟨rfl, rfl⟩ | ⟨hsome, changes, rfl, hkey, hstage, hstaged⟩
    · rfl
    · rw [if_neg (by simpa using hsome)]
      refine Outcome.seq_eq_ok.mpr ⟨(), hkey, Outcome.seq_eq_ok.mpr ⟨staged, hstage, ?_⟩⟩
      exact Outcome.seq_eq_ok.mpr ⟨changes, rfl, Outcome.seq_eq_ok.mpr ⟨(), hstaged, rfl⟩⟩

/-- An update that has been prepared matches nothing, or has passed all checks. -/
lemma prepareUpdate_eq_ok {conditions patch : Value} {staged : List (RowId × Record)}
    (h : table.prepareUpdate conditions patch = .ok staged) :
    staged = [] ∨ ∃ targets changes, table.matching conditions = .ok targets ∧
      patch = .map changes ∧ (∀ entry ∈ changes, entry.1.isHashable = true) ∧
      table.checkKeyChange patch targets = .ok () ∧
      table.stage patch (table.isTaken targets) targets = .ok staged ∧
      checkStaged changes staged table.schema.uniqueNames = .ok () := by
  obtain ⟨keys, targets, hkeys, hchecked, htargets, ⟨-, hnone⟩ | ⟨-, changes, rfl, hpassed⟩⟩ :=
    prepareUpdate_eq_ok_iff.mp h
  · exact Or.inl hnone
  · obtain rfl : changes.map (·.1) = keys := by simpa [patchKeys, Value.items?] using hkeys
    refine Or.inr ⟨targets, changes, htargets, rfl, fun entry hentry => ?_, hpassed⟩
    exact (checkKeys_eq_ok_iff.mp hchecked _ (List.mem_map_of_mem hentry)).1

/-- The records of a prepared update have been validated as rows that are stored already. -/
lemma exists_validate_of_prepareUpdate {conditions patch : Value} {staged : List (RowId × Record)}
    (h : table.prepareUpdate conditions patch = .ok staged) :
    ∀ entry ∈ staged, ∃ isTaken given, table.schema.validate isTaken true given = .ok entry.2 := by
  rcases prepareUpdate_eq_ok h with rfl | ⟨targets, changes, -, -, -, -, hstage, -⟩
  · exact nofun
  · intro entry hentry
    obtain ⟨old, changes', -, -, hvalid⟩ := (stage_eq_ok_iff.mp hstage).2 entry hentry
    exact ⟨_, _, hvalid⟩

/-- An update that succeeds has put the records that it has prepared in the places of their rows. -/
lemma update_eq_ok {conditions patch : Value} {n : Nat}
    (h : (table.update conditions patch).result = .ok n) :
    ∃ staged, table.prepareUpdate conditions patch = .ok staged ∧ staged.length = n ∧
      table.replaceRows staged = ((table.update conditions patch).table, none) := by
  unfold update at h ⊢
  split at h
  · cases h
  · rename_i hstaged
    obtain rfl : 0 = n := Except.ok.inj h
    exact ⟨[], hstaged, rfl, rfl⟩
  · rename_i staged _ hstaged
    split at h
    · cases h
    · rename_i table' hreplaced
      obtain rfl : staged.length = n := Except.ok.inj h
      exact ⟨staged, hstaged, rfl, by simp only [hreplaced]⟩

/-- What the records of a prepared update hold has every property of accepted values. -/
lemma holds_of_prepareUpdate {P : Column → Prop} (hschema : table.schema.Sound P)
    {Q : Column → Value → Prop}
    (haccepted : ∀ c v, c.kind.accepts v = .ok true → Q c (c.kind.coerce v))
    {conditions patch : Value} {staged : List (RowId × Record)}
    (h : table.prepareUpdate conditions patch = .ok staged) :
    ∀ entry ∈ staged, table.schema.Holds Q entry.2 := by
  intro entry hentry
  obtain ⟨isTaken, given, hvalid⟩ := exists_validate_of_prepareUpdate h entry hentry
  exact Schema.holds_of_validate hschema haccepted (fun hinserting => by cases hinserting) hvalid

/-- What a kind accepts is a key if the kind can be indexed. -/
lemma keyIn_of_accepts (c : Column) (v : Value) (h : c.kind.accepts v = .ok true) :
    KeyIn c (c.kind.coerce v) :=
  fun hkind => Value.isHashable_of_isPlain
    (Kind.isPlain_of_isCanonical hkind (Kind.isCanonical_coerce h))

/-- What an admitted record holds is a key where it has to be. -/
lemma Steady.holds_of_admits (h : table.Steady) {v : Value} {record : Record}
    (hadmits : table.Admits v record) : table.schema.Holds KeyIn record :=
  Table.holds_of_admits h.schema keyIn_of_accepts (fun _ hc v hv hkind => hc hkind v hv)
    (fun _ _ _ _ hnext _ => (isHashable_nextNumber hnext).2) hadmits

/-- What the records of a prepared update hold is a key where it has to be. -/
lemma Steady.holds_of_prepareUpdate (h : table.Steady) {conditions patch : Value}
    {staged : List (RowId × Record)} (hstaged : table.prepareUpdate conditions patch = .ok staged) :
    ∀ entry ∈ staged, table.schema.Holds KeyIn entry.2 :=
  Table.holds_of_prepareUpdate h.schema keyIn_of_accepts hstaged

/-! ## What every step keeps -/

/-- Replacing rows leaves everything but rows and indexes as it is. -/
lemma replacedAll_frame (staged : List (RowId × Record)) (table : Table) :
    (table.replacedAll staged).schema = table.schema ∧
      (table.replacedAll staged).nextRowId = table.nextRowId ∧
      Entries.keys (table.replacedAll staged).indexes = Entries.keys table.indexes := by
  induction staged generalizing table with
  | nil => exact ⟨rfl, rfl, rfl⟩
  | cons entry rest ih =>
    obtain ⟨hschema, hnext, hkeys⟩ := ih (table.replaced entry.1 entry.2)
    refine ⟨hschema, hnext, hkeys.trans ?_⟩
    simp [Entries.keys, replaced, entered, withRow, left]

/-- Removing rows leaves everything but rows and indexes as it is. -/
lemma removedAll_frame (ids : List RowId) (table : Table) :
    (table.removedAll ids).schema = table.schema ∧
      (table.removedAll ids).nextRowId = table.nextRowId ∧
      Entries.keys (table.removedAll ids).indexes = Entries.keys table.indexes := by
  induction ids generalizing table with
  | nil => exact ⟨rfl, rfl, rfl⟩
  | cons id rest ih =>
    obtain ⟨hschema, hnext, hkeys⟩ := ih (table.removed id)
    refine ⟨hschema, hnext, hkeys.trans ?_⟩
    simp [Entries.keys, removed, withoutRow, left]

/-- A step leaves the schema as it is. -/
lemma Step.schema_eq (h : Step table table') : table'.schema = table.schema := by
  cases h with
  | replace _ => exact (replacedAll_frame _ _).1
  | remove _ _ => exact (removedAll_frame _ _).1
  | _ => rfl

/-- A step leaves the columns of the indexes as they are, or the rows. -/
lemma Step.keys_or_rows (h : Step table table') :
    Entries.keys table'.indexes = Entries.keys table.indexes ∨
      table'.rows = table.rows ∧ table'.nextRowId = table.nextRowId := by
  cases h with
  | idle => exact Or.inl rfl
  | append _ => exact Or.inl (by simp [Entries.keys, appended, entered, withRow])
  | replace _ => exact Or.inl (replacedAll_frame _ _).2.2
  | remove _ _ => exact Or.inl (removedAll_frame _ _).2.2
  | index _ _ _ => exact Or.inr ⟨rfl, rfl⟩
  | unindex _ _ => exact Or.inr ⟨rfl, rfl⟩

/-- Steps leave the schema as it is. -/
lemma Reaches.schema_eq (h : Reaches table table') : table'.schema = table.schema := by
  induction h with
  | refl => rfl
  | tail _ hstep ih => rw [hstep.schema_eq, ih]

/-- A step keeps a table steady. -/
theorem Steady.step (h : table.Steady) (hstep : Step table table') : table'.Steady := by
  cases hstep with
  | idle => exact h
  | append hadmits => exact h.appended (h.holds_of_admits hadmits)
  | replace hstaged => exact h.replacedAll (h.holds_of_prepareUpdate hstaged)
  | remove _ _ => exact h.removedAll _
  | index hcolumn hindexable hindex => exact h.withIndex hcolumn hindexable hindex
  | unindex _ _ => exact h.withoutIndex _

/-- Steps keep a table steady. -/
theorem Steady.reaches (h : table.Steady) (hreaches : Reaches table table') : table'.Steady := by
  induction hreaches with
  | refl => exact h
  | tail _ hstep ih => exact ih.step hstep

/-! ## Operations are steps -/

/-- A record whose values are keys where they have to be is appended. -/
lemma Steady.append_eq (h : table.Steady) {record : Record}
    (hrecord : table.schema.Holds KeyIn record) : table.append record =
      ⟨.ok record, table.appended record, (table.appended record).saveAll ++
        [.note (.rowInserted table.nextRowId table.name)]⟩ := by
  have hindex : ({ table with nextRowId := table.nextRowId.successor }.withRow
      (.ofNumber table.nextRowId) (.record record)).indexRow (.ofNumber table.nextRowId)
        (.record record) = (table.appended record, none) := by
    refine indexRow_eq ?_ _
    exact h.hasKey_record hrecord
  simp only [append, hindex]
  rfl

/-- An insertion is refused, or appends a record that has been admitted. -/
theorem Steady.insert_cases (h : table.Steady) (v : Value) :
    (∃ fault, table.insert v = .refused table fault) ∨
      ∃ record effects, table.Admits v record ∧
        table.insert v = ⟨.ok record, table.appended record, effects⟩ := by
  rw [insert]
  split
  · rename_i record hadmitted
    have hadmits : table.Admits v record := Outcome.bind_eq_ok.mp hadmitted
    exact Or.inr ⟨record, _, hadmits, h.append_eq (h.holds_of_admits hadmits)⟩
  · rename_i fault _
    exact Or.inl ⟨fault, rfl⟩

/-- Rows are replaced by records whose values are keys where they have to be. -/
lemma Steady.replaceRows_eq {staged : List (RowId × Record)} (h : table.Steady)
    (hstaged : ∀ entry ∈ staged, table.schema.Holds KeyIn entry.2) :
    table.replaceRows staged = (table.replacedAll staged, none) := by
  induction staged generalizing table with
  | nil => rfl
  | cons entry rest ih =>
    obtain ⟨id, record⟩ := entry
    obtain ⟨hfirst, hrest⟩ := List.forall_mem_cons.mp hstaged
    have hkeys : ∀ entry ∈ ((table.left id ((table.row? id).getD (.record []))).withRow id
        (.record record)).indexes, (Row.record record).HasKey entry.2.column := by
      intro entry hentry
      obtain ⟨old, hold, rfl⟩ := List.mem_map.mp hentry
      rw [Index.leaveRow_column]
      exact h.hasKey_record hfirst old hold
    rw [replaceRows]
    simp only [unindexRow_eq (h.hasKey_row? id), indexRow_eq hkeys]
    exact ih (h.replaced hfirst id) hrest

/-- An update is refused, matches nothing, or replaces the rows that it has prepared. -/
theorem Steady.update_cases (h : table.Steady) (conditions patch : Value) :
    (∃ fault, table.update conditions patch = .refused table fault) ∨
      table.update conditions patch = .unchanged table 0 ∨
      ∃ staged effects, table.prepareUpdate conditions patch = .ok staged ∧
        table.update conditions patch =
          ⟨.ok staged.length, table.replacedAll staged, effects⟩ := by
  unfold update
  split
  · rename_i fault _
    exact Or.inl ⟨fault, rfl⟩
  · exact Or.inr (Or.inl rfl)
  · rename_i staged _ hstaged
    rw [h.replaceRows_eq (h.holds_of_prepareUpdate hstaged)]
    exact Or.inr (Or.inr ⟨staged, _, hstaged, rfl⟩)

/-- Removing the rows under some ids one after the other stops after the first of them: each of
these has a row when its turn comes, and the next one has none. -/
structure StopsAfter (table : Table) (ids before : List RowId) : Prop where
  /-- The ids before the one without a row have rows. -/
  present : ∀ done id rest, before = done ++ id :: rest →
    ((table.removedAll done).row? id).isSome = true
  /-- No row is left under the id that comes after them. -/
  missing : ∃ id after, ids = before ++ id :: after ∧ (table.removedAll before).row? id = none

/-- The rows that are removed are the first ones. -/
lemma StopsAfter.isPrefix {ids before : List RowId} (h : table.StopsAfter ids before) :
    before <+: ids := by
  obtain ⟨id, after, rfl, -⟩ := h.missing
  exact List.prefix_append _ _

/-- Removing rows stops later if a row that is there is to be removed first. -/
lemma StopsAfter.cons {id : RowId} {row : Row} (hrow : table.row? id = some row)
    {rest before : List RowId} (h : (table.removed id).StopsAfter rest before) :
    table.StopsAfter (id :: rest) (id :: before) := by
  obtain ⟨next, after, rfl, hnone⟩ := h.missing
  refine ⟨fun done other more hsplit => ?_, next, after, rfl, hnone⟩
  cases done with
  | nil =>
    obtain ⟨rfl, -⟩ := List.cons.inj hsplit
    exact Option.isSome_of_eq_some hrow
  | cons first done =>
    obtain ⟨rfl, hbefore⟩ := List.cons.inj hsplit
    exact h.present done other more hbefore

/-- A row that is there is removed first. -/
lemma Steady.removeRows_cons (h : table.Steady) {id : RowId} {row : Row}
    (hrow : table.row? id = some row) (rest : List RowId) :
    table.removeRows (id :: rest) = (table.removed id).removeRows rest := by
  have hkeys := h.hasKey_row? id
  rw [hrow, Option.getD_some] at hkeys
  have hremoved : (table.withoutRow id).unindexRow id row = (table.removed id, none) := by
    rw [Table.removed, hrow]
    refine unindexRow_eq ?_ id
    exact hkeys
  rw [removeRows, rowAt, hrow]
  simp only [hremoved]

/-- Where removing rows stops, it ends with a fault, and the rows before are gone. -/
lemma Steady.removeRows_of_stopsAfter (h : table.Steady) {ids before : List RowId}
    (hstops : table.StopsAfter ids before) :
    table.removeRows ids = (table.removedAll before, some .missingRow) := by
  induction before generalizing table ids with
  | nil =>
    obtain ⟨id, after, rfl, hnone⟩ := hstops.missing
    have hrow : table.row? id = none := hnone
    rw [List.nil_append, removeRows, rowAt, hrow]
    rfl
  | cons id before ih =>
    obtain ⟨next, after, rfl, hnone⟩ := hstops.missing
    obtain ⟨row, hrow⟩ := Option.isSome_iff_exists.mp (hstops.present [] id before rfl)
    rw [List.cons_append, h.removeRows_cons hrow]
    refine ih (h.removed id) ⟨fun done other more hsplit => ?_, next, after, rfl, hnone⟩
    exact hstops.present (id :: done) other more (by rw [hsplit, List.cons_append])

/-- Rows are removed, up to an id under which no row is left. -/
lemma Steady.removeRows_cases (h : table.Steady) (ids : List RowId) :
    table.removeRows ids = (table.removedAll ids, none) ∨
      ∃ before, table.StopsAfter ids before := by
  induction ids generalizing table with
  | nil => exact Or.inl rfl
  | cons id rest ih =>
    cases hrow : table.row? id with
    | none =>
      refine Or.inr ⟨[], fun done next more hempty => ?_, id, rest, rfl, hrow⟩
      simp at hempty
    | some row =>
      rw [h.removeRows_cons hrow]
      rcases ih (h.removed id) with hrest | ⟨before, hstops⟩
      · exact Or.inl hrest
      · exact Or.inr ⟨id :: before, hstops.cons hrow⟩

/-- A deletion that stops at an id without a row ends with a fault, and the rows before are gone. -/
lemma Steady.delete_of_stopsAfter (h : table.Steady) {conditions : Value}
    {targets before : List RowId} (hmatching : table.matching conditions = .ok targets)
    (hstops : table.StopsAfter targets before) :
    table.delete conditions = ⟨.error .missingRow, table.removedAll before, []⟩ := by
  obtain ⟨id, after, htargets, -⟩ := hstops.missing
  unfold delete
  rw [hmatching]
  split
  · rename_i hfault
    cases hfault
  · rename_i hempty
    rw [htargets] at hempty
    simp at hempty
  · rename_i hsame
    obtain rfl := Except.ok.inj hsame
    rw [h.removeRows_of_stopsAfter hstops]

/-- A deletion is refused, removes matching rows, or comes upon an id without a row. -/
theorem Steady.delete_cases (h : table.Steady) (conditions : Value) :
    (∃ fault, table.delete conditions = .refused table fault) ∨
      ∃ targets, table.matching conditions = .ok targets ∧
        ((∃ effects, table.delete conditions =
            ⟨.ok targets.length, table.removedAll targets, effects⟩) ∨
          ∃ before, table.StopsAfter targets before ∧
            table.delete conditions = ⟨.error .missingRow, table.removedAll before, []⟩) := by
  unfold delete
  split
  · rename_i fault _
    exact Or.inl ⟨fault, rfl⟩
  · rename_i hmatching
    exact Or.inr ⟨[], hmatching, Or.inl ⟨[], rfl⟩⟩
  · rename_i targets _ hmatching
    refine Or.inr ⟨targets, hmatching, ?_⟩
    rcases h.removeRows_cases targets with hdone | ⟨before, hstops⟩
    · rw [hdone]
      exact Or.inl ⟨_, rfl⟩
    · rw [h.removeRows_of_stopsAfter hstops]
      exact Or.inr ⟨before, hstops, rfl⟩

/-- A column that can be indexed is the name of one of the columns. -/
lemma exists_column_of_checkIndexable {schema : Schema} {column : Value}
    (hcolumn : column.isHashable = true) (h : checkIndexable schema column = .ok ()) :
    ∃ c ∈ schema.columns, (column == c.name) = true ∧ c.kind.isIndexable = true := by
  rw [checkIndexable] at h
  split at h
  · cases h
  · rename_i c hc
    split at h
    · rename_i hkind
      refine ⟨c, List.mem_of_find?_eq_some hc, ?_, hkind⟩
      rw [Value.beq_comm hcolumn]
      exact List.find?_some (p := fun c : Column => c.name == column) hc
    · cases h

/-- An index that is built is built from the rows and put on a column that can be indexed. -/
lemma buildIndex_eq_ok {column : Value} {notice : Notice} (hcolumn : column.isHashable = true)
    (h : table.buildIndex column = .ok (table', notice)) :
    ∃ index, table' = table.withIndex column index ∧
      (∃ c ∈ table.schema.columns, (column == c.name) = true ∧ c.kind.isIndexable = true) ∧
        Index.ofRows column table.rows = .ok index := by
  obtain ⟨⟨⟩, hcheck, h⟩ := Outcome.seq_eq_ok.mp h
  obtain ⟨index, hindex, h⟩ := Outcome.seq_eq_ok.mp h
  obtain ⟨rfl, -⟩ := Prod.mk.injEq .. ▸ Outcome.pure_eq_ok.mp h
  exact ⟨index, rfl, exists_column_of_checkIndexable hcolumn hcheck, hindex⟩

end Table

end RecordStore
