import RecordStore.Proofs.Table.Guarding
import RecordStore.Proofs.Table.Matching
import RecordStore.Proofs.Table.Saving

/-!
# Which updates are accepted

An update passes four checks: that the patch names columns of the schema, that it leaves every row its own
primary key, that the merge of every matching row with the patch is a row that can be stored and holds no
unique value of a row that does not match, and that the rows that match differ from each other where the
patch names a unique column.  Together they say one thing: with all matching rows replaced by their merges,
every merge can be stored and the rows of the table differ in unique columns.  In particular a row may keep
its key or be given it again.

This rests on defaults that can be keys and that stay as they are when they are stored again.  A default that
has been declared outright may be neither: the first breaks operations off half way, and the second becomes
equal to another value unnoticed.
-/

namespace RecordStore

/-! ## Merged rows -/

/-- What becomes of a row if a patch is merged into it: the merge is validated as a row that is stored, and no
value counts as taken. -/
def Row.merged (schema : Schema) (changes : Record) (row : Row) : Except Fault Row := do
  let old ← row.toRecord
  let merged ← schema.validate (fun _ _ => false) true (Table.merge old changes)
  return .record merged

namespace Column

/-- The default of a column can be a key if the column can be indexed, and stays as it is when it is stored
again if the column is unique. -/
structure HasFormedDefault (column : Column) : Prop where
  key : column.HasKeyDefault
  formed : column.isUnique = true → ∀ v, column.defaultValue = some v → column.kind.coerce v = v

/-- The default of a described column is in canonical form. -/
lemma Described.hasFormedDefault {column : Column} (h : column.Described) :
    column.HasFormedDefault :=
  ⟨h.hasKeyDefault, fun _ v hv => Kind.coerce_eq_self (h.canonical v hv)⟩

end Column

namespace Table

variable {table table' : Table} {records entries : List (Int × Record)} {changes : Record}

/-- A table with every row under some ids merged with a patch. -/
def mergedAll (table : Table) (changes : Record) (targets : List RowId) : Table :=
  { table with
    rows := table.rows.map fun entry =>
      if targets.contains entry.1 then
        (entry.1, (entry.2.merged table.schema changes).toOption.getD entry.2)
      else entry }

/-- Records are what records become if a patch is merged into them. -/
def Merges (schema : Schema) (changes : Record) (records entries : List (Int × Record)) : Prop :=
  ∀ entry ∈ entries, ∃ old, (entry.1, old) ∈ records ∧
    schema.validate (fun _ _ => false) true (merge old changes) = .ok entry.2

/-- Nothing else claims what some records hold in unique columns. -/
def Unclaimed (schema : Schema) (records entries : List (Int × Record)) : Prop :=
  ∀ c ∈ schema.columns, c.isUnique = true → UnclaimedIn c.name records entries

/-- The records that hold the value of a record that nothing else claims are among those whose places are
taken. -/
lemma UnclaimedIn.any_holders {column : Value} (h : UnclaimedIn column records entries)
    {entry : Int × Record} (hentry : entry ∈ entries)
    (hpresent : (entry.2.value column).isNull = false) :
    ((idsOf records column (entry.2.value column)).map Value.int).any
      (fun id => !((Entries.keys entries).map Value.int).contains id) = false := by
  refine List.any_eq_false.mpr fun id hid => ?_
  obtain ⟨i, hi, rfl⟩ := List.mem_map.mp hid
  obtain ⟨holder, hholder, rfl⟩ := List.mem_map.mp hi
  obtain ⟨hrecord, hsame⟩ := List.mem_filter.mp hholder
  have hown := h.free entry hentry hpresent holder hrecord hsame
  rw [Value.contains_map_int, List.contains_iff_mem.mpr hown]
  decide

/-- The merge of a record gives a row exactly if it can be stored. -/
lemma merged_record_eq_ok_iff {schema : Schema} {old : Record} {row : Row} :
    (Row.record old).merged schema changes = .ok row ↔ ∃ record,
      schema.validate (fun _ _ => false) true (merge old changes) = .ok record ∧
        row = .record record := by
  constructor
  · intro h
    obtain ⟨old', hold, h⟩ := Outcome.seq_eq_ok.mp h
    obtain rfl : old = old' := Except.ok.inj hold
    obtain ⟨record, hrecord, h⟩ := Outcome.seq_eq_ok.mp h
    exact ⟨record, hrecord, (Outcome.pure_eq_ok.mp h).symm⟩
  · rintro ⟨record, hrecord, rfl⟩
    exact Outcome.seq_eq_ok.mpr ⟨old, rfl, Outcome.seq_eq_ok.mpr ⟨record, hrecord, rfl⟩⟩

/-- The rows of a table that is merged with a patch are those of the records with the merges in their
places. -/
lemma Merges.rows_mergedAll (h : Merges table.schema changes records entries)
    (hrows : table.rows = rowsOf records) (hnodup : (Entries.keys records).Nodup)
    (hentries : (Entries.keys entries).Nodup) :
    (table.mergedAll changes ((Entries.keys entries).map .int)).rows =
      rowsOf (entries.foldl (fun records entry => Entries.put entry.1 entry.2 records) records) := by
  rw [mergedAll, hrows]
  refine (rowsOf_foldl_put (fun row => (row.merged table.schema changes).toOption.getD row)
    hnodup hentries fun entry hentry => ?_).symm
  obtain ⟨old, hold, hvalid⟩ := h entry hentry
  refine ⟨old, hold, ?_⟩
  rw [merged_record_eq_ok_iff.mpr ⟨entry.2, hvalid, rfl⟩]
  rfl

/-- All rows under ids of records can be merged exactly if there are merges of the records. -/
lemma exists_merges_iff (hrows : table.rows = rowsOf records)
    (hnodup : (Entries.keys records).Nodup) {is : List Int} (his : ∀ i ∈ is, i ∈ Entries.keys records) :
    (∀ entry ∈ table.rows, (is.map Value.int).contains entry.1 = true →
        ∃ row, entry.2.merged table.schema changes = .ok row) ↔
      ∃ entries, Entries.keys entries = is ∧ Merges table.schema changes records entries := by
  constructor
  · intro hall
    have hone : ∀ i ∈ is, ∃ record, ∃ old, (i, old) ∈ records ∧
        table.schema.validate (fun _ _ => false) true (merge old changes) = .ok record := by
      intro i hi
      obtain ⟨⟨j, old⟩, hold, rfl⟩ := List.mem_map.mp (his i hi)
      have hrow : (Value.int j, Row.record old) ∈ table.rows := by
        rw [hrows]
        exact List.mem_map_of_mem hold
      obtain ⟨row, hmerged⟩ := hall _ hrow (by
        rw [Value.contains_map_int]
        exact List.contains_iff_mem.mpr hi)
      obtain ⟨record, hvalid, -⟩ := merged_record_eq_ok_iff.mp hmerged
      exact ⟨record, old, hold, hvalid⟩
    clear hall his
    induction is with
    | nil => exact ⟨[], rfl, nofun⟩
    | cons i rest ih =>
      obtain ⟨hfirst, hrest⟩ := List.forall_mem_cons.mp hone
      obtain ⟨record, hrecord⟩ := hfirst
      obtain ⟨entries, rfl, hentries⟩ := ih hrest
      exact ⟨(i, record) :: entries, rfl, List.forall_mem_cons.mpr ⟨hrecord, hentries⟩⟩
  · rintro ⟨entries, rfl, hmerges⟩ entry hentry hcontains
    rw [hrows] at hentry
    obtain ⟨⟨i, old⟩, hold, rfl⟩ := List.mem_map.mp hentry
    rw [Value.contains_map_int, List.contains_iff_mem] at hcontains
    obtain ⟨written, hwritten, rfl⟩ := List.mem_map.mp hcontains
    obtain ⟨old', hold', hvalid⟩ := hmerges written hwritten
    obtain rfl := Entries.eq_of_mem hnodup hold hold'
    exact ⟨_, merged_record_eq_ok_iff.mpr ⟨_, hvalid, rfl⟩⟩

/-- What a merge holds in a unique column can be a key, and is a number or none at all. -/
lemma Merges.isHashable_value (h : Merges table.schema changes records entries)
    (hguarded : table.Guarded records) {c : Column} (hc : c ∈ table.schema.columns)
    (hunique : c.isUnique = true) : ∀ entry ∈ entries, (entry.2.value c.name).isHashable = true ∧
      (entry.2.value c.name).isNotNumber = false := by
  intro entry hentry
  obtain ⟨old, -, hvalid⟩ := h entry hentry
  have hholds := Schema.holds_of_validate hguarded.sound canonicalIn_of_accepts
    (fun hinserting => by cases hinserting) hvalid
  exact Table.isHashable_value hholds hc (hguarded.indexable c hc hunique)

/-! ## The checks -/

/-- The rows with a key in a unique column are those that its index lists under the key. -/
lemma Named.matching_key (h : table.Named) {P : Column → Prop} (hschema : table.schema.Sound P)
    (hkeyed : table.KeyIndexed) {c : Column} (hc : c ∈ table.schema.columns)
    (hunique : c.isUnique = true) {w : Value} (hw : c.kind.isCanonical w = true) :
    ∃ index, table.index? c.name = some index ∧
      table.matching (.map [(c.name, w)]) = .ok (index.ids w) := by
  obtain ⟨-, index, -, hindex, -, hkind⟩ := h.exists_index hschema hkeyed hc hunique
  have hhash := Value.isHashable_of_isPlain (Kind.isPlain_of_isCanonical hkind hw)
  have hequal : Operator.comparisons w = [(.equal, w)] := by
    cases w with
    | map entries => cases hhash
    | _ => rfl
  have hoperand : operandFor table.schema c.name w = w := by
    unfold operandFor
    split
    · rename_i s
      rw [hschema.column?_eq hc]
      have hdate : c.kind ≠ .date := by
        intro hdate
        rw [hdate] at hw
        cases hw
      exact if_neg hdate
    · rfl
  have hplain : (w.isNull || !w.isHashable) = false := by
    rw [Kind.isNull_of_isCanonical hw, hhash]
    rfl
  have hpredicates : predicatesOf table.schema [(c.name, w)] = [⟨c.name, .equal, w⟩] := by
    simp only [predicatesOf, List.flatMap_cons, List.flatMap_nil, List.append_nil, hequal,
      List.map_cons, List.map_nil, hoperand]
  have hindexed : table.indexed? [⟨c.name, .equal, w⟩] = some (index.ids w) := by
    simp only [indexed?, hplain, hindex]
    rfl
  refine ⟨index, hindex, ?_⟩
  change table.matchPredicates (predicatesOf table.schema [(c.name, w)]) = _
  rw [hpredicates, matchPredicates, hindexed]

/-- The rows with a key in a unique column are those of the records that hold it. -/
lemma Lists.matching_key (h : table.Lists records) (hsteady : table.Steady)
    (hkeyed : table.KeyIndexed) {c : Column} (hc : c ∈ table.schema.columns)
    (hunique : c.isUnique = true) {w : Value} (hw : c.kind.isCanonical w = true) :
    table.matching (.map [(c.name, w)]) = .ok ((idsOf records c.name w).map .int) := by
  obtain ⟨-, -, -, -, -, hkind⟩ :=
    hsteady.named.exists_index hsteady.schema hkeyed hc hunique
  have hplain : (w.isNull || !w.isHashable) = false := by
    rw [Kind.isNull_of_isCanonical hw,
      Value.isHashable_of_isPlain (Kind.isPlain_of_isCanonical hkind hw)]
    rfl
  obtain ⟨index, hindex, hmatching⟩ :=
    hsteady.named.matching_key hsteady.schema hkeyed hc hunique hw
  rw [hmatching, h.ids_of_index? hsteady hindex, hplain]
  rfl

/-- A merge holds what the patch gives a column, in the form in which it is stored. -/
lemma Merges.value_of_given {P : Column → Prop} {schema : Schema} (hschema : schema.Sound P)
    (h : Merges schema changes records entries)
    (hkeys : ∀ entry ∈ changes, entry.1.isHashable = true) (hchanges : Entries.Distinct changes)
    {c : Column} (hc : c ∈ schema.columns) (hgiven : (changes.value c.name).isNull = false) :
    ∀ entry ∈ entries, c.kind.accepts (changes.value c.name) = .ok true ∧
      entry.2.value c.name = c.kind.coerce (changes.value c.name) := by
  intro entry hentry
  obtain ⟨old, -, hvalid⟩ := h entry hentry
  have hmerge : (merge old changes).value c.name = changes.value c.name := by
    rw [value_merge hkeys hchanges (hschema.hashable c hc)]
    cases hlookup : changes.lookup c.name with
    | none =>
      rw [Record.value, hlookup] at hgiven
      cases hgiven
    | some v =>
      rw [Option.getD_some, Record.value, hlookup]
      rfl
  obtain ⟨verdict, hpasses, hlookup⟩ := Schema.lookup_of_validate hschema hvalid c hc
  rw [hmerge] at hpasses
  obtain ⟨rfl, haccepts, -⟩ := Column.passes_present hgiven hpasses
  refine ⟨haccepts, ?_⟩
  rw [Record.value, hlookup]
  rfl

/-! ## Tables with defaults that stay as they are -/

/-- What holds in every state of a table whose defaults can be keys and stay as they are where they have
to. -/
structure Formed (table : Table) (records : List (Int × Record)) : Prop where
  /-- The columns have such defaults. -/
  sound : table.schema.Sound Column.HasFormedDefault
  /-- Changes that have been checked go through. -/
  steady : table.Steady
  /-- What unique columns hold stays as it is when it is stored again. -/
  formed : table.EachRecord (table.schema.Holds FormedIn)
  /-- Every unique column has an index. -/
  keyed : table.KeyIndexed
  /-- The records are listed in order, and the indexes agree with them. -/
  lists : table.Lists records

/-- What is accepted is stored in a form that stays as it is. -/
lemma formedIn_of_accepts (c : Column) (v : Value) (h : c.kind.accepts v = .ok true) :
    FormedIn c (c.kind.coerce v) :=
  fun _ => Kind.coerce_eq_self (Kind.isCanonical_coerce h)

/-- A step keeps rows whose unique values stay as they are. -/
lemma formed_step (hsound : table.schema.Sound Column.HasFormedDefault)
    (h : table.EachRecord (table.schema.Holds FormedIn)) (hstep : Step table table') :
    table'.EachRecord (table'.schema.Holds FormedIn) := by
  rw [hstep.schema_eq]
  refine hstep.eachRecord h (fun _ _ hadmits => ?_) fun _ _ _ hstaged =>
    holds_of_prepareUpdate hsound formedIn_of_accepts hstaged
  refine holds_of_admits hsound formedIn_of_accepts
    (fun _ hc v hv hunique => hc.formed hunique v hv) (fun c _ _ v hnext _ => ?_) hadmits
  obtain ⟨n, rfl⟩ := nextNumber_eq hnext
  cases n <;> cases c.kind <;> rfl

namespace Formed

/-- What holds in every state holds after steps. -/
theorem reaches (h : table.Formed records) (hreaches : Reaches table table') :
    ∃ records', table'.Formed records' := by
  obtain ⟨records', hlists⟩ := h.lists.reaches h.steady hreaches
  refine ⟨records', Reaches.schema_eq hreaches ▸ h.sound, h.steady.reaches hreaches, ?_,
    h.keyed.reaches h.steady hreaches, hlists⟩
  clear hlists
  induction hreaches with
  | refl => exact h.formed
  | tail hmany hstep ih => exact formed_step (Reaches.schema_eq hmany ▸ h.sound) ih hstep

/-- The unique columns are guarded. -/
lemma guarded (h : table.Formed records) : table.Guarded records :=
  h.lists.guarded h.steady h.keyed ((eachRecord_iff h.lists.rows).mp h.formed)

/-- A prepared update has found merges of all rows that match, and no keys that are equal. -/
lemma legal_of_prepareUpdate (h : table.Formed records) (hdistinct : table.KeysDistinct)
    {conditions : Value} {targets : List RowId} (htargets : table.matching conditions = .ok targets)
    {staged : List (RowId × Record)}
    (hstaged : table.prepareUpdate conditions (.map changes) = .ok staged) (hsome : targets ≠ []) :
    (∀ entry ∈ table.rows, targets.contains entry.1 = true →
        ∃ row, entry.2.merged table.schema changes = .ok row) ∧
      (table.mergedAll changes targets).KeysDistinct := by
  obtain ⟨entries, rfl, hnodup, hids⟩ := h.lists.prepareUpdate_eq_ok h.steady hstaged
  obtain ⟨-, targets', -, -, htargets', ⟨hnone, -⟩ | ⟨-, changes', hpatch, -, hstage, -⟩⟩ :=
    prepareUpdate_eq_ok_iff.mp hstaged
  · obtain rfl : targets = targets' := Except.ok.inj (htargets.symm.trans htargets')
    exact absurd hnone hsome
  obtain rfl : targets = targets' := Except.ok.inj (htargets.symm.trans htargets')
  obtain rfl : changes = changes' := Value.map.inj hpatch
  obtain ⟨rfl, hvalid⟩ := (stage_stagedOf_eq_ok_iff h.lists.rows h.lists.nodup).mp hstage
  have hmerges : Merges table.schema changes records entries := by
    intro entry hentry
    obtain ⟨old, hold, hvalidated⟩ := hvalid entry hentry
    exact ⟨old, hold, ((Schema.validate_updating_iff h.sound).mp hvalidated).1⟩
  refine ⟨(exists_merges_iff h.lists.rows h.lists.nodup hids).mpr ⟨entries, rfl, hmerges⟩, ?_⟩
  have hdiffer := (keysDistinct_iff_differ h.sound h.lists.rows).mp hdistinct
  have hrows := hmerges.rows_mergedAll h.lists.rows h.lists.nodup hnodup
  have hsound : (table.mergedAll changes ((Entries.keys entries).map .int)).schema.Sound
      Column.HasFormedDefault := h.sound
  exact (keysDistinct_iff_differ hsound hrows).mpr
    (h.guarded.differ_replace hdiffer hstaged hnodup)

/-- A patch of the primary key passes if no other record holds what the merges hold. -/
lemma checkKeyChange_eq_ok (h : table.Formed records)
    (hmerges : Merges table.schema changes records entries)
    (hclear : Unclaimed table.schema records entries)
    (hkeys : ∀ entry ∈ changes, entry.1.isHashable = true) (hchanges : Entries.Distinct changes)
    (hsome : entries ≠ []) :
    table.checkKeyChange (.map changes) ((Entries.keys entries).map .int) = .ok () := by
  rw [checkKeyChange]
  cases hprimary : table.schema.primaryKey with
  | none => rfl
  | some key =>
    obtain ⟨c, hc, rfl, hkey⟩ := h.sound.key key hprimary
    have hunique := Column.isUnique_of_isPrimaryKey hkey
    simp only [h.sound.column?_eq hc, Option.map_some, Option.getD_some]
    refine Outcome.seq_eq_ok.mpr ⟨changes, rfl, ?_⟩
    cases hgiven : (changes.value c.name).isNull with
    | true => rfl
    | false =>
      obtain ⟨first, rest, rfl⟩ := List.exists_cons_of_ne_nil hsome
      have hvalue := hmerges.value_of_given h.sound hkeys hchanges hc hgiven
      obtain ⟨haccepts, hfirst⟩ := hvalue first List.mem_cons_self
      have hcanonical := Kind.isCanonical_coerce haccepts
      have hpresent : (first.2.value c.name).isNull = false := by
        rw [hfirst]
        exact Kind.isNull_of_isCanonical hcanonical
      -- a second merge would hold the same key
      obtain rfl : rest = [] := by
        cases rest with
        | nil => rfl
        | cons second rest =>
          have hne := (List.pairwise_cons.mp (hclear c hc hunique).pairwise).1 second
            List.mem_cons_self hpresent
          rw [hfirst, (hvalue second (by simp)).2, Value.beq_self] at hne
          cases hne
      refine Outcome.seq_eq_ok.mpr ⟨true, haccepts, Outcome.seq_eq_ok.mpr
        ⟨_, h.lists.matching_key h.steady h.keyed hc hunique hcanonical, if_neg ?_⟩⟩
      rw [if_pos rfl, ← hfirst, (hclear c hc hunique).any_holders List.mem_cons_self hpresent]
      simp [Entries.keys]

/-- What the merges hold in unique columns is not taken. -/
lemma validate_of_unclaimed (h : table.Formed records)
    (hmerges : Merges table.schema changes records entries)
    (hclear : Unclaimed table.schema records entries) {entry : Int × Record} (hentry : entry ∈ entries)
    {old : Record}
    (hvalid : table.schema.validate (fun _ _ => false) true (merge old changes) = .ok entry.2) :
    table.schema.validate (table.isTaken ((Entries.keys entries).map .int)) true (merge old changes) =
      .ok entry.2 := by
  refine (Schema.validate_updating_iff h.sound).mpr ⟨hvalid, fun c hc hunique hpresent => ?_⟩
  have hhash := (hmerges.isHashable_value h.guarded hc hunique entry hentry).1
  obtain ⟨-, index, -, hindex, -, -⟩ := h.steady.named.exists_index h.sound h.keyed hc hunique
  rw [isTaken, hindex]
  simp only [h.lists.ids_of_index? h.steady hindex, hhash, hpresent, Bool.not_true, Bool.or_self,
    Bool.false_eq_true, if_false]
  exact (hclear c hc hunique).any_holders hentry hpresent

/-- If all rows that match can be merged and the keys differ then, the update is prepared. -/
lemma exists_prepareUpdate (h : table.Formed records) {conditions : Value} {targets : List RowId}
    (htargets : table.matching conditions = .ok targets)
    (hkeys : ∀ entry ∈ changes, entry.1.isHashable = true) (hchanges : Entries.Distinct changes)
    (hknown : ∀ entry ∈ changes, table.schema.has entry.1 = true)
    (hmerged : ∀ entry ∈ table.rows, targets.contains entry.1 = true →
      ∃ row, entry.2.merged table.schema changes = .ok row)
    (hdistinct : (table.mergedAll changes targets).KeysDistinct) :
    ∃ staged, table.prepareUpdate conditions (.map changes) = .ok staged := by
  obtain ⟨is, rfl, hascending, hids⟩ := h.lists.matching_eq_ok h.steady htargets
  obtain ⟨entries, rfl, hmerges⟩ := (exists_merges_iff h.lists.rows h.lists.nodup hids).mp hmerged
  have hnodup : (Entries.keys entries).Nodup := hascending.imp fun hlt => hlt.ne
  have hplaces : ∀ entry ∈ entries, entry.1 ∈ Entries.keys records :=
    fun entry hentry => hids _ (List.mem_map_of_mem hentry)
  have hrows := hmerges.rows_mergedAll h.lists.rows h.lists.nodup hnodup
  have hsound : (table.mergedAll changes ((Entries.keys entries).map .int)).schema.Sound
      Column.HasFormedDefault := h.sound
  have hdiffer := (keysDistinct_iff_differ hsound hrows).mp hdistinct
  have hclear : Unclaimed table.schema records entries := fun c hc hunique =>
    (hdiffer c hc hunique).of_replace h.lists.nodup hnodup hplaces
      (hmerges.isHashable_value h.guarded hc hunique)
  have hchecked : checkKeys table.schema (Entries.keys changes) = .ok () := by
    refine checkKeys_eq_ok_iff.mpr fun key hkey => ?_
    obtain ⟨entry, hentry, rfl⟩ := List.mem_map.mp hkey
    exact ⟨hkeys entry hentry, hknown entry hentry⟩
  by_cases hnone : entries = []
  · subst hnone
    exact ⟨[], prepareUpdate_eq_ok_iff.mpr ⟨_, _, rfl, hchecked, htargets, Or.inl ⟨rfl, rfl⟩⟩⟩
  · refine ⟨stagedOf entries, prepareUpdate_eq_ok_iff.mpr ⟨_, _, rfl, hchecked, htargets,
      Or.inr ⟨?_, changes, rfl, ?_, ?_, ?_⟩⟩⟩
    · simpa [Entries.keys] using hnone
    · exact h.checkKeyChange_eq_ok hmerges hclear hkeys hchanges hnone
    · refine (stage_stagedOf_eq_ok_iff h.lists.rows h.lists.nodup).mpr ⟨rfl, fun entry hentry => ?_⟩
      obtain ⟨old, hold, hvalid⟩ := hmerges entry hentry
      exact ⟨old, hold, h.validate_of_unclaimed hmerges hclear hentry hvalid⟩
    · refine checkStaged_eq_ok_iff.mpr fun column hcolumn _ => List.pairwise_map.mpr ?_
      obtain ⟨c, hc, rfl⟩ := List.mem_map.mp hcolumn
      obtain ⟨hc, hunique⟩ := List.mem_filter.mp hc
      exact (hclear c hc hunique).pairwise

/-- An update succeeds exactly if it can be prepared. -/
lemma exists_update_eq_ok_iff (h : table.Formed records) {conditions patch : Value} :
    (∃ n, (table.update conditions patch).result = .ok n) ↔
      ∃ staged, table.prepareUpdate conditions patch = .ok staged := by
  constructor
  · rintro ⟨n, hn⟩
    obtain ⟨staged, hstaged, -, -⟩ := update_eq_ok hn
    exact ⟨staged, hstaged⟩
  · rintro ⟨staged, hstaged⟩
    unfold update
    rw [hstaged]
    cases staged with
    | nil => exact ⟨0, rfl⟩
    | cons entry rest =>
      have hreplaced := h.steady.replaceRows_eq (h.steady.holds_of_prepareUpdate hstaged)
      exact ⟨(entry :: rest).length, by simp only [hreplaced]⟩

/-- An update of rows that differ is prepared exactly if the patch names columns and, if any row matches, all
that match can be merged and the keys differ then. -/
lemma exists_prepareUpdate_iff (h : table.Formed records) (hdistinct : table.KeysDistinct)
    {conditions : Value} {targets : List RowId} (htargets : table.matching conditions = .ok targets)
    (hkeys : ∀ entry ∈ changes, entry.1.isHashable = true) (hchanges : Entries.Distinct changes) :
    (∃ staged, table.prepareUpdate conditions (.map changes) = .ok staged) ↔
      (∀ entry ∈ changes, table.schema.has entry.1 = true) ∧
        (targets ≠ [] →
          (∀ entry ∈ table.rows, targets.contains entry.1 = true →
              ∃ row, entry.2.merged table.schema changes = .ok row) ∧
            (table.mergedAll changes targets).KeysDistinct) := by
  constructor
  · rintro ⟨staged, hstaged⟩
    obtain ⟨keys, -, hpatch, hchecked, -, -⟩ := prepareUpdate_eq_ok_iff.mp hstaged
    obtain rfl : Entries.keys changes = keys := Except.ok.inj hpatch
    exact ⟨fun entry hentry => (checkKeys_eq_ok_iff.mp hchecked _ (List.mem_map_of_mem hentry)).2,
      h.legal_of_prepareUpdate hdistinct htargets hstaged⟩
  · rintro ⟨hknown, hlegal⟩
    by_cases hnone : targets = []
    · subst hnone
      exact h.exists_prepareUpdate htargets hkeys hchanges hknown (fun _ _ hcontains => nomatch hcontains)
        (by simpa [mergedAll] using hdistinct)
    · obtain ⟨hmerged, hkept⟩ := hlegal hnone
      exact h.exists_prepareUpdate htargets hkeys hchanges hknown hmerged hkept

/-- An update of rows that differ is refused exactly if the patch names what is no column, or some row
matches and the merge of one that does cannot be stored, or two rows would be equal in a unique column. -/
theorem update_eq_error_iff (h : table.Formed records) (hdistinct : table.KeysDistinct)
    {conditions : Value} {targets : List RowId} (htargets : table.matching conditions = .ok targets)
    (hkeys : ∀ entry ∈ changes, entry.1.isHashable = true) (hchanges : Entries.Distinct changes) :
    (∃ fault, (table.update conditions (.map changes)).result = .error fault) ↔
      (∃ entry ∈ changes, table.schema.has entry.1 = false) ∨
        targets ≠ [] ∧
          ((∃ entry ∈ table.rows, targets.contains entry.1 = true ∧
              ∃ fault, entry.2.merged table.schema changes = .error fault) ∨
            ¬(table.mergedAll changes targets).KeysDistinct) := by
  rw [Outcome.exists_error_iff, h.exists_update_eq_ok_iff,
    h.exists_prepareUpdate_iff hdistinct htargets hkeys hchanges]
  simp only [Outcome.exists_error_iff, not_and_or, Classical.not_imp, not_forall,
    Bool.not_eq_true]

end Formed

/-! ## Every state -/

/-- What holds in every state of a table with such defaults holds of one that has just been made, which
lists nothing. -/
theorem formed_of_create {source : SchemaSource} (hsource : source.Declares Column.HasFormedDefault)
    {name directory : String} {created : Table} {effects : List Effect}
    (hcreate : Table.create name source directory = .ok (created, effects)) : created.Formed [] := by
  obtain ⟨schema, hschema, -⟩ := create_eq_ok hcreate
  have hsound := hsource.sound (fun _ hc => hc.hasFormedDefault) hschema
  obtain ⟨hreaches, hsteady, hkeyed, hlists⟩ :=
    lists_of_create (hsound.mono fun _ hc => hc.key) hschema hcreate
  refine ⟨Reaches.schema_eq hreaches ▸ hsound, hsteady, fun entry hentry => ?_, hkeyed, hlists⟩
  rw [hlists.rows] at hentry
  cases hentry

/-- In every state of a table, whatever has been asked of it and with whatever outcome, in which the rows
differ in unique columns, an update is refused exactly if the patch names what is no column, or some row
matches and, with all matching rows replaced by their merges with the patch, some merge cannot be stored or
two rows are equal in a unique column. -/
theorem update_run_eq_error_iff {source : SchemaSource}
    (hsource : source.Declares Column.HasFormedDefault) {name directory : String} {created : Table}
    {effects : List Effect}
    (hcreate : Table.create name source directory = .ok (created, effects))
    (requests : List Request) (hdistinct : (created.run requests).KeysDistinct)
    {conditions changes : Record} {targets : List RowId}
    (htargets : (created.run requests).matching (.map conditions) = .ok targets)
    (hkeys : ∀ entry ∈ changes, entry.1.isHashable = true) (hchanges : Entries.Distinct changes) :
    (∃ fault,
        ((created.run requests).update (.map conditions) (.map changes)).result = .error fault) ↔
      (∃ entry ∈ changes, created.schema.has entry.1 = false) ∨
        targets ≠ [] ∧
          ((∃ entry ∈ (created.run requests).rows, targets.contains entry.1 = true ∧
              ∃ fault, entry.2.merged created.schema changes = .error fault) ∨
            ¬((created.run requests).mergedAll changes targets).KeysDistinct) := by
  have hformed := formed_of_create hsource hcreate
  have hreaches := hformed.steady.reaches_run requests
  obtain ⟨records, hafter⟩ := hformed.reaches hreaches
  rw [← Reaches.schema_eq hreaches]
  exact hafter.update_eq_error_iff hdistinct htargets hkeys hchanges

/-- A row of a small table that is given its own number again is not refused, since the rows differ
afterwards. -/
theorem update_run_eq_error_iff_ownKey : ∃ created effects,
    Table.create "t" twoColumns "d" = .ok (created, effects) ∧
      (created.run requestsOnTwo).matching (.map [(.text "a", .int 2)]) = .ok [.int 2] ∧
      ((created.run requestsOnTwo).update (.map [(.text "a", .int 2)])
          (.map [(.text "b", .text "y"), (.text "a", .int 2)])).result = .ok 1 ∧
      ((∃ fault, ((created.run requestsOnTwo).update (.map [(.text "a", .int 2)])
          (.map [(.text "b", .text "y"), (.text "a", .int 2)])).result = .error fault) ↔
        (∃ entry ∈ [(Value.text "b", Value.text "y"), (.text "a", .int 2)],
            created.schema.has entry.1 = false) ∨
          [Value.int 2] ≠ [] ∧
            ((∃ entry ∈ (created.run requestsOnTwo).rows, [Value.int 2].contains entry.1 = true ∧
                ∃ fault, entry.2.merged created.schema
                  [(.text "b", .text "y"), (.text "a", .int 2)] = .error fault) ∨
              ¬((created.run requestsOnTwo).mergedAll
                [(.text "b", .text "y"), (.text "a", .int 2)] [.int 2]).KeysDistinct)) := by
  obtain ⟨created, effects, hcreate⟩ : ∃ created effects,
      Table.create "t" twoColumns "d" = .ok (created, effects) := ⟨_, _, rfl⟩
  have hmatching : (created.run requestsOnTwo).matching (.map [(.text "a", .int 2)]) =
      .ok [.int 2] := by
    cases hcreate
    rfl
  have hok : ((created.run requestsOnTwo).update (.map [(.text "a", .int 2)])
      (.map [(.text "b", .text "y"), (.text "a", .int 2)])).result = .ok 1 := by
    cases hcreate
    rfl
  exact ⟨created, effects, hcreate, hmatching, hok,
    update_run_eq_error_iff isDescribed_twoColumns.declares hcreate requestsOnTwo
      (keysDistinct_requestsOnTwo hcreate) hmatching (by decide)
      (List.pairwise_pair.mpr (by decide))⟩

/-- If a default cannot be a key, an insertion fails after the row has been stored, and no update of the row
goes through any more: the index does not take the row out. -/
theorem update_run_eq_error_listDefault : ∃ created effects,
    Table.create "t" listDefault "d" = .ok (created, effects) ∧
      (created.run [.insert (.map [(.text "b", .int 2)])]).KeysDistinct ∧
      (created.run [.insert (.map [(.text "b", .int 2)])]).matching (.map []) = .ok [.int 1] ∧
      created.schema.has (.text "a") = true ∧
      (∀ entry ∈ (created.run [.insert (.map [(.text "b", .int 2)])]).rows,
        ∃ row, entry.2.merged created.schema [(.text "a", .text "x")] = .ok row) ∧
      ((created.run [.insert (.map [(.text "b", .int 2)])]).mergedAll
        [(.text "a", .text "x")] [.int 1]).KeysDistinct ∧
      ((created.run [.insert (.map [(.text "b", .int 2)])]).update (.map [])
        (.map [(.text "a", .text "x")])).result = .error .wrongType := by
  have hone : ∀ {table : Table} {row : RowId × Row}, table.rows = [row] → table.KeysDistinct := by
    intro table row hrows column _ a ha b hb hab
    rw [hrows, List.mem_singleton] at ha hb
    exact absurd (by rw [ha, hb]) hab
  refine ⟨_, _, rfl, hone rfl, rfl, rfl, fun entry hentry => ?_, hone rfl, rfl⟩
  obtain rfl := List.mem_singleton.mp hentry
  exact ⟨_, rfl⟩

end Table

end RecordStore
