import RecordStore.Proofs.Table.Accepting
import RecordStore.Proofs.Table.Deleting
import RecordStore.Proofs.Table.Resaving
import RecordStore.Proofs.Table.Rewriting
import RecordStore.Proofs.Table.Tidy

/-!
# Updates that are made again

An update whose conditions mention no column of its patch has nothing to do when it is made again: the
rows that it has written are their own merges with the patch, they hold their own keys, and writing them
where they stand leaves the state of the table as it was.  All this rests on one thing: that the rows
still match.

A row is stored again in the form of its columns, also where the patch does not name them.  What has been
checked once is in that form already.  A default that has been declared outright may not be: a text in a
column of dates becomes a date, and a comparison that the text satisfied may not hold of the date.  So
the update repeats exactly if what it has written still matches, and it always does if defaults stay as
they are when they are stored again.

The schema only has to have been built by adding columns.
-/

namespace RecordStore

/-! ## Records that are stored again -/

namespace Column

variable {column : Column} {isTaken : TakenTest} {updating : Bool} {v : Value} {verdict : Verdict}

/-- The verdict on a value that is accepted is the one on the form in which it is stored. -/
lemma verdict_coerce (haccepts : column.kind.accepts v = .ok true) :
    column.verdict updating (column.kind.coerce v) = column.verdict updating v := by
  have hstored := (Kind.storesAs_iff.mpr ⟨haccepts, rfl⟩).stored
  obtain ⟨haccepts', hcoerce⟩ := Kind.storesAs_iff.mp hstored
  have hpresent := (Kind.storesAs_iff.mpr ⟨haccepts, rfl⟩).isNull_eq_false
  rw [verdict, verdict, hstored.isNull_eq_false, hpresent, haccepts', haccepts]
  simp only [Bool.false_eq_true, if_false, Except.bind, hcoerce]

/-- What a column stores of a row passes again, with the same verdict. -/
lemma Passes.again (h : column.Passes isTaken true v verdict) :
    column.Passes isTaken true (.ofOption verdict.value?) verdict := by
  refine ⟨?_, h.2⟩
  rw [value?_of_passes_updating h]
  cases hnull : v.isNull with
  | true =>
    have hsame : column.verdict true v = column.verdict true .null := by
      rw [Column.verdict, Column.verdict, hnull]
      rfl
    exact hsame.symm.trans h.1
  | false =>
    obtain ⟨-, haccepts, -⟩ := passes_present hnull h
    exact (verdict_coerce haccepts).trans h.1

end Column

namespace Schema

/-- Columns that pass give the same record for values with the same verdicts. -/
lemma checkColumns_of_passes {isTaken : TakenTest} {updating : Bool} {valueOf valueOf' : Value → Value}
    {columns : List Column} {record : Record}
    (hpasses : ∀ c ∈ columns, ∀ verdict, c.Passes isTaken updating (valueOf c.name) verdict →
      c.Passes isTaken updating (valueOf' c.name) verdict)
    (h : checkColumns isTaken updating valueOf columns = .ok (record, [])) :
    checkColumns isTaken updating valueOf' columns = .ok (record, []) := by
  induction columns generalizing record with
  | nil => exact h
  | cons column rest ih =>
    obtain ⟨hfirst, hrest⟩ := List.forall_mem_cons.mp hpasses
    obtain ⟨verdict, others, hown, hothers, rfl⟩ := checkColumns_cons_iff.mp h
    exact checkColumns_cons_iff.mpr ⟨verdict, others, hfirst verdict hown, ih hrest hothers, rfl⟩

end Schema

namespace Table

variable {table table' : Table} {records entries : List (Int × Record)} {next : Int}
  {conditions changes : Record} {n : Nat}

/-- A stored merge is the stored merge of itself with the same patch. -/
lemma validate_merge_again {P : Column → Prop} {schema : Schema} (hschema : schema.Sound P)
    {isTaken : TakenTest} {old record : Record}
    (hkeys : ∀ entry ∈ changes, entry.1.isHashable = true) (hdistinct : Entries.Distinct changes)
    (h : schema.validate isTaken true (merge old changes) = .ok record) :
    schema.validate isTaken true (merge record changes) = .ok record := by
  refine Schema.validate_eq_ok_iff.mpr
    (Schema.checkColumns_of_passes (fun c hc verdict hpasses => ?_) (Schema.validate_eq_ok_iff.mp h))
  rw [value_merge hkeys hdistinct (hschema.hashable c hc)] at hpasses ⊢
  cases hgiven : changes.lookup c.name with
  | some v =>
    rw [hgiven] at hpasses
    exact hpasses
  | none =>
    -- a column that the patch does not name holds what its first verdict has stored
    obtain ⟨verdict', hpasses', hlookup⟩ := Schema.lookup_of_validate hschema h c hc
    rw [value_merge hkeys hdistinct (hschema.hashable c hc)] at hpasses'
    obtain rfl : verdict = verdict' := Except.ok.inj (hpasses.1.symm.trans hpasses'.1)
    rw [Option.getD_none, Record.value, hlookup]
    exact hpasses.again

/-! ## Checks that are made again -/

/-- A patch that gives the primary key passes exactly if the key is not taken and at most one row is to be
written. -/
lemma Stands.checkKeyChange_eq_ok_iff (h : table.Stands next records) {c : Column}
    (hc : c ∈ table.schema.columns) (hunique : c.isUnique = true)
    (hprimary : table.schema.primaryKey = some c.name)
    (hgiven : (changes.value c.name).isNull = false)
    (haccepts : c.kind.accepts (changes.value c.name) = .ok true) (targets : List RowId) :
    table.checkKeyChange (.map changes) targets = .ok () ↔
      table.isTaken targets c.name (c.kind.coerce (changes.value c.name)) = false ∧
        targets.length ≤ 1 := by
  obtain ⟨index, hindex, hmatching⟩ := h.named.matching_key h.sound h.keyed hc hunique
    (Kind.isCanonical_coerce haccepts)
  have hchecked : table.checkKeyChange (.map changes) targets =
      if table.isTaken targets c.name (c.kind.coerce (changes.value c.name)) ||
        decide (targets.length > 1) then throw .duplicateKey else pure () := by
    rw [isTaken, hindex, checkKeyChange, hprimary]
    simp only [h.sound.column?_eq hc, Option.map_some, Option.getD_some, patchRecord, bind,
      Except.bind, hgiven, haccepts, hmatching, Bool.false_eq_true, if_false, if_true]
  rw [hchecked]
  constructor
  · intro hpassed
    split at hpassed
    · cases hpassed
    · rename_i hnot
      simpa using hnot
  · rintro ⟨hfree, hone⟩
    rw [if_neg (by simp [hfree, hone])]
    rfl

/-- An index of a table whose indexes follow records is regular. -/
lemma Tracks.regular_of_index? (h : table.Tracks next records) {column : Value} {index : Index}
    (hindex : table.index? column = some index) : index.Regular := by
  obtain ⟨k, hmem, -⟩ := Entries.mem_of_lookup_eq_some hindex
  obtain ⟨holds, hfollows⟩ := h.follows _ hmem
  exact hfollows.denotes.regular

/-- What is not taken by rows but some is not taken after records have been put in the places of these. -/
lemma Tracks.isTaken_of_gains (h : table.Tracks next records) {is : List Int}
    (hgains : table.Gains table' is) {column v : Value}
    (hfree : table.isTaken (is.map .int) column v = false) :
    table'.isTaken (is.map .int) column v = false := by
  rw [isTaken] at hfree ⊢
  cases hindex' : table'.index? column with
  | none => rfl
  | some index' =>
    obtain ⟨index, hindex, hgained⟩ := hgains.exists_index hindex'
    have hgained := hgained (h.regular_of_index? hindex)
    rw [hindex] at hfree
    obtain ⟨js, hjs, -⟩ := hgained.regular.ids_ascending v
    refine List.any_eq_false.mpr fun id hid => ?_
    rw [hjs] at hid
    obtain ⟨j, hj, rfl⟩ := List.mem_map.mp hid
    rcases hgained.among j v (hjs ▸ List.mem_map_of_mem hj) with hwritten | hold
    · simp [hwritten]
    · exact List.any_eq_false.mp hfree _ hold

/-! ## Updates that have been made -/

/-- A table before and after an update, with what has been written. -/
structure Written (table : Table) (next : Int) (records entries : List (Int × Record))
    (conditions changes : Record) (table' : Table) : Prop where
  tracks : table.Tracks next records
  prepared : table.prepareUpdate (.map conditions) (.map changes) = .ok (stagedOf entries)
  nodup : (Entries.keys entries).Nodup
  /-- Rows are written in the places of rows. -/
  places : ∀ entry ∈ entries, entry.1 ∈ Entries.keys records
  schema : table'.schema = table.schema
  gains : table.Gains table' (Entries.keys entries)
  tracks' : table'.Tracks next
    (entries.foldl (fun records entry => Entries.put entry.1 entry.2 records) records)

/-- An update that succeeds has written as many records as it says. -/
lemma Tracks.exists_written (h : table.Tracks next records)
    (hok : (table.update (.map conditions) (.map changes)).result = .ok n) :
    ∃ entries, entries.length = n ∧ Written table next records entries conditions changes
      (table.update (.map conditions) (.map changes)).table := by
  obtain ⟨staged, hstaged, rfl, hreplaced⟩ := update_eq_ok hok
  obtain ⟨entries, rfl, hnodup, hplaces, hkeyed⟩ := h.prepareUpdate_eq_ok hstaged
  have htracks := (h.replaceRows hkeyed hplaces).2
  have hschema := (sameFiles_replaceRows table (stagedOf entries)).schema
  have hmem : ∀ entry ∈ entries, entry.1 ∈ Entries.keys entries :=
    fun _ hentry => List.mem_map_of_mem hentry
  have hgains := table.gains_replaceRows hmem
  rw [hreplaced] at htracks hschema hgains
  exact ⟨entries, by simp [stagedOf], h, hstaged, hnodup, hplaces, hschema, hgains, htracks rfl⟩

/-- An update that has been prepared succeeds if its records can be put in the places of their rows. -/
lemma update_of_prepareUpdate {conditions patch : Value} {staged : List (RowId × Record)}
    (hstaged : table.prepareUpdate conditions patch = .ok staged)
    (hreplaced : table.replaceRows staged = (table', none)) :
    (table.update conditions patch).result = .ok staged.length ∧
      (table.update conditions patch).table = table' := by
  unfold update
  rw [hstaged]
  cases staged with
  | nil => exact ⟨rfl, congrArg Prod.fst hreplaced⟩
  | cons entry rest => simp only [hreplaced, and_self]

namespace Written

/-- The rows that match are those that have been written. -/
lemma matching_eq (h : Written table next records entries conditions changes table') :
    table.matching (.map conditions) = .ok ((Entries.keys entries).map .int) := by
  obtain ⟨keys, targets, -, -, htargets, ⟨rfl, hnone⟩ | ⟨-, changes', -, -, hstage, -⟩⟩ :=
    prepareUpdate_eq_ok_iff.mp h.prepared
  · obtain rfl : entries = [] := List.map_eq_nil_iff.mp hnone
    exact htargets
  · obtain ⟨hids, -⟩ := stage_eq_ok_iff.mp hstage
    rw [htargets, ← hids]
    simp [stagedOf, Entries.keys]

/-- The rows are written in the order of their ids. -/
lemma ascending (h : Written table next records entries conditions changes table') :
    (Entries.keys entries).Pairwise (· < ·) := by
  obtain ⟨is, his, hascending⟩ := h.tracks.matching_eq_ok h.matching_eq
  rwa [Value.map_int_injective his]

/-- The columns that the patch names can be keys. -/
lemma isHashable_keys (h : Written table next records entries conditions changes table') :
    ∀ entry ∈ changes, entry.1.isHashable = true := by
  obtain ⟨keys, -, hkeys, hchecked, -⟩ := prepareUpdate_eq_ok_iff.mp h.prepared
  obtain rfl : changes.map (·.1) = keys := by simpa [patchKeys, Value.items?] using hkeys
  exact fun entry hentry => (checkKeys_eq_ok_iff.mp hchecked _ (List.mem_map_of_mem hentry)).1

/-- What has been written are merges of records with the patch. -/
lemma exists_old (h : Written table next records entries conditions changes table') :
    ∀ entry ∈ entries, ∃ old, (entry.1, old) ∈ records ∧
      table.schema.validate (table.isTaken ((Entries.keys entries).map .int)) true
        (merge old changes) = .ok entry.2 := by
  obtain ⟨keys, targets, -, -, -, ⟨-, hnone⟩ | ⟨-, changes', hpatch, -, hstage, -⟩⟩ :=
    prepareUpdate_eq_ok_iff.mp h.prepared
  · obtain rfl : entries = [] := List.map_eq_nil_iff.mp hnone
    exact nofun
  · obtain ⟨rfl, hold⟩ := (stage_stagedOf_eq_ok_iff h.tracks.rows h.tracks.nodup).mp hstage
    exact hold

/-- The rows are what has been written and what was there in other places. -/
lemma mem_iff (h : Written table next records entries conditions changes table')
    (entry : Int × Record) :
    entry ∈ entries.foldl (fun records entry => Entries.put entry.1 entry.2 records) records ↔
      entry ∈ entries ∨ entry ∈ records ∧ entry.1 ∉ Entries.keys entries :=
  Entries.mem_foldl_put_iff h.tracks.nodup h.nodup h.places

/-- The ids of the rows stay as they were. -/
lemma keys_eq (h : Written table next records entries conditions changes table') :
    Entries.keys (entries.foldl (fun records entry => Entries.put entry.1 entry.2 records) records) =
      Entries.keys records := by
  rw [Entries.foldl_put_eq_map h.tracks.nodup h.nodup h.places, Entries.keys, List.map_map]
  rfl

/-- The merge of what has been written with the patch passes again, as it is. -/
lemma validate_again (h : Written table next records entries conditions changes table')
    (hchanges : Entries.Distinct changes) {entry : Int × Record} (hentry : entry ∈ entries) :
    table'.schema.validate (table'.isTaken ((Entries.keys entries).map .int)) true
      (merge entry.2 changes) = .ok entry.2 := by
  obtain ⟨old, -, hvalid⟩ := h.exists_old entry hentry
  have hagain := validate_merge_again h.tracks.sound h.isHashable_keys hchanges hvalid
  obtain ⟨huntaken, hfree⟩ := (Schema.validate_updating_iff h.tracks.sound).mp hagain
  rw [h.schema]
  exact (Schema.validate_updating_iff h.tracks.sound).mpr ⟨huntaken, fun c hc hunique hpresent =>
    h.tracks.isTaken_of_gains h.gains (hfree c hc hunique hpresent)⟩

/-- A patch of the primary key passes again. -/
lemma checkKeyChange_again (h : Written table next records entries conditions changes table')
    (hchanges : Entries.Distinct changes) (hsome : entries ≠ [])
    (hpassed : table.checkKeyChange (.map changes) ((Entries.keys entries).map .int) = .ok ()) :
    table'.checkKeyChange (.map changes) ((Entries.keys entries).map .int) = .ok () := by
  cases hprimary : table.schema.primaryKey with
  | none =>
    rw [checkKeyChange, h.schema, hprimary]
  | some key =>
    obtain ⟨c, hc, rfl, hkey⟩ := h.tracks.sound.key key hprimary
    have hunique := Column.isUnique_of_isPrimaryKey hkey
    have hprimary' : table'.schema.primaryKey = some c.name := h.schema ▸ hprimary
    cases hgiven : (changes.value c.name).isNull with
    | true =>
      rw [checkKeyChange, hprimary']
      exact Outcome.seq_eq_ok.mpr ⟨changes, rfl, if_pos hgiven⟩
    | false =>
      have hmerges : Merges table.schema changes records entries := by
        intro entry hentry
        obtain ⟨old, hold, hvalid⟩ := h.exists_old entry hentry
        exact ⟨old, hold, ((Schema.validate_updating_iff h.tracks.sound).mp hvalid).1⟩
      obtain ⟨entry, rest, rfl⟩ := List.exists_cons_of_ne_nil hsome
      obtain ⟨haccepts, -⟩ := hmerges.value_of_given h.tracks.sound h.isHashable_keys hchanges hc
        hgiven entry List.mem_cons_self
      rw [h.tracks.checkKeyChange_eq_ok_iff hc hunique hprimary hgiven haccepts] at hpassed
      rw [h.tracks'.checkKeyChange_eq_ok_iff (h.schema ▸ hc) hunique hprimary' hgiven haccepts]
      exact ⟨h.tracks.isTaken_of_gains h.gains hpassed.1, hpassed.2⟩

/-- If what has been written still matches, the update prepares it again. -/
lemma prepareUpdate_again (h : Written table next records entries conditions changes table')
    (hchanges : Entries.Distinct changes)
    (hmatching : table'.matching (.map conditions) = .ok ((Entries.keys entries).map .int)) :
    table'.prepareUpdate (.map conditions) (.map changes) = .ok (stagedOf entries) := by
  obtain ⟨keys, targets, hkeys, hchecked, htargets, hcases⟩ := prepareUpdate_eq_ok_iff.mp h.prepared
  obtain rfl : (Entries.keys entries).map .int = targets :=
    Except.ok.inj (h.matching_eq.symm.trans htargets)
  refine prepareUpdate_eq_ok_iff.mpr
    ⟨keys, _, hkeys, h.schema.symm ▸ hchecked, hmatching, ?_⟩
  rcases hcases with hnone | ⟨hsome, changes', hpatch, hkey, -, hdiffer⟩
  · exact Or.inl hnone
  · obtain rfl : changes = changes' := Value.map.inj hpatch
    have hnotnil : entries ≠ [] := by
      rintro rfl
      exact hsome rfl
    refine Or.inr ⟨hsome, changes, rfl, h.checkKeyChange_again hchanges hnotnil hkey, ?_,
      h.schema.symm ▸ hdiffer⟩
    refine (stage_stagedOf_eq_ok_iff h.tracks'.rows h.tracks'.nodup).mpr
      ⟨rfl, fun entry hentry => ⟨entry.2, (h.mem_iff entry).mpr (Or.inl hentry), ?_⟩⟩
    exact h.validate_again hchanges hentry

/-- If what has been written still matches, making the update again leaves the state as it was. -/
lemma update_again (h : Written table next records entries conditions changes table')
    (hchanges : Entries.Distinct changes)
    (hmatching : table'.matching (.map conditions) = .ok ((Entries.keys entries).map .int)) :
    (table'.update (.map conditions) (.map changes)).result = .ok entries.length ∧
      table'.SameState (table'.update (.map conditions) (.map changes)).table := by
  have hstaged := h.prepareUpdate_again hchanges hmatching
  have hholds := holds_of_prepareUpdate h.tracks'.sound keyIn_of_accepts hstaged
  have hkeyed : ∀ entry ∈ entries, table'.schema.Holds KeyIn entry.2 :=
    fun entry hentry => hholds _ (List.mem_map_of_mem hentry)
  obtain ⟨hdone, hsame⟩ := h.tracks'.replaceRows_self
    (fun entry hentry => (h.mem_iff entry).mpr (Or.inl hentry)) hkeyed
  obtain ⟨hresult, htable⟩ := update_of_prepareUpdate hstaged (Prod.ext rfl hdone)
  rw [hresult, htable]
  exact ⟨by simp [stagedOf], hsame⟩

end Written

/-! ## Rows that still match -/

/-- Conditions are matched by what satisfies the predicates that they state. -/
lemma matching_map (table : Table) (conditions : Record) :
    table.matching (.map conditions) =
      table.matchPredicates (predicatesOf table.schema conditions) := by
  cases conditions with
  | nil => exact (scanFor_nil table.rows).symm
  | cons condition rest => rfl

/-- A scan ends exactly if it can be told of every record whether it satisfies the predicates, and finds
those that do. -/
lemma scanFor_rowsOf_iff {predicates : List Predicate} {ids : List RowId}
    (hnodup : (Entries.keys records).Nodup) :
    scanFor predicates (rowsOf records) = .ok ids ↔ ∃ found : Int → Bool,
      (∀ entry ∈ records, Predicate.allHold (.record entry.2) predicates = .ok (found entry.1)) ∧
        ids = ((Entries.keys records).filter found).map .int := by
  constructor
  · intro h
    obtain ⟨htold, rfl⟩ := scanFor_eq_ok h
    have hlookup : ∀ entry ∈ records, records.lookup entry.1 = some entry.2 :=
      fun entry hentry => Entries.lookup_eq_some_of_mem hnodup hentry
    refine ⟨fun i => ((records.lookup i).map fun record =>
      satisfies predicates (.record record)).getD false, fun entry hentry => ?_, ?_⟩
    · simp only [hlookup entry hentry]
      exact htold (.int entry.1, .record entry.2) (List.mem_map_of_mem hentry)
    · rw [rowsOf, Entries.keys, List.filter_map, List.filter_map, List.map_map, List.map_map]
      refine congrArg (List.map _) (List.filter_congr fun entry hentry => ?_)
      rw [Function.comp_apply, Function.comp_apply, hlookup entry hentry]
      rfl
  · rintro ⟨found, htold, rfl⟩
    clear hnodup
    induction records with
    | nil => rfl
    | cons entry rest ih =>
      obtain ⟨i, record⟩ := entry
      obtain ⟨hfirst, hrest⟩ := List.forall_mem_cons.mp htold
      rw [rowsOf, List.map_cons, ← rowsOf, scanFor, hfirst, ih hrest]
      cases hfound : found i <;> simp [Entries.keys, hfound] <;> rfl

/-- A record in canonical form satisfies a single equality on an indexed column exactly if it holds the same
key. -/
lemma Named.allHold_equal (h : table.Named) {record : Record}
    (hholds : table.schema.Holds CanonicalIn record) {column : Value} {index : Index}
    (hindex : table.index? column = some index) (w : Value) :
    Predicate.allHold (.record record) [⟨column, .equal, w⟩] = .ok (record.value column == w) := by
  obtain ⟨k, hmem, hhash, hsame⟩ := h.index?_eq_some hindex
  obtain ⟨-, -, c, hc, hname, hkind⟩ := h _ hmem
  have hequals : (record.value column).equals w = (record.value column == w) := by
    refine Value.equals_eq_beq ?_ w
    rw [value_congr hhash (Value.beq_trans hhash hsame hname)]
    exact (isHashable_value hholds hc hkind).2
  rw [← hequals]
  change (Except.ok ((record.value column).equals w) >>= _) = _
  cases (record.value column).equals w <;> rfl

/-- What an index lists under a key are records that hold it, and all that are in canonical form. -/
lemma Tracks.mem_ids (h : table.Tracks next records) {entry : Int × Record} (hentry : entry ∈ records)
    {column w : Value} {index : Index} (hindex : table.index? column = some index)
    (hkey : w.isHashable = true) (hpresent : w.isNull = false) :
    (Value.int entry.1 ∈ index.ids w → (entry.2.value column == w) = true) ∧
      (table.schema.Holds CanonicalIn entry.2 → (entry.2.value column == w) = true →
        Value.int entry.1 ∈ index.ids w) := by
  obtain ⟨k, hmem, hhash, hsame⟩ := h.named.index?_eq_some hindex
  obtain ⟨holds, hfollows⟩ := h.follows _ hmem
  rw [hfollows.denotes.mem_ids _ _ hkey, value_congr hhash hsame]
  constructor
  · rintro ⟨u, hu, hequal⟩
    rw [hfollows.held _ _ _ hu hentry]
    exact hequal
  · intro hholds hequal
    exact ⟨_, hfollows.found _ hentry (keyIn_of_canonical hholds)
      ((Value.isNull_congr hequal).trans hpresent), hequal⟩

/-- Predicates are answered by an index after changes exactly if they were before. -/
lemma Gains.isSome_indexed? {is : List Int} (h : table.Gains table' is) (predicates : List Predicate) :
    (table'.indexed? predicates).isSome = (table.indexed? predicates).isSome := by
  unfold indexed?
  split
  · split
    · rfl
    · rw [Option.isSome_map, Option.isSome_map, h.isSome_index?]
  · rfl

namespace Written

/-- What has been written is in canonical form. -/
lemma holds_canonical (h : Written table next records entries conditions changes table') :
    ∀ entry ∈ entries, table.schema.Holds CanonicalIn entry.2 :=
  fun _ hentry => canonical_of_prepareUpdate h.tracks.sound h.prepared _ (List.mem_map_of_mem hentry)

/-- Where a scan has found the rows that have been written, a scan of the rows afterwards finds no others, and
all of them exactly if they satisfy the predicates. -/
lemma scanFor_again (h : Written table next records entries conditions changes table')
    {predicates : List Predicate}
    (hscan : scanFor predicates table.rows = .ok ((Entries.keys entries).map .int)) :
    (∀ is : List Int, scanFor predicates table'.rows = .ok (is.map .int) →
        ∀ i ∈ is, i ∈ Entries.keys entries) ∧
      (scanFor predicates table'.rows = .ok ((Entries.keys entries).map .int) ↔
        ∀ entry ∈ entries, Predicate.allHold (.record entry.2) predicates = .ok true) := by
  rw [h.tracks.rows, scanFor_rowsOf_iff h.tracks.nodup] at hscan
  obtain ⟨found, htold, hids⟩ := hscan
  have hfound := Value.map_int_injective hids
  rw [h.tracks'.rows, scanFor_rowsOf_iff h.tracks'.nodup]
  simp only [scanFor_rowsOf_iff h.tracks'.nodup, h.keys_eq]
  constructor
  · rintro is ⟨found', htold', his⟩ i hi
    obtain rfl := Value.map_int_injective his
    by_contra hnot
    obtain ⟨hmem, hheld⟩ := List.mem_filter.mp hi
    obtain ⟨entry, hentry, rfl⟩ := List.mem_map.mp hmem
    -- a row that has not been written is as it was, and the scan has not found it before
    have hafter := htold' entry ((h.mem_iff entry).mpr (Or.inr ⟨hentry, hnot⟩))
    have hsame : found entry.1 = found' entry.1 :=
      Except.ok.inj ((htold entry hentry).symm.trans hafter)
    rw [hfound] at hnot
    exact hnot (List.mem_filter.mpr ⟨hmem, hsame.trans hheld⟩)
  · constructor
    · rintro ⟨found', htold', hfound'⟩ entry hentry
      have hmem : entry.1 ∈ Entries.keys entries := List.mem_map_of_mem hentry
      rw [Value.map_int_injective hfound'] at hmem
      rw [htold' entry ((h.mem_iff entry).mpr (Or.inl hentry)), (List.mem_filter.mp hmem).2]
    · intro hall
      refine ⟨found, fun entry hentry => ?_, congrArg _ hfound⟩
      rcases (h.mem_iff entry).mp hentry with hwritten | ⟨hold, -⟩
      · have hmem : entry.1 ∈ Entries.keys entries := List.mem_map_of_mem hwritten
        rw [hfound] at hmem
        rw [hall entry hwritten, (List.mem_filter.mp hmem).2]
      · exact htold entry hold

/-- Where an index has listed the rows that have been written, it lists no others afterwards, and all of them
exactly if they satisfy the equality that it has been asked for. -/
lemma ids_again (h : Written table next records entries conditions changes table')
    {column w : Value} {index index' : Index} (hindex : table.index? column = some index)
    (hindex' : table'.index? column = some index') (hkey : w.isHashable = true)
    (hpresent : w.isNull = false) (hids : index.ids w = (Entries.keys entries).map .int) :
    (∀ is : List Int, index'.ids w = is.map .int → ∀ i ∈ is, i ∈ Entries.keys entries) ∧
      (index'.ids w = (Entries.keys entries).map .int ↔
        ∀ entry ∈ entries,
          Predicate.allHold (.record entry.2) [⟨column, .equal, w⟩] = .ok true) := by
  obtain ⟨old, hold, hgained⟩ := h.gains.exists_index hindex'
  obtain rfl : index = old := Option.some.inj (hindex.symm.trans hold)
  have hgained := hgained (h.tracks.regular_of_index? hindex)
  have hnone : ∀ i, Value.int i ∈ index'.ids w → i ∈ Entries.keys entries := fun i hi =>
    (hgained.among i w hi).elim id fun hlisted =>
      Value.int_mem_map_int.mp (hids ▸ hlisted)
  have hheld : ∀ entry ∈ entries,
      (Predicate.allHold (.record entry.2) [⟨column, .equal, w⟩] = .ok true ↔
        Value.int entry.1 ∈ index'.ids w) := by
    intro entry hentry
    have hholds := h.holds_canonical entry hentry
    rw [← h.schema] at hholds
    obtain ⟨hlisted, hfound⟩ :=
      h.tracks'.mem_ids ((h.mem_iff entry).mpr (Or.inl hentry)) hindex' hkey hpresent
    rw [h.tracks'.named.allHold_equal hholds hindex', Except.ok.injEq]
    exact ⟨hfound hholds, hlisted⟩
  refine ⟨fun is his i hi => hnone i (his ▸ Value.int_mem_map_int.mpr hi), fun hlisted entry hentry => ?_,
    fun hall => ?_⟩
  · rw [hheld entry hentry, hlisted]
    exact List.mem_map_of_mem (List.mem_map_of_mem hentry)
  · obtain ⟨is, his, hascending⟩ := hgained.regular.ids_ascending w
    rw [his]
    refine congrArg _ (eq_of_ascending hascending h.ascending fun i => ?_)
    rw [← Value.int_mem_map_int, ← his]
    refine ⟨hnone i, fun hi => ?_⟩
    obtain ⟨entry, hentry, rfl⟩ := List.mem_map.mp hi
    exact (hheld entry hentry).mp (hall entry hentry)

/-- Once an update has been made, nothing else matches than what it has written, and all of that does
exactly if it satisfies the conditions. -/
lemma matching_again (h : Written table next records entries conditions changes table') :
    (∀ is : List Int, table'.matching (.map conditions) = .ok (is.map .int) →
        ∀ i ∈ is, i ∈ Entries.keys entries) ∧
      (table'.matching (.map conditions) = .ok ((Entries.keys entries).map .int) ↔
        ∀ entry ∈ entries, Predicate.allHold (.record entry.2)
          (predicatesOf table.schema conditions) = .ok true) := by
  have hbefore := h.matching_eq
  rw [matching_map, h.schema]
  rw [matching_map] at hbefore
  have hpath := h.gains.isSome_indexed? (predicatesOf table.schema conditions)
  cases hindexed : table.indexed? (predicatesOf table.schema conditions) with
  | none =>
    rw [hindexed, Option.isSome_none, Option.isSome_eq_false_iff, Option.isNone_iff_eq_none] at hpath
    rw [matchPredicates, hindexed] at hbefore
    simp only [matchPredicates, hpath]
    exact h.scanFor_again hbefore
  | some ids =>
    obtain ⟨column, w, index, hpredicates, hkey, hindex, rfl⟩ := exists_of_indexed? hindexed
    rw [Bool.or_eq_false_iff, Bool.not_eq_false'] at hkey
    obtain ⟨index', hindex'⟩ : ∃ index', table'.index? column = some index' := by
      rw [← Option.isSome_iff_exists, h.gains.isSome_index?, hindex]
      rfl
    have hindexed' : table'.indexed? [⟨column, .equal, w⟩] = some (index'.ids w) := by
      simp [indexed?, hkey, hindex']
    rw [hpredicates] at hindexed hbefore ⊢
    rw [matchPredicates, hindexed] at hbefore
    simp only [matchPredicates, hindexed', Except.ok.injEq]
    exact h.ids_again hindex hindex' hkey.2 hkey.1 (Except.ok.inj hbefore)

end Written

/-! ## When an update repeats -/

/-- An update that has written `n` rows writes as many when it is made again, and leaves the state of the
table as it was. -/
structure Repeats (table : Table) (conditions changes : Record) (n : Nat) : Prop where
  result : ((table.update (.map conditions) (.map changes)).table.update (.map conditions)
    (.map changes)).result = .ok n
  state : (table.update (.map conditions) (.map changes)).table.SameState
    ((table.update (.map conditions) (.map changes)).table.update (.map conditions)
      (.map changes)).table

/-- The rows that match conditions still satisfy them when a patch has been merged into them. -/
def StillMatch (table : Table) (conditions changes : Record) : Prop :=
  ∀ targets, table.matching (.map conditions) = .ok targets →
    ∀ entry ∈ table.rows, targets.contains entry.1 = true →
      ∀ row, entry.2.merged table.schema changes = .ok row →
        Predicate.allHold row (predicatesOf table.schema conditions) = .ok true

namespace Written

/-- What an update writes satisfies its conditions exactly if the rows that match satisfy them when the
patch has been merged into them. -/
lemma stillMatch_iff (h : Written table next records entries conditions changes table') :
    table.StillMatch conditions changes ↔ ∀ entry ∈ entries,
      Predicate.allHold (.record entry.2) (predicatesOf table.schema conditions) = .ok true := by
  constructor
  · intro hmatch entry hentry
    obtain ⟨old, hold, hvalid⟩ := h.exists_old entry hentry
    have hrow : (Value.int entry.1, Row.record old) ∈ table.rows := by
      rw [h.tracks.rows]
      exact List.mem_map_of_mem hold
    refine hmatch _ h.matching_eq _ hrow ?_ _ (merged_record_eq_ok_iff.mpr
      ⟨entry.2, ((Schema.validate_updating_iff h.tracks.sound).mp hvalid).1, rfl⟩)
    rw [Value.contains_map_int]
    exact List.contains_iff_mem.mpr (List.mem_map_of_mem hentry)
  · intro hall targets htargets row hrow hcontains merged hmerged
    obtain rfl : (Entries.keys entries).map .int = targets :=
      Except.ok.inj (h.matching_eq.symm.trans htargets)
    rw [h.tracks.rows] at hrow
    obtain ⟨⟨i, old⟩, hold, rfl⟩ := List.mem_map.mp hrow
    rw [Value.contains_map_int, List.contains_iff_mem] at hcontains
    obtain ⟨entry, hentry, rfl⟩ := List.mem_map.mp hcontains
    obtain ⟨old', hold', hvalid⟩ := h.exists_old entry hentry
    obtain rfl := Entries.eq_of_mem h.tracks.nodup hold hold'
    obtain ⟨record, hrecord, rfl⟩ := merged_record_eq_ok_iff.mp hmerged
    have huntaken := ((Schema.validate_updating_iff h.tracks.sound).mp hvalid).1
    obtain rfl : record = entry.2 := Except.ok.inj (hrecord.symm.trans huntaken)
    exact hall entry hentry

end Written

/-- An update that succeeds repeats exactly if the rows that match satisfy the conditions when the patch has
been merged into them. -/
theorem Tracks.repeats_iff (h : table.Tracks next records) (hchanges : Entries.Distinct changes)
    (hok : (table.update (.map conditions) (.map changes)).result = .ok n) :
    table.Repeats conditions changes n ↔ table.StillMatch conditions changes := by
  obtain ⟨entries, rfl, hwritten⟩ := h.exists_written hok
  rw [hwritten.stillMatch_iff, ← hwritten.matching_again.2]
  constructor
  · intro hrepeats
    obtain ⟨again, hlength, hagain⟩ := hwritten.tracks'.exists_written hrepeats.result
    -- what matches again has been written before, and is as much
    have hmatching := hagain.matching_eq
    have hsubset := hwritten.matching_again.1 _ hmatching
    have hperm : (Entries.keys again).Perm (Entries.keys entries) :=
      (hagain.nodup.subperm hsubset).perm_of_length_le (by simp [Entries.keys, hlength])
    rwa [eq_of_ascending hagain.ascending hwritten.ascending fun i => hperm.mem_iff] at hmatching
  · intro hmatching
    obtain ⟨hresult, hsame⟩ := hwritten.update_again hchanges hmatching
    exact ⟨hresult, hsame⟩

/-! ## Values that stay as they are -/

/-- A value stays as it is when it is stored. -/
def StaysIn (column : Column) (v : Value) : Prop :=
  column.kind.coerce v = v

/-- A record has columns of a schema only, and what it holds there stays as it is when it is stored. -/
structure Preserved (schema : Schema) (record : Record) : Prop where
  kept : schema.Holds StaysIn record
  ordered : schema.Orders record

/-- A record with columns of a schema only holds nothing in others. -/
lemma value_of_orders {schema : Schema} {record : Record} (h : schema.Orders record) {column : Value}
    (hother : ∀ c ∈ schema.columns, (column == c.name) = false) : record.value column = .null := by
  have hnone : record.lookup column = none := by
    refine List.lookup_eq_none_iff.mpr fun entry hentry => ?_
    obtain ⟨c, hc, hname⟩ := List.mem_map.mp (h.subset (List.mem_map_of_mem hentry))
    rw [bne, ← hname, hother c hc]
    rfl
  rw [Record.value, hnone]
  rfl

/-- What a patch does not name is left by the merge of a record that is stored as it is. -/
lemma Preserved.value_eq {P : Column → Prop} {schema : Schema} (hschema : schema.Sound P)
    {old record : Record} (h : Preserved schema old) {isTaken : TakenTest}
    (hkeys : ∀ entry ∈ changes, entry.1.isHashable = true)
    (hvalid : schema.validate isTaken true (merge old changes) = .ok record) {column : Value}
    (hunnamed : Entries.has column changes = false) : record.value column = old.value column := by
  by_cases hcolumn : ∃ c ∈ schema.columns, (column == c.name) = true
  · obtain ⟨c, hc, hname⟩ := hcolumn
    have hhash : column.isHashable = true :=
      (Value.isHashable_congr hname).trans (hschema.hashable c hc)
    have hunnamed' : Entries.has c.name changes = false := by
      rw [← hunnamed, Entries.has, Entries.has]
      simp only [Value.beq_congr_right hhash hname]
    rw [value_congr hhash hname, value_congr hhash hname]
    refine value_of_unnamed hschema hkeys hvalid hc ?_ hunnamed'
    rw [Record.value]
    cases hlookup : old.lookup c.name with
    | none => exact Kind.coerce_of_isNull rfl
    | some v => exact h.kept c hc v hlookup
  · simp only [not_exists, not_and, Bool.not_eq_true] at hcolumn
    rw [value_of_orders (Schema.orders_of_validate hvalid) hcolumn, value_of_orders h.ordered hcolumn]

/-- Rows that hold the same in the columns of predicates satisfy them alike. -/
lemma allHold_congr {row row' : Row} {predicates : List Predicate}
    (h : ∀ predicate ∈ predicates, row'.value predicate.column = row.value predicate.column) :
    Predicate.allHold row' predicates = Predicate.allHold row predicates := by
  induction predicates with
  | nil => rfl
  | cons predicate rest ih =>
    obtain ⟨hfirst, hrest⟩ := List.forall_mem_cons.mp h
    rw [Predicate.allHold, Predicate.allHold, Predicate.holds, Predicate.holds, hfirst, ih hrest]

/-- A predicate is about a column that the conditions mention. -/
lemma exists_of_mem_predicatesOf {schema : Schema} {predicate : Predicate}
    (h : predicate ∈ predicatesOf schema conditions) :
    ∃ condition ∈ conditions, predicate.column = condition.1 := by
  obtain ⟨condition, hcondition, hmem⟩ := List.mem_flatMap.mp h
  obtain ⟨comparison, -, rfl⟩ := List.mem_map.mp hmem
  exact ⟨condition, hcondition, rfl⟩

/-- If rows are stored as they are, the ones that match still do when a patch has been merged into them that
names no column of the conditions. -/
lemma Written.allHold_of_preserved
    (h : Written table next records entries conditions changes table')
    (hrecords : ∀ entry ∈ records, Preserved table.schema entry.2)
    (hapart : ∀ condition ∈ conditions, Entries.has condition.1 changes = false) :
    ∀ entry ∈ entries, Predicate.allHold (.record entry.2)
      (predicatesOf table.schema conditions) = .ok true := by
  intro entry hentry
  have hmem : entry.1 ∈ Entries.keys entries := List.mem_map_of_mem hentry
  obtain ⟨old, hold, hvalid⟩ := h.exists_old entry hentry
  have hvalue : ∀ predicate ∈ predicatesOf table.schema conditions,
      entry.2.value predicate.column = old.value predicate.column := by
    intro predicate hpredicate
    obtain ⟨condition, hcondition, hcolumn⟩ := exists_of_mem_predicatesOf hpredicate
    exact (hrecords _ hold).value_eq h.tracks.sound h.isHashable_keys hvalid
      (hcolumn ▸ hapart condition hcondition)
  have hbefore := h.matching_eq
  rw [matching_map, matchPredicates] at hbefore
  split at hbefore
  · rename_i ids hindexed
    obtain rfl := Except.ok.inj hbefore
    obtain ⟨column, w, index, hpredicates, hkey, hindex, hids⟩ := exists_of_indexed? hindexed
    rw [Bool.or_eq_false_iff, Bool.not_eq_false'] at hkey
    rw [hpredicates] at hvalue ⊢
    have hlisted : Value.int entry.1 ∈ index.ids w := by
      rw [hids]
      exact List.mem_map_of_mem hmem
    rw [h.tracks.named.allHold_equal (h.holds_canonical entry hentry) hindex,
      hvalue _ List.mem_cons_self, (h.tracks.mem_ids hold hindex hkey.2 hkey.1).1 hlisted]
  · have hsame : Predicate.allHold (.record entry.2) (predicatesOf table.schema conditions) =
        Predicate.allHold (.record old) (predicatesOf table.schema conditions) :=
      allHold_congr fun predicate hpredicate => congrArg Except.ok (hvalue predicate hpredicate)
    rw [hsame]
    rw [h.tracks.rows, scanFor_rowsOf_iff h.tracks.nodup] at hbefore
    obtain ⟨found, htold, hfound⟩ := hbefore
    rw [Value.map_int_injective hfound] at hmem
    rw [htold (entry.1, old) hold, (List.mem_filter.mp hmem).2]

end Table

/-- The default of a column stays as it is when it is stored. -/
def Column.HasKeptDefault (column : Column) : Prop :=
  ∀ v, column.defaultValue = some v → Table.StaysIn column v

/-- The default of a described column stays as it is. -/
lemma Column.Described.hasKeptDefault {column : Column} (h : column.Described) :
    column.HasKeptDefault :=
  fun v hv => Kind.coerce_eq_self (h.canonical v hv)

namespace Table

/-! ## Every state -/

/-- If defaults stay as they are when they are stored, so do the rows in every state. -/
lemma eachRecord_preserved_run {created : Table}
    (hschema : created.schema.Sound Column.HasKeptDefault) (hnone : created.rows = [])
    (requests : List Request) : (created.run requests).EachRecord (Preserved created.schema) := by
  have haccepted : ∀ (c : Column) v, c.kind.accepts v = .ok true → StaysIn c (c.kind.coerce v) :=
    fun c v h => Kind.coerce_eq_self (Kind.isCanonical_coerce h)
  refine eachRecord_run hnone ?_ ?_ requests
  · intro table hkept _ v record hadmits
    rw [← hkept] at hschema ⊢
    refine ⟨holds_of_admits hschema haccepted (fun _ hc => hc) (fun c _ _ v hnext => ?_) hadmits,
      orders_of_admits hadmits⟩
    obtain ⟨n, rfl⟩ := nextNumber_eq hnext
    rw [StaysIn]
    cases n <;> cases c.kind <;> rfl
  · intro table hkept conditions patch staged hstaged entry hentry
    rw [← hkept] at hschema ⊢
    exact ⟨holds_of_prepareUpdate hschema haccepted hstaged entry hentry,
      orders_of_prepareUpdate hstaged entry hentry⟩

/-- In every state of a table, whatever has been asked of it and with whatever outcome, an update that
succeeds, with conditions that mention no column of its patch, repeats exactly if the rows that match satisfy
the conditions when the patch has been merged into them.  They do if defaults stay as they are when they are
stored. -/
theorem repeats_update_run_iff {source : SchemaSource} (hsource : source.Declares fun _ => True)
    {name directory : String} {created : Table} {effects : List Effect}
    (hcreate : Table.create name source directory = .ok (created, effects))
    (requests : List Request) {conditions changes : Record} (hchanges : Entries.Distinct changes)
    (hapart : ∀ condition ∈ conditions, Entries.has condition.1 changes = false) {n : Nat}
    (hok : ((created.run requests).update (.map conditions) (.map changes)).result = .ok n) :
    ((created.run requests).Repeats conditions changes n ↔
        (created.run requests).StillMatch conditions changes) ∧
      (source.Declares Column.HasKeptDefault → (created.run requests).Repeats conditions changes n) := by
  obtain ⟨schema, hschema, -⟩ := create_eq_ok hcreate
  have hsound := hsource.sound (fun _ _ => trivial) hschema
  obtain ⟨rfl, htracks⟩ := tracks_of_create hsound hschema hcreate
  obtain ⟨next, records, hafter⟩ := htracks.run requests
  refine ⟨hafter.repeats_iff hchanges hok, fun hkept => ?_⟩
  obtain ⟨entries, -, hwritten⟩ := hafter.exists_written hok
  rw [hafter.repeats_iff hchanges hok, hwritten.stillMatch_iff]
  refine hwritten.allHold_of_preserved ?_ hapart
  rw [← eachRecord_iff hafter.rows, (sameFiles_run created requests).schema]
  exact eachRecord_preserved_run (hkept.sound (fun _ hc => hc.hasKeptDefault) hschema) htracks.rows
    requests

/-- A row of a small table is given a text by its number, and given it again. -/
theorem repeats_update_run_twoColumns : ∃ created effects,
    Table.create "t" twoColumns "d" = .ok (created, effects) ∧
      ((created.run requestsOnTwo).update (.map [(.text "a", .int 2)])
        (.map [(.text "b", .text "y")])).result = .ok 1 ∧
      (created.run requestsOnTwo).Repeats [(.text "a", .int 2)] [(.text "b", .text "y")] 1 := by
  obtain ⟨created, effects, hcreate⟩ : ∃ created effects,
      Table.create "t" twoColumns "d" = .ok (created, effects) := ⟨_, _, rfl⟩
  have hok : ((created.run requestsOnTwo).update (.map [(.text "a", .int 2)])
      (.map [(.text "b", .text "y")])).result = .ok 1 := by
    cases hcreate
    rfl
  exact ⟨created, effects, hcreate, hok,
    (repeats_update_run_iff isDescribed_twoColumns.declares hcreate requestsOnTwo
      (List.pairwise_singleton _ _) (by decide) hok).2 isDescribed_twoColumns.declares⟩

/-- The columns of a small table: a date that has been declared outright, with a text for its default, and a
number. -/
def textDefault : SchemaSource :=
  .columns
    [(.text "d", .declared (.make (.text "d") .date (.bool false) (.bool false) (.bool false)
        (.bool false) (some (.text "2020-01-01")) .null .null)),
      (.text "b", .described (.map [(.text "type", .text "number")]))]

/-- If the default of a column of dates is a text, the text has been stored as it is.  It differs from the date
that it denotes until an update of another column makes it that date, and the row does not match any more. -/
theorem not_repeats_textDefault : ∃ created effects,
    Table.create "t" textDefault "d" = .ok (created, effects) ∧
      (created.run [.insert (.map [(.text "b", .int 1)])]).KeysDistinct ∧
      ((created.run [.insert (.map [(.text "b", .int 1)])]).update
        (.map [(.text "d", .map [(.text "!=", .text "2020-01-01")])])
        (.map [(.text "b", .int 2)])).result = .ok 1 ∧
      ¬(created.run [.insert (.map [(.text "b", .int 1)])]).Repeats
        [(.text "d", .map [(.text "!=", .text "2020-01-01")])] [(.text "b", .int 2)] 1 := by
  refine ⟨_, _, rfl, fun column _ a ha b hb hab => ?_, rfl, fun hrepeats => ?_⟩
  · rw [List.mem_singleton.mp ha, List.mem_singleton.mp hb] at hab
    exact absurd rfl hab
  · have hresult : (Except.ok 0 : Except Fault Nat) = .ok 1 := hrepeats.result
    cases hresult

end Table

end RecordStore
