import RecordStore.Proofs.Table.Conformance
import RecordStore.Proofs.Table.Guarding
import RecordStore.Proofs.Table.Matching
import RecordStore.Proofs.Table.Saving
import RecordStore.Proofs.Table.Tracking

/-!
# What an update changes

An update that succeeds writes the rows that a scan finds and no others.  Where an index has answered for
the scan, it may list ids whose rows are gone, as indexes do after an operation that has broken off, but
the update looks every row up before it writes the first, and would not have succeeded.  A row that is
written is the old record with the values of the patch; if the old record conforms to the schema, storing
it again leaves the columns that the patch does not name as they are.

The schema only has to have been built by adding columns.  That the rows conform and differ is asked of
the table as it is before the update, since unchecked defaults can make it fail.
-/

namespace RecordStore

/-! ## Patched records -/

/-- A record with the values of a patch, in the order of the columns: a value that is there is coerced to
the kind of its column, an absent one clears the column, and the other columns keep what they hold. -/
def Schema.patched (schema : Schema) (changes record : Record) : Record :=
  schema.columns.filterMap fun c =>
    match changes.lookup c.name with
    | some v => if v.isNull then none else some (c.name, c.kind.coerce v)
    | none => (record.lookup c.name).map fun v => (c.name, v)

/-- A row with the values of a patch, if it is a record. -/
def Row.patched (schema : Schema) (changes : Record) : Row → Row
  | .record entries => .record (schema.patched changes entries)
  | .other v => .other v

namespace Table

variable {table : Table} {records : List (Int × Record)} {next : Int} {changes : Record}

/-- What a conforming record holds is in canonical form. -/
lemma canonical_of_conforms {P : Column → Prop} {schema : Schema} (hschema : schema.Sound P)
    {record : Record} (h : schema.Conforms record) : schema.Holds CanonicalIn record := by
  intro c hc v hv
  obtain ⟨k, hmem, hname⟩ := Entries.mem_of_lookup_eq_some hv
  obtain ⟨d, hd, rfl, hstores⟩ := h.stores _ hmem
  rw [hschema.eq_of_beq hc hd hname]
  exact hstores.canonical

/-- The merge of a conforming record with a patch is stored as the patched record. -/
lemma eq_patched_of_validate {P : Column → Prop} {schema : Schema} (hschema : schema.Sound P)
    {isTaken : TakenTest} {old record : Record} (hconforms : schema.Conforms old)
    (hkeys : ∀ entry ∈ changes, entry.1.isHashable = true) (hdistinct : Entries.Distinct changes)
    (h : schema.validate isTaken true (merge old changes) = .ok record) :
    record = schema.patched changes old := by
  rw [Schema.eq_filterMap_of_validate h]
  refine List.filterMap_congr fun c hc => ?_
  rw [value_merge hkeys hdistinct (hschema.hashable c hc)]
  cases changes.lookup c.name with
  | some v => rfl
  | none =>
    rw [Option.getD_none, Record.value]
    cases hlookup : old.lookup c.name with
    | none => rfl
    | some v =>
      have hcanonical := canonical_of_conforms hschema hconforms c hc v hlookup
      change (if v.isNull then none else some (c.name, c.kind.coerce v)) = some (c.name, v)
      rw [Kind.isNull_of_isCanonical hcanonical, Kind.coerce_eq_self hcanonical]
      rfl

/-! ## Rows that an index finds -/

/-- If the rows under the ids that an index lists for a key are there, a scan finds the same ids. -/
lemma Tracks.scanFor_of_index (h : table.Tracks next records)
    (hholds : ∀ entry ∈ records, table.schema.Holds CanonicalIn entry.2) {column w : Value}
    {index : Index} (hindex : table.index? column = some index) (hkey : w.isHashable = true)
    (hpresent : w.isNull = false) {is : List Int} (hids : index.ids w = is.map .int)
    (hascending : is.Pairwise (· < ·)) (hlive : ∀ i ∈ is, i ∈ Entries.keys records) :
    scanFor [⟨column, .equal, w⟩] table.rows = .ok (is.map .int) := by
  obtain ⟨k, hmem, hhash, hsame⟩ := h.named.index?_eq_some hindex
  obtain ⟨holds, hfollows⟩ := h.follows _ hmem
  obtain ⟨hindexhash, -, c, hc, hname, hkind⟩ := h.named _ hmem
  -- a record is found by a scan just if it holds the key in the column of the index
  have hequals : ∀ entry ∈ records,
      (entry.2.value column).equals w = (entry.2.value index.column == w) := by
    intro entry hentry
    rw [value_congr hhash hsame, Value.equals_eq_beq]
    rw [value_congr hindexhash hname]
    exact (isHashable_value (hholds entry hentry) hc hkind).2
  have hlisted : ∀ i, i ∈ is ↔ ∃ v, holds i v ∧ (v == w) = true := by
    intro i
    rw [← hfollows.denotes.mem_ids i w hkey, hids]
    simp
  rw [h.rows, scanFor_equal]
  congr 2
  refine eq_of_ascending (h.ascending.sublist (List.filter_sublist.map _)) hascending fun i => ?_
  rw [Entries.keys, List.mem_map, hlisted]
  constructor
  · rintro ⟨⟨j, record⟩, hfound, rfl⟩
    obtain ⟨hrecord, hequal⟩ := List.mem_filter.mp hfound
    rw [hequals _ hrecord] at hequal
    have hnotnull := (Value.isNull_congr hequal).trans hpresent
    exact ⟨_, hfollows.found _ hrecord (keyIn_of_canonical (hholds _ hrecord)) hnotnull, hequal⟩
  · rintro ⟨v, hv, hequal⟩
    obtain ⟨⟨j, record⟩, hrecord, rfl⟩ := List.mem_map.mp (hlive i ((hlisted i).mpr ⟨v, hv, hequal⟩))
    refine ⟨(j, record), List.mem_filter.mpr ⟨hrecord, ?_⟩, rfl⟩
    rw [hequals _ hrecord, hfollows.held j v record hv hrecord]
    exact hequal

/-- If the rows under the ids that conditions are matched by are there, a scan finds the same ids. -/
lemma Tracks.scanFor_of_matching (h : table.Tracks next records)
    (hholds : ∀ entry ∈ records, table.schema.Holds CanonicalIn entry.2)
    {conditions : List (Value × Value)} {is : List Int}
    (hmatching : table.matching (.map conditions) = .ok (is.map .int))
    (hlive : ∀ i ∈ is, i ∈ Entries.keys records) :
    scanFor (predicatesOf table.schema conditions) table.rows = .ok (is.map .int) := by
  cases conditions with
  | nil => exact (scanFor_nil table.rows).trans hmatching
  | cons condition rest =>
    obtain ⟨js, hjs, hascending⟩ := h.matching_eq_ok hmatching
    obtain rfl : is = js := List.map_injective_iff.mpr (fun _ _ => Value.int.inj) hjs
    change table.matchPredicates (predicatesOf table.schema (condition :: rest)) = _ at hmatching
    rw [matchPredicates] at hmatching
    split at hmatching
    · rename_i ids hindexed
      obtain ⟨column, w, index, hpredicates, hkey, hindex, hids⟩ := exists_of_indexed? hindexed
      obtain rfl : is.map .int = ids := (Except.ok.inj hmatching).symm
      rw [Bool.or_eq_false_iff, Bool.not_eq_false'] at hkey
      rw [hpredicates]
      exact h.scanFor_of_index hholds hindex hkey.2 hkey.1 hids hascending hlive
    · exact hmatching

/-! ## What a successful update has done -/

/-- A table whose indexes follow rows in canonical form guards its unique columns. -/
lemma Tracks.guarded (h : table.Tracks next records)
    (hholds : ∀ entry ∈ records, table.schema.Holds CanonicalIn entry.2) :
    table.Guarded records := by
  refine ⟨h.sound, h.rows, h.nodup, fun c hc hunique => ?_,
    fun entry hentry => formed_of_canonical (hholds entry hentry), fun c hc hunique => ?_⟩
  · obtain ⟨-, -, -, -, -, hkind⟩ := h.named.exists_index h.sound h.keyed hc hunique
    exact hkind
  · obtain ⟨k, index, hmem, hindex, hsame, hkind⟩ := h.named.exists_index h.sound h.keyed hc hunique
    refine ⟨index, hindex, fun w hw hpresent entry hentry hheld => ?_⟩
    obtain ⟨holds, hfollows⟩ := h.follows _ hmem
    rw [value_congr (h.sound.hashable c hc) hsame] at hheld
    have hfound := hfollows.found entry hentry (keyIn_of_canonical (hholds entry hentry))
      ((Value.isNull_congr hheld).trans hpresent)
    exact (hfollows.denotes.mem_ids entry.1 w hw).mpr ⟨_, hfound, hheld⟩

/-- What an update prepares on conforming rows are the patched records of the rows that match. -/
lemma Tracks.prepareUpdate_eq_patched (h : table.Tracks next records)
    (hconforms : ∀ entry ∈ records, table.schema.Conforms entry.2)
    {conditions : List (Value × Value)} (hchanges : Entries.Distinct changes)
    {entries : List (Int × Record)}
    (hstaged : table.prepareUpdate (.map conditions) (.map changes) = .ok (stagedOf entries)) :
    table.matching (.map conditions) = .ok ((Entries.keys entries).map .int) ∧
      ∀ entry ∈ entries, ∃ old, (entry.1, old) ∈ records ∧
        entry.2 = table.schema.patched changes old := by
  obtain ⟨keys, targets, hkeys, hchecked, htargets, ⟨rfl, hnone⟩ | ⟨-, changes', hpatch, -, hstage, -⟩⟩ :=
    prepareUpdate_eq_ok_iff.mp hstaged
  · obtain rfl : entries = [] := List.map_eq_nil_iff.mp hnone
    exact ⟨htargets, nofun⟩
  · obtain rfl : changes = changes' := Value.map.inj hpatch
    obtain rfl : changes.map (·.1) = keys := by simpa [patchKeys, Value.items?] using hkeys
    obtain ⟨rfl, hrecords⟩ := (stage_stagedOf_eq_ok_iff h.rows h.nodup).mp hstage
    refine ⟨htargets, fun entry hentry => ?_⟩
    obtain ⟨old, hmem, hvalid⟩ := hrecords entry hentry
    refine ⟨old, hmem, eq_patched_of_validate h.sound (hconforms _ hmem) ?_ hchanges hvalid⟩
    exact fun change hchange =>
      (checkKeys_eq_ok_iff.mp hchecked _ (List.mem_map_of_mem hchange)).1

/-- What an update that has written `n` rows has done to a table. -/
structure Patched (table : Table) (conditions changes : Record) (n : Nat) (table' : Table) : Prop where
  /-- The `n` rows that a scan finds are patched; the other rows, the ids and the order stay. -/
  rows : ∃ ids, scanFor (predicatesOf table.schema conditions) table.rows = .ok ids ∧ ids.length = n ∧
    table'.rows = table.rows.map fun entry =>
      if ids.contains entry.1 then (entry.1, entry.2.patched table.schema changes) else entry
  /-- The id of the next row stays. -/
  nextRowId : table'.nextRowId = table.nextRowId
  /-- The rows differ in unique columns. -/
  distinct : table'.KeysDistinct

/-- An update that succeeds on conforming rows that differ has patched just the rows that a scan finds,
and the rows differ afterwards. -/
theorem Tracks.patched_of_update (h : table.Tracks next records)
    (hconforms : ∀ entry ∈ records, table.schema.Conforms entry.2) (hdistinct : table.KeysDistinct)
    {conditions : Record} (hchanges : Entries.Distinct changes) {n : Nat}
    (hok : (table.update (.map conditions) (.map changes)).result = .ok n) :
    table.Patched conditions changes n (table.update (.map conditions) (.map changes)).table := by
  have hholds : ∀ entry ∈ records, table.schema.Holds CanonicalIn entry.2 :=
    fun entry hentry => canonical_of_conforms h.sound (hconforms entry hentry)
  obtain ⟨staged, hstaged, rfl, hreplaced⟩ := update_eq_ok hok
  obtain ⟨entries, rfl, hnodup, hids, hkeyed⟩ := h.prepareUpdate_eq_ok hstaged
  obtain ⟨htargets, hpatched⟩ := h.prepareUpdate_eq_patched hconforms hchanges hstaged
  have htracks := (h.replaceRows hkeyed hids).2
  have hschema := (sameFiles_replaceRows table (stagedOf entries)).schema
  rw [hreplaced] at htracks hschema
  have hafter := htracks rfl
  refine ⟨⟨_, h.scanFor_of_matching hholds htargets fun i hi => ?_, ?_, ?_⟩, ?_, ?_⟩
  · obtain ⟨entry, hentry, rfl⟩ := List.mem_map.mp hi
    exact hids entry hentry
  · simp [stagedOf, Entries.keys]
  · rw [hafter.rows, h.rows, rowsOf_foldl_put _ h.nodup hnodup fun entry hentry => ?_]
    obtain ⟨old, hold, heq⟩ := hpatched entry hentry
    exact ⟨old, hold, congrArg Row.record heq.symm⟩
  · rw [hafter.next_eq, h.next_eq]
  · have hdiffer := (keysDistinct_iff_differ h.sound h.rows).mp hdistinct
    refine (keysDistinct_iff_differ hafter.sound hafter.rows).mpr ?_
    rw [hschema]
    exact (h.guarded hholds).differ_replace hdiffer hstaged hnodup

/-! ## Every state -/

/-- In every state of a table, whatever has been asked of it and with whatever outcome, in which the rows
conform to the schema and differ in unique columns, an update that succeeds has patched the rows that a
scan finds, as many as it says, and nothing else, and the rows differ afterwards. -/
theorem patched_of_update_run {source : SchemaSource} (hsource : source.Declares fun _ => True)
    {schema : Schema} (hschema : Schema.ofSource source = .ok schema) {name directory : String}
    {created : Table} {effects : List Effect}
    (hcreate : Table.create name source directory = .ok (created, effects))
    (requests : List Request) (hconforms : (created.run requests).EachRecord schema.Conforms)
    (hdistinct : (created.run requests).KeysDistinct) {conditions changes : Record}
    (hchanges : Entries.Distinct changes) {n : Nat}
    (hok : ((created.run requests).update (.map conditions) (.map changes)).result = .ok n) :
    (created.run requests).Patched conditions changes n
      ((created.run requests).update (.map conditions) (.map changes)).table := by
  have hsound := hsource.sound (fun _ _ => trivial) hschema
  obtain ⟨rfl, htracks⟩ := tracks_of_create hsound hschema hcreate
  obtain ⟨next, records, hafter⟩ := htracks.run requests
  refine hafter.patched_of_update (fun entry hentry => ?_) hdistinct hchanges hok
  rw [(sameFiles_run created requests).schema]
  exact (eachRecord_iff hafter.rows).mp hconforms entry hentry

/-- A row of a small table is given a text, and its own number again. -/
theorem patched_of_update_run_twoColumns : ∃ schema created effects,
    Schema.ofSource twoColumns = .ok schema ∧
      Table.create "t" twoColumns "d" = .ok (created, effects) ∧
      (created.run requestsOnTwo).Patched [(.text "a", .int 2)]
        [(.text "b", .text "y"), (.text "a", .int 2)] 1
        ((created.run requestsOnTwo).update (.map [(.text "a", .int 2)])
          (.map [(.text "b", .text "y"), (.text "a", .int 2)])).table := by
  obtain ⟨schema, hschema⟩ : ∃ schema, Schema.ofSource twoColumns = .ok schema := ⟨_, rfl⟩
  obtain ⟨created, effects, hcreate⟩ : ∃ created effects,
      Table.create "t" twoColumns "d" = .ok (created, effects) := ⟨_, _, rfl⟩
  have hsettled : created.Settled [] :=
    settled_of_create isDescribed_twoColumns hschema (by cases hschema; exact hcreate)
  refine ⟨schema, created, effects, hschema, hcreate, patched_of_update_run
    isDescribed_twoColumns.declares hschema hcreate _ ?_ (keysDistinct_requestsOnTwo hcreate)
    (List.pairwise_pair.mpr (by decide)) ?_⟩
  · have hfits : created.schema.DefaultsFit := by
      cases hcreate
      intro c hc v hv
      fin_cases hc <;> cases hv
    have hkept : (created.run requestsOnTwo).schema = schema := by
      cases hschema
      cases hcreate
      rfl
    rw [← hkept]
    refine hsettled.conforms_reaches hfits (fun entry hentry => ?_)
      (hsettled.steady.reaches_run requestsOnTwo)
    rw [hsettled.lists.rows] at hentry
    cases hentry
  · cases hcreate
    rfl

end Table

end RecordStore
