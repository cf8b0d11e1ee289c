import Mathlib.Tactic.FinCases
import RecordStore.Proofs.Table.Canonical
import RecordStore.Proofs.Table.Merging

/-!
# Unique columns under an update

An update looks up what it writes into a unique column among the rows that it does not write, and
compares the rows that it writes with each other in the columns that the patch names.  Each of the two
checks leaves out what the other one sees: the first excludes the rows that are written, and the second
the columns that are not named.  In a column that is not named every written row keeps its value, because
what is held there is in the form in which it is stored; so the rows differ afterwards as they did before.

Nothing is asked of other columns here, so that this holds of tables whose defaults have not been checked,
too, as long as the indexes of the unique columns list what the rows hold.
-/

namespace RecordStore.Table

variable {table : Table} {records entries : List (Int × Record)}

/-! ## Rows that differ -/

/-- No two rows hold values that are equal in a unique column or in the primary key. -/
def KeysDistinct (table : Table) : Prop :=
  ∀ column, column ∈ table.schema.uniqueNames ∨ table.schema.primaryKey = some column →
    ∀ a ∈ table.rows, ∀ b ∈ table.rows, a.1 ≠ b.1 → (a.2.held column).isNull = false →
      (a.2.held column).equals (b.2.held column) = false

/-- The records under different ids hold values that are not equal in a column. -/
def DifferIn (column : Value) (records : List (Int × Record)) : Prop :=
  ∀ a ∈ records, ∀ b ∈ records, a.1 ≠ b.1 → (a.2.value column).isNull = false →
    (a.2.value column).equals (b.2.value column) = false

/-- The records under different ids hold values that are not equal in unique columns. -/
def Differ (schema : Schema) (records : List (Int × Record)) : Prop :=
  ∀ c ∈ schema.columns, c.isUnique = true → DifferIn c.name records

/-- The rows of a table have distinct keys exactly if its records differ. -/
lemma keysDistinct_iff_differ {P : Column → Prop} (hschema : table.schema.Sound P)
    (hrows : table.rows = rowsOf records) : table.KeysDistinct ↔ Differ table.schema records := by
  constructor
  · intro hdistinct c hc hunique a ha b hb hab hpresent
    have hmem : ∀ entry ∈ records, (Value.int entry.1, Row.record entry.2) ∈ table.rows := by
      intro entry hentry
      rw [hrows]
      exact List.mem_map_of_mem hentry
    exact hdistinct c.name (Or.inl (mem_uniqueNames hc hunique)) _ (hmem a ha) _ (hmem b hb)
      (fun heq => hab (Value.int.inj heq)) hpresent
  · intro hdiffer column hcolumn a ha b hb hab hpresent
    have hmem : column ∈ table.schema.uniqueNames :=
      hcolumn.elim id fun hkey => key_mem_uniqueNames hschema hkey
    obtain ⟨c, hc, rfl⟩ := List.mem_map.mp hmem
    obtain ⟨hc, hunique⟩ := List.mem_filter.mp hc
    rw [hrows] at ha hb
    obtain ⟨a', ha', rfl⟩ := List.mem_map.mp ha
    obtain ⟨b', hb', rfl⟩ := List.mem_map.mp hb
    exact hdiffer c hc hunique a' ha' b' hb' (fun heq => hab (congrArg Value.int heq)) hpresent

/-! ## Records that are put in the places of others -/

/-- Putting records that hold what was held before keeps records different. -/
lemma DifferIn.replace_kept {column : Value} (h : DifferIn column records)
    (hnodup : (Entries.keys records).Nodup) (hentries : (Entries.keys entries).Nodup)
    (hkept : ∀ entry ∈ entries, ∃ old, (entry.1, old) ∈ records ∧
      entry.2.value column = old.value column) :
    DifferIn column
      (entries.foldl (fun records entry => Entries.put entry.1 entry.2 records) records) := by
  have hids : ∀ entry ∈ entries, entry.1 ∈ Entries.keys records := by
    intro entry hentry
    obtain ⟨old, hold, -⟩ := hkept entry hentry
    exact List.mem_map.mpr ⟨_, hold, rfl⟩
  intro a ha b hb hab hpresent
  rw [Entries.mem_foldl_put_iff hnodup hentries hids] at ha hb
  have hbefore : ∀ entry, (entry ∈ entries ∨ entry ∈ records ∧ entry.1 ∉ Entries.keys entries) →
      ∃ old, (entry.1, old) ∈ records ∧ entry.2.value column = old.value column := by
    rintro entry (hnew | ⟨hold, -⟩)
    · exact hkept entry hnew
    · exact ⟨entry.2, hold, rfl⟩
  obtain ⟨olda, holda, hvaluea⟩ := hbefore a ha
  obtain ⟨oldb, holdb, hvalueb⟩ := hbefore b hb
  rw [hvaluea] at hpresent ⊢
  rw [hvalueb]
  exact h _ holda _ holdb hab hpresent

/-- What some records hold in a column is held by no record whose place none of them takes, and no two of
them hold the same. -/
structure UnclaimedIn (column : Value) (records entries : List (Int × Record)) : Prop where
  /-- Only records whose places are taken hold it. -/
  free : ∀ entry ∈ entries, (entry.2.value column).isNull = false → ∀ b ∈ records,
    (b.2.value column == entry.2.value column) = true → b.1 ∈ Entries.keys entries
  /-- It is held once. -/
  pairwise : entries.Pairwise fun a b => (a.2.value column).isNull = false →
    (a.2.value column == b.2.value column) = false

/-- Putting records keeps records different if nothing else claims what is put. -/
lemma DifferIn.replace_patched {column : Value} (h : DifferIn column records)
    (hnodup : (Entries.keys records).Nodup) (hentries : (Entries.keys entries).Nodup)
    (hids : ∀ entry ∈ entries, entry.1 ∈ Entries.keys records)
    (hkeys : ∀ entry ∈ entries, (entry.2.value column).isHashable = true ∧
      (entry.2.value column).isNotNumber = false)
    (hclear : UnclaimedIn column records entries) :
    DifferIn column
      (entries.foldl (fun records entry => Entries.put entry.1 entry.2 records) records) := by
  intro a ha b hb hab hpresent
  rw [Entries.mem_foldl_put_iff hnodup hentries hids] at ha hb
  rw [Bool.eq_false_iff]
  intro hequal
  rcases ha with ha | ⟨ha, hanot⟩
  · rw [Value.equals_eq_beq (hkeys a ha).2] at hequal
    have hpresentb := (Value.isNull_congr hequal).symm.trans hpresent
    rcases hb with hb | ⟨hb, hbnot⟩
    · have hne := List.Pairwise.forall_of_forall_of_flip
        (R := fun a b : Int × Record => a.1 ≠ b.1 → (a.2.value column).isNull = false →
          (b.2.value column).isNull = false → (a.2.value column == b.2.value column) = false)
        (fun x _ hne => absurd rfl hne) (hclear.pairwise.imp fun hd _ hx _ => hd hx)
        (hclear.pairwise.imp_of_mem fun {x y} _ hy hd _ _ hx => by
          rw [Value.beq_comm (hkeys y hy).1]
          exact hd hx)
        ha hb hab hpresent hpresentb
      rw [hne] at hequal
      cases hequal
    · rw [Value.beq_comm (hkeys a ha).1] at hequal
      exact hbnot (hclear.free a ha hpresent b hb hequal)
  · rcases hb with hb | ⟨hb, -⟩
    · rw [Value.equals_eq_beq_of_operand _ (hkeys b hb).2] at hequal
      have hpresentb := (Value.isNull_congr hequal).symm.trans hpresent
      exact hanot (hclear.free b hb hpresentb a ha hequal)
    · rw [h a ha b hb hab hpresent] at hequal
      cases hequal

/-- If records are different after some have been put among them, nothing else claims what has been put. -/
lemma DifferIn.of_replace {column : Value} (hnodup : (Entries.keys records).Nodup)
    (hentries : (Entries.keys entries).Nodup)
    (hids : ∀ entry ∈ entries, entry.1 ∈ Entries.keys records)
    (hkeys : ∀ entry ∈ entries, (entry.2.value column).isHashable = true ∧
      (entry.2.value column).isNotNumber = false)
    (h : DifferIn column
      (entries.foldl (fun records entry => Entries.put entry.1 entry.2 records) records)) :
    UnclaimedIn column records entries := by
  have hmem : ∀ entry, entry ∈ entries.foldl
      (fun records entry => Entries.put entry.1 entry.2 records) records ↔
        entry ∈ entries ∨ entry ∈ records ∧ entry.1 ∉ Entries.keys entries :=
    fun entry => Entries.mem_foldl_put_iff hnodup hentries hids
  constructor
  · intro entry hentry hpresent b hb hsame
    by_contra hnot
    have hne : entry.1 ≠ b.1 := fun heq => hnot (heq ▸ List.mem_map_of_mem hentry)
    have hdiffer := h entry ((hmem entry).mpr (Or.inl hentry)) b ((hmem b).mpr (Or.inr ⟨hb, hnot⟩))
      hne hpresent
    rw [Value.equals_eq_beq (hkeys entry hentry).2, Value.beq_comm (hkeys entry hentry).1, hsame]
      at hdiffer
    cases hdiffer
  · refine (List.pairwise_map.mp hentries).imp_of_mem fun {a b} ha hb hne hpresent => ?_
    rw [← Value.equals_eq_beq (hkeys a ha).2]
    exact h a ((hmem a).mpr (Or.inl ha)) b ((hmem b).mpr (Or.inl hb)) hne hpresent

/-- Putting records in the places of others changes their rows. -/
lemma rowsOf_foldl_put (change : Row → Row) (hnodup : (Entries.keys records).Nodup)
    (hentries : (Entries.keys entries).Nodup)
    (hchanged : ∀ entry ∈ entries, ∃ old, (entry.1, old) ∈ records ∧
      change (.record old) = .record entry.2) :
    rowsOf (entries.foldl (fun records entry => Entries.put entry.1 entry.2 records) records) =
      (rowsOf records).map fun entry =>
        if ((Entries.keys entries).map Value.int).contains entry.1 then (entry.1, change entry.2)
        else entry := by
  have hids : ∀ entry ∈ entries, entry.1 ∈ Entries.keys records := by
    intro entry hentry
    obtain ⟨old, hold, -⟩ := hchanged entry hentry
    exact List.mem_map.mpr ⟨_, hold, rfl⟩
  rw [Entries.foldl_put_eq_map hnodup hentries hids, rowsOf, rowsOf, List.map_map, List.map_map]
  refine List.map_congr_left fun entry hentry => ?_
  obtain ⟨i, old⟩ := entry
  simp only [Function.comp_apply, Value.contains_map_int]
  cases hlookup : entries.lookup i with
  | none =>
    have hnot : (Entries.keys entries).contains i = false := by
      rw [Bool.eq_false_iff, ne_eq, List.contains_iff_mem, Entries.mem_keys_iff, hlookup]
      simp
    rw [hnot]
    rfl
  | some record =>
    obtain ⟨old', hold', hrow⟩ := hchanged _ (Entries.mem_of_lookup hlookup)
    obtain rfl := Entries.eq_of_mem hnodup hold' hentry
    rw [List.contains_iff_mem.mpr (Entries.mem_keys_iff.mpr ⟨_, hlookup⟩), if_pos rfl, hrow]
    rfl

/-! ## Guarded columns -/

/-- A value of a unique column stays as it is when it is stored again. -/
def FormedIn (column : Column) (v : Value) : Prop :=
  column.isUnique = true → column.kind.coerce v = v

/-- What is in canonical form stays as it is. -/
lemma formed_of_canonical {schema : Schema} {record : Record} (h : schema.Holds CanonicalIn record) :
    schema.Holds FormedIn record :=
  fun c hc v hv _ => Kind.coerce_eq_self (h c hc v hv)

/-- What a record holds in a unique column stays as it is. -/
lemma coerce_value_of_formed {schema : Schema} {record : Record} (h : schema.Holds FormedIn record)
    {c : Column} (hc : c ∈ schema.columns) (hunique : c.isUnique = true) :
    c.kind.coerce (record.value c.name) = record.value c.name := by
  rw [Record.value]
  cases hlookup : record.lookup c.name with
  | none => exact Kind.coerce_of_isNull rfl
  | some v => exact h c hc v hlookup hunique

/-- The unique columns of a table can be indexed and hold values in the form in which they are stored,
and their indexes list every record under what it holds. -/
structure Guarded (table : Table) (records : List (Int × Record)) : Prop where
  /-- The schema has been built by adding columns. -/
  sound : table.schema.Sound fun _ => True
  /-- The rows are the records. -/
  rows : table.rows = rowsOf records
  /-- No id stands twice. -/
  nodup : (Entries.keys records).Nodup
  /-- A unique column can be indexed. -/
  indexable : ∀ c ∈ table.schema.columns, c.isUnique = true → c.kind.isIndexable = true
  /-- What a unique column holds stays as it is when it is stored again. -/
  formed : ∀ entry ∈ records, table.schema.Holds FormedIn entry.2
  /-- The index of a unique column lists every record that holds what can be a key. -/
  listed : ∀ c ∈ table.schema.columns, c.isUnique = true → ∃ index,
    table.index? c.name = some index ∧ ∀ w, w.isHashable = true → w.isNull = false →
      ∀ entry ∈ records, (entry.2.value c.name == w) = true → .int entry.1 ∈ index.ids w

namespace Guarded

variable {c : Column}

/-- A value that no row but the excluded ones is found under is held by excluded rows only. -/
lemma excluded_of_isTaken (h : table.Guarded records) (hc : c ∈ table.schema.columns)
    (hunique : c.isUnique = true) {excluded : List Int} {w : Value} (hw : w.isHashable = true)
    (hpresent : w.isNull = false) (hfree : table.isTaken (excluded.map .int) c.name w = false)
    {entry : Int × Record} (hentry : entry ∈ records)
    (hsame : (entry.2.value c.name == w) = true) : entry.1 ∈ excluded := by
  obtain ⟨index, hindex, hlisted⟩ := h.listed c hc hunique
  rw [isTaken, hindex] at hfree
  have hcontains := List.any_eq_false.mp hfree _ (hlisted w hw hpresent entry hentry hsame)
  rwa [Bool.not_eq_true, Bool.not_eq_false', Value.contains_map_int, List.contains_iff_mem]
    at hcontains

/-- What is staged in a unique column that the patch does not name is what the record held. -/
lemma value_of_kept (h : table.Guarded records) {isTaken : TakenTest}
    {changes old record : Record} (hkeys : ∀ entry ∈ changes, entry.1.isHashable = true) {i : Int}
    (hold : (i, old) ∈ records)
    (hvalid : table.schema.validate isTaken true (merge old changes) = .ok record)
    (hc : c ∈ table.schema.columns) (hunique : c.isUnique = true)
    (hkept : Entries.has c.name changes = false) : record.value c.name = old.value c.name :=
  value_of_unnamed h.sound hkeys hvalid hc (coerce_value_of_formed (h.formed _ hold) hc hunique)
    hkept

end Guarded

/-- A table whose indexes agree with its rows guards its unique columns if they hold what stays as it
is. -/
lemma Lists.guarded (h : table.Lists records) (hsteady : table.Steady) (hkeyed : table.KeyIndexed)
    (hformed : ∀ entry ∈ records, table.schema.Holds FormedIn entry.2) : table.Guarded records := by
  refine ⟨hsteady.schema.mono fun _ _ => trivial, h.rows, h.nodup, fun c hc hunique => ?_, hformed,
    fun c hc hunique => ?_⟩
  · obtain ⟨-, -, -, -, -, hkind⟩ := hsteady.named.exists_index hsteady.schema hkeyed hc hunique
    exact hkind
  · obtain ⟨-, index, -, hindex, -, -⟩ :=
      hsteady.named.exists_index hsteady.schema hkeyed hc hunique
    refine ⟨index, hindex, fun w hw hpresent entry hentry hsame => ?_⟩
    rw [h.ids_of_index? hsteady hindex, hpresent, hw]
    exact List.mem_map_of_mem (List.mem_map_of_mem (List.mem_filter.mpr ⟨hentry, hsame⟩))

/-- A settled table guards its unique columns. -/
lemma Settled.guarded (h : table.Settled records) : table.Guarded records :=
  h.lists.guarded h.steady h.indexed fun _ hentry => formed_of_canonical (h.holds hentry)

/-! ## Updates -/

/-- No key is there twice among values that differ from the ones behind them. -/
lemma hasRepeat_eq_false_iff {vs : List Value} :
    hasRepeat vs = false ↔ vs.Pairwise fun a b => a.isNull = false → (a == b) = false := by
  induction vs with
  | nil => exact iff_of_true rfl List.Pairwise.nil
  | cons v rest ih =>
    have hfirst : (!v.isNull && rest.contains v) = false ↔
        ∀ w ∈ rest, v.isNull = false → (v == w) = false := by
      cases v.isNull with
      | true => simp
      | false =>
        rw [Bool.not_false, Bool.true_and, Bool.eq_false_iff, ne_eq, List.contains_iff_exists_mem_beq]
        simp
    rw [hasRepeat, Bool.or_eq_false_iff, hfirst, ih, List.pairwise_cons]

/-- Staged records pass exactly if they differ from each other in the columns that the patch names. -/
lemma checkStaged_eq_ok_iff {changes : Record} {staged : List (RowId × Record)}
    {columns : List Value} :
    checkStaged changes staged columns = .ok () ↔
      ∀ column ∈ columns, Entries.has column changes = true →
        staged.Pairwise fun a b => (a.2.value column).isNull = false →
          (a.2.value column == b.2.value column) = false := by
  induction columns with
  | nil => exact iff_of_true rfl nofun
  | cons first rest ih =>
    rw [List.forall_mem_cons, ← ih]
    have hfirst : hasRepeat (staged.map fun entry => entry.2.value first) = false ↔
        staged.Pairwise fun a b => (a.2.value first).isNull = false →
          (a.2.value first == b.2.value first) = false := by
      rw [hasRepeat_eq_false_iff, List.pairwise_map]
    rw [← hfirst]
    change (if Entries.has first changes && hasRepeat (staged.map fun entry => entry.2.value first) then
      Except.error (.violation (.duplicate first.label))
      else checkStaged changes staged rest) = .ok () ↔ _
    cases Entries.has first changes <;>
      cases hasRepeat (staged.map fun entry => entry.2.value first) <;> simp

/-- What is staged are the merges of the records in whose places it is put. -/
lemma stage_stagedOf_eq_ok_iff (hrows : table.rows = rowsOf records)
    (hnodup : (Entries.keys records).Nodup) {changes : Record} {isTaken : TakenTest}
    {targets : List RowId} :
    table.stage (.map changes) isTaken targets = .ok (stagedOf entries) ↔
      (Entries.keys entries).map .int = targets ∧ ∀ entry ∈ entries, ∃ old,
        (entry.1, old) ∈ records ∧
          table.schema.validate isTaken true (merge old changes) = .ok entry.2 := by
  have hids : (stagedOf entries).map (·.1) = (Entries.keys entries).map Value.int := by
    simp [stagedOf, Entries.keys]
  rw [stage_eq_ok_iff, hids, stagedOf, List.forall_mem_map]
  refine and_congr_right fun _ => forall₂_congr fun entry _ => ?_
  constructor
  · rintro ⟨old, changes', hold, hchanges, hvalid⟩
    obtain rfl : changes = changes' := Except.ok.inj hchanges
    exact ⟨old, mem_of_recordAt hrows hold, hvalid⟩
  · rintro ⟨old, hold, hvalid⟩
    exact ⟨old, changes, recordAt_of_mem hrows hnodup hold, rfl, hvalid⟩

/-- An update that has been prepared keeps records different. -/
theorem Guarded.differ_replace (h : table.Guarded records) (hdiffer : Differ table.schema records)
    {conditions patch : Value}
    (hstaged : table.prepareUpdate conditions patch = .ok (stagedOf entries))
    (hnodup : (Entries.keys entries).Nodup) :
    Differ table.schema
      (entries.foldl (fun records entry => Entries.put entry.1 entry.2 records) records) := by
  have hmem : ∀ entry ∈ entries,
      ((.int entry.1, entry.2) : RowId × Record) ∈ stagedOf entries :=
    fun entry hentry => List.mem_map_of_mem hentry
  have hcanonical := canonical_of_prepareUpdate h.sound hstaged
  rcases prepareUpdate_eq_ok hstaged with
    hnone | ⟨targets, changes, -, rfl, hkeys, -, hstage, hchecked⟩
  · obtain rfl : entries = [] := List.map_eq_nil_iff.mp hnone
    exact hdiffer
  obtain ⟨rfl, hold⟩ := (stage_stagedOf_eq_ok_iff h.rows h.nodup).mp hstage
  intro c hc hunique
  cases hpatched : Entries.has c.name changes with
  | false =>
    refine (hdiffer c hc hunique).replace_kept h.nodup hnodup fun entry hentry => ?_
    obtain ⟨old, hrecord, hvalidated⟩ := hold entry hentry
    exact ⟨old, hrecord, h.value_of_kept hkeys hrecord hvalidated hc hunique hpatched⟩
  | true =>
    have hplain : ∀ entry ∈ entries, (entry.2.value c.name).isHashable = true ∧
        (entry.2.value c.name).isNotNumber = false := fun entry hentry =>
      isHashable_value (hcanonical _ (hmem entry hentry)) hc (h.indexable c hc hunique)
    refine (hdiffer c hc hunique).replace_patched h.nodup hnodup (fun entry hentry => ?_) hplain
      ⟨fun entry hentry hpresent b hb hsame => ?_, ?_⟩
    · obtain ⟨old, hrecord, -⟩ := hold entry hentry
      exact List.mem_map.mpr ⟨_, hrecord, rfl⟩
    · obtain ⟨old, -, hvalidated⟩ := hold entry hentry
      have hfree := (Schema.validate_updating_iff h.sound).mp hvalidated
      exact h.excluded_of_isTaken hc hunique (hplain entry hentry).1 hpresent
        (hfree.2 c hc hunique hpresent) hb hsame
    · exact List.pairwise_map.mp
        (checkStaged_eq_ok_iff.mp hchecked _ (mem_uniqueNames hc hunique) hpatched)

/-- The numbers in a small table differ. -/
lemma keysDistinct_requestsOnTwo {created : Table} {effects : List Effect}
    (hcreate : Table.create "t" twoColumns "d" = .ok (created, effects)) :
    (created.run requestsOnTwo).KeysDistinct := by
  obtain ⟨schema, hschema⟩ : ∃ schema, Schema.ofSource twoColumns = .ok schema := ⟨_, rfl⟩
  have hsettled : created.Settled [] :=
    settled_of_create isDescribed_twoColumns hschema (by cases hschema; exact hcreate)
  obtain ⟨records, hrun⟩ := hsettled.run requestsOnTwo
  have hrows : (created.run requestsOnTwo).rows = rowsOf
      [(1, [(.text "a", .int 1), (.text "b", .text "x")]), (2, [(.text "a", .int 2)])] := by
    cases hcreate
    rfl
  refine (keysDistinct_iff_differ hrun.described hrows).mpr fun c hc hunique a ha b hb hab _ => ?_
  cases hcreate
  fin_cases hc
  · fin_cases ha <;> fin_cases hb <;> first | exact absurd rfl hab | rfl
  · cases hunique

end RecordStore.Table
