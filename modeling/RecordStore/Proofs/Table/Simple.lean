import RecordStore.Proofs.Snapshot.Legible
import RecordStore.Proofs.Table.Saving
import RecordStore.Proofs.Table.Tidy

/-!
# Tables of simple values

A value is simple if it has no parts.  A column that is declared by simple properties has a simple
default, and as long as only records and patches of simple values are given to a table with such
columns, its rows hold simple values: what is accepted is stored in a simple form, and numbers are
simple.
-/

namespace RecordStore

open Snapshot (ObjectKeys restored)

/-- A value without parts: it is neither a list nor a tuple nor a mapping. -/
abbrev Value.IsSimple (v : Value) : Prop :=
  v.identity?.isSome = true

/-- All values of some entries are simple. -/
def HoldsSimple {κ : Type} (entries : List (κ × Value)) : Prop :=
  ∀ entry ∈ entries, entry.2.IsSimple

namespace HoldsSimple

/-- An entry with a simple value may be put among simple values. -/
lemma put {κ : Type} [BEq κ] [ReflBEq κ] {entries : List (κ × Value)} (h : HoldsSimple entries)
    {key : κ} {v : Value} (hv : v.IsSimple) : HoldsSimple (Entries.put key v entries) := by
  intro entry hentry
  rcases Entries.mem_put hentry with hold | ⟨hnew, -⟩
  · exact h entry hold
  · rw [hnew]
    exact hv

/-- What is found among simple values is simple. -/
lemma lookup {entries : Record} (h : HoldsSimple entries) {key v : Value}
    (hlookup : entries.lookup key = some v) : v.IsSimple := by
  obtain ⟨k, hmem, -⟩ := Entries.mem_of_lookup_eq_some hlookup
  exact h (k, v) hmem

/-- What a record of simple values holds in a column is simple. -/
lemma value {record : Record} (h : HoldsSimple record) (column : Value) :
    (record.value column).IsSimple := by
  rw [Record.value]
  cases hlookup : record.lookup column with
  | none => rfl
  | some v => exact h.lookup hlookup

/-- Fields with simple values are a record of simple values. -/
lemma ofFields {fields : Fields} (h : HoldsSimple fields) :
    HoldsSimple (fields.map fun field => (Value.text field.1, field.2)) := by
  intro entry hentry
  obtain ⟨field, hfield, rfl⟩ := List.mem_map.mp hentry
  exact h field hfield

end HoldsSimple

namespace Kind

variable {kind : Kind} {v w : Value}

/-- The canonical form of a simple value is simple. -/
lemma isSimple_coerce (h : v.IsSimple) : (kind.coerce v).IsSimple := by
  unfold coerce
  split
  · rename_i s
    cases Moment.parse? s with
    | none => exact h
    | some moment => cases moment <;> rfl
  · cases h
  · exact h

/-- A default that is declared by a simple value is simple. -/
lemma isSimple_of_coerceDefault (h : v.IsSimple) (hdefault : kind.coerceDefault v = .ok w) :
    w.IsSimple := by
  obtain ⟨u, hu, hdefault⟩ := Outcome.seq_eq_ok.mp hdefault
  obtain ⟨accepted, -, hdefault⟩ := Outcome.seq_eq_ok.mp hdefault
  have hsimple : u.IsSimple := by
    unfold convertDefault at hu
    split at hu
    · split at hu
      · rename_i numeral _
        rw [Value.ofNumeral] at hu
        split at hu
        · rename_i n _
          obtain rfl := Except.ok.inj hu
          cases n <;> rfl
        · cases hu
      · cases hu
    · dsimp only at hu
      split at hu
      · obtain rfl := Except.ok.inj hu
        rfl
      · split at hu
        · obtain rfl := Except.ok.inj hu
          rfl
        · obtain rfl := Except.ok.inj hu
          exact h
    · cases h
    · cases h
    · cases h
    · obtain ⟨shown, -, rfl⟩ := Outcome.map_eq_ok.mp hu
      rfl
    · obtain rfl := Except.ok.inj hu
      exact h
  split at hdefault
  · obtain rfl := Outcome.pure_eq_ok.mp hdefault
    exact isSimple_coerce hsimple
  · cases hdefault

end Kind

/-! ## Columns -/

namespace Column

/-- A column with a text for its name, a simple default, and a reference that comes back from a
snapshot as it is. -/
structure IsSimple (column : Column) : Prop where
  name : ∃ s, column.name = .text s
  defaultValue : ∀ v ∈ column.defaultValue, v.IsSimple
  foreignKey : restored column.foreignKey = .ok column.foreignKey

/-- All declared properties are simple, apart from the reference, which comes back as it is. -/
def DeclaredSimply (declared : Fields) : Prop :=
  ∀ field ∈ declared, (field.1 ≠ "foreignKey" → field.2.IsSimple) ∧
    (field.1 = "foreignKey" → restored field.2 = .ok field.2)

/-- What is found under a name among fields is missing or one of them. -/
lemma entry_ofFields (key : String) (fields : Fields) :
    Value.entry key (fields.map fun field => (.text field.1, field.2)) = .null ∨
      ∃ field ∈ fields, field.1 = key ∧
        Value.entry key (fields.map fun field => (.text field.1, field.2)) = field.2 := by
  rw [Value.entry, Value.lookup?]
  cases hfound : (fields.map fun field => (Value.text field.1, field.2)).find?
      fun entry => entry.1.text? == some key with
  | none => exact Or.inl rfl
  | some entry =>
    right
    obtain ⟨field, hfield, rfl⟩ := List.mem_map.mp (List.mem_of_find?_eq_some hfound)
    have hkey := List.find?_some hfound
    exact ⟨field, hfield, Option.some.inj (beq_iff_eq.mp hkey), rfl⟩

/-- A column that is declared simply is simple. -/
lemma isSimple_ofEntries {s : String} {declared : Fields} {column : Column}
    (hdeclared : DeclaredSimply declared)
    (h : ofEntries (.text s) (declared.map fun field => (.text field.1, field.2)) = .ok column) :
    column.IsSimple := by
  obtain ⟨kind, -, h⟩ := Outcome.seq_eq_ok.mp h
  obtain ⟨size, -, h⟩ := Outcome.seq_eq_ok.mp h
  obtain ⟨defaultValue, hdefault, h⟩ := Outcome.seq_eq_ok.mp h
  obtain ⟨-, h⟩ := Outcome.unless_eq_ok.mp h
  obtain ⟨-, h⟩ := Outcome.unless_eq_ok.mp h
  obtain rfl := Outcome.pure_eq_ok.mp h
  refine ⟨⟨s, rfl⟩, ?_, ?_⟩
  · intro v hv
    obtain rfl : defaultValue = some v := hv
    have hgiven : (Value.entry "defaultValue"
        (declared.map fun field => (.text field.1, field.2))).IsSimple := by
      rcases entry_ofFields "defaultValue" declared with hnone | ⟨field, hfield, hname, hvalue⟩
      · rw [hnone]
        rfl
      · rw [hvalue]
        refine (hdeclared field hfield).1 ?_
        rw [hname]
        decide
    rw [defaultOf] at hdefault
    split at hdefault
    · cases hdefault
    · split at hdefault
      · rename_i hcoerce
        cases hdefault
        exact Kind.isSimple_of_coerceDefault hgiven hcoerce
      · split at hdefault <;> cases hdefault
  · rw [make]
    dsimp only
    split
    · rcases entry_ofFields "foreignKey" declared with hnone | ⟨field, hfield, hname, hvalue⟩
      · rw [hnone]
        rfl
      · rw [hvalue]
        exact (hdeclared field hfield).2 hname
    · rfl

/-- A column that a mapping of simple properties describes is simple. -/
lemma isSimple_ofValue {s : String} {declared : Fields} {column : Column}
    (hdeclared : DeclaredSimply declared)
    (h : ofValue (.text s) (.ofFields declared) = .ok column) : column.IsSimple := by
  rw [Value.ofFields] at h
  unfold ofValue at h
  split at h
  · exact isSimple_ofEntries hdeclared h
  · have hnone : DeclaredSimply [] := fun field hfield => absurd hfield List.not_mem_nil
    exact isSimple_ofEntries hnone h

end Column

/-- A source that declares columns simply, under texts for names. -/
def SchemaSource.IsSimple : SchemaSource → Prop
  | .columns sources => ∀ entry ∈ sources, ∃ name declared,
      entry = (.text name, .described (.ofFields declared)) ∧ Column.DeclaredSimply declared
  | _ => False

/-- A source that declares columns simply describes them. -/
lemma SchemaSource.IsSimple.isDescribed {source : SchemaSource} (h : source.IsSimple) :
    source.IsDescribed := by
  cases source with
  | columns sources =>
    intro entry hentry
    obtain ⟨name, declared, rfl, -⟩ := h entry hentry
    exact ⟨_, rfl⟩
  | schema declared => cases h
  | value v => cases h

/-- The columns of a schema that is declared simply are simple. -/
lemma SchemaSource.IsSimple.columns {source : SchemaSource} (hsource : source.IsSimple)
    {schema : Schema} (h : Schema.ofSource source = .ok schema) :
    ∀ c ∈ schema.columns, c.IsSimple := by
  cases source with
  | columns sources =>
    have hsound : schema.Sound Column.IsSimple := by
      refine Schema.sound_ofColumns (fun entry hentry c hc => ?_) h
      obtain ⟨name, declared, rfl, hdeclared⟩ := hsource entry hentry
      exact Column.isSimple_ofValue hdeclared hc
    exact hsound.each
  | schema declared => cases hsource
  | value v => cases hsource

/-! ## Records -/

/-- Simple columns have simple defaults. -/
abbrev Schema.DefaultsSimply (schema : Schema) : Prop :=
  ∀ c ∈ schema.columns, ∀ v ∈ c.defaultValue, v.IsSimple

namespace Schema

variable {schema : Schema} {isTaken : TakenTest} {updating : Bool} {valueOf : Value → Value}
  {given record : Record}

/-- What a verdict on a simple value stores is simple. -/
lemma holdsSimple_of_verdict {column : Column} (hdefault : ∀ v ∈ column.defaultValue, v.IsSimple)
    {v : Value} (hv : v.IsSimple) {verdict : Verdict} (h : column.verdict updating v = .ok verdict)
    (name : Value) : HoldsSimple (verdict.entries name) := by
  have habsent : HoldsSimple ((column.absentVerdict updating).entries name) := by
    unfold Column.absentVerdict
    split
    · exact fun entry hentry => absurd hentry List.not_mem_nil
    · split
      · exact fun entry hentry => absurd hentry List.not_mem_nil
      · split
        · rename_i d hd
          split
          · exact fun entry hentry => absurd hentry List.not_mem_nil
          · intro entry hentry
            obtain rfl := List.mem_singleton.mp hentry
            exact hdefault d hd
        · exact fun entry hentry => absurd hentry List.not_mem_nil
  have hstored : HoldsSimple ((Verdict.stored (column.kind.coerce v)).entries name) := by
    intro entry hentry
    obtain rfl := List.mem_singleton.mp hentry
    exact Kind.isSimple_coerce hv
  rw [Column.verdict] at h
  split at h
  · obtain rfl := Except.ok.inj h
    exact habsent
  · obtain ⟨accepted, -, h⟩ := Outcome.bind_eq_ok.mp h
    split at h
    · rw [Column.sizeVerdict] at h
      split at h
      · obtain rfl := Except.ok.inj h
        exact hstored
      · obtain ⟨exceeds, -, rfl⟩ := Outcome.map_eq_ok.mp h
        split
        · exact fun entry hentry => absurd hentry List.not_mem_nil
        · exact hstored
    · obtain rfl := Except.ok.inj h
      exact fun entry hentry => absurd hentry List.not_mem_nil

/-- A checked record holds simple values if only such are given. -/
lemma holdsSimple_of_checkColumns (hvalues : ∀ name, (valueOf name).IsSimple)
    {columns : List Column} (hdefaults : ∀ c ∈ columns, ∀ v ∈ c.defaultValue, v.IsSimple)
    {broken : List Violation}
    (h : checkColumns isTaken updating valueOf columns = .ok (record, broken)) :
    HoldsSimple record := by
  induction columns generalizing record broken with
  | nil =>
    cases h
    exact fun entry hentry => absurd hentry List.not_mem_nil
  | cons column rest ih =>
    obtain ⟨hfirst, hrest⟩ := List.forall_mem_cons.mp hdefaults
    obtain ⟨verdict, hverdict, h⟩ := Outcome.seq_eq_ok.mp h
    obtain ⟨own, -, h⟩ := Outcome.seq_eq_ok.mp h
    obtain ⟨⟨others, violations⟩, hothers, h⟩ := Outcome.seq_eq_ok.mp h
    cases h
    intro entry hentry
    rcases List.mem_append.mp hentry with hown | hother
    · exact holdsSimple_of_verdict hfirst (hvalues _) hverdict _ entry hown
    · exact ih hrest hothers entry hother

/-- A validated record holds simple values if only such are given. -/
lemma holdsSimple_of_validate (hdefaults : schema.DefaultsSimply) (hgiven : HoldsSimple given)
    (h : schema.validate isTaken updating given = .ok record) : HoldsSimple record := by
  obtain ⟨⟨checked, broken⟩, hchecked, h⟩ := Outcome.seq_eq_ok.mp h
  dsimp only at h
  split at h
  · obtain rfl := Outcome.pure_eq_ok.mp h
    exact holdsSimple_of_checkColumns (fun name => hgiven.value name) hdefaults hchecked
  · cases h

end Schema

namespace Table

variable {table table' : Table} {record : Record}

/-- A completed record holds simple values: the numbers that are filled in are simple. -/
lemma holdsSimple_of_complete (h : HoldsSimple record) {completed : Record}
    (hcomplete : table.complete record = .ok completed) : HoldsSimple completed := by
  have hfill : ∀ (columns : List Value) {record filled : Record}, HoldsSimple record →
      table.fillNumbers record columns = .ok filled → HoldsSimple filled := by
    intro columns
    induction columns with
    | nil =>
      intro record filled hrecord hfilled
      obtain rfl := Except.ok.inj hfilled
      exact hrecord
    | cons column rest ih =>
      intro record filled hrecord hfilled
      obtain ⟨v, hv, hfilled⟩ := Outcome.seq_eq_ok.mp hfilled
      refine ih ?_ hfilled
      split
      · exact hrecord
      · intro entry hentry
        rcases List.mem_append.mp hentry with hold | hnew
        · exact hrecord entry hold
        · obtain rfl := List.mem_singleton.mp hnew
          obtain ⟨n, rfl⟩ := nextNumber_eq hv
          cases n <;> rfl
  rw [complete] at hcomplete
  split at hcomplete
  · obtain rfl := Except.ok.inj hcomplete
    exact h
  · obtain ⟨filled, hfilled, rfl⟩ := Outcome.map_eq_ok.mp hcomplete
    have hsimple := hfill _ h hfilled
    intro entry hentry
    obtain ⟨name, -, hname⟩ := List.mem_filterMap.mp hentry
    obtain ⟨v, hv, rfl⟩ := Option.map_eq_some_iff.mp hname
    exact hsimple.lookup hv

/-- Merging simple values into simple values gives simple values. -/
lemma holdsSimple_merge {patch : Record} (h : HoldsSimple record) (hpatch : HoldsSimple patch) :
    HoldsSimple (merge record patch) := by
  rw [merge]
  induction patch generalizing record with
  | nil => exact h
  | cons entry rest ih =>
    obtain ⟨hfirst, hrest⟩ := List.forall_mem_cons.mp hpatch
    refine ih ?_ hrest
    dsimp only
    split
    · exact fun old hold => h old (List.mem_filter.mp hold).1
    · exact h.put hfirst

/-! ## Requests -/

/-- A request to insert a record or apply a patch only gives simple values. -/
def Request.IsSimple : Request → Prop
  | .insert v => ∃ record, v = .map record ∧ HoldsSimple record
  | .update _ patch => ∃ changes, patch = .map changes ∧ HoldsSimple changes
  | _ => True

/-- A table of simple columns whose rows hold simple values. -/
structure IsSimple (table : Table) : Prop where
  columns : ∀ c ∈ table.schema.columns, c.IsSimple
  rows : table.EachRecord HoldsSimple

/-- What is admitted of a record of simple values holds simple values. -/
lemma IsSimple.holdsSimple_of_admits (h : table.IsSimple) {given : Record}
    (hgiven : HoldsSimple given) (hadmits : table.Admits (.map given) record) :
    HoldsSimple record := by
  obtain ⟨checked, hchecked, hcomplete⟩ := hadmits
  have hdefaults : table.schema.DefaultsSimply := fun c hc => (h.columns c hc).defaultValue
  exact holdsSimple_of_complete (Schema.holdsSimple_of_validate hdefaults hgiven hchecked) hcomplete

/-- The rows that a patch of simple values prepares hold simple values. -/
lemma IsSimple.holdsSimple_of_prepareUpdate (h : table.IsSimple) {conditions : Value}
    {changes : Record} (hchanges : HoldsSimple changes) {staged : List (RowId × Record)}
    (hstaged : table.prepareUpdate conditions (.map changes) = .ok staged) :
    ∀ entry ∈ staged, HoldsSimple entry.2 := by
  rcases prepareUpdate_eq_ok hstaged with rfl | ⟨targets, -, -, -, -, -, hstage, -⟩
  · exact fun entry hentry => absurd hentry List.not_mem_nil
  · intro entry hentry
    obtain ⟨old, merged, hold, hmerged, hvalid⟩ := (stage_eq_ok_iff.mp hstage).2 entry hentry
    obtain rfl : changes = merged := Except.ok.inj hmerged
    have holdSimple : HoldsSimple old := by
      obtain ⟨row, hrow, hrecord⟩ := Outcome.bind_eq_ok.mp hold
      rw [rowAt] at hrow
      split at hrow
      · rename_i found hfound
        obtain rfl := Except.ok.inj hrow
        obtain ⟨id, hmem, -⟩ := Entries.mem_of_lookup_eq_some hfound
        obtain ⟨record, hsame, hsimple⟩ := h.rows _ hmem
        dsimp only at hsame
        rw [hsame] at hrecord
        obtain rfl := Except.ok.inj hrecord
        exact hsimple
      · cases hrow
    have hdefaults : table.schema.DefaultsSimply := fun c hc => (h.columns c hc).defaultValue
    exact Schema.holdsSimple_of_validate hdefaults (holdsSimple_merge holdSimple hchanges) hvalid

/-- A request that only gives simple values keeps a steady table of simple values. -/
theorem IsSimple.reply (h : table.IsSimple) (hsteady : table.Steady) {request : Request}
    (hrequest : request.IsSimple) : (table.reply request).table.IsSimple := by
  have hschema := (hsteady.step_reply request).schema_eq
  refine ⟨hschema ▸ h.columns, ?_⟩
  cases request with
  | insert v =>
    obtain ⟨given, rfl, hgiven⟩ := hrequest
    rw [Table.reply, Reply.forget]
    rcases hsteady.insert_cases (.map given) with ⟨fault, heq⟩ | ⟨record, effects, hadmits, heq⟩
    · rw [heq]
      exact h.rows
    · rw [heq]
      intro entry hentry
      rcases Entries.mem_put hentry with hold | ⟨hnew, -⟩
      · exact h.rows entry hold
      · exact ⟨record, hnew, h.holdsSimple_of_admits hgiven hadmits⟩
  | update conditions patch =>
    obtain ⟨changes, rfl, hchanges⟩ := hrequest
    rw [Table.reply, Reply.forget]
    rcases hsteady.update_cases conditions (.map changes) with ⟨fault, heq⟩ | heq |
      ⟨staged, effects, hstaged, heq⟩
    · rw [heq]
      exact h.rows
    · rw [heq]
      exact h.rows
    · rw [heq]
      intro row hrow
      rcases mem_rows_replacedAll hrow with hold | ⟨entry, hentry, hnew⟩
      · exact h.rows row hold
      · exact ⟨entry.2, hnew, h.holdsSimple_of_prepareUpdate hchanges hstaged entry hentry⟩
  | delete conditions =>
    rw [Table.reply, Reply.forget]
    rcases hsteady.delete_cases conditions with ⟨fault, heq⟩ |
      ⟨targets, -, ⟨effects, heq⟩ | ⟨before, -, heq⟩⟩
    · rw [heq]
      exact h.rows
    · rw [heq]
      exact fun row hrow => h.rows row (mem_rows_removedAll hrow)
    · rw [heq]
      exact fun row hrow => h.rows row (mem_rows_removedAll hrow)
  | createIndex column =>
    rw [Table.reply, EachRecord, (rows_createIndex table column).1]
    exact h.rows
  | rebuildIndex column =>
    rw [Table.reply, EachRecord, (rows_rebuildIndex table column).1]
    exact h.rows
  | dropIndex column =>
    rw [Table.reply, EachRecord, (rows_dropIndex table column).1]
    exact h.rows

/-- A table that is made from simple declarations is a table of simple values. -/
lemma isSimple_of_create {name directory : String} {source : SchemaSource} {effects : List Effect}
    (hsource : source.IsSimple)
    (h : Table.create name source directory = .ok (table, effects)) : table.IsSimple := by
  obtain ⟨-, -, hrows, -, hschema, -⟩ := effects_of_create h
  refine ⟨hsource.columns hschema, fun entry hentry => ?_⟩
  rw [hrows] at hentry
  cases hentry

end Table

end RecordStore
