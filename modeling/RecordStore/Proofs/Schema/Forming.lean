import RecordStore.Proofs.Schema.Declaring
import RecordStore.Proofs.Table.Conformance

/-!
# The rule for mappings of descriptions

The rule by which a mapping of descriptions becomes a schema.  Every description is ruled by itself, and a
key is objected to if there has been one before.  If anything is objected to, all objections are reported
together; otherwise the columns that are said, in their order, are a schema in good form: it has at most
one key, which is required and unique and which the primary key names; unique columns can be indexed,
numbered ones hold numbers, sizes are positive and defaults in canonical form.

Making a schema follows the rule unless the mapping strays: the reading of a description breaks off, or a
key without a name is overlooked when another key comes after it, because the primary key counts as absent
while its name does.
-/

namespace RecordStore

/-! ## Mappings of descriptions -/

namespace Schema

/-- Descriptions of columns by the names of the columns. -/
abbrev Descriptions := List (String × Record)

/-- Descriptions as what a schema is made from. -/
def described (columns : Descriptions) : List (Value × ColumnSource) :=
  columns.map fun c => (.text c.1, .described (.map c.2))

/-- What the rule says of descriptions, in order, given whether there has been a key before: the columns
that are said, and the objections. -/
inductive Forms : Bool → Descriptions → List Column → List Violation → Prop
  | nil {keyed : Bool} : Forms keyed [] [] []
  | refused {keyed : Bool} {name : String} {entries : Record} {rest : Descriptions}
      {violation : Violation} {said : List Column} {broken : List Violation}
      (hruled : Column.Ruled name entries (.error violation)) (hrest : Forms keyed rest said broken) :
      Forms keyed ((name, entries) :: rest) said (violation :: broken)
  | secondKey {name : String} {entries : Record} {rest : Descriptions} {column : Column}
      {said : List Column} {broken : List Violation}
      (hruled : Column.Ruled name entries (.ok column)) (hkey : column.isPrimaryKey = true)
      (hrest : Forms true rest said broken) :
      Forms true ((name, entries) :: rest) said (.secondKey :: broken)
  | column {keyed : Bool} {name : String} {entries : Record} {rest : Descriptions} {column : Column}
      {said : List Column} {broken : List Violation}
      (hruled : Column.Ruled name entries (.ok column))
      (honly : keyed = true → column.isPrimaryKey = false)
      (hrest : Forms (keyed || column.isPrimaryKey) rest said broken) :
      Forms keyed ((name, entries) :: rest) (column :: said) broken

/-- A schema is in good form. -/
structure IsFormed (schema : Schema) : Prop where
  /-- The primary key is the name of a column that is a key, if there is one. -/
  key : ∀ name, schema.primaryKey = some name ↔
    ∃ c ∈ schema.columns, c.isPrimaryKey = true ∧ c.name = name
  /-- There is at most one key. -/
  single : ∀ a ∈ schema.columns, ∀ b ∈ schema.columns,
    a.isPrimaryKey = true → b.isPrimaryKey = true → a = b
  /-- A key is required and unique. -/
  keyed : ∀ c ∈ schema.columns, c.isPrimaryKey = true → c.isRequired = true ∧ c.isUnique = true
  /-- A unique column can be indexed. -/
  unique : ∀ c ∈ schema.columns, c.isUnique = true → c.kind.isIndexable = true
  /-- A numbered column holds numbers. -/
  numbered : ∀ c ∈ schema.columns, c.isNumbered = true → c.kind = .number
  /-- A size allows at least one character. -/
  size : ∀ c ∈ schema.columns, c.size ≠ .null → ∃ limit, c.limit? = some limit ∧ 1 ≤ limit
  /-- A default is in canonical form. -/
  canonical : ∀ c ∈ schema.columns, ∀ v, c.defaultValue = some v → c.kind.isCanonical v = true

/-- Descriptions make what the rule says: no schema without columns, all objections if there are any, and
else a schema in good form of the columns that are said, which has them under their names and in their
order. -/
def FormsByRule (columns : Descriptions) : Prop :=
  ∃ said broken, Forms false columns said broken ∧
    (columns = [] → ofSource (.columns (described columns)) = .error (.violation .noColumns)) ∧
    (broken ≠ [] → ofSource (.columns (described columns)) = .error (.violations broken)) ∧
    (columns ≠ [] → broken = [] → ∃ schema, ofSource (.columns (described columns)) = .ok schema ∧
      schema.columns = said ∧ schema.names = columns.map (fun c => .text c.1) ∧ schema.IsFormed)

/-- A description is one of a key. -/
def IsKey (c : String × Record) : Prop :=
  ∃ column, Column.Ruled c.1 c.2 (.ok column) ∧ column.isPrimaryKey = true

/-- The first key has no name, and another one comes after it. -/
def OverlooksKey (columns : Descriptions) : Prop :=
  ∃ before entries after, columns = before ++ ("", entries) :: after ∧ (∀ c ∈ before, ¬IsKey c) ∧
    IsKey ("", entries) ∧ ∃ c ∈ after, IsKey c

/-- Descriptions of which no schema is made by the rule. -/
inductive Strays (columns : Descriptions) : Prop
  | breaksOff {name : String} {entries : Record} (hmem : (name, entries) ∈ columns)
      (hbreaks : Column.BreaksOff entries)
  | overlooks (hkey : OverlooksKey columns)

variable {columns rest : Descriptions} {schema : Schema} {name : String} {entries : Record}
  {column : Column} {said : List Column} {broken acc : List Violation}

/-! ## Single columns -/

/-- The column of a description has its name. -/
lemma name_of_ruled (h : Column.Ruled name entries (.ok column)) : column.name = .text name := by
  cases h
  rfl

/-- What is objected to is collected. -/
lemma addAll_refused {violation : Violation} (h : Column.Ruled name entries (.error violation))
    (hdone : ¬Column.BreaksOff entries) (schema : Schema) (acc : List Violation)
    (rest : Descriptions) :
    addAll schema acc (described ((name, entries) :: rest)) =
      addAll schema (acc ++ [violation]) (described rest) := by
  have hread := h.ofEntries_eq hdone
  rw [← Column.ofValue_map] at hread
  rw [described, List.map_cons, ← described, addAll, addSource, columnOf, hread]
  rfl

/-- A column that is said is added, or refused. -/
lemma addAll_ruled (h : Column.Ruled name entries (.ok column)) (hdone : ¬Column.BreaksOff entries)
    (schema : Schema) (acc : List Violation) (rest : Descriptions) :
    addAll schema acc (described ((name, entries) :: rest)) =
      match schema.add column with
      | .ok schema => addAll schema acc (described rest)
      | .error violation => addAll schema (acc ++ [violation]) (described rest) := by
  have hread := h.ofEntries_eq hdone
  rw [← Column.ofValue_map] at hread
  have hname : column.name.isHashable = true := by
    rw [name_of_ruled h]
    rfl
  rw [described, List.map_cons, ← described, addAll, addSource, columnOf, hread]
  simp only [Except.mapError, hname, if_true]
  cases schema.add column <;> rfl

/-- A column of a new name is added if it is no key. -/
lemma add_of_not_key (hnew : schema.has column.name = false) (hkey : column.isPrimaryKey = false) :
    schema.add column = .ok ⟨schema.columns ++ [column], schema.primaryKey⟩ := by
  rw [add, hnew, hkey]
  rfl

/-- A key of a new name is added if the primary key counts as absent, and refused if it does not. -/
lemma add_of_key (hnew : schema.has column.name = false) (hkey : column.isPrimaryKey = true)
    (hname : column.name = .text name) :
    schema.add column =
      if schema.primaryKey.any (·.isTruthy) then .error .secondKey
      else .ok ⟨schema.columns ++ [column], some (.text name)⟩ := by
  rw [add, hnew, hkey, hname]
  rfl

/-- A description that says a column is one of a key if the column is a key. -/
lemma isKey_iff (h : Column.Ruled name entries (.ok column)) :
    IsKey (name, entries) ↔ column.isPrimaryKey = true := by
  constructor
  · rintro ⟨other, hother, hkey⟩
    have hsame := (Column.existsUnique_ruled name entries).unique hother h
    rwa [← Except.ok.inj hsame]
  · exact fun hkey => ⟨column, h, hkey⟩

/-- A description that is objected to is not one of a key. -/
lemma not_isKey_of_refused {violation : Violation}
    (h : Column.Ruled name entries (.error violation)) : ¬IsKey (name, entries) := by
  rintro ⟨column, hother, -⟩
  cases (Column.existsUnique_ruled name entries).unique h hother

/-! ## Descriptions that do not stray -/

/-- A schema that is being made has gone along with the rule up to the rest of the descriptions. -/
structure Tracks (schema : Schema) (keyed : Bool) (rest : Descriptions) : Prop where
  /-- The names of the rest are new. -/
  new : ∀ c ∈ rest, schema.has (.text c.1) = false
  /-- The primary key is the name of a column that is a key, if there is one. -/
  key : ∀ name, schema.primaryKey = some name ↔
    ∃ c ∈ schema.columns, c.isPrimaryKey = true ∧ c.name = name
  /-- If there has been a key, it counts as one, or no other comes. -/
  seen : keyed = true → schema.primaryKey.any (·.isTruthy) = true ∨ ∀ c ∈ rest, ¬IsKey c
  /-- If there has been none, there is none, and none will be overlooked. -/
  unkeyed : keyed = false → schema.primaryKey = none ∧ ¬OverlooksKey rest

/-- A key is overlooked if it is when something comes before that is none. -/
lemma OverlooksKey.cons {c : String × Record} (hc : ¬IsKey c) (h : OverlooksKey rest) :
    OverlooksKey (c :: rest) := by
  obtain ⟨before, entries, after, rfl, hbefore, hkey, hother⟩ := h
  exact ⟨c :: before, entries, after, rfl, List.forall_mem_cons.mpr ⟨hc, hbefore⟩, hkey, hother⟩

/-- A description may be passed over that is none of a first key. -/
lemma Tracks.skip {c : String × Record} {keyed : Bool} (h : schema.Tracks keyed (c :: rest))
    (hc : keyed = false → ¬IsKey c) : schema.Tracks keyed rest :=
  ⟨fun d hd => h.new d (List.mem_cons_of_mem _ hd), h.key,
    fun hkeyed => (h.seen hkeyed).imp_right fun hrest d hd => hrest d (List.mem_cons_of_mem _ hd),
    fun hkeyed => ⟨(h.unkeyed hkeyed).1, fun hlost => (h.unkeyed hkeyed).2 (hlost.cons (hc hkeyed))⟩⟩

/-- The names that come are new when the column of a first name has been added. -/
lemma new_of_added {key : Option Value}
    (hnew : ∀ c ∈ (name, entries) :: rest, schema.has (.text c.1) = false)
    (hnodup : (((name, entries) :: rest).map (·.1)).Nodup) (hname : column.name = .text name) :
    ∀ c ∈ rest, Schema.has ⟨schema.columns ++ [column], key⟩ (.text c.1) = false := by
  intro c hc
  have hne : (Value.text name == Value.text c.1) = false := by
    rw [Bool.eq_false_iff]
    intro hsame
    obtain rfl : c.1 = name := by
      simpa [Value.identity?] using (Value.same_iff_identity (a := Value.text name) rfl).mp hsame
    exact (List.nodup_cons.mp hnodup).1 (List.mem_map_of_mem (f := fun c => c.1) hc)
  have hold := hnew c (List.mem_cons_of_mem _ hc)
  rw [has] at hold ⊢
  rw [List.any_append, hold, List.any_cons, List.any_nil, hname, hne]
  rfl

/-- The column that a description under a new name says has a new name. -/
lemma has_eq_false_of_new (hnew : ∀ c ∈ (name, entries) :: rest, schema.has (.text c.1) = false)
    (hruled : Column.Ruled name entries (.ok column)) : schema.has column.name = false := by
  rw [name_of_ruled hruled]
  exact hnew _ List.mem_cons_self

/-- If a key is said, there has been none before. -/
lemma keyed_eq_false {keyed : Bool} (honly : keyed = true → column.isPrimaryKey = false)
    (hkey : column.isPrimaryKey = true) : keyed = false := by
  cases keyed with
  | false => rfl
  | true => exact absurd hkey (Bool.eq_false_iff.mp (honly rfl))

/-- The column that a description says may be added if it is none of a second key. -/
lemma Tracks.add {keyed : Bool} (h : schema.Tracks keyed ((name, entries) :: rest))
    (hnodup : (((name, entries) :: rest).map (·.1)).Nodup)
    (hruled : Column.Ruled name entries (.ok column))
    (honly : keyed = true → column.isPrimaryKey = false) :
    ∃ added, schema.add column = .ok added ∧ added.columns = schema.columns ++ [column] ∧
      added.Tracks (keyed || column.isPrimaryKey) rest := by
  have hname := name_of_ruled hruled
  have hhas := has_eq_false_of_new h.new hruled
  cases hkey : column.isPrimaryKey with
  | false =>
    refine ⟨_, add_of_not_key hhas hkey, rfl, ?_⟩
    have hskip := h.skip fun _ => by
      rw [isKey_iff hruled, hkey]
      exact Bool.false_ne_true
    rw [Bool.or_false]
    refine ⟨new_of_added h.new hnodup hname, fun k => ?_, hskip.seen, hskip.unkeyed⟩
    rw [h.key]
    simp [or_and_right, exists_or, hkey]
  | true =>
    obtain rfl := keyed_eq_false honly hkey
    obtain ⟨hnone, hunlost⟩ := h.unkeyed rfl
    have hadd := add_of_key hhas hkey hname
    rw [hnone] at hadd
    refine ⟨_, hadd, rfl, new_of_added h.new hnodup hname, fun k => ?_, fun _ => ?_, nofun⟩
    · have hplain : ∀ c ∈ schema.columns, c.isPrimaryKey = false := fun c hc => by
        rw [Bool.eq_false_iff]
        intro hc'
        have hsome := (h.key c.name).mpr ⟨c, hc, hc', rfl⟩
        rw [hnone] at hsome
        cases hsome
      constructor
      · intro hk
        obtain rfl := Option.some.inj hk
        exact ⟨column, List.mem_append_right _ (List.mem_singleton_self _), hkey, hname⟩
      · rintro ⟨c, hc, hc', rfl⟩
        rcases List.mem_append.mp hc with hc | hc
        · rw [hplain c hc] at hc'
          cases hc'
        · rw [List.mem_singleton.mp hc, hname]
    · by_cases hempty : name = ""
      · subst hempty
        refine Or.inr fun c hc hother => hunlost ⟨[], entries, rest, rfl, nofun, ?_, c, hc, hother⟩
        exact (isKey_iff hruled).mpr hkey
      · refine Or.inl ?_
        simp [Value.isTruthy, hempty]

/-- Descriptions that go along with the rule make what it says. -/
theorem Forms.addAll_eq {keyed : Bool} (h : Forms keyed columns said broken)
    (hdone : ∀ c ∈ columns, ¬Column.BreaksOff c.2) (hnodup : (columns.map (·.1)).Nodup)
    (htracks : schema.Tracks keyed columns) (acc : List Violation) :
    ∃ made keyed', addAll schema acc (described columns) = .ok (made, acc ++ broken) ∧
      made.columns = schema.columns ++ said ∧ made.Tracks keyed' [] := by
  induction h generalizing schema acc with
  | nil => exact ⟨schema, _, by rw [List.append_nil]; rfl, (List.append_nil _).symm, htracks⟩
  | @refused keyed name entries rest violation said broken hruled hrest ih =>
    obtain ⟨hfirst, hdone⟩ := List.forall_mem_cons.mp hdone
    obtain ⟨made, keyed', hmade, hcolumns, htracks'⟩ := ih hdone (List.nodup_cons.mp hnodup).2
      (htracks.skip fun _ => not_isKey_of_refused hruled) (acc ++ [violation])
    refine ⟨made, keyed', ?_, hcolumns, htracks'⟩
    rw [addAll_refused hruled hfirst, hmade, List.append_assoc]
    rfl
  | @secondKey name entries rest column said broken hruled hkey hrest ih =>
    obtain ⟨hfirst, hdone⟩ := List.forall_mem_cons.mp hdone
    obtain ⟨made, keyed', hmade, hcolumns, htracks'⟩ := ih hdone (List.nodup_cons.mp hnodup).2
      (htracks.skip nofun) (acc ++ [.secondKey])
    refine ⟨made, keyed', ?_, hcolumns, htracks'⟩
    have hhas := has_eq_false_of_new htracks.new hruled
    have hseen := (htracks.seen rfl).resolve_right fun hnone =>
      hnone _ List.mem_cons_self ((isKey_iff hruled).mpr hkey)
    rw [addAll_ruled hruled hfirst, add_of_key hhas hkey (name_of_ruled hruled), if_pos hseen]
    dsimp only
    rw [hmade, List.append_assoc]
    rfl
  | @column keyed name entries rest column said broken hruled honly hrest ih =>
    obtain ⟨hfirst, hdone⟩ := List.forall_mem_cons.mp hdone
    obtain ⟨added, hadd, hadded, htracked⟩ := htracks.add hnodup hruled honly
    obtain ⟨made, keyed', hmade, hcolumns, htracks'⟩ :=
      ih hdone (List.nodup_cons.mp hnodup).2 htracked acc
    refine ⟨made, keyed', ?_, ?_, htracks'⟩
    · rw [addAll_ruled hruled hfirst, hadd]
      exact hmade
    · rw [hcolumns, hadded, List.append_assoc]
      rfl

/-! ## Descriptions that stray -/

/-- A key is lost on a schema that is being made: it comes after one that does not count, or a first key
is overlooked. -/
def LosesKey (schema : Schema) (keyed : Bool) (rest : Descriptions) : Prop :=
  if keyed then schema.primaryKey.any (·.isTruthy) = false ∧ ∃ c ∈ rest, IsKey c
  else OverlooksKey rest

/-- If a description is passed over that is none of a key, the key is lost in the rest. -/
lemma LosesKey.tail {c : String × Record} {keyed : Bool} (hc : ¬IsKey c)
    (h : schema.LosesKey keyed (c :: rest)) : schema.LosesKey keyed rest := by
  cases keyed with
  | true =>
    obtain ⟨huncounted, d, hd, hkey⟩ := h
    rcases List.mem_cons.mp hd with rfl | hd
    · exact absurd hkey hc
    · exact ⟨huncounted, d, hd, hkey⟩
  | false =>
    obtain ⟨before, entries, after, heq, hbefore, hkey, hother⟩ := h
    cases before with
    | nil =>
      obtain ⟨rfl, -⟩ := List.cons.inj heq
      exact absurd hkey hc
    | cons d before =>
      obtain ⟨rfl, htail⟩ := List.cons.inj heq
      exact ⟨before, entries, after, htail, (List.forall_mem_cons.mp hbefore).2, hkey, hother⟩

/-- A first key that is overlooked has no name, and another one comes after it. -/
lemma OverlooksKey.head (h : OverlooksKey ((name, entries) :: rest)) (hkey : IsKey (name, entries)) :
    name = "" ∧ ∃ c ∈ rest, IsKey c := by
  obtain ⟨before, entries', after, heq, hbefore, -, hother⟩ := h
  cases before with
  | nil =>
    obtain ⟨hhead, rfl⟩ := List.cons.inj heq
    exact ⟨(Prod.mk.inj hhead).1, hother⟩
  | cons d before =>
    obtain ⟨rfl, -⟩ := List.cons.inj heq
    exact absurd hkey (List.forall_mem_cons.mp hbefore).1

/-- A column that is said can be added even if a key has been lost, and what is lost stays lost. -/
lemma exists_added {keyed : Bool} (hruled : Column.Ruled name entries (.ok column))
    (honly : keyed = true → column.isPrimaryKey = false)
    (hnew : ∀ c ∈ (name, entries) :: rest, schema.has (.text c.1) = false)
    (hnodup : (((name, entries) :: rest).map (·.1)).Nodup)
    (hkeyed : schema.primaryKey.any (·.isTruthy) = true → keyed = true) :
    ∃ added, schema.add column = .ok added ∧ (∀ c ∈ rest, added.has (.text c.1) = false) ∧
      (added.primaryKey.any (·.isTruthy) = true → (keyed || column.isPrimaryKey) = true) ∧
      (schema.LosesKey keyed ((name, entries) :: rest) →
        added.LosesKey (keyed || column.isPrimaryKey) rest) := by
  have hname := name_of_ruled hruled
  have hhas := has_eq_false_of_new hnew hruled
  cases hkey : column.isPrimaryKey with
  | false =>
    rw [Bool.or_false]
    refine ⟨_, add_of_not_key hhas hkey, new_of_added hnew hnodup hname, hkeyed, fun hlost => ?_⟩
    refine LosesKey.tail ?_ hlost
    rw [isKey_iff hruled, hkey]
    exact Bool.false_ne_true
  | true =>
    obtain rfl := keyed_eq_false honly hkey
    have hcounts : schema.primaryKey.any (·.isTruthy) = false :=
      Bool.eq_false_iff.mpr fun hcounts => Bool.false_ne_true (hkeyed hcounts)
    have hadd := add_of_key hhas hkey hname
    rw [hcounts, if_neg Bool.false_ne_true] at hadd
    refine ⟨_, hadd, new_of_added hnew hnodup hname, fun _ => rfl, fun hlost => ?_⟩
    obtain ⟨rfl, hother⟩ := OverlooksKey.head hlost ((isKey_iff hruled).mpr hkey)
    exact ⟨rfl, hother⟩

/-- No more is objected to than the rule says, and less if a key is lost. -/
theorem Forms.length_le {keyed : Bool} (h : Forms keyed columns said broken)
    (hdone : ∀ c ∈ columns, ¬Column.BreaksOff c.2) (hnodup : (columns.map (·.1)).Nodup)
    (hnew : ∀ c ∈ columns, schema.has (.text c.1) = false)
    (hkeyed : schema.primaryKey.any (·.isTruthy) = true → keyed = true) (acc : List Violation) :
    ∃ made found, addAll schema acc (described columns) = .ok (made, acc ++ found) ∧
      found.length ≤ broken.length ∧
      (schema.LosesKey keyed columns → found.length < broken.length) := by
  induction h generalizing schema acc with
  | @nil keyed =>
    refine ⟨schema, [], by rw [List.append_nil]; rfl, le_rfl, fun hlost => ?_⟩
    cases keyed with
    | true => simp [LosesKey] at hlost
    | false => simp [LosesKey, OverlooksKey] at hlost
  | @refused keyed name entries rest violation said broken hruled hrest ih =>
    obtain ⟨hfirst, hdone⟩ := List.forall_mem_cons.mp hdone
    obtain ⟨made, found, hmade, hle, hlt⟩ := ih hdone (List.nodup_cons.mp hnodup).2
      (fun c hc => hnew c (List.mem_cons_of_mem _ hc)) hkeyed (acc ++ [violation])
    refine ⟨made, violation :: found, ?_, Nat.succ_le_succ hle, fun hlost => Nat.succ_lt_succ ?_⟩
    · rw [addAll_refused hruled hfirst, hmade, List.append_assoc]
      rfl
    · exact hlt (hlost.tail (not_isKey_of_refused hruled))
  | @secondKey name entries rest column said broken hruled hkey hrest ih =>
    obtain ⟨hfirst, hdone⟩ := List.forall_mem_cons.mp hdone
    have hname := name_of_ruled hruled
    have hadd := add_of_key (has_eq_false_of_new hnew hruled) hkey hname
    cases hcounts : schema.primaryKey.any (·.isTruthy) with
    | true =>
      rw [hcounts, if_pos rfl] at hadd
      obtain ⟨made, found, hmade, hle, -⟩ := ih hdone (List.nodup_cons.mp hnodup).2
        (fun c hc => hnew c (List.mem_cons_of_mem _ hc)) (fun _ => rfl) (acc ++ [.secondKey])
      refine ⟨made, .secondKey :: found, ?_, Nat.succ_le_succ hle, fun hlost => ?_⟩
      · rw [addAll_ruled hruled hfirst, hadd]
        dsimp only
        rw [hmade, List.append_assoc]
        rfl
      · obtain ⟨huncounted, -⟩ := hlost
        rw [hcounts] at huncounted
        cases huncounted
    | false =>
      rw [hcounts, if_neg Bool.false_ne_true] at hadd
      obtain ⟨made, found, hmade, hle, -⟩ := ih hdone (List.nodup_cons.mp hnodup).2
        (new_of_added hnew hnodup hname) (fun _ => rfl) acc
      refine ⟨made, found, ?_, Nat.le_succ_of_le hle, fun _ => Nat.lt_succ_of_le hle⟩
      rw [addAll_ruled hruled hfirst, hadd]
      exact hmade
  | @column keyed name entries rest column said broken hruled honly hrest ih =>
    obtain ⟨hfirst, hdone⟩ := List.forall_mem_cons.mp hdone
    obtain ⟨added, hadd, hnew', hkeyed', hstays⟩ := exists_added hruled honly hnew hnodup hkeyed
    obtain ⟨made, found, hmade, hle, hlt⟩ :=
      ih hdone (List.nodup_cons.mp hnodup).2 hnew' hkeyed' acc
    refine ⟨made, found, ?_, hle, fun hlost => hlt (hstays hlost)⟩
    rw [addAll_ruled hruled hfirst, hadd]
    exact hmade

/-- If the reading of a description breaks off, no schema is made and no rule is reported. -/
lemma addAll_of_breaksOff (h : ∃ c ∈ columns, Column.BreaksOff c.2) (schema : Schema)
    (acc : List Violation) :
    ∃ fault, addAll schema acc (described columns) = .error fault ∧ fault.isRefusal = false := by
  induction columns generalizing schema acc with
  | nil => simp at h
  | cons c rest ih =>
    obtain ⟨name, entries⟩ := c
    by_cases hbreaks : Column.BreaksOff entries
    · obtain ⟨fault, hfault, hrefusal⟩ := hbreaks.ofEntries_eq name
      refine ⟨fault, ?_, hrefusal⟩
      rw [← Column.ofValue_map] at hfault
      rw [described, List.map_cons, addAll, addSource, columnOf, hfault]
      cases fault <;> first | rfl | cases hrefusal
    · have hrest : ∃ c ∈ rest, Column.BreaksOff c.2 := by
        obtain ⟨c, hc, hbreaks'⟩ := h
        rcases List.mem_cons.mp hc with rfl | hc
        · exact absurd hbreaks' hbreaks
        · exact ⟨c, hc, hbreaks'⟩
      obtain ⟨outcome, hruled⟩ := Column.exists_ruled name entries
      cases outcome with
      | error violation =>
        rw [addAll_refused hruled hbreaks]
        exact ih hrest _ _
      | ok column =>
        rw [addAll_ruled hruled hbreaks]
        cases schema.add column with
        | ok added => exact ih hrest _ _
        | error violation => exact ih hrest _ _

/-! ## The rule -/

/-- The rule says something of all descriptions. -/
lemma exists_forms (keyed : Bool) (columns : Descriptions) :
    ∃ said broken, Forms keyed columns said broken := by
  induction columns generalizing keyed with
  | nil => exact ⟨[], [], .nil⟩
  | cons c rest ih =>
    obtain ⟨outcome, hruled⟩ := Column.exists_ruled c.1 c.2
    cases outcome with
    | error violation =>
      obtain ⟨said, broken, hrest⟩ := ih keyed
      exact ⟨_, _, .refused hruled hrest⟩
    | ok column =>
      by_cases honly : keyed = true → column.isPrimaryKey = false
      · obtain ⟨said, broken, hrest⟩ := ih (keyed || column.isPrimaryKey)
        exact ⟨_, _, .column hruled honly hrest⟩
      · obtain ⟨rfl, hkey⟩ := Classical.not_imp.mp honly
        obtain ⟨said, broken, hrest⟩ := ih true
        exact ⟨_, _, .secondKey hruled (by simpa using hkey) hrest⟩

/-- Without objections a column is said under each name. -/
lemma Forms.map_name {keyed : Bool} (h : Forms keyed columns said broken) (hnone : broken = []) :
    said.map (·.name) = columns.map fun c => .text c.1 := by
  induction h with
  | nil => rfl
  | refused hruled hrest ih => cases hnone
  | secondKey hruled hkey hrest ih => cases hnone
  | column hruled honly hrest ih =>
    rw [List.map_cons, List.map_cons, name_of_ruled hruled, ih hnone]

/-- A schema that is made from descriptions is in good form if its primary key is the name of a key. -/
lemma isFormed_of_ofSource (h : ofSource (.columns (described columns)) = .ok schema)
    (hkey : ∀ name, schema.primaryKey = some name ↔
      ∃ c ∈ schema.columns, c.isPrimaryKey = true ∧ c.name = name) : schema.IsFormed := by
  have hdescribed : SchemaSource.IsDescribed (.columns (described columns)) := by
    intro entry hentry
    obtain ⟨c, -, rfl⟩ := List.mem_map.mp hentry
    exact ⟨_, rfl⟩
  have hsound := hdescribed.sound h
  have hcanonical := (built_ofSource hdescribed h).1.canonical
  refine ⟨hkey, fun a ha b hb hka hkb => ?_, fun c _ hc => c.primary_declared hc,
    fun c hc => (hsound.each c hc).unique, fun c hc => (hsound.each c hc).numbered,
    fun c hc hsize => ?_, fun c hc => (hsound.each c hc).canonical⟩
  · have hsame := (hkey b.name).mpr ⟨b, hb, hkb, rfl⟩
    rw [(hkey a.name).mpr ⟨a, ha, hka, rfl⟩] at hsame
    refine hsound.eq_of_beq ha hb ?_
    rw [Option.some.inj hsame]
    exact Value.beq_self _
  · rw [Column.limit?]
    rcases (hcanonical c hc).size with hnull | hone | ⟨i, hi, hint⟩
    · exact absurd hnull hsize
    · exact ⟨1, by rw [hone]; rfl, le_rfl⟩
    · exact ⟨i, by rw [hint], hi⟩

/-- What is made of descriptions once they have all been read. -/
lemma ofSource_described (hcolumns : columns ≠ []) {made : Schema} {found : List Violation}
    (h : addAll empty [] (described columns) = .ok (made, found)) :
    ofSource (.columns (described columns)) =
      if found.isEmpty then .ok made else .error (.violations found) := by
  have hthere : (described columns).isEmpty = false := by
    rw [List.isEmpty_eq_false_iff]
    exact mt List.map_eq_nil_iff.mp hcolumns
  rw [ofSource, ofColumns, hthere, h]
  cases found <;> rfl

/-- Descriptions that do not stray make what the rule says. -/
theorem formsByRule_of_not_strays (hnodup : (columns.map (·.1)).Nodup) (h : ¬Strays columns) :
    FormsByRule columns := by
  obtain ⟨said, broken, hforms⟩ := exists_forms false columns
  have htracks : empty.Tracks false columns :=
    ⟨fun _ _ => rfl, by simp [empty], nofun, fun _ => ⟨rfl, fun hlost => h (.overlooks hlost)⟩⟩
  obtain ⟨made, keyed, hmade, hsaid, htracks'⟩ :=
    hforms.addAll_eq (fun c hc hbreaks => h (.breaksOff hc hbreaks)) hnodup htracks []
  refine ⟨said, broken, hforms, ?_, fun hsome => ?_, fun hcolumns hnone => ?_⟩
  · rintro rfl
    rfl
  · have hcolumns : columns ≠ [] := by
      rintro rfl
      cases hforms
      exact hsome rfl
    rw [ofSource_described hcolumns hmade, List.nil_append, if_neg]
    simpa using hsome
  · subst hnone
    have hschema := ofSource_described hcolumns hmade
    have hnames : made.names = columns.map fun c => .text c.1 := by
      rw [names, hsaid]
      exact hforms.map_name rfl
    exact ⟨made, hschema, hsaid, hnames, isFormed_of_ofSource hschema htracks'.key⟩

/-- Of descriptions that stray something else is made than the rule says. -/
theorem Strays.not_formsByRule (h : Strays columns) (hnodup : (columns.map (·.1)).Nodup) :
    ¬FormsByRule columns := by
  rintro ⟨said, broken, hforms, -, hrefused, hmade⟩
  have hcolumns : columns ≠ [] := by
    rintro rfl
    cases h with
    | breaksOff hmem => cases hmem
    | overlooks hkey =>
      obtain ⟨before, entries, after, heq, -⟩ := hkey
      simp at heq
  by_cases hbreaks : ∃ c ∈ columns, Column.BreaksOff c.2
  · obtain ⟨fault, hfault, hrefusal⟩ := addAll_of_breaksOff hbreaks empty []
    have hthere : (described columns).isEmpty = false := by
      rw [List.isEmpty_eq_false_iff]
      exact mt List.map_eq_nil_iff.mp hcolumns
    have hoff : ofSource (.columns (described columns)) = .error fault := by
      rw [ofSource, ofColumns, hthere, hfault]
      rfl
    by_cases hnone : broken = []
    · obtain ⟨schema, hschema, -⟩ := hmade hcolumns hnone
      cases hoff.symm.trans hschema
    · obtain rfl := Except.error.inj (hoff.symm.trans (hrefused hnone))
      cases hrefusal
  · have hlost : OverlooksKey columns := by
      cases h with
      | breaksOff hmem hoff => exact absurd ⟨_, hmem, hoff⟩ hbreaks
      | overlooks hkey => exact hkey
    have hnew : ∀ c ∈ columns, empty.has (.text c.1) = false := fun _ _ => rfl
    obtain ⟨made, found, hfound, -, hlt⟩ :=
      hforms.length_le (fun c hc hoff => hbreaks ⟨c, hc, hoff⟩) hnodup hnew (fun hkey => hkey) []
    have hless := hlt hlost
    have hsome : broken ≠ [] := by
      rintro rfl
      exact Nat.not_lt_zero _ hless
    have hschema := ofSource_described hcolumns hfound
    rw [hrefused hsome, List.nil_append] at hschema
    split at hschema
    · cases hschema
    · obtain rfl : broken = found := by simpa using hschema
      exact lt_irrefl _ hless

/-- Descriptions under distinct names make what the rule says exactly if they do not stray: all objections
are reported together, or a schema in good form is made of all columns in their order. -/
theorem formsByRule_iff_not_strays (columns : Descriptions) (hnodup : (columns.map (·.1)).Nodup) :
    FormsByRule columns ↔ ¬Strays columns :=
  ⟨fun hforms hstrays => hstrays.not_formsByRule hnodup hforms,
    formsByRule_of_not_strays hnodup⟩

/-- A key that numbers its rows, and a text with a size and a default. -/
def keyAndText : Descriptions :=
  [("id", [(.text "type", .text " Integer "), (.text "primaryKey", .int 1),
      (.text "autoIncrement", .bool true)]),
    ("name", [(.text "type", .text "varchar"), (.text "size", .int 5),
      (.text "defaultValue", .bool true)])]

/-- A key and a text are described in order, and a schema is made of them. -/
theorem formsByRule_iff_not_strays_keyAndText :
    (keyAndText.map (·.1)).Nodup ∧ FormsByRule keyAndText := by
  have hnodup : (keyAndText.map (·.1)).Nodup := by decide
  refine ⟨hnodup, (formsByRule_iff_not_strays keyAndText hnodup).mpr ?_⟩
  rintro (⟨hmem, hbreaks⟩ | ⟨before, entries, after, heq, -⟩)
  · -- the kinds and the sizes have texts, and neither default is an integer
    simp only [keyAndText, List.mem_cons, Prod.mk.injEq, List.not_mem_nil, or_false] at hmem
    rcases hmem with ⟨-, rfl⟩ | ⟨-, rfl⟩
    · cases hbreaks with
      | untoldKind huntold => exact huntold rfl
      | untoldSize _ hsize => exact hsize (Or.inl rfl)
      | overflow hkind _ hover =>
        obtain ⟨w, hw, rfl, i, rfl, -⟩ := hover
        cases hw
    · cases hbreaks with
      | untoldKind huntold => exact huntold rfl
      | untoldSize _ hsize => exact hsize (Or.inr (Or.inr ⟨5, by decide, rfl⟩))
      | overflow hkind _ hover =>
        obtain ⟨w, hw, rfl, i, rfl, -⟩ := hover
        cases hw
  · have hmem : ("", entries) ∈ keyAndText := by simp [heq]
    simp [keyAndText] at hmem

/-- Two keys, the first of which has no name. -/
def namelessKey : Descriptions :=
  [("", [(.text "primaryKey", .bool true)]), ("b", [(.text "primaryKey", .bool true)])]

/-- A key without a name is overlooked: the schema that is made has two keys. -/
theorem not_formsByRule_namelessKey : ¬FormsByRule namelessKey ∧
    ∃ schema, ofSource (.columns (described namelessKey)) = .ok schema ∧
      (schema.columns.filter (·.isPrimaryKey)).length = 2 ∧ schema.primaryKey = some (.text "b") := by
  have hkey : ∀ name, IsKey (name, [(.text "primaryKey", .bool true)]) := by
    intro name
    have hruled : Column.Ruled name [(.text "primaryKey", .bool true)]
        (.ok (Column.declared name [(.text "primaryKey", .bool true)] .string none)) :=
      .column rfl (Or.inl rfl) rfl (fun _ => rfl) nofun
    exact ⟨_, hruled, rfl⟩
  have hstrays : Strays namelessKey :=
    .overlooks ⟨[], _, _, rfl, nofun, hkey "", _, List.mem_singleton_self _, hkey "b"⟩
  exact ⟨hstrays.not_formsByRule (by decide), _, rfl, rfl, rfl⟩

end Schema

end RecordStore
