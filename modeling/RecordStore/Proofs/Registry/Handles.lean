import RecordStore.Proofs.Registry.Opening
import RecordStore.Proofs.Site.Skipping

/-!
# Databases that a registry hands out

A registry keeps every database that it has opened and gives it again whenever its name is asked for.
Whoever has got a database can close it, and the registry does not look: it gives the closed database on,
under a name that still counts as loaded, until it closes and forgets all databases at once.  Apart from
that what it hands out can be used.

Databases that are opened are numbered in turn, so that it can be said which of them is handed out: two
databases of one name are the same one exactly if they have the same number.
-/

namespace RecordStore

namespace Database

variable {database : Database}

/-! ## Databases that can be used -/

/-- A database can be used: it lists its tables and finds them, a table carries out what it is asked to do,
a table that is not there is missing, and tables are made and dropped. -/
structure Answers (database : Database) : Prop where
  lists : database.listTables = .ok (Entries.keys database.tables)
  finds : ∀ name table, database.tables.lookup name = some table → database.table name = .ok table
  misses : ∀ name, database.hasTable name = false → database.table name = .error (.noTable name)
  asks : ∀ {α : Type} (name : String) (table : Table) (operation : Table → Reply α) (world : World),
    database.tables.lookup name = some table →
      ((Site.onTable name operation).perform ⟨database, world⟩).1 = (operation table).result
  makes : ∀ (name : String) (source : SchemaSource) (world : World), IsName name →
    database.hasTable name = false →
      ((Site.createTable (.text name) source).perform ⟨database, world⟩).1 =
        (Table.create name source database.directory).map (·.1)
  drops : ∀ (name : String) (world : World), database.hasTable name = true →
    ((Site.dropTable name).perform ⟨database, world⟩).1 = .ok ()

/-- A database refuses everything because it is closed. -/
structure RefusesAll (database : Database) : Prop where
  lists : database.listTables = .error (.closed database.name)
  finds : ∀ name, database.table name = .error (.closed database.name)
  asks : ∀ {α : Type} (name : String) (operation : Table → Reply α) (world : World),
    (Site.onTable name operation).perform ⟨database, world⟩ =
      (.error (.closed database.name), ⟨database, world⟩)
  makes : ∀ (name : Value) (source : SchemaSource) (world : World),
    (Site.createTable name source).perform ⟨database, world⟩ =
      (.error (.closed database.name), ⟨database, world⟩)
  drops : ∀ (name : String) (world : World),
    (Site.dropTable name).perform ⟨database, world⟩ =
      (.error (.closed database.name), ⟨database, world⟩)

/-- A table that is found in the catalog of an open database is the table of its name. -/
lemma table_of_lookup (hopen : database.closed = false) {name : String} {table : Table}
    (h : database.tables.lookup name = some table) : database.table name = .ok table := by
  rw [Database.table, checkOpen, hopen, h]
  rfl

/-- A database that is open can be used. -/
lemma answers_of_open (hopen : database.closed = false) : database.Answers := by
  refine ⟨?_, fun _ _ => table_of_lookup hopen, fun name hmissing => ?_,
    fun name table operation world hlookup => ?_, fun name source world hname hnew => ?_,
    fun name world hthere => ?_⟩
  · rw [listTables, checkOpen, hopen]
    rfl
  · have hnone : database.tables.lookup name = none := by
      cases hlookup : database.tables.lookup name with
      | none => rfl
      | some table =>
        rw [hasTable_iff.mpr (Entries.mem_keys_iff.mpr ⟨table, hlookup⟩)] at hmissing
        cases hmissing
    rw [Database.table, checkOpen, hopen, hnone]
    rfl
  · rw [Site.perform_onTable (table_of_lookup hopen hlookup)]
  · rw [Site.perform_createTable hopen hname hnew]
    cases Table.create name source database.directory <;> rfl
  · obtain ⟨table, htable⟩ := exists_table hopen hthere
    rw [Site.dropTable, Work.perform_bind_ok (Site.perform_table htable)]
    rfl

/-- A database that is closed refuses everything. -/
lemma refusesAll_of_closed (hclosed : database.closed = true) : database.RefusesAll := by
  have hcheck : database.checkOpen = .error (.closed database.name) := by
    rw [checkOpen, hclosed]
    rfl
  have htable : ∀ name, database.table name = .error (.closed database.name) := by
    intro name
    rw [Database.table, hcheck]
    rfl
  refine ⟨?_, htable, fun name operation world => Site.perform_onTable_error (htable name) operation,
    fun name source world => ?_, fun name world => ?_⟩
  · rw [listTables, hcheck]
    rfl
  · have hask : Site.askDatabase.perform ⟨database, world⟩ = (.ok database, ⟨database, world⟩) := rfl
    rw [Site.createTable, Work.perform_bind_ok hask, hcheck,
      Work.perform_bind_error (Work.perform_ofExcept _ _)]
  · rw [Site.dropTable, Work.perform_bind_error (Site.perform_table (htable name))]

/-- A database can be used exactly if it is open. -/
theorem answers_iff : database.Answers ↔ database.closed = false := by
  refine ⟨fun h => ?_, answers_of_open⟩
  cases hclosed : database.closed with
  | false => rfl
  | true =>
    have hlists := h.lists
    rw [(refusesAll_of_closed hclosed).lists] at hlists
    cases hlists

/-- A database is in service: it has been opened from its files, and operations and queries have followed,
while the world may have changed in any way. -/
inductive InService (root : String) : Database → Prop where
  | opened {name : Value} {world after : World} {database : Database}
      (h : Database.open root name world = (.ok database, after)) : InService root database
  | taken {database : Database} (h : InService root database) (world : World) {call : Site.Call}
      (hcall : call ≠ .close) : InService root (Site.takes ⟨database, world⟩ call).database

end Database

namespace Site

variable {site : Site}

/-- A call other than that to close leaves the name of a database and whether it is open. -/
lemma takes_frame (site : Site) {call : Call} (hcall : call ≠ .close) :
    (site.takes call).database.name = site.database.name ∧
      (site.takes call).database.closed = site.database.closed := by
  have hallowed : ∀ operation, call.Asks operation → True := fun _ _ => trivial
  rcases takes_cases site hallowed with ⟨name, between, hstep, hdatabase, -⟩ | ⟨-, -, -, hsame⟩
  · rw [hdatabase]
    exact hstep.frame.2
  · rw [hsame hcall]
    exact ⟨rfl, rfl⟩

/-- A call leaves the name of a database. -/
lemma name_takes (site : Site) (call : Call) : (site.takes call).database.name = site.database.name := by
  by_cases hcall : call = .close
  · rw [hcall, takes, Database.close]
    split <;> rfl
  · exact (takes_frame site hcall).1

/-- A database is closed after a call if it has been closed before, or by the call. -/
lemma closed_takes (site : Site) (call : Call) :
    (site.takes call).database.closed = true ↔ site.database.closed = true ∨ call = .close := by
  by_cases hcall : call = .close
  · have hclosed : (site.takes .close).database.closed = true := by
      rw [takes, Database.close]
      split
      · assumption
      · rfl
    rw [hcall]
    exact ⟨fun _ => Or.inr rfl, fun _ => hclosed⟩
  · rw [(takes_frame site hcall).2, or_iff_left hcall]

end Site

/-! ## Numbered databases -/

/-- A registry with the databases that have been opened, each of them as it is now, numbered in turn.
Under each name the registry keeps the database of some number. -/
structure Ledger where
  hub : Hub
  opened : List Database
  kept : List (String × Nat)

namespace Ledger

/-- Something that is asked of a registry, or of a database that has been opened under its root.  A block in
which a database is used and then closed is some calls of it, of which the last one closes it. -/
inductive Ask where
  | get (name : Value) (create : Bool)
  | reload
  | close
  /-- Opens a database under the same root without the registry. -/
  | apart (name : Value)
  /-- Asks a database that has been opened for something. -/
  | call (number : Nat) (call : Site.Call)

/-- A registry that has opened nothing yet. -/
def start (root : String) (world : World) : Ledger :=
  ⟨⟨⟨root, []⟩, world⟩, [], []⟩

variable {ledger : Ledger}

/-- The databases that a registry has got in addition have been opened; they get the next numbers. -/
def noting (ledger : Ledger) (hub : Hub) : Ledger :=
  let fresh := hub.registry.databases.filter fun entry => (ledger.kept.lookup entry.1).isNone
  ⟨hub, ledger.opened ++ fresh.map (·.2),
    ledger.kept ++ (fresh.zipIdx ledger.opened.length).map fun entry => (entry.1.1, entry.2)⟩

/-- The registry closes and forgets all the databases that it keeps. -/
def forgetting (ledger : Ledger) : Ledger :=
  ⟨ledger.hub.emptied,
    ledger.opened.mapIdx fun number database =>
      if ledger.kept.any (·.2 == number) then (database.close ledger.hub.world).1 else database, []⟩

/-- Puts a database in the place of the one of a number, also in the registry if this one keeps it. -/
def replacing (ledger : Ledger) (number : Nat) (site : Site) : Ledger :=
  ⟨⟨if ledger.kept.lookup site.database.name = some number then
      ledger.hub.registry.withDatabase site.database
    else ledger.hub.registry, site.world⟩, ledger.opened.set number site.database, ledger.kept⟩

/-- What has become of everything after something has been asked, whether it succeeds or not. -/
def asks (ledger : Ledger) : Ask → Ledger
  | .get name create => ledger.noting ((Hub.get name create).perform ledger.hub).2
  | .reload => ledger.forgetting.noting (Hub.reload.perform ledger.hub).2
  | .close => ledger.forgetting.noting (Hub.close.perform ledger.hub).2
  | .apart name =>
    match Database.open ledger.hub.registry.root name ledger.hub.world with
    | (.ok database, world) =>
      { ledger with hub := { ledger.hub with world }, opened := ledger.opened ++ [database] }
    | (.error _, world) => { ledger with hub := { ledger.hub with world } }
  | .call number call =>
    match ledger.opened[number]? with
    | none => ledger
    | some database => ledger.replacing number (Site.takes ⟨database, ledger.hub.world⟩ call)

/-- What has become of everything after several things have been asked one after the other. -/
def asksAll (ledger : Ledger) (all : List Ask) : Ledger :=
  all.foldl asks ledger

/-- A database that has been opened before is asked to close in a run. -/
def Shuts (ledger : Ledger) (all : List Ask) (number : Nat) : Prop :=
  ∃ done rest, all = done ++ .call number .close :: rest ∧
    number < (ledger.asksAll done).opened.length

/-- Under a name the registry keeps a database of some number. -/
structure Keeps (ledger : Ledger) (name : String) (number : Nat) (database : Database) : Prop where
  kept : ledger.kept.lookup name = some number
  opened : ledger.opened[number]? = some database

/-! ## Numbers and databases -/

/-- The numbers agree with the registry: it has got the databases that it keeps, as they are now, each under
its name. -/
structure Agrees (ledger : Ledger) : Prop where
  keys : Entries.keys ledger.kept = Entries.keys ledger.hub.registry.databases
  nodup : (Entries.keys ledger.kept).Nodup
  kept : ∀ name number, ledger.kept.lookup name = some number →
    ∃ database, ledger.opened[number]? = some database ∧ database.name = name ∧
      ledger.hub.registry.databases.lookup name = some database

/-- The numbers agree with a registry that has opened nothing. -/
lemma agrees_start (root : String) (world : World) : (start root world).Agrees :=
  ⟨rfl, List.nodup_nil, fun _ _ h => by cases h⟩

/-- What the registry has got under a name is the database that it keeps there. -/
lemma Agrees.exists_keeps (h : ledger.Agrees) {name : String} {database : Database}
    (hlookup : ledger.hub.registry.databases.lookup name = some database) :
    ∃ number, ledger.Keeps name number database ∧ database.name = name := by
  have hmem : name ∈ Entries.keys ledger.kept := h.keys ▸ Entries.mem_keys_iff.mpr ⟨database, hlookup⟩
  obtain ⟨number, hnumber⟩ := Entries.mem_keys_iff.mp hmem
  obtain ⟨other, hopened, hname, hother⟩ := h.kept name number hnumber
  obtain rfl := Option.some.inj (hother.symm.trans hlookup)
  exact ⟨number, ⟨hnumber, hopened⟩, hname⟩

/-- A registry that goes on gets some databases, which get the next numbers. -/
lemma Agrees.noting_eq (h : ledger.Agrees) {hub : Hub} {fresh : List (String × Database)}
    (hfresh : hub.registry.databases = ledger.hub.registry.databases ++ fresh)
    (hnodup : (Entries.keys hub.registry.databases).Nodup) :
    ledger.noting hub = ⟨hub, ledger.opened ++ fresh.map (·.2),
      ledger.kept ++ (fresh.zipIdx ledger.opened.length).map fun entry => (entry.1.1, entry.2)⟩ := by
  have hnone : ∀ name, (ledger.kept.lookup name).isNone = true ↔
      name ∉ Entries.keys ledger.hub.registry.databases := by
    intro name
    rw [← h.keys, Entries.mem_keys_iff, Option.isNone_iff_eq_none, not_exists,
      Option.eq_none_iff_forall_ne_some]
  have hfilter : hub.registry.databases.filter (fun entry => (ledger.kept.lookup entry.1).isNone) =
      fresh := by
    rw [hfresh, Entries.keys, List.map_append] at hnodup
    have hapart := (List.nodup_append.mp hnodup).2.2
    rw [hfresh, List.filter_append, List.filter_eq_nil_iff.mpr, List.nil_append, List.filter_eq_self]
    · exact fun entry hentry => (hnone _).mpr fun hold =>
        hapart _ hold _ (List.mem_map_of_mem hentry) rfl
    · exact fun entry hentry hnew => (hnone _).mp hnew (List.mem_map_of_mem hentry)
  rw [noting, hfilter]

/-- A number that a new database has got belongs to this one. -/
lemma exists_of_lookup_zipIdx {opened : List Database} {fresh : List (String × Database)} {name : String}
    {number : Nat}
    (h : ((fresh.zipIdx opened.length).map fun entry => (entry.1.1, entry.2)).lookup name = some number) :
    ∃ database, (name, database) ∈ fresh ∧ opened.length ≤ number ∧
      (opened ++ fresh.map (·.2))[number]? = some database := by
  obtain ⟨entry, hentry, heq⟩ := List.mem_map.mp (Entries.mem_of_lookup h)
  obtain ⟨rfl, rfl⟩ := Prod.mk.inj heq
  obtain ⟨⟨other, database⟩, number⟩ := entry
  obtain ⟨hle, hget⟩ := List.mk_mem_zipIdx_iff_le_and_getElem?_sub.mp hentry
  refine ⟨database, List.mem_of_getElem? hget, hle, ?_⟩
  rw [List.getElem?_append_right hle, List.getElem?_map, hget]
  rfl

/-- The numbers still agree when the registry has got some databases in addition. -/
lemma Agrees.noting (h : ledger.Agrees) {hub : Hub} {fresh : List (String × Database)}
    (hfresh : hub.registry.databases = ledger.hub.registry.databases ++ fresh)
    (hnodup : (Entries.keys hub.registry.databases).Nodup)
    (hnames : ∀ entry ∈ fresh, entry.2.name = entry.1) : (ledger.noting hub).Agrees := by
  have hkeys : Entries.keys (ledger.kept ++ (fresh.zipIdx ledger.opened.length).map fun entry =>
      (entry.1.1, entry.2)) = Entries.keys hub.registry.databases := by
    have hzip : (fresh.zipIdx ledger.opened.length).map (fun entry => entry.1.1) =
        fresh.map (·.1) := by
      conv_rhs => rw [← List.zipIdx_map_fst ledger.opened.length fresh, List.map_map]
      rfl
    rw [hfresh, Entries.keys, Entries.keys, List.map_append, List.map_append, List.map_map, ← hzip,
      ← Entries.keys, h.keys]
    rfl
  rw [h.noting_eq hfresh hnodup]
  refine ⟨hkeys, hkeys ▸ hnodup, fun name number hnumber => ?_⟩
  dsimp only at hnumber ⊢
  rw [List.lookup_append, Option.or_eq_some_iff] at hnumber
  rcases hnumber with hold | ⟨-, hnew⟩
  · obtain ⟨database, hopened, hname, hlookup⟩ := h.kept name number hold
    refine ⟨database, ?_, hname, ?_⟩
    · rw [List.getElem?_append_left (List.getElem?_eq_some_iff.mp hopened).1]
      exact hopened
    · rw [hfresh, List.lookup_append, hlookup]
      rfl
  · obtain ⟨database, hmem, -, hopened⟩ := exists_of_lookup_zipIdx hnew
    have hthere : (name, database) ∈ hub.registry.databases := by
      rw [hfresh]
      exact List.mem_append_right _ hmem
    exact ⟨database, hopened, hnames _ hmem, Entries.lookup_eq_some_of_mem hnodup hthere⟩

/-- The numbers agree after the registry has forgotten everything. -/
lemma agrees_forgetting (ledger : Ledger) : ledger.forgetting.Agrees :=
  ⟨rfl, List.nodup_nil, fun _ _ h => by cases h⟩

/-- After the registry has forgotten everything, a database is as it was, or the registry has closed it. -/
lemma mem_opened_forgetting {database : Database} (h : database ∈ ledger.forgetting.opened) :
    database ∈ ledger.opened ∨
      ∃ old ∈ ledger.opened, database = (Site.takes ⟨old, ledger.hub.world⟩ .close).database := by
  obtain ⟨number, hless, rfl⟩ := List.mem_mapIdx.mp h
  have hmem := List.getElem_mem hless
  split
  · exact Or.inr ⟨_, hmem, rfl⟩
  · exact Or.inl hmem

/-- The registry stays where it is when a database changes. -/
lemma root_replacing (ledger : Ledger) (number : Nat) (site : Site) :
    (ledger.replacing number site).hub.registry.root = ledger.hub.registry.root := by
  rw [replacing]
  dsimp only
  split
  · rfl
  · rfl

/-- The numbers still agree when a database changes. -/
lemma Agrees.replacing (h : ledger.Agrees) {number : Nat} {database : Database} {site : Site}
    (hopened : ledger.opened[number]? = some database) (hname : site.database.name = database.name) :
    (ledger.replacing number site).Agrees := by
  have hlength := (List.getElem?_eq_some_iff.mp hopened).1
  have hself : (ledger.opened.set number site.database)[number]? = some site.database := by
    rw [List.getElem?_set_self hlength]
  have hother : ∀ other, other ≠ number →
      (ledger.opened.set number site.database)[other]? = ledger.opened[other]? := fun other hne =>
    List.getElem?_set_ne (Ne.symm hne)
  rw [Ledger.replacing]
  by_cases hkeeps : ledger.kept.lookup site.database.name = some number
  · have hmem : site.database.name ∈ Entries.keys ledger.hub.registry.databases :=
      h.keys ▸ Entries.mem_keys_iff.mpr ⟨number, hkeeps⟩
    rw [if_pos hkeeps]
    refine ⟨?_, h.nodup, fun name kept hkept => ?_⟩
    · rw [Registry.withDatabase]
      dsimp only
      rw [Entries.keys_put_of_mem hmem]
      exact h.keys
    · by_cases hsame : name = site.database.name
      · subst hsame
        obtain rfl := Option.some.inj (hkeeps.symm.trans hkept)
        exact ⟨site.database, hself, rfl, Entries.lookup_put_self _ _ _⟩
      · obtain ⟨old, hold, hname', hlookup⟩ := h.kept name kept hkept
        have hne : kept ≠ number := by
          rintro rfl
          obtain rfl := Option.some.inj (hopened.symm.trans hold)
          exact hsame (hname'.symm.trans hname.symm)
        exact ⟨old, (hother kept hne).trans hold, hname', (Entries.lookup_put_of_ne hsame _ _).trans hlookup⟩
  · rw [if_neg hkeeps]
    refine ⟨h.keys, h.nodup, fun name kept hkept => ?_⟩
    obtain ⟨old, hold, hname', hlookup⟩ := h.kept name kept hkept
    have hne : kept ≠ number := by
      rintro rfl
      obtain rfl := Option.some.inj (hopened.symm.trans hold)
      exact hkeeps ((hname.trans hname').symm ▸ hkept)
    exact ⟨old, (hother kept hne).trans hold, hname', hlookup⟩

/-- A registry that goes on notes what it has got. -/
lemma Agrees.noting_opens (h : ledger.Agrees) {hub : Hub} {allowed : String → Prop}
    (hopens : ledger.hub.Opens allowed hub) : (ledger.noting hub).Agrees := by
  obtain ⟨-, fresh, hfresh, hnodup, hopened⟩ := hopens.exists_fresh
  refine h.noting hfresh (hnodup (h.keys ▸ h.nodup)) fun entry hentry => ?_
  obtain ⟨world, after, hopen⟩ := hopened entry hentry
  exact Database.name_of_open hopen

/-- What a registry that goes on gets has been opened, and is noted behind all that has been opened before. -/
lemma Agrees.exists_noting (h : ledger.Agrees) {hub : Hub} {allowed : String → Prop}
    (hopens : ledger.hub.Opens allowed hub) :
    ∃ fresh : List (String × Database),
      (∀ entry ∈ fresh, ∃ world after,
        Database.open ledger.hub.registry.root (.text entry.1) world = (.ok entry.2, after)) ∧
      ledger.noting hub = ⟨hub, ledger.opened ++ fresh.map (·.2),
        ledger.kept ++ (fresh.zipIdx ledger.opened.length).map fun entry => (entry.1.1, entry.2)⟩ := by
  obtain ⟨-, fresh, hfresh, hnodup, hopened⟩ := hopens.exists_fresh
  exact ⟨fresh, hopened, h.noting_eq hfresh (hnodup (h.keys ▸ h.nodup))⟩

/-- The numbers still agree after something has been asked. -/
theorem Agrees.asks (h : ledger.Agrees) (ask : Ask) : (ledger.asks ask).Agrees := by
  cases ask with
  | get name create => exact h.noting_opens (Hub.opens_get _ _ _)
  | reload => exact (agrees_forgetting ledger).noting_opens (Hub.opens_reload _)
  | close =>
    have hrefl : Hub.Opens (fun _ => True) ledger.forgetting.hub ledger.forgetting.hub := .refl
    exact (agrees_forgetting ledger).noting_opens hrefl
  | apart name =>
    rw [Ledger.asks]
    split
    · refine ⟨h.keys, h.nodup, fun name number hnumber => ?_⟩
      obtain ⟨database, hopened, hrest⟩ := h.kept name number hnumber
      refine ⟨database, ?_, hrest⟩
      dsimp only
      rw [List.getElem?_append_left (List.getElem?_eq_some_iff.mp hopened).1]
      exact hopened
    · exact ⟨h.keys, h.nodup, h.kept⟩
  | call number call =>
    rw [Ledger.asks]
    split
    · exact h
    · rename_i hopened
      exact h.replacing hopened (Site.name_takes _ _)

/-! ## Open databases -/

/-- A database that is kept after an ask has been kept before under the same number, and has only been closed
if the ask is to close it; or it has just been opened. -/
def Follows (ledger : Ledger) (ask : Ask) (name : String) (number : Nat) (database : Database) : Prop :=
  (∃ old, ledger.Keeps name number old ∧
      (database.closed = true ↔ old.closed = true ∨ ask = .call number .close)) ∨
    ledger.opened.length ≤ number ∧ database.closed = false

/-- A registry that goes on keeps the databases that it has kept, or others that have just been opened. -/
lemma Agrees.noting_cases (h : ledger.Agrees) {hub : Hub} {allowed : String → Prop}
    (hopens : ledger.hub.Opens allowed hub)
    {name : String} {number : Nat} {database : Database}
    (hkeeps : (ledger.noting hub).Keeps name number database) :
    ledger.Keeps name number database ∨ ledger.opened.length ≤ number ∧ database.closed = false := by
  obtain ⟨fresh, hopened, hnoting⟩ := h.exists_noting hopens
  rw [hnoting] at hkeeps
  obtain ⟨hkept, hthere⟩ := hkeeps
  dsimp only at hkept hthere
  rw [List.lookup_append, Option.or_eq_some_iff] at hkept
  rcases hkept with hold | ⟨-, hnew⟩
  · obtain ⟨old, hold', -⟩ := h.kept name number hold
    rw [List.getElem?_append_left (List.getElem?_eq_some_iff.mp hold').1] at hthere
    exact Or.inl ⟨hold, hthere⟩
  · obtain ⟨new, hmem, hle, hnumbered⟩ := exists_of_lookup_zipIdx hnew
    obtain ⟨world, after, hopen⟩ := hopened _ hmem
    obtain ⟨-, -, -, -, hclosed, -⟩ := Database.open_eq_ok hopen
    obtain rfl := Option.some.inj (hnumbered.symm.trans hthere)
    exact Or.inr ⟨hle, hclosed⟩

/-- What is kept after a call of a database has been kept before, and has only been closed if the call is to
close it. -/
lemma Keeps.follows_call {number other : Nat} {call : Site.Call} {name : String} {database : Database}
    (hkeeps : (ledger.asks (.call other call)).Keeps name number database) :
    ledger.Follows (.call other call) name number database := by
  rw [Ledger.asks] at hkeeps
  split at hkeeps
  · rename_i hnone
    refine Or.inl ⟨database, hkeeps, (or_iff_left fun heq => ?_).symm⟩
    obtain ⟨rfl, -⟩ := Ask.call.inj heq
    cases hnone.symm.trans hkeeps.opened
  · rename_i old hthere
    have hlength := (List.getElem?_eq_some_iff.mp hthere).1
    have hopened := hkeeps.opened
    rw [Ledger.replacing] at hopened
    dsimp only at hopened
    by_cases hsame : other = number
    · subst hsame
      rw [List.getElem?_set_self hlength] at hopened
      obtain rfl := Option.some.inj hopened
      refine Or.inl ⟨old, ⟨hkeeps.kept, hthere⟩, ?_⟩
      rw [Site.closed_takes]
      simp
    · rw [List.getElem?_set_ne hsame] at hopened
      refine Or.inl ⟨database, ⟨hkeeps.kept, hopened⟩, (or_iff_left fun heq => ?_).symm⟩
      exact hsame (Ask.call.inj heq).1

/-- What is kept after an ask follows on what has been kept before. -/
lemma Agrees.follows (h : ledger.Agrees) (ask : Ask) {name : String} {number : Nat}
    {database : Database} (hkeeps : (ledger.asks ask).Keeps name number database) :
    ledger.Follows ask name number database := by
  have hold : ledger.Keeps name number database → (∀ other call, ask ≠ .call other call) →
      ledger.Follows ask name number database := fun hkept hask =>
    Or.inl ⟨database, hkept, (or_iff_left (hask number .close)).symm⟩
  have hforgotten : ∀ (allowed : String → Prop) hub, ledger.forgetting.hub.Opens allowed hub →
      (ledger.forgetting.noting hub).Keeps name number database →
        ledger.Follows ask name number database := by
    intro allowed hub hopens hkeeps
    have hlength : ledger.forgetting.opened.length = ledger.opened.length := List.length_mapIdx
    rcases (agrees_forgetting ledger).noting_cases hopens hkeeps with hkept | hnew
    · cases hkept.kept
    · exact Or.inr (hlength ▸ hnew)
  cases ask with
  | get name create =>
    rcases h.noting_cases (Hub.opens_get _ _ _) hkeeps with hkept | hnew
    · exact hold hkept nofun
    · exact Or.inr hnew
  | reload => exact hforgotten _ _ (Hub.opens_reload _) hkeeps
  | close => exact hforgotten (fun _ => True) _ .refl hkeeps
  | apart other =>
    refine hold ?_ nofun
    rw [Ledger.asks] at hkeeps
    split at hkeeps
    · obtain ⟨old, hthere, -⟩ := h.kept name number hkeeps.kept
      have hsame := hkeeps.opened
      rw [List.getElem?_append_left (List.getElem?_eq_some_iff.mp hthere).1] at hsame
      exact ⟨hkeeps.kept, hsame⟩
    · exact ⟨hkeeps.kept, hkeeps.opened⟩
  | call other call => exact hkeeps.follows_call

/-- Everything that has been opened stays. -/
lemma length_opened_le (ledger : Ledger) (ask : Ask) :
    ledger.opened.length ≤ (ledger.asks ask).opened.length := by
  have hnoting : ∀ (ledger : Ledger) (hub : Hub),
      ledger.opened.length ≤ (ledger.noting hub).opened.length := by
    intro ledger hub
    rw [noting, List.length_append]
    exact Nat.le_add_right _ _
  have hforgetting : ledger.forgetting.opened.length = ledger.opened.length := List.length_mapIdx
  cases ask with
  | get name create => exact hnoting _ _
  | reload => exact hforgetting ▸ hnoting ledger.forgetting _
  | close => exact hforgetting ▸ hnoting ledger.forgetting _
  | apart name =>
    rw [asks]
    split
    · dsimp only
      rw [List.length_append]
      exact Nat.le_add_right _ _
    · exact Nat.le_refl _
  | call number call =>
    rw [asks]
    split
    · exact Nat.le_refl _
    · exact Nat.le_of_eq List.length_set.symm

/-- A run of one more ask. -/
lemma asksAll_concat (ledger : Ledger) (all : List Ask) (ask : Ask) :
    ledger.asksAll (all ++ [ask]) = (ledger.asksAll all).asks ask :=
  List.foldl_concat _ _ _ _

/-- A database is shut in a run of one more ask if it has been shut before, or by this ask. -/
lemma shuts_concat_iff {all : List Ask} {ask : Ask} {number : Nat} :
    ledger.Shuts (all ++ [ask]) number ↔ ledger.Shuts all number ∨
      ask = .call number .close ∧ number < (ledger.asksAll all).opened.length := by
  constructor
  · rintro ⟨done, rest, heq, hless⟩
    rcases List.eq_nil_or_concat rest with rfl | ⟨init, last, rfl⟩
    · obtain ⟨rfl, hlast⟩ := List.append_inj' heq rfl
      exact Or.inr ⟨List.singleton_inj.mp hlast, hless⟩
    · rw [List.concat_eq_append, ← List.cons_append, ← List.append_assoc] at heq
      obtain ⟨rfl, -⟩ := List.append_inj' heq rfl
      exact Or.inl ⟨done, init, rfl, hless⟩
  · rintro (⟨done, rest, rfl, hless⟩ | ⟨rfl, hless⟩)
    · exact ⟨done, rest ++ [ask], by rw [List.append_assoc, List.cons_append], hless⟩
    · exact ⟨all, [], rfl, hless⟩

/-- A database that is shut has been opened. -/
lemma Shuts.lt_length {all : List Ask} {number : Nat} (h : ledger.Shuts all number) :
    number < (ledger.asksAll all).opened.length := by
  induction all using List.reverseRecOn with
  | nil =>
    obtain ⟨done, rest, heq, -⟩ := h
    exact absurd heq.symm (by simp)
  | append_singleton all ask ih =>
    rw [asksAll_concat]
    refine Nat.lt_of_lt_of_le ?_ (length_opened_le _ ask)
    exact (shuts_concat_iff.mp h).elim ih (·.2)

/-- In a run the numbers agree with the registry. -/
lemma agrees_asksAll (h : ledger.Agrees) (all : List Ask) : (ledger.asksAll all).Agrees := by
  induction all generalizing ledger with
  | nil => exact h
  | cons ask rest ih => exact ih (h.asks ask)

/-- What the registry keeps is closed exactly if it has been shut. -/
theorem closed_iff_shuts (root : String) (world : World) (all : List Ask) {name : String}
    {number : Nat} {database : Database}
    (h : ((start root world).asksAll all).Keeps name number database) :
    database.closed = true ↔ (start root world).Shuts all number := by
  induction all using List.reverseRecOn generalizing database with
  | nil => cases h.kept
  | append_singleton all ask ih =>
    rw [asksAll_concat] at h
    rw [shuts_concat_iff]
    rcases (agrees_asksAll (agrees_start root world) all).follows ask h with
      ⟨old, hold, hclosed⟩ | ⟨hle, hopen⟩
    · have hless := (List.getElem?_eq_some_iff.mp hold.opened).1
      rw [hclosed, ih hold, and_iff_left hless]
    · rw [hopen]
      refine iff_of_false Bool.noConfusion ?_
      rintro (hshuts | ⟨-, hless⟩)
      · exact absurd hshuts.lt_length (Nat.not_lt.mpr hle)
      · exact absurd hless (Nat.not_lt.mpr hle)

/-- Everything that is open under a root is in service. -/
structure Serves (root : String) (ledger : Ledger) : Prop where
  place : ledger.hub.registry.root = root
  opened : ∀ database ∈ ledger.opened, database.closed = false → database.InService root

/-- What a registry opens in addition is in service. -/
lemma Serves.noting {root : String} (h : ledger.Serves root) (hagrees : ledger.Agrees) {hub : Hub}
    {allowed : String → Prop}
    (hopens : ledger.hub.Opens allowed hub) : (ledger.noting hub).Serves root := by
  obtain ⟨fresh, hopened, hnoting⟩ := hagrees.exists_noting hopens
  rw [hnoting]
  refine ⟨hopens.exists_fresh.1.trans h.place, fun database hdatabase hclosed => ?_⟩
  rcases List.mem_append.mp hdatabase with hold | hnew
  · exact h.opened database hold hclosed
  · obtain ⟨entry, hentry, rfl⟩ := List.mem_map.mp hnew
    obtain ⟨world, after, hopen⟩ := hopened entry hentry
    exact h.place ▸ .opened hopen

/-- What is open after the registry has forgotten everything is in service. -/
lemma Serves.forgetting {root : String} (h : ledger.Serves root) : ledger.forgetting.Serves root := by
  refine ⟨h.place, fun database hdatabase hclosed => ?_⟩
  rcases mem_opened_forgetting hdatabase with hold | ⟨old, -, rfl⟩
  · exact h.opened database hold hclosed
  · have hshut := (Site.closed_takes ⟨old, ledger.hub.world⟩ .close).mpr (Or.inr rfl)
    cases hshut.symm.trans hclosed

/-- What is open after an ask is in service. -/
lemma Serves.asks {root : String} (h : ledger.Serves root) (hagrees : ledger.Agrees) (ask : Ask) :
    (ledger.asks ask).Serves root := by
  cases ask with
  | get name create => exact h.noting hagrees (Hub.opens_get _ _ _)
  | reload => exact h.forgetting.noting (agrees_forgetting ledger) (Hub.opens_reload _)
  | close =>
    have hrefl : Hub.Opens (fun _ => True) ledger.forgetting.hub ledger.forgetting.hub := .refl
    exact h.forgetting.noting (agrees_forgetting ledger) hrefl
  | apart name =>
    rw [Ledger.asks]
    split
    · rename_i hopen
      refine ⟨h.place, fun database hdatabase hclosed => ?_⟩
      rcases List.mem_append.mp hdatabase with hold | hnew
      · exact h.opened database hold hclosed
      · obtain rfl := List.mem_singleton.mp hnew
        exact h.place ▸ .opened hopen
    · exact ⟨h.place, h.opened⟩
  | call number call =>
    rw [Ledger.asks]
    split
    · exact h
    · rename_i old hthere
      refine ⟨(root_replacing _ _ _).trans h.place, fun database hdatabase hclosed => ?_⟩
      rcases List.mem_or_eq_of_mem_set hdatabase with hold | rfl
      · exact h.opened database hold hclosed
      · have hopen := mt (Site.closed_takes _ call).mpr (Bool.eq_false_iff.mp hclosed)
        rw [not_or] at hopen
        exact .taken (h.opened old (List.mem_of_getElem? hthere)
          (Bool.eq_false_iff.mpr hopen.1)) _ hopen.2

/-- In a run everything that is open is in service. -/
lemma serves_asksAll {root : String} (h : ledger.Serves root) (hagrees : ledger.Agrees)
    (all : List Ask) : (ledger.asksAll all).Serves root := by
  induction all generalizing ledger with
  | nil => exact h
  | cons ask rest ih => exact ih (h.asks hagrees ask) (hagrees.asks ask)

/-! ## What is handed out -/

/-- A registry keeps what it keeps as long as it is not asked to close or to open everything again. -/
lemma Agrees.kept_asksAll (h : ledger.Agrees) {name : String} {number : Nat}
    (hkept : ledger.kept.lookup name = some number) {more : List Ask}
    (hmore : ∀ ask ∈ more, ask ≠ .reload ∧ ask ≠ .close) :
    (ledger.asksAll more).kept.lookup name = some number := by
  induction more generalizing ledger with
  | nil => exact hkept
  | cons ask rest ih =>
    obtain ⟨⟨hreload, hclose⟩, hrest⟩ := List.forall_mem_cons.mp hmore
    refine ih (h.asks ask) ?_ hrest
    cases ask with
    | get v create =>
      obtain ⟨fresh, -, hnoting⟩ := h.exists_noting (Hub.opens_get ledger.hub v create)
      rw [Ledger.asks, hnoting]
      dsimp only
      rw [List.lookup_append, hkept]
      rfl
    | reload => exact absurd rfl hreload
    | close => exact absurd rfl hclose
    | apart other =>
      rw [Ledger.asks]
      split
      · exact hkept
      · exact hkept
    | call other call =>
      rw [Ledger.asks]
      split
      · exact hkept
      · exact hkept

/-- What a registry keeps under a name is what it gives. -/
lemma Agrees.perform_get (h : ledger.Agrees) {name : String} {number : Nat}
    (hkept : ledger.kept.lookup name = some number) (create : Bool) :
    ∃ database, ledger.Keeps name number database ∧
      (Hub.get (.text name) create).perform ledger.hub = (.ok database, ledger.hub) := by
  obtain ⟨database, hopened, -, hlookup⟩ := h.kept name number hkept
  exact ⟨database, ⟨hkept, hopened⟩, Hub.perform_get_kept hlookup create⟩

/-- What a registry gives is asked for by a text, and the registry keeps it from then on. -/
lemma Agrees.keeps_get (h : ledger.Agrees) {v : Value} {create : Bool} {database : Database} {hub : Hub}
    (hgives : (Hub.get v create).perform ledger.hub = (.ok database, hub)) :
    ∃ name number, v = .text name ∧ (ledger.asks (.get v create)).Keeps name number database := by
  have hagrees := h.asks (.get v create)
  have hlookup : ∃ name, v = .text name ∧ hub.registry.databases.lookup name = some database := by
    have hgets := Hub.gets_perform ledger.hub v create
    rw [hgives] at hgets
    cases hgets with
    | kept hv hlookup => exact ⟨_, hv, hlookup⟩
    | opened hv hnew hopen =>
      refine ⟨_, hv, ?_⟩
      rw [Registry.withDatabase, Database.name_of_open hopen]
      exact Entries.lookup_put_self _ _ _
  obtain ⟨name, hv, hlookup⟩ := hlookup
  have hhub : (ledger.asks (.get v create)).hub = hub := by
    rw [Ledger.asks, hgives]
    rfl
  obtain ⟨number, hkeeps, -⟩ := hagrees.exists_keeps (hhub ▸ hlookup)
  exact ⟨name, number, hv, hkeeps⟩

/-- How a database fares that the registry keeps after a run: it can be used, and is in service, exactly if it
has not been shut, and otherwise it refuses everything. -/
structure Fares (root : String) (world : World) (all : List Ask) (number : Nat) (database : Database) :
    Prop where
  answers : database.Answers ↔ ¬(start root world).Shuts all number
  serves : database.Answers → database.InService root
  refuses : (start root world).Shuts all number → database.RefusesAll

/-- What the registry keeps after a run fares so. -/
lemma fares_of_keeps {root : String} {world : World} {all : List Ask} {name : String} {number : Nat}
    {database : Database} (h : ((start root world).asksAll all).Keeps name number database) :
    Fares root world all number database := by
  have hclosed := closed_iff_shuts root world all h
  have hstart : (start root world).Serves root := ⟨rfl, fun _ h => by cases h⟩
  have hserves := serves_asksAll hstart (agrees_start root world) all
  refine ⟨?_, fun hanswers => ?_, fun hshuts => Database.refusesAll_of_closed (hclosed.mpr hshuts)⟩
  · rw [Database.answers_iff, ← hclosed, Bool.not_eq_true]
  · exact hserves.opened database (List.mem_of_getElem? h.opened) (Database.answers_iff.mp hanswers)

/-- After every run a registry gives a database that can be used, and is in service, unless this database has
been shut since it has been opened, and it gives the same one again as long as it is not asked to close or to
open everything again.  The names that count as loaded are those of such databases. -/
theorem handsOut_asksAll (root : String) (world : World) (all : List Ask) :
    (∀ v create database hub,
      (Hub.get v create).perform ((start root world).asksAll all).hub = (.ok database, hub) →
        ∃ name number, v = .text name ∧
          ((start root world).asksAll (all ++ [.get v create])).Keeps name number database ∧
          Fares root world all number database ∧
          ∀ more, (∀ ask ∈ more, ask ≠ .reload ∧ ask ≠ .close) → ∀ create',
            let later := (start root world).asksAll (all ++ .get v create :: more)
            ∃ same, later.Keeps name number same ∧
              (Hub.get v create').perform later.hub = (.ok same, later.hub)) ∧
    ∀ name ∈ ((start root world).asksAll all).hub.registry.loaded,
      ∃ number database, ((start root world).asksAll all).Keeps name number database ∧
        Fares root world all number database := by
  have hagrees := agrees_asksAll (agrees_start root world) all
  constructor
  · intro v create database hub hgives
    obtain ⟨name, number, rfl, hkeeps⟩ := hagrees.keeps_get hgives
    rw [asksAll_concat]
    have hfares := fares_of_keeps (asksAll_concat _ _ _ ▸ hkeeps)
    have hsame : (start root world).Shuts (all ++ [.get (.text name) create]) number ↔
        (start root world).Shuts all number := by
      rw [shuts_concat_iff, or_iff_left (by simp)]
    refine ⟨name, number, rfl, hkeeps, ⟨hfares.answers.trans (not_congr hsame), hfares.serves,
      fun hshuts => hfares.refuses (hsame.mpr hshuts)⟩,
      fun more hmore create' => ?_⟩
    have hlater : (start root world).asksAll (all ++ .get (.text name) create :: more) =
        (((start root world).asksAll all).asks (.get (.text name) create)).asksAll more :=
      List.foldl_append
    rw [hlater]
    have hnow := hagrees.asks (.get (.text name) create)
    exact (agrees_asksAll hnow more).perform_get (hnow.kept_asksAll hkeeps.kept hmore) create'
  · intro name hname
    have hmem : name ∈ Entries.keys ((start root world).asksAll all).hub.registry.databases :=
      List.mem_mergeSort.mp hname
    obtain ⟨database, hlookup⟩ := Entries.mem_keys_iff.mp hmem
    obtain ⟨number, hkeeps, -⟩ := hagrees.exists_keeps hlookup
    exact ⟨number, database, hkeeps, fares_of_keeps hkeeps⟩

/-- The directory of a shop without tables. -/
def emptyShop : World :=
  ⟨⟨[(["data"], .directory), (["data", "shop"], .directory)]⟩, []⟩

/-- The shop is opened without tables. -/
lemma open_emptyShop : Database.open "data" (.text "shop") emptyShop =
    (.ok ⟨"shop", "data/shop", [], false⟩, emptyShop.note (.databaseOpened "shop" 0)) := by
  have hplace : Path.join "data" "shop" = "data/shop" := by
    decide +kernel
  have hdirectory : emptyShop.disk.hasDirectory (Path.join "data" "shop") = true := by
    decide +kernel
  have hnames : Database.tableNames emptyShop.disk "data/shop" = [] := by
    have hin : emptyShop.disk.namesIn (Path.ofText "data/shop") = [] := by
      rw [Disk.namesIn, List.mergeSort_of_pairwise (by decide +kernel)]
      decide +kernel
    rw [Database.tableNames, hin]
    split <;> rfl
  rw [Database.open_of_hasDirectory (by decide) hdirectory, hplace, hnames]
  rfl

/-- The shop is opened when the registry is asked for it. -/
lemma perform_get_emptyShop : (Hub.get (.text "shop") true).perform (start "data" emptyShop).hub =
    (.ok ⟨"shop", "data/shop", [], false⟩,
      ⟨⟨"data", [("shop", ⟨"shop", "data/shop", [], false⟩)]⟩,
        emptyShop.note (.databaseOpened "shop" 0)⟩) := by
  have hname : checkName .database (.text "shop") = .ok "shop" := checkName_eq_ok.mpr ⟨rfl, by decide⟩
  rw [Hub.perform_get_new rfl rfl, hname]
  dsimp only [start]
  rw [if_neg (by decide), open_emptyShop]
  rfl

/-- The registry keeps the shop when whoever has got it has closed it. -/
lemma asksAll_emptyShop : (start "data" emptyShop).asksAll [.get (.text "shop") true, .call 0 .close] =
    ⟨⟨⟨"data", [("shop", ⟨"shop", "data/shop", [], true⟩)]⟩,
        (emptyShop.note (.databaseOpened "shop" 0)).note (.databaseClosed "shop")⟩,
      [⟨"shop", "data/shop", [], true⟩], [("shop", 0)]⟩ := by
  rw [asksAll, List.foldl_cons, asks, perform_get_emptyShop]
  rfl

/-- The shop can be used at first, and refuses everything after it has been closed. -/
theorem handsOut_asksAll_emptyShop :
    (∃ database hub, (Hub.get (.text "shop") true).perform (start "data" emptyShop).hub =
        (.ok database, hub) ∧ database.Answers) ∧
      ∃ database hub, (Hub.get (.text "shop") true).perform ((start "data" emptyShop).asksAll
        [.get (.text "shop") true, .call 0 .close]).hub = (.ok database, hub) ∧
          database.RefusesAll := by
  constructor
  · obtain ⟨name, number, -, -, hfares, -⟩ :=
      (handsOut_asksAll "data" emptyShop []).1 _ true _ _ perform_get_emptyShop
    refine ⟨_, _, perform_get_emptyShop, hfares.answers.mpr ?_⟩
    rintro ⟨done, rest, heq, -⟩
    exact absurd heq.symm (by simp)
  · obtain ⟨database, hub, hgives⟩ : ∃ database hub, (Hub.get (.text "shop") true).perform
        ((start "data" emptyShop).asksAll [.get (.text "shop") true, .call 0 .close]).hub =
          (.ok database, hub) := by
      rw [asksAll_emptyShop]
      exact ⟨_, _, Hub.perform_get_kept rfl true⟩
    obtain ⟨name, number, hname, hkeeps, hfares, -⟩ := (handsOut_asksAll "data" emptyShop
      [.get (.text "shop") true, .call 0 .close]).1 _ true _ _ hgives
    obtain rfl := Value.text.inj hname
    rw [asksAll_concat, asksAll_emptyShop] at hkeeps
    obtain rfl : 0 = number := Option.some.inj hkeeps.kept
    refine ⟨_, _, hgives, hfares.refuses ⟨[.get (.text "shop") true], [], rfl, ?_⟩⟩
    rw [asksAll, List.foldl_cons, asks, perform_get_emptyShop]
    exact Nat.one_pos

/-- A registry gives a closed database: one that it has given before, and that has been closed by whoever has
got it. -/
theorem not_handsOut_emptyShop :
    ¬∀ root world all v create database hub,
      (Hub.get v create).perform ((start root world).asksAll all).hub = (.ok database, hub) →
        database.closed = false := by
  intro hall
  have hlookup : ((start "data" emptyShop).asksAll
      [.get (.text "shop") true, .call 0 .close]).hub.registry.databases.lookup "shop" =
        some ⟨"shop", "data/shop", [], true⟩ := by
    rw [asksAll_emptyShop]
    rfl
  exact absurd (hall _ _ _ _ _ _ _ (Hub.perform_get_kept hlookup true)) Bool.noConfusion

end Ledger

end RecordStore
