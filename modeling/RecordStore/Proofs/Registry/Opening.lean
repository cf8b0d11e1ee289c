import RecordStore.Proofs.Query.Step
import RecordStore.Registry

/-!
# What a registry does

Whatever is asked of a registry comes down to databases that are opened one after the other, each under a
name that the registry has not got yet.  Before a registry opens its databases again, it closes and forgets
all those that it has.  It never looks at what has become of a database that it has got.
-/

namespace RecordStore

/-- A database that is opened has the name under which it is opened. -/
lemma Database.name_of_open {root name : String} {world after : World} {database : Database}
    (h : Database.open root (.text name) world = (.ok database, after)) : database.name = name := by
  rw [Database.open] at h
  split at h
  · cases h
  · rename_i checked hchecked
    obtain ⟨hv, -⟩ := checkName_eq_ok.mp hchecked
    obtain rfl := Value.text.inj hv
    dsimp only at h
    split at h
    · cases h
    · split at h
      · rename_i hloaded
        cases h
        exact keeps_loadTables (P := (·.name = name)) (fun _ _ _ _ _ h _ => h) rfl hloaded
      · cases h

namespace Registry

variable {registry : Registry}

/-- What is found under a text is the database of this name. -/
lemma find?_text (name : String) : registry.find? (.text name) = registry.databases.lookup name := rfl

/-- A database is only found under a text. -/
lemma find?_eq_some {v : Value} {database : Database} (h : registry.find? v = some database) :
    ∃ name, v = .text name ∧ registry.databases.lookup name = some database := by
  obtain ⟨name, hname, hlookup⟩ := Option.bind_eq_some_iff.mp h
  cases v with
  | text s =>
    obtain rfl := Option.some.inj hname
    exact ⟨s, rfl, hlookup⟩
  | _ => cases hname

/-- Closing all databases leaves the disk. -/
lemma disk_close (registry : Registry) (world : World) : (registry.close world).2.disk = world.disk := by
  rw [close]
  have hfold : ∀ (entries : List (String × Database)) (world : World),
      (entries.foldl (fun world (entry : String × Database) => (entry.2.close world).2) world).disk =
        world.disk := by
    intro entries
    induction entries with
    | nil => exact fun _ => rfl
    | cons entry rest ih =>
      intro world
      rw [List.foldl_cons, ih, Database.close]
      split <;> rfl
  exact hfold registry.databases world

/-- What is left when equal neighbours have been dropped has been there. -/
lemma dropRepeats_subset (names : List String) : dropRepeats names ⊆ names := by
  induction names with
  | nil => exact List.Subset.refl _
  | cons name rest ih =>
    rw [dropRepeats]
    split
    · exact List.subset_cons_of_subset _ ih
    · exact List.cons_subset_cons _ ih

/-- The names of all databases are those in the directory, if none has been opened. -/
lemma mem_namesIn_of_names {disk : Disk} {names : List String} (h : registry.names disk = .ok names)
    (hempty : registry.databases = []) {name : String} (hname : name ∈ names) :
    name ∈ disk.namesIn (Path.ofText registry.root) := by
  rw [Registry.names] at h
  split at h
  · cases h
  · cases h
  · obtain rfl := Except.ok.inj h
    have hmem := List.mem_mergeSort.mp (dropRepeats_subset _ hname)
    rw [hempty] at hmem
    exact (List.mem_filter.mp hmem).1

end Registry

namespace Hub

/-- A registry goes on by opening databases under names that are allowed and that it has not got yet; some may
be refused, and there may be notices. -/
inductive Opens (allowed : String → Prop) (hub : Hub) : Hub → Prop where
  | refl : Opens allowed hub hub
  | opened {between : Hub} (h : Opens allowed hub between) {name : String} (hallowed : allowed name)
      {database : Database} {world : World}
      (hnew : between.registry.databases.lookup name = none)
      (hopen : Database.open between.registry.root (.text name) between.world = (.ok database, world)) :
      Opens allowed hub ⟨between.registry.withDatabase database, world⟩
  | refused {between : Hub} (h : Opens allowed hub between) {name : String} (hallowed : allowed name)
      {fault : Fault} {world : World}
      (hopen : Database.open between.registry.root (.text name) between.world = (.error fault, world)) :
      Opens allowed hub { between with world := world }
  | noted {between : Hub} (h : Opens allowed hub between) (notice : Notice) :
      Opens allowed hub { between with world := between.world.note notice }

variable {allowed : String → Prop} {hub after : Hub}

/-- A registry that goes on twice goes on. -/
lemma Opens.trans {between : Hub} (h : Opens allowed hub between) (h' : Opens allowed between after) :
    Opens allowed hub after := by
  induction h' with
  | refl => exact h
  | opened _ hallowed hnew hopen ih => exact ih.opened hallowed hnew hopen
  | refused _ hallowed hopen ih => exact ih.refused hallowed hopen
  | noted _ notice ih => exact ih.noted notice

/-- More names may be allowed. -/
lemma Opens.mono {weaker : String → Prop} (h : Opens allowed hub after)
    (hweaker : ∀ name, allowed name → weaker name) : Opens weaker hub after := by
  induction h with
  | refl => exact .refl
  | opened _ hallowed hnew hopen ih => exact ih.opened (hweaker _ hallowed) hnew hopen
  | refused _ hallowed hopen ih => exact ih.refused (hweaker _ hallowed) hopen
  | noted _ notice ih => exact ih.noted notice

/-- How a database is asked for: the registry has got it, or it is opened, or there is a fault. -/
inductive Gets (hub : Hub) (v : Value) : Except Fault Database × Hub → Prop where
  | kept {name : String} {database : Database} (hv : v = .text name)
      (h : hub.registry.databases.lookup name = some database) : Gets hub v (.ok database, hub)
  | opened {name : String} {database : Database} {world : World} (hv : v = .text name)
      (hnew : hub.registry.databases.lookup name = none)
      (hopen : Database.open hub.registry.root (.text name) hub.world = (.ok database, world)) :
      Gets hub v (.ok database, ⟨hub.registry.withDatabase database, world⟩)
  | refused {name : String} {fault : Fault} {world : World} (hv : v = .text name)
      (hopen : Database.open hub.registry.root (.text name) hub.world = (.error fault, world)) :
      Gets hub v (.error fault, { hub with world := world })
  | rejected (fault : Fault) : Gets hub v (.error fault, hub)

/-- A registry gives a database that it has got, without a look at it. -/
lemma perform_get_kept {name : String} {database : Database}
    (h : hub.registry.databases.lookup name = some database) (create : Bool) :
    (get (.text name) create).perform hub = (.ok database, hub) := by
  have hask : askRegistry.perform hub = (.ok hub.registry, hub) := rfl
  have hhashable : (!(Value.text name).isHashable) = false := rfl
  rw [get, Work.perform_bind_ok hask, hhashable, Registry.find?_text, h]
  rfl

/-- A database that the registry has not got is opened after its name has been checked, and if it may be
made or its directory is there. -/
lemma perform_get_new {v : Value} (hnew : hub.registry.find? v = none) (hhashable : v.isHashable = true)
    (create : Bool) :
    (get v create).perform hub =
      match checkName .database v with
      | .error fault => (.error fault, hub)
      | .ok name =>
        if !create && !hub.world.disk.hasDirectory (Path.join hub.registry.root name) then
          (.error (.noDatabase name), hub)
        else
          match Database.open hub.registry.root v hub.world with
          | (.ok database, world) => (.ok database, ⟨hub.registry.withDatabase database, world⟩)
          | (.error fault, world) => (.error fault, { hub with world }) := by
  have hask : askRegistry.perform hub = (.ok hub.registry, hub) := rfl
  have hpass : ¬(!true) = true := by decide
  rw [get, Work.perform_bind_ok hask, hhashable, if_neg hpass, hnew]
  cases hcheck : checkName .database v with
  | error fault => rfl
  | ok name =>
    have hworld : (MonadState.get : Work Hub Hub).perform hub = (.ok hub, hub) := rfl
    dsimp only
    rw [Work.perform_bind_ok (Work.perform_ofExcept _ _), Work.perform_bind_ok hworld]
    split
    · rfl
    · rfl

/-- A database that is asked for is one that the registry has got, or it is opened, or there is a
fault. -/
theorem gets_perform (hub : Hub) (v : Value) (create : Bool) :
    Gets hub v ((get v create).perform hub) := by
  cases hfind : hub.registry.find? v with
  | some database =>
    obtain ⟨name, rfl, hlookup⟩ := Registry.find?_eq_some hfind
    rw [perform_get_kept hlookup]
    exact .kept rfl hlookup
  | none =>
    cases hhashable : v.isHashable with
    | false =>
      have hthrow : (get v create).perform hub = (.error .wrongType, hub) := by
        have hask : askRegistry.perform hub = (.ok hub.registry, hub) := rfl
        rw [get, Work.perform_bind_ok hask, hhashable]
        rfl
      rw [hthrow]
      exact .rejected .wrongType
    | true =>
      rw [perform_get_new hfind hhashable]
      cases hcheck : checkName .database v with
      | error fault => exact .rejected fault
      | ok name =>
        obtain ⟨rfl, -⟩ := checkName_eq_ok.mp hcheck
        dsimp only
        split
        · exact .rejected _
        · cases hopen : Database.open hub.registry.root (.text name) hub.world with
          | mk result world =>
            cases result with
            | ok database => exact .opened rfl hfind hopen
            | error fault => exact .refused rfl hopen

/-- A registry that is asked for a database goes on. -/
lemma opens_get (hub : Hub) (v : Value) (create : Bool) :
    Opens (v = .text ·) hub ((get v create).perform hub).2 := by
  have hgets := gets_perform hub v create
  generalize (get v create).perform hub = outcome at hgets
  cases hgets with
  | kept _ _ => exact .refl
  | opened hv hnew hopen => exact .opened .refl hv hnew hopen
  | refused hv hopen => exact .refused .refl hv hopen
  | rejected _ => exact .refl

/-- A registry goes on while several databases are asked for in turn. -/
lemma opens_openAll {names : List String} (hnames : ∀ name ∈ names, allowed name) (hub : Hub) :
    Opens allowed hub ((openAll names).perform hub).2 := by
  induction names generalizing hub with
  | nil => exact .refl
  | cons name rest ih =>
    obtain ⟨hname, hrest⟩ := List.forall_mem_cons.mp hnames
    have hget := (opens_get hub (.text name) true).mono fun _ heq => Value.text.inj heq ▸ hname
    have hdiscard : (discard (get (.text name) true)).perform hub =
        (((get (.text name) true).perform hub).1.map fun _ => PUnit.unit,
          ((get (.text name) true).perform hub).2) := by
      have hmap : discard (get (.text name) true) =
          (do let _ ← get (.text name) true; return PUnit.unit : Work Hub PUnit) := rfl
      rw [hmap, Work.perform_bind]
      cases (get (.text name) true).perform hub with
      | mk result after => cases result <;> rfl
    rw [openAll, Work.perform_bind, Work.perform_tryCatch, hdiscard]
    generalize (get (.text name) true).perform hub = outcome at hget ⊢
    obtain ⟨fault | database, between⟩ := outcome
    · dsimp only [Except.map]
      by_cases hrefusal : fault.isRefusal = true
      · rw [if_pos hrefusal]
        exact (hget.noted (.databaseSkipped name fault.message)).trans (ih hrest _)
      · rw [if_neg hrefusal]
        exact hget
    · exact hget.trans (ih hrest between)

/-- A registry that has closed and forgotten all its databases. -/
def emptied (hub : Hub) : Hub :=
  ⟨{ hub.registry with databases := [] }, (hub.registry.close hub.world).2⟩

/-- Closing a registry empties it. -/
lemma perform_close (hub : Hub) : close.perform hub = (.ok (), hub.emptied) := rfl

/-- Emptying a registry leaves the disk. -/
lemma disk_emptied (hub : Hub) : hub.emptied.world.disk = hub.world.disk :=
  Registry.disk_close hub.registry hub.world

/-- A registry that opens its databases again has been emptied and goes on from there, with the names in its
directory. -/
lemma opens_reload (hub : Hub) :
    Opens (· ∈ hub.world.disk.namesIn (Path.ofText hub.registry.root)) hub.emptied
      (reload.perform hub).2 := by
  rw [reload, Work.perform_bind_ok (perform_close hub)]
  have hask : (MonadState.get : Work Hub Hub).perform hub.emptied = (.ok hub.emptied, hub.emptied) := rfl
  rw [Work.perform_bind_ok hask]
  cases hnames : hub.emptied.registry.names hub.emptied.world.disk with
  | error fault => exact .refl
  | ok names =>
    have hopens := opens_openAll (fun _ => Registry.mem_namesIn_of_names hnames rfl) hub.emptied
    rw [disk_emptied] at hopens
    rw [Work.perform_bind_ok (Work.perform_ofExcept _ _), Work.perform_bind]
    generalize (openAll names).perform hub.emptied = outcome at hopens ⊢
    obtain ⟨fault | _, between⟩ := outcome
    · exact hopens
    · exact hopens.noted _

/-- A registry that goes on keeps its root and has got some databases in addition, each opened under its
name. -/
theorem Opens.exists_fresh (h : Opens allowed hub after) :
    after.registry.root = hub.registry.root ∧
      ∃ fresh, after.registry.databases = hub.registry.databases ++ fresh ∧
        ((Entries.keys hub.registry.databases).Nodup →
          (Entries.keys after.registry.databases).Nodup) ∧
        ∀ entry ∈ fresh, ∃ world opened,
          Database.open hub.registry.root (.text entry.1) world = (.ok entry.2, opened) := by
  induction h with
  | refl => exact ⟨rfl, [], (List.append_nil _).symm, id, fun entry hentry => absurd hentry List.not_mem_nil⟩
  | @opened between _ name hallowed database world hnew hopen ih =>
    obtain ⟨hroot, fresh, hfresh, hnodup, hopened⟩ := ih
    have hname := Database.name_of_open hopen
    have hmem : name ∉ Entries.keys between.registry.databases := by
      intro hmem
      obtain ⟨kept, hkept⟩ := Entries.mem_keys_iff.mp hmem
      rw [hnew] at hkept
      cases hkept
    refine ⟨hroot, fresh ++ [(name, database)], ?_, fun hkeys => ?_, fun entry hentry => ?_⟩
    · rw [Registry.withDatabase, hname]
      dsimp only
      rw [Entries.put_of_not_mem hmem, hfresh, List.append_assoc]
    · exact Entries.nodup_keys_put (hnodup hkeys)
    · rcases List.mem_append.mp hentry with hold | hlast
      · exact hopened entry hold
      · obtain rfl := List.mem_singleton.mp hlast
        exact ⟨between.world, world, hroot ▸ hopen⟩
  | refused _ _ _ ih => exact ih
  | noted _ _ ih => exact ih

end Hub

end RecordStore
