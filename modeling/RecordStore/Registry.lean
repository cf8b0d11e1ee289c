import RecordStore.Database

/-!
# The registry of databases

The databases under one root directory, opened on demand and kept. A database stays in the registry
even after it has been closed from elsewhere.
-/

namespace RecordStore

/-- The databases that have been opened under a root directory. -/
structure Registry where
  root : String
  databases : List (String × Database)

/-- A registry and the world it works in. -/
structure Hub where
  registry : Registry
  world : World

namespace Registry

/-- A registry of a root directory, which is made if it is not there. -/
def «open» (root : String) (world : World) : Except Fault Registry × World :=
  let (result, disk) := world.disk.makeDirectories root
  (result.map fun () => ⟨root, []⟩, { world with disk })

/-- The open database of a name. -/
def find? (registry : Registry) (name : Value) : Option Database :=
  name.text?.bind fun s => registry.databases.lookup s

/-- Puts a database in the place of the one of its name. -/
def withDatabase (registry : Registry) (database : Database) : Registry :=
  { registry with databases := Entries.put database.name database registry.databases }

/-- Puts a database in the place of the one of its name, if there is one. -/
def replace (registry : Registry) (database : Database) : Registry :=
  if Entries.has database.name registry.databases then registry.withDatabase database
  else registry

/-- A database of a name that has been closed. -/
def closedDatabase (registry : Registry) (name : String) : Database :=
  ⟨name, Path.join registry.root name, [], true⟩

/-- The names of the databases that have been opened, in ascending order. -/
def loaded (registry : Registry) : List String :=
  (Entries.keys registry.databases).mergeSort

/-- Whether there is a database of a name, opened or on disk. -/
def hasDatabase (registry : Registry) (disk : Disk) (name : Value) : Except Fault Bool :=
  match name with
  | .text s => .ok ((registry.databases.lookup s).isSome ||
      disk.hasDirectory (Path.join registry.root s))
  | _ => .error .wrongType

/-- Drops equal neighbours of a list. -/
def dropRepeats : List String → List String
  | [] => []
  | name :: rest => if rest.head? = some name then dropRepeats rest else name :: dropRepeats rest

/-- The names of all databases, opened or on disk, in ascending order. -/
def names (registry : Registry) (disk : Disk) : Except Fault (List String) :=
  match disk.find? registry.root with
  | none => .error (.noFile registry.root)
  | some (.file _) => .error (.notDirectory registry.root)
  | some .directory =>
    let onDisk := (disk.namesIn (Path.ofText registry.root)).filter fun name =>
      disk.hasDirectory (Path.join registry.root name)
    .ok (dropRepeats (Entries.keys registry.databases ++ onDisk).mergeSort)

/-- Closes all databases and forgets them. -/
def close (registry : Registry) (world : World) : Registry × World :=
  ({ registry with databases := [] },
    registry.databases.foldl (fun world (_, database) => (database.close world).2) world)

end Registry

namespace Hub

/-- The registry as it is now. -/
def askRegistry : Work Hub Registry := do
  return (← get).registry

/-- Gives a database that is open already, or opens it. If `create` is false its directory must be
there. -/
def get (name : Value) (create : Bool) : Work Hub Database := do
  let registry ← askRegistry
  if !name.isHashable then throw .wrongType
  match registry.find? name with
  | some database => return database
  | none =>
    let checked ← Work.ofExcept (checkName .database name)
    let disk := (← MonadState.get).world.disk
    if !create && !disk.hasDirectory (Path.join registry.root checked) then
      throw (.noDatabase checked)
    Work.ofStep fun hub =>
      match Database.open registry.root name hub.world with
      | (.ok database, world) => (.ok database, ⟨hub.registry.withDatabase database, world⟩)
      | (.error fault, world) => (.error fault, { hub with world })

/-- Does some work on a database of the registry. -/
def onDatabase {α : Type} (database : Database) (work : Work Site α) : Work Hub α :=
  Work.ofStep fun hub =>
    let (result, database, world) := Site.run work database hub.world
    (result, ⟨hub.registry.withDatabase database, world⟩)

/-- Closes a database of the registry; it stays there. -/
def closeDatabase (name : Value) : Work Hub Unit := do
  let database ← get name true
  modify fun hub =>
    let (database, world) := database.close hub.world
    ⟨hub.registry.withDatabase database, world⟩

/-- Closes all databases and forgets them. -/
def close : Work Hub Unit :=
  modify fun hub =>
    let (registry, world) := hub.registry.close hub.world
    ⟨registry, world⟩

/-- Opens databases one after the other; those that are refused are reported and left out. -/
def openAll : List String → Work Hub Unit
  | [] => return
  | name :: rest => do
    tryCatch (discard (get (.text name) true)) fun fault => do
      if fault.isRefusal then
        modify fun hub =>
          { hub with world := hub.world.note (.databaseSkipped name fault.message) }
      else throw fault
    openAll rest

/-- Forgets all databases and opens those that are on disk; gives the names of those opened. -/
def reload : Work Hub (List String) := do
  close
  let hub ← MonadState.get
  let names ← Work.ofExcept (hub.registry.names hub.world.disk)
  openAll names
  modify fun hub =>
    { hub with
      world := hub.world.note (.reloaded hub.registry.databases.length hub.registry.root) }
  return (← askRegistry).loaded

/-- Does some work on a registry in a world. -/
def run {α : Type} (work : Work Hub α) (registry : Registry) (world : World) :
    Except Fault α × Registry × World :=
  let (result, hub) := work.perform ⟨registry, world⟩
  (result, hub.registry, hub.world)

end Hub

end RecordStore
