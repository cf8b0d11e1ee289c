import RecordStore.Disk
import RecordStore.Notice
import RecordStore.Snapshot.Reader

/-!
# The world of the store

What the store works on besides its own state: the disk, and the notices given so far. Operations
on tables do not act on the world themselves; they give a list of effects, whole-file writes and
notices, in the order in which they happen.

A snapshot that cannot be written is reported and leaves the part that was written before the
writer stopped. A file that cannot be removed is reported and stays.
-/

namespace RecordStore

/-- The disk and the notices given, the latest last. -/
structure World where
  disk : Disk
  notices : List Notice

/-- Something that an operation does to the world. -/
inductive Effect where
  /-- Writes a value as the snapshot at a path. -/
  | save (path : String) (content : Value)
  | note (notice : Notice)

namespace World

/-- The world without files. -/
def empty : World :=
  ⟨.empty, []⟩

/-- Gives a notice. -/
def note (world : World) (notice : Notice) : World :=
  { world with notices := world.notices ++ [notice] }

/-- Gives notices. -/
def noteAll (world : World) (notices : List Notice) : World :=
  { world with notices := world.notices ++ notices }

/-- The disk after a snapshot has been written as far as possible, and whether it is complete. -/
def saveSnapshot (disk : Disk) (path : String) (content : Value) : Disk × Bool :=
  let draft := Snapshot.draft content
  match disk.write path (.text (String.ofList draft.chars)) with
  | .ok disk => (disk, draft.complete)
  | .error _ => (disk, false)

/-- Writes a snapshot and reports how it went. -/
def save (world : World) (path : String) (content : Value) : World :=
  let (disk, complete) := saveSnapshot world.disk path content
  { world with disk }.note (if complete then .saved path else .saveFailed path)

/-- Does one thing. -/
def perform (world : World) : Effect → World
  | .save path content => world.save path content
  | .note notice => world.note notice

/-- Does several things in order. -/
def performAll (world : World) (effects : List Effect) : World :=
  effects.foldl perform world

/-- Removes a file if it is there, and tells whether it is gone. -/
def removeFile (world : World) (path : String) : World × Bool :=
  match world.disk.removeFile? path with
  | some disk => ({ world with disk }, true)
  | none => (world.note (.removalFailed path), false)

end World

/-- Reads the snapshot at a path; a file that is not there holds nothing. -/
def Disk.readSnapshot (disk : Disk) (path : String) : Except Fault Value :=
  match disk.find? path with
  | none => .ok .null
  | some (.file (.text s)) =>
    match Snapshot.read s.toList with
    | .ok v => .ok v
    | .error .malformed => .error (.unreadable path)
    | .error (.fault fault) => .error fault
  | some _ => .error (.unreadable path)

end RecordStore
