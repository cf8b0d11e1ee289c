import RecordStore.Entries
import RecordStore.Fault

/-!
# The disk

The directories and files that the store works on, as a value: the entries of a tree under the
working directory, each under its path. A path is a list of names. The working directory itself,
everything above it and the root of the whole file system count as directories whose other contents
are unknown.

Files hold text; bytes that are no text in UTF-8 are kept as they are.
-/

namespace RecordStore

/-- A place in the tree of files, from the working directory. -/
abbrev Path := List String

namespace Path

/-- The greatest number of bytes in a name. -/
def nameLimit : Nat := 255

/-- The least number of bytes that are too many for a path as text. -/
def textLimit : Nat := 4096

/-- The name that stands for the root of the file system. -/
def rootName : String := "/"

/-- Goes one name further. A point stays in place, and two points lead to the directory above. -/
def step (path : Path) (name : String) : Path :=
  if name.isEmpty || name == "." then path
  else if name == ".." then
    match path.getLast? with
    | none => [".."]
    | some last => if last == ".." then path ++ [".."]
      else if last == rootName then path else path.dropLast
  else path ++ [name]

/-- The pieces of some characters between slashes. -/
def pieces : List Char → List (List Char)
  | [] => [[]]
  | c :: rest =>
    if c = '/' then [] :: pieces rest
    else
      match pieces rest with
      | [] => [[c]]
      | piece :: others => (c :: piece) :: others

/-- The names of a path as text; some may be empty. -/
def names (text : String) : List String :=
  (pieces text.toList).map String.ofList

/-- Where a path as text starts, and its names. -/
def split (text : String) : Path × List String :=
  (if text.startsWith "/" then [rootName] else [], names text)

/-- The path that a text denotes. -/
def ofText (text : String) : Path :=
  let (start, names) := split text
  names.foldl step start

/-- The paths as text that end in one of the names of a path, the whole path first. -/
def stages (text : String) : List String :=
  let names := names text
  let ends := (List.range names.length).filter fun i => names.getD i "" != ""
  ends.reverse.map fun i => "/".intercalate (names.take (i + 1))

/-- Whether the last name of a path is a point. -/
def endsInPoint (text : String) : Bool :=
  text == "." || text.endsWith "/."

/-- Joins a directory and a name. A name that starts at the root stands alone. -/
def join (directory name : String) : String :=
  if name.startsWith "/" then name
  else if directory.isEmpty || directory.endsWith "/" then directory ++ name
  else directory ++ "/" ++ name

/-- Whether a path lies outside the tree: the working directory, those above it, and the root. -/
def isOutside (path : Path) : Bool :=
  path.all fun name => name == ".." || name == rootName

end Path

/-- What a file holds. -/
inductive Content where
  | text (s : String)
  /-- Bytes that are no text. -/
  | bytes (raw : List UInt8)
  deriving DecidableEq

/-- The content that bytes stand for. -/
def Content.ofBytes (raw : List UInt8) : Content :=
  match String.fromUTF8? ⟨raw.toArray⟩ with
  | some s => .text s
  | none => .bytes raw

/-- What stands under a path. -/
inductive Node where
  | directory
  | file (content : Content)
  deriving DecidableEq

/-- The tree of files. -/
structure Disk where
  nodes : List (Path × Node)

namespace Disk

/-- The disk without any files. -/
def empty : Disk :=
  ⟨[]⟩

/-- What stands under a path. -/
def node? (disk : Disk) (path : Path) : Option Node :=
  if path.isOutside then some .directory else disk.nodes.lookup path

/-- Whether a path is a directory. -/
def isDirectory (disk : Disk) (path : Path) : Bool :=
  disk.node? path = some .directory

/-- Goes through the names of a path, each of which must lead through directories; `text` is the
whole path as it was given. -/
def follow (disk : Disk) (text : String) (path : Path) : List String → Except Fault Path
  | [] => .ok path
  | name :: rest =>
    match disk.node? path with
    | some .directory =>
      if name.utf8ByteSize ≤ Path.nameLimit then disk.follow text (path.step name) rest
      else .error (.nameTooLong text)
    | some (.file _) => .error (.notDirectory text)
    | none => .error (.noFile text)

/-- The place that a path as text leads to, where something is or could be put. -/
def resolve (disk : Disk) (text : String) : Except Fault Path :=
  if '\x00' ∈ text.toList then .error .badPath
  else if text.isEmpty then .error (.noFile text)
  else if text.utf8ByteSize < Path.textLimit then
    let (start, names) := Path.split text
    disk.follow text start names
  else .error (.nameTooLong text)

/-- What stands under a path as text; nothing if the path does not lead there. -/
def find? (disk : Disk) (text : String) : Option Node :=
  (disk.resolve text).toOption.bind disk.node?

/-- Whether a path as text is a directory. -/
def hasDirectory (disk : Disk) (text : String) : Bool :=
  disk.find? text = some .directory

/-- The names in a directory, in ascending order. -/
def namesIn (disk : Disk) (directory : Path) : List String :=
  (disk.nodes.filterMap fun (path, _) =>
    match path.getLast? with
    | some name => if path.dropLast = directory then some name else none
    | none => none).mergeSort

/-- Puts something under a path. -/
def put (disk : Disk) (path : Path) (node : Node) : Disk :=
  ⟨Entries.put path node disk.nodes⟩

/-- Removes what stands under a path. -/
def erase (disk : Disk) (path : Path) : Disk :=
  ⟨Entries.drop path disk.nodes⟩

/-- Writes a file. Its directory must be there, and it must not be a directory itself. -/
def write (disk : Disk) (text : String) (content : Content) : Except Fault Disk := do
  let path ← disk.resolve text
  if disk.isDirectory path then throw (.isDirectory text)
  return disk.put path (.file content)

/-- Removes a file if it is there; nothing if a directory is in its place. -/
def removeFile? (disk : Disk) (text : String) : Option Disk :=
  match disk.resolve text with
  | .error _ => some disk
  | .ok path => if disk.isDirectory path then none else some (disk.erase path)

/-- Reads a file. -/
def read (disk : Disk) (text : String) : Except Fault Content := do
  match disk.node? (← disk.resolve text) with
  | some (.file content) => return content
  | some .directory => throw (.isDirectory text)
  | none => throw (.noFile text)

/-- Reads a text file. -/
def readText (disk : Disk) (text : String) : Except Fault String := do
  match ← disk.read text with
  | .text s => return s
  | .bytes _ => throw .notText

/-! ## Making directories -/

/-- Makes a directory in one that is there. It may be there itself. -/
def makeDirectory (disk : Disk) (text : String) : Except Fault Disk := do
  let path ← disk.resolve text
  match disk.node? path with
  | some .directory => return disk
  | some (.file _) => throw (.pathExists text)
  | none => return disk.put path .directory

/-- The disk after a directory has been made as far as possible. -/
def withDirectory (disk : Disk) (text : String) : Except Fault Unit × Disk :=
  match disk.makeDirectory text with
  | .ok disk => (.ok (), disk)
  | .error fault => (.error fault, disk)

/-- Makes a directory after those above it; a point only stands for the one above it. -/
def makeUnder (disk : Disk) (text : String) : Except Fault Unit × Disk :=
  if Path.endsInPoint text then (.ok (), disk) else disk.withDirectory text

/-- Makes the first of some directories, each of which is in the next one, after those above it that
are not there. A file in the place of one above is only noticed further on. Directories stay where
they have been made, also if another one cannot be made. -/
def makeFrom (disk : Disk) : List String → Except Fault Unit × Disk
  | [] => (.ok (), disk)
  | text :: above =>
    if above.head?.any fun parent => (disk.find? parent).isNone then
      match disk.makeFrom above with
      | (.ok (), disk) => disk.makeUnder text
      | (.error (.pathExists _), disk) => disk.makeUnder text
      | (.error fault, disk) => (.error fault, disk)
    else disk.withDirectory text

/-- Makes a directory and those above it; they may be there already. -/
def makeDirectories (disk : Disk) (text : String) : Except Fault Unit × Disk :=
  if text.isEmpty then (.error (.noFile text), disk) else disk.makeFrom (Path.stages text)

end Disk

end RecordStore
