import RecordStore.Shell.Invocation

/-!
# The program

The store at work on real files. What lies on the way to the root directory and below it is read
before anything is done, and what has changed is written after every step. Everything else is left
to the terminal.
-/

namespace RecordStore.Program

/-! ## Files -/

/-- A path as text. -/
def pathText (path : Path) : String :=
  match path with
  | [] => "."
  | first :: rest =>
    if first = Path.rootName then "/" ++ "/".intercalate rest else "/".intercalate path

/-- Reads what stands under a path into a disk; of a directory only that it is there. -/
def readNode (disk : Disk) (path : Path) : IO Disk := do
  let place := (← IO.currentDir) / pathText path
  if ← place.isDir then return disk.put path .directory
  else if ← place.pathExists then
    let raw ← IO.FS.readBinFile place
    return disk.put path (.file (Content.ofBytes raw.toList))
  else return disk

/-- Reads everything on the way to a path into a disk. -/
def readWay (disk : Disk) (text : String) : IO Disk :=
  (Path.stages text).foldrM (fun stage disk => readNode disk (Path.ofText stage)) disk

/-- Reads everything below a directory into a disk. -/
partial def readTree (disk : Disk) (path : Path) : IO Disk := do
  let place := (← IO.currentDir) / pathText path
  if ← place.isDir then
    (← place.readDir).foldlM (fun disk entry => do
      let path := path ++ [entry.fileName]
      readTree (← readNode disk path) path) disk
  else return disk

/-- The part of the real files that a run can see. -/
def readDisk (options : Shell.Options) : IO Disk := do
  let disk ← readWay .empty options.file
  let root := options.root.getD ""
  readTree (← readWay disk root) (Path.ofText root)

/-- Writes to the real files what has changed from one disk to another. -/
def writeChanges (before after : Disk) : IO Unit := do
  for (path, node) in after.nodes do
    if before.nodes.lookup path ≠ some node then
      match node with
      | .directory => IO.FS.createDirAll (pathText path)
      | .file (.text s) => IO.FS.writeFile (pathText path) s
      | .file (.bytes raw) => IO.FS.writeBinFile (pathText path) ⟨raw.toArray⟩
  for (path, _) in before.nodes do
    if (after.nodes.lookup path).isNone then IO.FS.removeFile (pathText path)

/-! ## Running -/

/-- Reports a fault that ends the program. -/
def reportFault (fault : Fault) : IO UInt32 := do
  IO.eprintln fault.message
  return 1

/-- Shows what a terminal has said and reported since it was last shown. -/
def showNews (options : Shell.Options) (terminal : Terminal) : IO Terminal := do
  IO.print terminal.output
  (← IO.getStdout).flush
  IO.eprint (Shell.reportOf options.verbose terminal.world.notices)
  return { terminal with output := "", world.notices := [] }

/-- Takes lines from the input until the terminal is left. -/
partial def talk (options : Shell.Options) (terminal : Terminal) : IO UInt32 := do
  if !terminal.running then return 0
  IO.print terminal.prompt
  (← IO.getStdout).flush
  let line ← (← IO.getStdin).getLine
  let work := if line.isEmpty then Terminal.finish else Terminal.processLine line
  let (result, next) := Terminal.run work terminal
  writeChanges terminal.world.disk next.world.disk
  let next ← showNews options next
  match result with
  | .ok () => talk options next
  | .error fault => reportFault fault

/-- Starts a terminal. -/
def startTalk (options : Shell.Options) (root : String) (disk : Disk) : IO UInt32 := do
  match Terminal.open root options.databaseName ⟨disk, []⟩ with
  | (.error fault, world) =>
    writeChanges disk world.disk
    reportFault fault
  | (.ok terminal, world) =>
    writeChanges disk world.disk
    let (_, terminal) := Terminal.run (Terminal.say Shell.banner) terminal
    talk options (← showNews options terminal)

/-- Executes queries. -/
def executeQueries (options : Shell.Options) (root : String) (disk : Disk) : IO UInt32 := do
  let (outcome, world) := Shell.execute options root ⟨disk, []⟩
  writeChanges disk world.disk
  IO.print outcome.output
  IO.eprint outcome.report
  match outcome.ending with
  | .code n => return n.toUInt32
  | .notRun n => return n.toUInt32
  | .fault fault => reportFault fault

/-- Does what the options ask for. -/
def perform (options : Shell.Options) : IO UInt32 := do
  let disk ← readDisk options
  match options.root with
  | none => reportFault .wrongType
  | some root =>
    if options.hasQuery then executeQueries options root disk else startTalk options root disk

/-- A short account of the options. -/
def usage : String :=
  "usage: [-h] [-d DATA_ROOT] [-D DATABASE] [-e EXECUTE] [-f FILE] [-v]"

end RecordStore.Program

open RecordStore in
/-- Runs the program with its arguments. -/
def main (arguments : List String) : IO UInt32 := do
  match Shell.Options.ofArguments arguments with
  | .help =>
    IO.println Program.usage
    return 0
  | .misuse =>
    IO.eprintln Program.usage
    return 2
  | .run options => Program.perform options
