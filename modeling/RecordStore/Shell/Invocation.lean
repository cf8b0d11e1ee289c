import RecordStore.Shell.Options
import RecordStore.Shell.Terminal

/-!
# Invocations

One run of the program. It executes one query or the statements of a file, if it was started with
one, and otherwise talks as a terminal until its input ends. Results go to its output. Notices go to
its report, all of them if that was asked for and else those that are alarming, and so does the
reason why queries could not be executed at all.
-/

namespace RecordStore.Shell

/-- How a run ends. -/
inductive Ending where
  /-- The run ends with a code, which is zero if everything was well. -/
  | code (n : Nat)
  /-- The arguments did not lead to a run; there is only a code. -/
  | notRun (n : Nat)
  /-- A fault ends the run. -/
  | fault (fault : Fault)

/-- What a run leaves besides its files: how it ended, its output and its report. -/
structure Outcome where
  ending : Ending
  output : String
  report : String

/-- A notice as a line of the report. -/
def reportLine (notice : Notice) : String :=
  line ("[" ++ notice.level.name ++ "] " ++ notice.source ++ ": " ++ notice.message)

/-- The lines of a report: all notices, or only those that are alarming. -/
def reportOf (verbose : Bool) (notices : List Notice) : String :=
  String.join ((notices.filter fun notice => verbose || notice.level.isAlarming).map reportLine)

/-- Text in which every line ends in the same way, with a line feed alone. -/
def unifyLineEnds : List Char → List Char
  | [] => []
  | '\r' :: '\n' :: rest => '\n' :: unifyLineEnds rest
  | '\r' :: rest => '\n' :: unifyLineEnds rest
  | c :: rest => c :: unifyLineEnds rest

/-- The lines of an input; what follows the last line feed is a line if there is anything. -/
def linesOf (input : String) : List String :=
  let lines := input.splitOn "\n"
  if lines.getLast? = some "" then lines.dropLast else lines

/-- The database that the options name; no name is no text. -/
def Options.databaseName (options : Options) : Value :=
  options.database.elim (.list []) .text

/-- Whether there is something to execute, so that the input is not needed. -/
def Options.hasQuery (options : Options) : Bool :=
  !options.execute.isEmpty || !options.file.isEmpty

/-- Executes what the options ask for. -/
def runQueries (options : Options) : Work Hub (List Query.Result) := do
  let database ← Hub.get options.databaseName true
  if options.execute.isEmpty then
    let script ← Work.ofExcept ((← get).world.disk.readText options.file)
    Hub.onDatabase database (Query.executeAll (String.ofList (unifyLineEnds script.toList)))
  else return [← Hub.onDatabase database (Query.execute options.execute)]

/-- Results as text, up to the first one that has none. -/
def resultTexts : List Query.Result → Except Fault Unit × String
  | [] => (.ok (), "")
  | result :: rest =>
    match resultText result with
    | .error fault => (.error fault, "")
    | .ok text =>
      let (ended, texts) := resultTexts rest
      (ended, text ++ texts)

/-- The end of a run with results: whether all of them are successes. -/
def endingOf (shown : Except Fault Unit) (results : List Query.Result) : Ending :=
  match shown with
  | .ok () => .code (if results.all (·.success) then 0 else 1)
  | .error fault => .fault fault

/-- Executes queries on a registry that is closed afterwards. -/
def executeOn (options : Options) (registry : Registry) (world : World) : Outcome × World :=
  let (result, registry, world) := Hub.run (runQueries options) registry world
  let (_, closed) := registry.close world
  let before := reportOf options.verbose world.notices
  let after := reportOf options.verbose (closed.notices.drop world.notices.length)
  match result with
  | .ok results =>
    let (shown, output) := resultTexts results
    (⟨endingOf shown results, output, before ++ after⟩, closed)
  | .error fault =>
    if fault.isRefusal || fault.isFileFault then
      (⟨.code 1, "", before ++ line ("Error: " ++ fault.message) ++ after⟩, closed)
    else (⟨.fault fault, "", before ++ after⟩, closed)

/-- Executes queries under a root directory. -/
def execute (options : Options) (root : String) (world : World) : Outcome × World :=
  match Registry.open root world with
  | (.ok registry, world) => executeOn options registry world
  | (.error fault, world) =>
    (⟨.fault fault, "", reportOf options.verbose world.notices⟩, world)

/-- Talks as a terminal on a root directory. -/
def talk (options : Options) (root input : String) (world : World) : Outcome × World :=
  match Terminal.open root options.databaseName world with
  | (.error fault, world) =>
    (⟨.fault fault, "", reportOf options.verbose world.notices⟩, world)
  | (.ok terminal, _) =>
    let (result, terminal) := Terminal.run (Terminal.converse (linesOf input)) terminal
    let ending : Ending :=
      match result with
      | .ok () => .code 0
      | .error fault => .fault fault
    (⟨ending, terminal.output, reportOf options.verbose terminal.world.notices⟩, terminal.world)

/-- Does what the options ask for. -/
def perform (options : Options) (input : String) (world : World) : Outcome × World :=
  match options.root with
  | none => (⟨.fault .wrongType, "", ""⟩, world)
  | some root =>
    if options.hasQuery then execute options root world else talk options root input world

/-- Runs the program with some arguments and an input. -/
def invoke (arguments : List String) (input : String) (disk : Disk) : Outcome × Disk :=
  match Options.ofArguments arguments with
  | .help => (⟨.notRun 0, "", ""⟩, disk)
  | .misuse => (⟨.notRun 2, "", ""⟩, disk)
  | .run options =>
    let (outcome, world) := perform options input ⟨disk, []⟩
    (outcome, world.disk)

end RecordStore.Shell
