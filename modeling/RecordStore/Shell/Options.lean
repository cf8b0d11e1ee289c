import RecordStore.Text.Digit

/-!
# Options

The arguments with which the program is started. Every option has a short and a long spelling. The
value of an option follows as the next argument or is attached: to a long spelling after an equals
sign, to a short one directly or after an equals sign. Long spellings may be cut short as long as
only one of them is meant, and short options without a value may share one dash.

Arguments are first told apart, which fails if a cut spelling is ambiguous, and then taken from left
to right. A request for help ends the reading at once; anything that is left over at the end is
an error.
-/

namespace RecordStore.Shell

/-- The options of the program. -/
inductive Switch where
  | help
  | root
  | database
  | execute
  | file
  | verbose
  deriving DecidableEq

namespace Switch

/-- The spellings of the options. -/
def spellings : List (String × Switch) :=
  [("-h", .help), ("--help", .help), ("-d", .root), ("--data-root", .root), ("-D", .database),
    ("--database", .database), ("-e", .execute), ("--execute", .execute), ("-f", .file),
    ("--file", .file), ("-v", .verbose), ("--verbose", .verbose)]

/-- Whether an option has a value. -/
def takesValue : Switch → Bool
  | .help => false
  | .verbose => false
  | _ => true

/-- The option of a character after a single dash. -/
def ofChar? (c : Char) : Option Switch :=
  spellings.lookup (String.ofList ['-', c])

end Switch

/-- What an argument is taken for. -/
inductive Argument where
  /-- No option. -/
  | plain (text : String)
  /-- An option with one dash or two, and what is attached to it. -/
  | switch (isLong : Bool) (option : Switch) (attached : Option (List Char))
  /-- An option that does not exist. -/
  | unknown
  /-- Two dashes, after which there are no options. -/
  | separator

/-- What was asked for when the program was started. A directory or database for which the empty
list of values was given is none. -/
structure Options where
  root : Option String
  database : Option String
  execute : String
  file : String
  verbose : Bool

namespace Options

/-- What is done if nothing is asked for. -/
def standard : Options :=
  ⟨some "./data", some "default", "", "", false⟩

/-- Sets the value of an option. Two dashes that are attached to an option are no value. -/
def assign (options : Options) (option : Switch) (value : String) : Options :=
  let value? := if value = "--" then none else some value
  match option with
  | .root => { options with root := value? }
  | .database => { options with database := value? }
  | .execute => { options with execute := value?.getD "" }
  | .file => { options with file := value?.getD "" }
  | .verbose => { options with verbose := true }
  | .help => options

end Options

namespace Argument

/-- Cuts characters at the first equals sign. -/
def cutAtEquals (cs : List Char) : List Char × Option (List Char) :=
  match cs.dropWhile (· != '=') with
  | [] => (cs, none)
  | _ :: value => (cs.takeWhile (· != '='), some value)

/-- An option by its spelling. -/
def ofSpelling (spelling : List Char) (option : Switch) (attached : Option (List Char)) :
    Argument :=
  .switch (['-', '-'].isPrefixOf spelling) option attached

/-- Whether an argument is a negative number: one dash, then digits, perhaps with a point before the
last of them. One line break at the end is let through. -/
def isNegativeNumber (cs : List Char) : Bool :=
  match cs with
  | '-' :: rest =>
    let body := if rest.getLast? = some '\n' then rest.dropLast else rest
    let whole := body.takeWhile Text.isDecimal
    match body.dropWhile Text.isDecimal with
    | [] => !whole.isEmpty
    | '.' :: fraction => !fraction.isEmpty && fraction.all Text.isDecimal
    | _ => false
  | _ => false

/-- An argument that begins with a dash and is no option. -/
def ofRest (cs : List Char) : Argument :=
  if isNegativeNumber cs || cs.contains ' ' then .plain (String.ofList cs) else .unknown

/-- The long options that a spelling of two dashes may mean. -/
def candidates (cs : List Char) : List Argument :=
  let (start, attached) := cutAtEquals cs
  Switch.spellings.filterMap fun (spelling, option) =>
    if start.isPrefixOf spelling.toList then some (.switch true option attached) else none

/-- Tells what an argument is; nothing if it may be several options. -/
def classify? (text : String) : Option Argument :=
  let cs := text.toList
  match cs with
  | '-' :: c :: attached =>
    match Switch.spellings.lookup text with
    | some option => some (ofSpelling cs option none)
    | none =>
      let (start, value) := cutAtEquals cs
      match value.bind fun _ => Switch.spellings.lookup (String.ofList start) with
      | some option => some (ofSpelling start option value)
      | none =>
        if c = '-' then
          match candidates cs with
          | [] => some (ofRest cs)
          | [argument] => some argument
          | _ => none
        else
          match Switch.ofChar? c with
          | some option => some (.switch false option (some attached))
          | none => some (ofRest cs)
  | _ => some (.plain text)

/-- Tells what all arguments are. After two dashes nothing is an option. -/
def classifyAll? : List String → Option (List Argument)
  | [] => some []
  | text :: rest =>
    if text = "--" then some (.separator :: rest.map .plain)
    else do
      let argument ← classify? text
      let others ← classifyAll? rest
      return argument :: others

end Argument

namespace Options

/-- How the reading of arguments ends. -/
inductive Reading where
  | run (options : Options)
  /-- Help was asked for. -/
  | help
  /-- The arguments are wrong. -/
  | misuse

/-- One option after the other behind a single dash: those without a value, and the last one with
what is attached to it. -/
def shortRun? (option : Switch) : List Char → Option (List Switch × Switch × Option (List Char))
  | [] => some ([], option, some [])
  | c :: rest =>
    if option.takesValue then some ([], option, some (c :: rest))
    else do
      let next ← Switch.ofChar? c
      if rest.isEmpty then return ([option], next, none)
      let (before, last, attached) ← shortRun? next rest
      return (option :: before, last, attached)

/-- The options in one argument: those without a value, and the last one with what is attached to
it. -/
def switchesOf? (isLong : Bool) (option : Switch) (attached : Option (List Char)) :
    Option (List Switch × Switch × Option (List Char)) :=
  match attached with
  | some cs => if isLong then some ([], option, attached) else shortRun? option cs
  | none => some ([], option, none)

/-- The value of an option, attached or in the next argument, and the arguments after it. An option
that takes no value has an empty one. -/
def valueOf? (option : Switch) (attached : Option (List Char)) (rest : List Argument) :
    Option (String × List Argument) :=
  match option.takesValue, attached with
  | true, some cs => some (String.ofList cs, rest)
  | true, none =>
    match rest with
    | .plain value :: rest => some (value, rest)
    | _ => none
  | false, none => some ("", rest)
  | false, some _ => none

/-- Taking a value leaves no more arguments than there were. -/
theorem length_le_of_valueOf {option : Switch} {attached : Option (List Char)}
    {rest after : List Argument} {value : String}
    (h : valueOf? option attached rest = some (value, after)) : after.length ≤ rest.length := by
  unfold valueOf? at h
  split at h
  · simp_all
  · split at h
    · simp_all only [Option.some.injEq, Prod.mk.injEq, List.length_cons]
      omega
    · simp at h
  · simp_all
  · simp at h

/-- Sets options in order; nothing if help is among them. -/
def setAll? (options : Options) : List (Switch × String) → Option Options
  | [] => some options
  | (option, value) :: rest =>
    if option = .help then none else (options.assign option value).setAll? rest

/-- Takes the arguments from left to right. `clean` tells that nothing has been left over. -/
def take (options : Options) (clean : Bool) : List Argument → Reading
  | [] => if clean then .run options else .misuse
  | .plain _ :: rest => take options false rest
  | .unknown :: rest => take options false rest
  | .separator :: _ => .misuse
  | .switch isLong option attached :: rest =>
    match switchesOf? isLong option attached with
    | none => .misuse
    | some (before, last, attached) =>
      match _h : valueOf? last attached rest with
      | none => .misuse
      | some (value, after) =>
        match options.setAll? (before.map (·, "") ++ [(last, value)]) with
        | none => .help
        | some options => take options clean after
termination_by arguments => arguments.length
decreasing_by
  · simp
  · simp
  · have := length_le_of_valueOf _h
    simp only [List.length_cons]
    omega

/-- Reads the arguments of the program. -/
def ofArguments (arguments : List String) : Reading :=
  match Argument.classifyAll? arguments with
  | some arguments => take standard true arguments
  | none => .misuse

end Options

end RecordStore.Shell
