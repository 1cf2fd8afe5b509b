import JobControl.Event.Filter
import JobControl.Shell.Session

/-!
# Command-line options

The options are read from left to right.  An option that takes a value may have it attached or as the
next argument; a value given as the next argument is looked at when the following option is read, or
at the end.  Short options may be joined.  No option may be given twice, and there are no other
arguments.
-/

set_option autoImplicit false

namespace JobControl

/-- What the command line sets. -/
structure Options where
  emitPrompt : Bool
  prompt : String
  verbose : Bool
  maxJobs : Nat
  command : Option String
deriving DecidableEq, Repr

namespace Options

/-- The values of options that are not given. -/
def default : Options where
  emitPrompt := true
  prompt := "ish$ "
  verbose := false
  maxJobs := JobTable.defaultCapacity
  command := none

/-- At least one job can be tracked. -/
def capacity (o : Options) : Nat :=
  max o.maxJobs 1

/-- The log filter used when the environment gives none. -/
def logLevel (o : Options) : String :=
  if o.verbose then "debug" else "warn"

/-- The log filter: the one the environment gives, if it can be read, or else the default. -/
def filter (o : Options) (fromEnvironment : Option String) : Filter :=
  match fromEnvironment.bind Filter.ofText? with
  | some filter => filter
  | none => .ofText o.logLevel

/-- What the shell is set to.  Only an interactive shell controls jobs through its terminal. -/
def settings (o : Options) (jobControl : Bool) : Settings where
  emitPrompt := o.emitPrompt
  prompt := o.prompt
  capacity := o.capacity
  jobControl := jobControl

/-- The options there are. -/
inductive Key
  | noPrompt
  | prompt
  | verbose
  | maxJobs
  | command
  | help
  | version
deriving DecidableEq, Repr

namespace Key

/-- The option of a single letter. -/
def ofShort? : Char → Option Key
  | 'p' => some noPrompt
  | 'v' => some verbose
  | 'c' => some command
  | 'h' => some help
  | 'V' => some version
  | _ => none

/-- The option of a long name. -/
def ofLong? (name : String) : Option Key :=
  if name = "no-prompt" then some noPrompt
  else if name = "prompt" then some prompt
  else if name = "verbose" then some verbose
  else if name = "max-jobs" then some maxJobs
  else if name = "help" then some help
  else if name = "version" then some version
  else none

/-- The option has a value. -/
def takesValue : Key → Bool
  | prompt | maxJobs | command => true
  | _ => false

end Key

/-- Why reading the options stopped before their end. -/
inductive Stop
  | help
  | version
  | unknownArgument
  | missingValue
  | unneededValue
  | malformedValue
  | repeated
deriving DecidableEq, Repr

namespace Stop

/-- Asking for help or the version is no fault. -/
def exitCode : Stop → Nat
  | help | version => 0
  | _ => 2

/-- The diagnostic text of a fault. -/
def message : Stop → String
  | help | version => ""
  | unknownArgument => "ish: unknown argument"
  | missingValue => "ish: an option lacks its value"
  | unneededValue => "ish: an option without a value was given one"
  | malformedValue => "ish: a value is not a number of jobs"
  | repeated => "ish: an option was given twice"

end Stop

/-- A number of jobs: an optional plus sign and decimal digits, below 2^64. -/
def jobCount? (text : String) : Option Nat :=
  let digits :=
    match text.toList with
    | '+' :: rest => rest
    | all => all
  if digits.isEmpty || !digits.all Char.isDigit then none
  else
    let n := digits.foldl (fun n c => 10 * n + (c.toNat - '0'.toNat)) 0
    if n < 18446744073709551616 then some n else none

/-- Reading in progress: the options so far, which ones were given, and an option whose value, if it
has come already, still has to be looked at. -/
structure Reading where
  options : Options
  given : List Key
  pending : Option (Key × Option String)
deriving Repr

namespace Reading

/-- Before the first argument. -/
def start : Reading :=
  ⟨.default, [], none⟩

/-- Takes in an option that is complete. -/
def take (r : Reading) (key : Key) (value : Option String) : Except Stop Reading :=
  if key = .help then .error .help
  else if key = .version then .error .version
  else if key.takesValue ∧ value = none then .error .missingValue
  else if key ∈ r.given then .error .repeated
  else
    let r := { r with given := key :: r.given }
    match key, value with
    | .noPrompt, _ => .ok { r with options := { r.options with emitPrompt := false } }
    | .verbose, _ => .ok { r with options := { r.options with verbose := true } }
    | .prompt, some text => .ok { r with options := { r.options with prompt := text } }
    | .command, some text => .ok { r with options := { r.options with command := some text } }
    | .maxJobs, some text =>
      match jobCount? text with
      | some n => .ok { r with options := { r.options with maxJobs := n } }
      | none => .error .malformedValue
    | _, _ => .ok r

/-- Looks at the pending option. -/
def settle (r : Reading) : Except Stop Reading :=
  match r.pending with
  | none => .ok r
  | some (key, value) => take { r with pending := none } key value

/-- Takes in an option, after the pending one: complete, or with its value still to come. -/
def accept (r : Reading) (key : Key) (attached : Option String) : Except Stop Reading := do
  let r ← r.settle
  if key.takesValue ∧ attached = none then .ok { r with pending := some (key, none) }
  else r.take key attached

/-- Reads joined short options. -/
def shorts (r : Reading) : List Char → Except Stop Reading
  | [] => .ok r
  | c :: rest =>
    match Key.ofShort? c with
    | none => .error .unknownArgument
    | some key =>
      if key.takesValue then
        match rest with
        | [] => r.accept key none
        | '=' :: value => r.accept key (some (String.ofList value))
        | value => r.accept key (some (String.ofList value))
      else
        match r.accept key none with
        | .ok r => r.shorts rest
        | .error stop => .error stop

/-- Reads a long option, given without its dashes. -/
def long (r : Reading) (text : List Char) : Except Stop Reading :=
  let attached :=
    match text.dropWhile (· != '=') with
    | _ :: value => some (String.ofList value)
    | [] => none
  match Key.ofLong? (String.ofList (text.takeWhile (· != '='))) with
  | none => .error .unknownArgument
  | some key =>
    if attached.isSome ∧ ¬ key.takesValue then .error .unneededValue
    else r.accept key attached

/-- Reads one argument that is no option: the value of the pending option, if that still lacks
one. -/
def plain (r : Reading) (text : String) : Except Stop Reading :=
  match r.pending with
  | some (key, none) => .ok { r with pending := some (key, some text) }
  | _ => .error .unknownArgument

/-- Reads the arguments.  After `--` nothing may follow. -/
def arguments (r : Reading) : List String → Except Stop Reading
  | [] => r.settle
  | argument :: rest =>
    let step :=
      match argument.toList with
      | '-' :: '-' :: text => r.long text
      | '-' :: c :: text => r.shorts (c :: text)
      | _ => r.plain argument
    if argument = "--" then if rest = [] then r.settle else .error .unknownArgument
    else
      match step with
      | .ok r => r.arguments rest
      | .error stop => .error stop

end Reading

/-- Reads the arguments of the program. -/
def parse (arguments : List String) : Except Stop Options :=
  (Reading.start.arguments arguments).map Reading.options

/-- The help text. -/
def helpText : String :=
  "A small interactive shell with job control\n\n" ++
  "Usage: ish [OPTIONS]\n\n" ++
  "Options:\n" ++
  "  -p, --no-prompt            Do not print a prompt\n" ++
  "      --prompt <PROMPT>      Prompt string [default: \"ish$ \"]\n" ++
  "  -v, --verbose              Log debug information to standard error\n" ++
  "      --max-jobs <MAX_JOBS>  Number of jobs that can be tracked at once [default: 16]\n" ++
  "  -c <LINE>                  Run one command line and exit\n" ++
  "  -h, --help                 Print help\n" ++
  "  -V, --version              Print version\n"

/-- The version text. -/
def versionText : String :=
  "ish 0.1.0\n"

end Options

end JobControl
