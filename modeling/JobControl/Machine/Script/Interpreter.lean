import JobControl.Machine.Script.Basic
import JobControl.Machine.Utility

/-!
# Running scripts

What `sh` does with a script, as an activity.  `kill`, `echo`, `exit`, `exec`, `set`, `test`, `:` and
assignments are part of the language; every other command is a utility.

After `set -m` a script controls jobs itself: it leads a group, which has the terminal for every
utility and again after it.  When it ends, is replaced by another program or gives that up, the group
it came from gets the terminal back.
-/

set_option autoImplicit false

namespace JobControl.Script

/-- What a running script knows: its process, its name, its parameters and variables, its
descriptors, the group it came from if it controls jobs, and the exit code of its last command. -/
structure Context where
  pid : Pid
  name : String
  parameters : List String
  bindings : List (String × String)
  streams : Streams
  origin : Option Pid
  lastCode : Nat

namespace Context

/-- The value of `$0`, `$1` and so on. -/
def parameter (c : Context) (index : Nat) : String :=
  if index = 0 then c.name else (c.parameters[index - 1]?).getD ""

/-- The value of a variable. -/
def value (c : Context) (name : String) : String :=
  ((c.bindings.find? fun entry => entry.1 == name).map Prod.snd).getD ""

/-- Sets a variable. -/
def assign (c : Context) (name value : String) : Context :=
  { c with bindings := (name, value) :: c.bindings }

/-- Ends a command with a code. -/
def ended (c : Context) (code : Nat) : Context :=
  { c with lastCode := code }

/-- Takes the terminal, if the script controls jobs. -/
def takeTerminal (c : Context) (next : Activity) : Activity :=
  if c.origin.isSome then .lead c.pid next else next

/-- Goes back to the group it came from, if the script controls jobs. -/
def goBack (c : Context) (next : Activity) : Activity :=
  match c.origin with
  | some group => .lead group next
  | none => next

end Context

/-- What follows a command. -/
abbrev Rest := Context → Activity

/-! ## Words -/

/-- The bytes as text. -/
def textOf (data : ByteArray) : String :=
  (String.fromUTF8? data).getD ""

/-- The text of a part that does not run a command. -/
def plainText (c : Context) : ScriptPart → String
  | .literal text => String.ofList text
  | .processId => toString c.pid
  | .lastCode => toString c.lastCode
  | .parameterCount => toString c.parameters.length
  | .allParameters => " ".intercalate c.parameters
  | .parameter i => c.parameter i
  | .named name => c.value (String.ofList name)
  | .output _ => ""

/-- The output of a simple command inside a word, without its trailing newlines: `cat` of one file
and `echo` are understood. -/
def captured (c : Context) (words : List String) (next : String → Activity) : Activity :=
  let trimmed (text : String) : String :=
    String.ofList (Text.trimEnd (· == '\n') text.toList)
  match words with
  | ["cat", path] =>
    .openRead path fun opened =>
      match opened with
      | .ok d => .gather d .empty fun result =>
        .close d (next (trimmed (textOf (result.toOption.getD .empty))))
      | .error e => .say c.streams.errors (Utility.unreadable "cat" path e) (next "")
  | "echo" :: rest => next (" ".intercalate rest)
  | _ => next ""

/-- Hands on the text of a word's parts. -/
def expandParts (c : Context) : List ScriptPart → String → (String → Activity) → Activity
  | [], text, next => next text
  | .output words :: rest, text, next =>
    let inner := words.map fun word => String.join ((wordOf word).parts.map (plainText c))
    captured c inner fun output => expandParts c rest (text ++ output) next
  | part :: rest, text, next => expandParts c rest (text ++ plainText c part) next

/-- Hands on the fields that words expand to. -/
def expand (c : Context) : List ScriptWord → List String → (List String → Activity) → Activity
  | [], fields, next => next fields
  | word :: rest, fields, next =>
    expandParts c word.parts "" fun text =>
      let new :=
        if word.quoted then [text]
        else (Text.words Text.isSeparator text.toList).map String.ofList
      expand c rest (fields ++ new) next

/-! ## Redirections -/

/-- Lets a number of a descriptor stand for something else. -/
def redirected (s : Streams) (descriptor target : Nat) : Streams :=
  if descriptor = 0 then { s with input := target }
  else if descriptor = 1 then { s with output := target }
  else if descriptor = 2 then { s with errors := target }
  else s

/-- What a number of a descriptor stands for. -/
def streamOf (s : Streams) (descriptor : Nat) : Nat :=
  if descriptor = 0 then s.input
  else if descriptor = 1 then s.output
  else if descriptor = 2 then s.errors
  else descriptor

/-- The complaint about a file that cannot be opened. -/
def cannotOpen (op : RedirectOp) (path : String) (e : Errno) : String :=
  match op with
  | .input => "cannot open " ++ path ++ ": " ++ (if e = .enoent then "No such file" else e.wording)
  | _ =>
    "cannot create " ++ path ++ ": " ++
      (if e = .enoent then "Directory nonexistent" else e.wording)

/-- Carries out redirections and hands on the descriptors to use and those that were opened; a file
that cannot be opened fails the command. -/
def redirect (c : Context) (line : Nat) (failed : Activity) :
    List ScriptRedirect → Streams → List Nat → (Streams → List Nat → Activity) → Activity
  | [], streams, opened, next => next streams opened
  | .copy source d :: rest, streams, opened, next =>
    redirect c line failed rest (redirected streams d (streamOf streams source)) opened next
  | .file op d path :: rest, streams, opened, next =>
    expandParts c path.parts "" fun path =>
      let go (result : Except Errno Nat) : Activity :=
        match result with
        | .ok new => redirect c line failed rest (redirected streams d new) (new :: opened) next
        | .error e =>
          .say c.streams.errors
            (c.name ++ ": " ++ toString line ++ ": " ++ cannotOpen op path e ++ "\n") failed
      match op with
      | .input => .openRead path go
      | .truncate => .openWrite path false go
      | .append => .openWrite path true go

/-- Closes descriptors. -/
def closeAll (opened : List Nat) (next : Activity) : Activity :=
  opened.foldr Activity.close next

/-! ## Commands -/

/-- The signal a `kill` option names. -/
def signal? (option : List Char) : Option Signal :=
  let text := String.ofList option
  match Signal.ofName? text with
  | some s => some s
  | none =>
    match option with
    | 'S' :: 'I' :: 'G' :: name => Signal.ofName? (String.ofList name)
    | _ => text.toNat?.map Signal.mk

/-- `kill` sends a signal to processes. -/
def kill (c : Context) (line : Nat) (arguments : List String) (next : Nat → Activity) : Activity :=
  let (signal, targets) :=
    match arguments with
    | "-s" :: name :: rest => ((signal? name.toList).getD .term, rest)
    | option :: rest =>
      match option.toList with
      | '-' :: name => ((signal? name).getD .term, rest)
      | _ => (.term, arguments)
    | [] => (.term, [])
  let failed : Activity :=
    .say c.streams.errors
      (c.name ++ ": " ++ toString line ++ ": kill: No such process\n\n") (next 1)
  match targets with
  | target :: _ =>
    match target.toInt? with
    | some pid => .send pid signal fun found => if found then next 0 else failed
    | none => failed
  | [] => next 2

/-- `test` compares texts. -/
def test (arguments : List String) : Bool :=
  match arguments with
  | [a, "=", b] => a == b
  | [a, "!=", b] => a != b
  | ["-n", a] => a ≠ ""
  | ["-z", a] => a == ""
  | [a] => a ≠ ""
  | _ => false

/-- An assignment: a name, `=` and the value. -/
def assignment? (word : String) : Option (String × String) :=
  let name := word.toList.takeWhile isNameChar
  match name, word.toList.dropWhile isNameChar with
  | c :: _, '=' :: value =>
    if c.isDigit then none else some (String.ofList name, String.ofList value)
  | _, _ => none

/-- `set -m` lets the script control jobs, if there is a terminal. -/
def controlJobs (c : Context) (line : Nat) (errors : Nat) (next : Rest) : Activity :=
  if c.origin.isSome then next (c.ended 0)
  else
    .comeForward fun group =>
      match group with
      | some _ => .lead c.pid (next ({ c with origin := group }.ended 0))
      | none =>
        .say errors
          (c.name ++ ": " ++ toString line ++ ": set: can't access tty; job control turned off\n")
          (next (c.ended 0))

/-- Carries out one simple command. -/
def perform (c : Context) (line : Nat) (fields : List String) (streams : Streams) (next : Rest) :
    Activity :=
  let ended (code : Nat) : Activity := next (c.ended code)
  match fields with
  | [] => ended 0
  | ":" :: _ => ended 0
  | "exit" :: rest => c.goBack (.exit (((rest.head?.bind String.toNat?).getD c.lastCode) % 256))
  | "exec" :: [] => ended 0
  | "exec" :: words => c.goBack (.start words)
  | "set" :: "-m" :: _ => controlJobs c line streams.errors next
  | "set" :: "+m" :: _ => c.goBack (next ({ c with origin := none }.ended 0))
  | "set" :: "--" :: values => next ({ c with parameters := values }.ended 0)
  | "set" :: values => next ({ c with parameters := values }.ended 0)
  | "kill" :: rest => kill c line rest ended
  | "test" :: rest => ended (if test rest then 0 else 1)
  | "[" :: rest => ended (if test rest.dropLast then 0 else 1)
  | name :: rest =>
    match Utility.named? name, assignment? name with
    | some run, _ =>
      c.takeTerminal (run name rest streams fun code => c.takeTerminal (ended code))
    | none, some (name, value) => next ((c.assign name value).ended 0)
    | none, none =>
      .say streams.errors (c.name ++ ": " ++ toString line ++ ": " ++ name ++ ": not found\n")
        (ended 127)

/-- Runs a script. -/
def run : Script → Context → Rest → Activity
  | .done, c, next => next c
  | .simple line words redirects, c, next =>
    expand c words [] fun fields =>
      redirect c line (next (c.ended 2)) redirects c.streams [] fun streams opened =>
        perform c line fields streams fun c => closeAll opened (next c)
  | .sequence first second, c, next => run first c fun c => run second c next
  | .either afterSuccess first second, c, next =>
    run first c fun c => if (c.lastCode == 0) = afterSuccess then run second c next else next c
  | .branch condition yes no, c, next =>
    run condition c fun c =>
      if c.lastCode = 0 then run yes c next else run no (c.ended 0) next

/-- The interpreter: runs the script that its first argument names, the text after `-c`, or its
input. -/
def interpreter (pid : Pid) (name : String) (arguments : List String) : Activity :=
  let go (name : String) (parameters : List String) (text : String) : Activity :=
    (ofText text).run ⟨pid, name, parameters, [], .standard, none, 0⟩ fun c =>
      c.goBack (.exit c.lastCode)
  let fromInput (parameters : List String) : Activity :=
    .gather 0 .empty fun result => go name parameters (textOf (result.toOption.getD .empty))
  match arguments with
  | "-c" :: text :: rest => go (rest.headD name) (rest.drop 1) text
  | [] | ["-"] => fromInput []
  | "-s" :: rest => fromInput rest
  | path :: rest =>
    .openRead path fun opened =>
      match opened with
      | .ok d => .gather d .empty fun result =>
        .close d (go path rest (textOf (result.toOption.getD .empty)))
      | .error e => .say 2 (name ++ ": 0: " ++ cannotOpen .input path e ++ "\n") (.exit 2)

end JobControl.Script
