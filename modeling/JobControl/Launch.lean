import JobControl.Terminal

/-!
# Launching a job

A launch starts one child per stage, from left to right, with a pipe between neighbours.  The first
child founds the job's process group and the others join it.  Only the first stage's input file and
the last stage's output file are opened.

Words that hold a NUL and an input file that cannot be opened end the launch before any child is
started.  When a pipe or a child is refused later, the stages already started keep running and the
rest count as terminated.  An output file that cannot be opened is no failure: the last stage then
writes to the shell's own output.
-/

set_option autoImplicit false

namespace JobControl

/-- Why a launch failed. -/
inductive LaunchError
  | input (path : String) (cause : PathError)
  | pipe (cause : Errno)
  | fork (stage : Nat) (cause : Errno)
  | nul (program : String)
deriving DecidableEq, Repr

namespace LaunchError

/-- The diagnostic text. -/
def message : LaunchError → String
  | input path cause =>
    path ++ ": " ++ (if cause.isNotFound then "no such file or directory" else cause.message)
  | pipe cause => "pipe: " ++ cause.message
  | fork stage cause => "fork failed at stage " ++ toString stage ++ ": " ++ cause.message
  | nul program => program ++ ": argument contains a NUL byte"

end LaunchError

/-- The warnings about redirections that a pipeline ignores: input on a stage that reads from a pipe
and output on a stage that writes to one.  The stages are numbered from `index`. -/
def ignoredRedirections (index : Nat) : List Stage → List Event
  | [] => []
  | stage :: rest =>
    (if index ≠ 0 ∧ stage.input.isSome then [Event.inputIgnored index stage.program] else []) ++
    (if rest ≠ [] ∧ stage.output.isSome then [Event.outputIgnored index stage.program] else []) ++
    ignoredRedirections (index + 1) rest

/-- A stage that was never started will not report; it counts as terminated. -/
def Stage.abandon (s : Stage) : Stage :=
  { s with status := .terminated }

variable {κ : Type} [Kernel κ]

/-- Closes a descriptor, if there is one. -/
def closeOptional (d : Option Descriptor) (k : κ) : κ :=
  match d with
  | some d => Kernel.close d k
  | none => k

/-- Opens the output file of a last stage.  Failure is reported and costs only the redirection. -/
def openOutput (s : Stage) (k : κ) : Option Descriptor × κ :=
  match s.output with
  | none => (none, k)
  | some file =>
    match Kernel.openOutput file k with
    | (.ok d, k) => (some d, k)
    | (.error e, k) =>
      let k := Kernel.log (.outputFailed file.path e) k
      (none, Kernel.writeError
        ("ish: " ++ file.path ++ ": " ++ e.message ++ ", writing to standard output\n") k)

/-- What a stage writes to, and what the next one reads from: a pipe, or for the last stage its
output file. -/
def connect (stage : Stage) (rest : List Stage) (k : κ) :
    Except Errno (Option Descriptor × Option Descriptor) × κ :=
  match rest with
  | [] => let (output, k) := openOutput stage k; (.ok (output, none), k)
  | _ =>
    match Kernel.openPipe k with
    | (.ok (readEnd, writeEnd), k) => (.ok (some writeEnd, some readEnd), k)
    | (.error e, k) => (.error e, k)

/-- How far a launch came: the failure that ended it, the job's group and the stages. -/
structure Launched where
  failure : Option LaunchError
  group : Option Pid
  stages : List Stage
deriving Repr

/-- Puts a new child into its group.  The child does the same, so a refusal is only logged. -/
def regroup (pid group : Pid) (k : κ) : κ :=
  match Kernel.joinGroup pid group k with
  | (.ok (), k) => k
  | (.error e, k) => Kernel.log (.groupNotJoined pid e) k

/-- Starts the stages from `index` on.  `modes` gives the mode of each stage, `takesTerminal` tells
whether the children take the terminal, and `input` is what the first of these stages reads from. -/
def startStages (modes : Nat → JobMode) (takesTerminal : Bool) (index : Nat) (group : Option Pid)
    (input : Option Descriptor) : List Stage → κ → Launched × κ
  | [], k => (⟨none, group, []⟩, k)
  | stage :: rest, k =>
    match connect stage rest k with
    | (.error e, k) =>
      (⟨some (.pipe e), group, (stage :: rest).map Stage.abandon⟩, closeOptional input k)
    | (.ok (output, next), k) =>
      match Kernel.fork ⟨group, takesTerminal, input, output, stage.words⟩ k with
      | (.error e, k) =>
        (⟨some (.fork index e), group, (stage :: rest).map Stage.abandon⟩,
          closeOptional input (closeOptional next (closeOptional output k)))
      | (.ok pid, k) =>
        let founder := group.getD pid
        let k := regroup pid founder k
        let k := Kernel.log (.stageStarted pid founder stage.program (modes index)) k
        let k := closeOptional output (closeOptional input k)
        let (launched, k) :=
          startStages modes takesTerminal (index + 1) (some founder) next rest k
        (⟨launched.failure, launched.group,
          { stage with pid := some pid, status := .running } :: launched.stages⟩, k)

/-- Opens the input file of a first stage. -/
def openInput (s : Stage) (k : κ) : Except LaunchError (Option Descriptor) × κ :=
  match s.input with
  | none => (.ok none, k)
  | some path =>
    match Kernel.openInput path k with
    | (.ok d, k) => (.ok (some d), k)
    | (.error e, k) => (.error (.input path e), k)

/-- Launches a job; gives the failure that ended the launch early, if one did, and the job with its
process ids. -/
def Job.launch (job : Job) (terminal : Terminal) (k : κ) : Option LaunchError × Job × κ :=
  match job.stages with
  | [] => (none, job, k)
  | first :: rest =>
    match (first :: rest).find? Stage.hasNul with
    | some stage => (some (.nul stage.program), job, k)
    | none =>
      match openInput first (Terminal.logAll (ignoredRedirections 0 (first :: rest)) k) with
      | (.error e, k) => (some e, job, k)
      | (.ok input, k) =>
        let takesTerminal := job.mode == .foreground && terminal.enabled
        let (launched, k) :=
          startStages job.stageMode takesTerminal 0 job.group input (first :: rest) k
        (launched.failure, { job with group := launched.group, stages := launched.stages }, k)

end JobControl
