import JobControl.Line.Parse
import JobControl.Shell.Foreground

/-!
# Built-in commands

`exit`, `cd`, `fg` and `bg` run inside the shell.  Stages piped after a built-in run as an untracked
pipeline, unless the built-in failed or the shell is to exit.
-/

set_option autoImplicit false

namespace JobControl.Session

variable {κ : Type} [Kernel κ]

/-- Asks for the end of the session. -/
def exit (s : Session κ) : Reply × Session κ :=
  (.ok "", { s with shell := { s.shell with exitRequested := true } })

/-- Goes to the home directory and records it as it is named. -/
def goHome (s : Session κ) : Reply × Session κ :=
  match Kernel.changeDirectory s.shell.home s.kernel with
  | (.error e, kernel) => (.error (.builtin (.directory s.shell.home e)), { s with kernel })
  | (.ok (), kernel) =>
    (.ok "", { shell := { s.shell with directory := s.shell.home }, kernel })

/-- Goes to the directory that the first argument names, or home without one.  The argument is
resolved against the recorded directory; afterwards the working directory is recorded. -/
def cd (s : Session κ) (arguments : List String) : Reply × Session κ :=
  match arguments with
  | [] => s.goHome
  | argument :: _ =>
    let target := String.ofList (Text.trim Text.isWhiteSpace argument.toList)
    let path := Directory.resolve s.shell.directory target
    match Kernel.changeDirectory path s.kernel with
    | (.error e, kernel) => (.error (.builtin (.directory target e)), { s with kernel })
    | (.ok (), kernel) =>
      let directory :=
        match Kernel.workingDirectory kernel with
        | .ok current => current
        | .error _ => path
      (.ok "", { shell := { s.shell with directory }, kernel })

/-- Continues the most recent background job in the foreground. -/
def fg (s : Session κ) : Reply × Session κ :=
  match s.shell.jobs.mostRecentBackground? with
  | none => (.error (.builtin .noBackgroundJob), s)
  | some id =>
    match s.shell.jobs.find? id with
    | none => (.error (.builtin .noBackgroundJob), s)
    | some job =>
      match job.group with
      | none => (.error (.builtin (.jobNotFound "fg" id none)), s)
      | some group =>
        match Kernel.signalGroup group .cont s.kernel with
        | (.error e, kernel) =>
          (.error (.builtin (.jobNotFound "fg" id (some e))), { s with kernel })
        | (.ok (), kernel) =>
          let (reply, s) :=
            ({ s with kernel }.modifyJob id Job.markContinued).waitForeground id
          (reply.map (job.command ++ "\n" ++ ·), s)

/-- Continues the most recent suspended job in the background. -/
def bg (s : Session κ) : Reply × Session κ :=
  match s.shell.jobs.mostRecentSuspended? with
  | none => (.error (.builtin .noSuspendedJob), s)
  | some id =>
    match s.shell.jobs.find? id with
    | none => (.error (.builtin .noSuspendedJob), s)
    | some job =>
      match job.group with
      | none => (.error (.builtin (.jobNotFound "bg" id none)), s)
      | some group =>
        match Kernel.signalGroup group .cont s.kernel with
        | (.error e, kernel) =>
          (.error (.builtin (.jobNotFound "bg" id (some e))), { s with kernel })
        | (.ok (), kernel) =>
          (.ok (job.listing id),
            { s with kernel }.modifyJob id fun job =>
              { job.markContinued with mode := .background })

/-- Carries out the command of a leading stage. -/
def runStage (s : Session κ) (stage : Stage) : Reply × Session κ :=
  match stage.kind with
  | .exit => s.exit
  | .cd => s.cd stage.arguments
  | .fg => s.fg
  | .bg => s.bg
  | .external => (.ok "", s)

/-- Runs a job led by a built-in. -/
def runBuiltin (s : Session κ) (job : Job) : Reply × Session κ :=
  match job.stages with
  | [] => (.ok "", s)
  | stage :: rest =>
    match (s.log (.builtinRun stage.program)).runStage stage with
    | (.error e, s) => (.error e, s)
    | (.ok text, s) =>
      if rest = [] ∨ s.shell.exitRequested then (.ok text, s)
      else
        let (reply, s) := s.launchUntracked { job with stages := rest }
        (reply.map (text ++ ·), s)

/-- Runs one job. -/
def launch (s : Session κ) (job : Job) : Reply × Session κ :=
  if job.isBuiltin then s.runBuiltin job else s.launchExternal job

/-- Reads and runs one command line. -/
def run (s : Session κ) (line : String) : Reply × Session κ :=
  match Job.ofLine line with
  | .error fault => (.error (.parse fault), s)
  | .ok none => (.ok "", s)
  | .ok (some job) => s.launch job

/-- Hangs up one job: its group is sent `SIGHUP` and then `SIGCONT`. -/
def hangUp (s : Session κ) (job : Job) : Session κ :=
  match job.group with
  | none => s
  | some group =>
    let kernel := Kernel.log (.hangingUp group job.command) s.kernel
    let (_, kernel) := Kernel.signalGroup group .hup kernel
    let (_, kernel) := Kernel.signalGroup group .cont kernel
    { s with kernel }

/-- Ends the session: every job leaves the table and is hung up, and the terminal is taken back. -/
def shutdown (s : Session κ) : Session κ :=
  let s := (s.shell.jobs.toList.map Prod.snd).foldl hangUp (s.withJobs s.shell.jobs.clear)
  if s.shell.terminal.enabled then { s with kernel := s.shell.terminal.reclaim s.kernel } else s

end JobControl.Session
