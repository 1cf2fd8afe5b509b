import JobControl.Directory
import JobControl.Reap
import JobControl.Shell.Error

/-!
# The shell in a session

The shell's own state is its settings, its home and recorded working directory, its hold on the
terminal, the job table and whether it was asked to exit.  A session is that state together with the
system it runs on.  Every operation gives a reply and the session after it.
-/

set_option autoImplicit false

namespace JobControl

/-- What the shell is set to. -/
structure Settings where
  emitPrompt : Bool
  prompt : String
  capacity : Nat
  jobControl : Bool
deriving DecidableEq, Repr

/-- The shell's own state. -/
structure Shell where
  settings : Settings
  home : String
  directory : String
  terminal : Terminal
  jobs : JobTable
  exitRequested : Bool
deriving Repr

/-- A shell and the system it runs on. -/
structure Session (κ : Type) where
  shell : Shell
  kernel : κ

/-- The name a shell is told about its user, and the home directory. -/
structure Login where
  user : String
  home : String
deriving DecidableEq, Repr

namespace Session

variable {κ : Type} [Kernel κ]

/-- Logs an event. -/
def log (s : Session κ) (e : Event) : Session κ :=
  { s with kernel := Kernel.log e s.kernel }

/-- Replaces the job table. -/
def withJobs (s : Session κ) (jobs : JobTable) : Session κ :=
  { s with shell := { s.shell with jobs } }

/-- Changes one job of the table. -/
def modifyJob (s : Session κ) (id : Nat) (f : Job → Job) : Session κ :=
  s.withJobs (s.shell.jobs.modify id f)

/-- Takes a job out of the table. -/
def removeJob (s : Session κ) (id : Nat) : Session κ :=
  match s.shell.jobs.find? id with
  | some job => (s.withJobs (s.shell.jobs.erase id)).log (.jobRemoved id job.command)
  | none => s

/-- Starts a shell.  If job control is wanted but the terminal cannot be had, the shell goes on
without it.  The recorded directory is the working directory, or the home directory if that is
gone. -/
def start (settings : Settings) (login : Login) (k : κ) : Session κ :=
  let (terminal, k) : Terminal × κ :=
    if settings.jobControl then
      match Terminal.attach k with
      | (.ok terminal, k) => (terminal, k)
      | (.error e, k) => (.detached k, Kernel.log (.jobControlUnavailable e) k)
    else (.detached k, k)
  let directory :=
    match Kernel.workingDirectory k with
    | .ok path => path
    | .error _ => login.home
  { shell :=
      { settings, directory, terminal
        home := login.home
        jobs := .empty settings.capacity
        exitRequested := false }
    kernel := Kernel.log (.shellStarted login.user login.home terminal.enabled) k }

/-- The prompt to print; empty when prompting is off. -/
def prompt (s : Session κ) : String :=
  if s.shell.settings.emitPrompt then s.shell.settings.prompt else ""

/-- The reports on all jobs. -/
def listJobs (s : Session κ) : String :=
  s.shell.jobs.report

/-- Collects the pending reports on children; gives what is to be printed. -/
def poll (s : Session κ) : String × Session κ :=
  let (reports, failure, kernel) := drain s.kernel
  let reaping := s.shell.jobs.reap reports
  let events := reaping.events ++ (failure.map Event.collectFailed).toList
  (reaping.output,
    { shell := { s.shell with jobs := reaping.table }, kernel := Terminal.logAll events kernel })

end Session

end JobControl
