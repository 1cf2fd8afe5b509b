import JobControl.Shell.Session

/-!
# Running jobs

A job led by an external program is registered, launched, and waited for unless it runs in the
background.  A job that the table cannot hold runs without being tracked.
-/

set_option autoImplicit false

namespace JobControl.Session

variable {κ : Type} [Kernel κ]

/-- What becomes of a tracked job after a wait for it.  A job that ended leaves the table; one that
stopped stays in it as a background job, and so does one whose wait failed. -/
def concludeWait (s : Session κ) (id : Nat) (waited : Waited) : Reply × Session κ :=
  let stopped := { waited.job with mode := .background }
  match waited.result with
  | .ok .finished => (.ok "", s.removeJob id)
  | .ok (.suspended reportedAll) =>
    (.ok (if reportedAll then stopped.report id else ""), s.modifyJob id fun _ => stopped)
  | .error e =>
    (.error (.wait e), (s.modifyJob id fun _ => stopped).log (.waitFailed id e))

/-- Gives a tracked job the terminal and blocks until it ends or stops. -/
def waitForeground (s : Session κ) (id : Nat) : Reply × Session κ :=
  match s.shell.jobs.find? id with
  | none => (.ok "", s)
  | some job =>
    let (waited, kernel) :=
      s.shell.terminal.runForeground { job with mode := .foreground } s.kernel
    { s with kernel }.concludeWait id waited

/-- What is printed of a launch that ended early. -/
def launchNotice : Option LaunchError → String
  | some e => (ShellError.launch e).message ++ "\n"
  | none => ""

/-- Launches a registered job.  If no stage could be started the job leaves the table; otherwise a
failure is printed and the stages that did start are tracked. -/
def launchTracked (s : Session κ) (id : Nat) : Reply × Session κ :=
  match s.shell.jobs.find? id with
  | none => (.ok "", s)
  | some job =>
    let (failure, job, kernel) := job.launch s.shell.terminal s.kernel
    let s := { s with kernel }.modifyJob id fun _ => job
    match failure, job.group with
    | some e, none => (.error (.launch e), s.removeJob id)
    | _, _ =>
      if job.mode = .background then (.ok (launchNotice failure ++ job.listing id), s)
      else
        let (reply, s) := s.waitForeground id
        (reply.map (launchNotice failure ++ ·), s)

/-- Waits for an untracked job.  One that stops is left to itself. -/
def waitUntracked (s : Session κ) (job : Job) : Reply × Session κ :=
  let (waited, kernel) := s.shell.terminal.runForeground job s.kernel
  let s := { s with kernel }
  match waited.result with
  | .ok .finished => (.ok "", s)
  | .ok (.suspended _) =>
    (.ok ("ish: untracked job `" ++ job.command ++ "` stopped\n"),
      s.log (.untrackedStopped job.command))
  | .error e => (.error (.wait e), s)

/-- Runs a job the table cannot hold: it is waited for if it runs in the foreground and otherwise
left to itself. -/
def launchUntracked (s : Session κ) (job : Job) : Reply × Session κ :=
  let (failure, job, kernel) := job.launch s.shell.terminal s.kernel
  let s := { s with kernel }
  match failure, job.group with
  | some e, none => (.error (.launch e), s)
  | _, _ =>
    if job.mode = .background then (.ok (launchNotice failure), s)
    else
      let (reply, s) := s.waitUntracked job
      (reply.map (launchNotice failure ++ ·), s)

/-- Runs a job led by an external program. -/
def launchExternal (s : Session κ) (job : Job) : Reply × Session κ :=
  match s.shell.jobs.register job with
  | .ok (id, jobs) => ((s.withJobs jobs).log (.jobRegistered id job.command)).launchTracked id
  | .error full =>
    let (reply, s) := (s.log (.tableFull full.capacity)).launchUntracked full.job
    (reply.map ("ish: " ++ full.message ++ "\n" ++ ·), s)

end JobControl.Session
