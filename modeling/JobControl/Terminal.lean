import JobControl.Watch

/-!
# The controlling terminal

With job control the shell owns its terminal: it hands the terminal to a job's group before it waits
for the job, and takes it back when the job ends or stops.  Without job control no handover moves
anything.
-/

set_option autoImplicit false

namespace JobControl

/-- The shell's hold on its terminal. -/
structure Terminal where
  group : Pid
  enabled : Bool
deriving DecidableEq, Repr

namespace Terminal

variable {κ : Type} [Kernel κ]

/-- Logs several events in order. -/
def logAll (events : List Event) (k : κ) : κ :=
  events.foldl (fun k e => Kernel.log e k) k

/-- Makes a group the terminal's foreground group, with `SIGTTOU` ignored meanwhile. -/
def handOver (group : Pid) (k : κ) : Except Errno Unit × κ :=
  let (previous, k) := Kernel.setDisposition .ttou .ignore k
  let (result, k) := Kernel.setForeground group k
  let (_, k) := Kernel.setDisposition .ttou previous k
  (result, k)

/-- A hold without job control. -/
def detached (k : κ) : Terminal :=
  ⟨Kernel.ownGroup k, false⟩

/-- Ignores the signals that the terminal sends. -/
def ignoreJobControl (k : κ) : κ :=
  Dispositions.shellIgnored.foldl
    (fun k s => Kernel.log (.signalIgnored s) (Kernel.setDisposition s .ignore k).2) k

/-- Takes control of the terminal: waits until the shell is in the foreground, ignores the signals
the terminal sends, moves the shell into its own group and claims the terminal for it. -/
def attach (k : κ) : Except Errno Terminal × κ :=
  match Kernel.comeToForeground k with
  | (.error e, k) => (.error e, k)
  | (.ok (), k) =>
    match Kernel.foundGroup (ignoreJobControl k) with
    | (.error e, k) => if e = .eperm then claim (Kernel.log .groupKept k) else (.error e, k)
    | (.ok (), k) => claim k
where
  /-- Makes the shell's group the foreground group. -/
  claim (k : κ) : Except Errno Terminal × κ :=
    match handOver (Kernel.ownGroup k) k with
    | (.error e, k) => (.error e, k)
    | (.ok (), k) =>
      (.ok ⟨Kernel.ownGroup k, true⟩, Kernel.log (.terminalAttached (Kernel.ownGroup k)) k)

/-- Gives the terminal to a group. -/
def giveTo (t : Terminal) (group : Pid) (k : κ) : κ :=
  if t.enabled then
    match handOver group k with
    | (.ok (), k) => Kernel.log (.terminalHandedOver group) k
    | (.error e, k) => Kernel.log (.handOverFailed group e) k
  else k

/-- Takes the terminal back. -/
def reclaim (t : Terminal) (k : κ) : κ :=
  t.giveTo t.group k

/-- Runs a job in the foreground: hands it the terminal, waits until it ends or stops, and takes the
terminal back either way. -/
def runForeground (t : Terminal) (job : Job) (k : κ) : Waited × κ :=
  match job.group with
  | none => (⟨.ok .finished, job, []⟩, k)
  | some group =>
    let (waited, k) := job.wait (t.giveTo group k)
    (waited, t.reclaim (logAll (waited.seen.map .foregroundChanged) k))

end Terminal

end JobControl
