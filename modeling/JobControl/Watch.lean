import JobControl.Kernel

/-!
# Waiting for a foreground job

A watch on a job takes the reports of its process group one by one and records each, until no
launched stage is running or the group has no child left.  A stage that is continued meanwhile is
waited for again.
-/

set_option autoImplicit false

namespace JobControl

/-- A watch on a job: the job as known so far, the processes that have not reported since the watch
began, and the status changes seen, in order. -/
structure Watch where
  job : Job
  silent : List Pid
  seen : List StatusChange
deriving Repr

/-- How a wait for a job ended. -/
inductive WaitOutcome
  /-- No stage is left to wait for. -/
  | finished
  /-- Some stage is suspended; the flag tells whether every stage that was outstanding reported
  during the wait. -/
  | suspended (reportedAll : Bool)
deriving DecidableEq, Repr

namespace Watch

/-- A watch that has seen nothing. -/
def start (job : Job) : Watch :=
  ⟨job, job.outstandingPids, []⟩

/-- Records a status change. -/
def record (w : Watch) (change : StatusChange) : Watch where
  job := w.job.apply change
  silent :=
    if w.job.containsPid change.pid then w.silent.filter (· != change.pid) else w.silent
  seen := w.seen ++ [change]

/-- Records a report; one that implies no status is passed over. -/
def observe (w : Watch) (n : Notification) : Watch :=
  match n.change? with
  | some change => w.record change
  | none => w

/-- What the watch came to. -/
def outcome (w : Watch) : WaitOutcome :=
  if w.job.isSuspended then .suspended w.silent.isEmpty else .finished

variable {κ : Type} [Kernel κ]

/-- Takes reports of the group until no launched stage is running or no child is left; gives the
error that ended the watch early, if one did. -/
def run (group : Pid) (w : Watch) (k : κ) : Option Errno × Watch × κ :=
  if w.job.running = 0 then (none, w, k)
  else
    match h : Kernel.awaitGroup group k with
    | (.ok n, k') =>
      have : Kernel.reportsLeft k' < Kernel.reportsLeft k := by
        have := Kernel.reportsLeft_awaitGroup group k
        simp_all [WaitResult.goesOn]
      run group (w.observe n) k'
    | (.error e, k') =>
      if he : e = .eintr then
        have : Kernel.reportsLeft k' < Kernel.reportsLeft k := by
          have := Kernel.reportsLeft_awaitGroup group k
          simp_all [WaitResult.goesOn]
        run group w k'
      else if e = .echild then (none, w, k')
      else (some e, w, k')
termination_by Kernel.reportsLeft k

end Watch

/-- What waiting for a job gives: how it ended or the error that cut it short, the job as known then,
and the status changes seen. -/
structure Waited where
  result : Except Errno WaitOutcome
  job : Job
  seen : List StatusChange
deriving Repr

variable {κ : Type} [Kernel κ]

/-- Blocks until every launched stage of a job has ended or stopped.  A job without a process group
has nothing to wait for. -/
def Job.wait (job : Job) (k : κ) : Waited × κ :=
  match job.group with
  | none => (⟨.ok .finished, job, []⟩, k)
  | some group =>
    match Watch.run group (.start job) k with
    | (none, w, k) => (⟨.ok w.outcome, w.job, w.seen⟩, k)
    | (some e, w, k) => (⟨.error e, w.job, w.seen⟩, k)

end JobControl
