import JobControl.Job.Report
import JobControl.Kernel

/-!
# Collecting pending reports

Between commands the shell takes every pending report without sleeping.  `drain` takes them from the
system; `Reaping.record` applies one to the table.  A job whose stages have all ended leaves the
table and its last report is printed at once.  A job in which a stage was suspended is reported
after the drain, if all its unfinished stages are suspended then.
-/

set_option autoImplicit false

namespace JobControl

variable {κ : Type} [Kernel κ]

/-- Takes the pending reports in order; gives also the error that cut the drain short, other than
that there is no child. -/
def drain (k : κ) : List Notification × Option Errno × κ :=
  match h : Kernel.collect k with
  | (.ok n, k') =>
    if hn : n = .stillAlive then ([], none, k')
    else
      have : Kernel.reportsLeft k' < Kernel.reportsLeft k := by
        have := Kernel.reportsLeft_collect k
        cases n <;> simp_all [WaitResult.drainGoesOn]
      let (reports, failure, k'') := drain k'
      (n :: reports, failure, k'')
  | (.error e, k') =>
    if he : e = .eintr then
      have : Kernel.reportsLeft k' < Kernel.reportsLeft k := by
        have := Kernel.reportsLeft_collect k
        simp_all [WaitResult.drainGoesOn]
      drain k'
    else if e = .echild then ([], none, k')
    else ([], some e, k')
termination_by Kernel.reportsLeft k

/-- A job that has run to its end leaves the table; gives its last report. -/
def JobTable.retire (t : JobTable) (id : Nat) : Option (String × JobTable) :=
  match t.find? id with
  | some job =>
    if job.isComplete || job.isFinished then some (job.report id, t.erase id) else none
  | none => none

/-- The state of a drain that is being applied: the table, the reports printed so far, the jobs in
which a stage was suspended, and what is to be logged. -/
structure Reaping where
  table : JobTable
  printed : String
  stopped : List Nat
  events : List Event

namespace Reaping

/-- Before the first change. -/
def start (t : JobTable) : Reaping :=
  ⟨t, "", [], []⟩

/-- Applies one status change. -/
def record (r : Reaping) (change : StatusChange) : Reaping :=
  match r.table.record change with
  | none => { r with events := r.events ++ [.untrackedChanged change] }
  | some (id, table) =>
    let events := r.events ++ [.stageChanged id change]
    match table.retire id with
    | some (report, smaller) =>
      { r with
        table := smaller
        printed := r.printed ++ report
        events := events ++
          ((table.find? id).map fun job => Event.jobRemoved id job.command).toList }
    | none =>
      if change.status = .suspended ∧ ¬ id ∈ r.stopped then
        { r with table, events, stopped := r.stopped ++ [id] }
      else { r with table, events }

/-- The report on a job that stopped during the drain and has not moved on. -/
def stopReport (t : JobTable) (id : Nat) : String :=
  match t.find? id with
  | some job => if job.isStopped then job.report id else ""
  | none => ""

/-- Everything the drain prints. -/
def output (r : Reaping) : String :=
  r.printed ++ String.join (r.stopped.map (stopReport r.table))

end Reaping

/-- Applies the reports of a drain to the table. -/
def JobTable.reap (t : JobTable) (reports : List Notification) : Reaping :=
  (reports.filterMap Notification.change?).foldl Reaping.record (.start t)

end JobControl
