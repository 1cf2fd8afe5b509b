import JobControl.Proofs.Loops
import JobControl.Shell.Foreground

/-!
# The questions of a wait

A wait for a job is a series of questions for a report of its group.  `Watch.vigil` lists the moments
at which they are asked, with the watch and the system of each, and `Watch.answers` what the system
answers.  A moment keeps every invariant of the wait, and some launched stage runs then
(`Watch.vigil_inv`).

The reports among the answers are all that a watch comes to know: it ends as it observed them, one
after the other (`Watch.run_watch`).  It ends when no launched stage runs any more, unless an error
ends it before (`Watch.run_ended`).  `Session.vigil`, `Session.answers` and `Session.reports` are the
same for waiting for a tracked job, which starts by handing over the terminal.
-/

set_option autoImplicit false

namespace JobControl

variable {κ : Type} [Kernel κ]

namespace Watch

/-- The moments at which a watch asks for a report of a group, in order. -/
def vigil (group : Pid) (w : Watch) (k : κ) : List (Watch × κ) :=
  if w.job.running = 0 then []
  else
    match h : Kernel.awaitGroup group k with
    | (.ok n, k') =>
      have : Kernel.reportsLeft k' < Kernel.reportsLeft k := by
        have := Kernel.reportsLeft_awaitGroup group k
        simp_all [WaitResult.goesOn]
      (w, k) :: vigil group (w.observe n) k'
    | (.error e, k') =>
      if he : e = .eintr then
        have : Kernel.reportsLeft k' < Kernel.reportsLeft k := by
          have := Kernel.reportsLeft_awaitGroup group k
          simp_all [WaitResult.goesOn]
        (w, k) :: vigil group w k'
      else [(w, k)]
termination_by Kernel.reportsLeft k

/-- What the system answers at these moments. -/
def answers (group : Pid) (w : Watch) (k : κ) : List WaitResult :=
  (vigil group w k).map fun moment => (Kernel.awaitGroup group moment.2).1

/-- The reports among the answers. -/
def reports (group : Pid) (w : Watch) (k : κ) : List Notification :=
  (answers group w k).filterMap Except.toOption

variable {group : Pid} {w : Watch} {k k' : κ} {n : Notification} {e : Errno}

/-! ## One question -/

theorem run_of_idle (idle : w.job.running = 0) : run group w k = (none, w, k) := by
  rw [run, if_pos idle]

theorem run_of_report (busy : w.job.running ≠ 0)
    (answer : Kernel.awaitGroup group k = (.ok n, k')) :
    run group w k = run group (w.observe n) k' := by
  rw [run, if_neg busy]
  split <;> rename_i given <;> rw [answer] at given <;> cases given
  rfl

theorem run_of_interruption (busy : w.job.running ≠ 0)
    (answer : Kernel.awaitGroup group k = (.error .eintr, k')) :
    run group w k = run group w k' := by
  rw [run, if_neg busy]
  split <;> rename_i given <;> rw [answer] at given <;> cases given
  rw [dif_pos rfl]

theorem run_of_childless (busy : w.job.running ≠ 0)
    (answer : Kernel.awaitGroup group k = (.error .echild, k')) :
    run group w k = (none, w, k') := by
  rw [run, if_neg busy]
  split <;> rename_i given <;> rw [answer] at given <;> cases given
  rw [dif_neg (by decide), if_pos rfl]

theorem run_of_failure (busy : w.job.running ≠ 0)
    (answer : Kernel.awaitGroup group k = (.error e, k')) (told : e ≠ .eintr)
    (children : e ≠ .echild) : run group w k = (some e, w, k') := by
  rw [run, if_neg busy]
  split <;> rename_i given <;> rw [answer] at given <;> cases given
  rw [dif_neg told, if_neg children]

theorem vigil_of_idle (idle : w.job.running = 0) : vigil group w k = [] := by
  rw [vigil, if_pos idle]

theorem vigil_of_report (busy : w.job.running ≠ 0)
    (answer : Kernel.awaitGroup group k = (.ok n, k')) :
    vigil group w k = (w, k) :: vigil group (w.observe n) k' := by
  rw [vigil, if_neg busy]
  split <;> rename_i given <;> rw [answer] at given <;> cases given
  rfl

theorem vigil_of_interruption (busy : w.job.running ≠ 0)
    (answer : Kernel.awaitGroup group k = (.error .eintr, k')) :
    vigil group w k = (w, k) :: vigil group w k' := by
  rw [vigil, if_neg busy]
  split <;> rename_i given <;> rw [answer] at given <;> cases given
  rw [dif_pos rfl]

theorem vigil_of_failure (busy : w.job.running ≠ 0)
    (answer : Kernel.awaitGroup group k = (.error e, k')) (other : e ≠ .eintr) :
    vigil group w k = [(w, k)] := by
  rw [vigil, if_neg busy]
  split <;> rename_i given <;> rw [answer] at given <;> cases given
  rw [dif_neg other]

/-! ## All questions -/

/-- **The rule for the questions of a wait.**  What the wait keeps holds whenever it asks, and it
asks only while some launched stage runs. -/
theorem vigil_inv {I : Watch → κ → Prop} (inv : WaitInvariant group I) (w : Watch) (k : κ)
    (h : I w k) : ∀ moment ∈ vigil group w k,
      I moment.1 moment.2 ∧ moment.1.job.running ≠ 0 := by
  fun_induction Watch.run group w k with
  | case1 w k idle =>
    rw [vigil_of_idle idle]
    intro moment hmoment
    cases hmoment
  | case2 w k busy n k' answer _ ih =>
    rw [vigil_of_report busy answer]
    exact List.forall_mem_cons.mpr ⟨⟨h, busy⟩, ih (inv.report w k n k' busy h answer)⟩
  | case3 w k busy k' answer _ ih =>
    rw [vigil_of_interruption busy answer]
    exact List.forall_mem_cons.mpr ⟨⟨h, busy⟩, ih (inv.failed w k .eintr k' busy h answer)⟩
  | case4 w k busy k' answer other =>
    rw [vigil_of_failure busy answer other]
    exact List.forall_mem_singleton.mpr ⟨h, busy⟩
  | case5 w k busy e k' answer other =>
    rw [vigil_of_failure busy answer other]
    exact List.forall_mem_singleton.mpr ⟨h, busy⟩

theorem reports_of_idle (idle : w.job.running = 0) : reports group w k = [] := by
  rw [reports, answers, vigil_of_idle idle]
  rfl

theorem reports_of_report (busy : w.job.running ≠ 0)
    (answer : Kernel.awaitGroup group k = (.ok n, k')) :
    reports group w k = n :: reports group (w.observe n) k' := by
  simp only [reports, answers, vigil_of_report busy answer, List.map_cons, answer]
  exact List.filterMap_cons_some rfl

theorem reports_of_interruption (busy : w.job.running ≠ 0)
    (answer : Kernel.awaitGroup group k = (.error .eintr, k')) :
    reports group w k = reports group w k' := by
  simp only [reports, answers, vigil_of_interruption busy answer, List.map_cons, answer]
  exact List.filterMap_cons_none rfl

theorem reports_of_failure (busy : w.job.running ≠ 0)
    (answer : Kernel.awaitGroup group k = (.error e, k')) (other : e ≠ .eintr) :
    reports group w k = [] := by
  simp only [reports, answers, vigil_of_failure busy answer other, List.map_cons, List.map_nil,
    answer]
  rfl

/-- **A watch ends as it observed the reports**, one after the other. -/
theorem run_watch (group : Pid) (w : Watch) (k : κ) :
    (run group w k).2.1 = (reports group w k).foldl observe w := by
  fun_induction Watch.run group w k with
  | case1 w k idle => rw [reports_of_idle idle]; rfl
  | case2 w k busy n k' answer _ ih => rw [reports_of_report busy answer]; exact ih
  | case3 w k busy k' answer _ ih => rw [reports_of_interruption busy answer]; exact ih
  | case4 w k busy k' answer other => rw [reports_of_failure busy answer other]; rfl
  | case5 w k busy e k' answer other => rw [reports_of_failure busy answer other]; rfl

/-- **How a wait ends** that was never told that there is no child: no launched stage runs any more,
or an error was the answer while one did. -/
theorem run_ended (group : Pid) (w : Watch) (k : κ)
    (children : .error .echild ∉ answers group w k) :
    match (run group w k).1 with
    | none => (run group w k).2.1.job.running = 0
    | some _ => (run group w k).2.1.job.running ≠ 0 := by
  fun_induction Watch.run group w k with
  | case1 w k idle => exact idle
  | case2 w k busy n k' answer _ ih =>
    refine ih fun told => children ?_
    rw [answers, vigil_of_report busy answer]
    exact List.mem_cons_of_mem _ told
  | case3 w k busy k' answer _ ih =>
    refine ih fun told => children ?_
    rw [answers, vigil_of_interruption busy answer]
    exact List.mem_cons_of_mem _ told
  | case4 w k busy k' answer other =>
    refine absurd ?_ children
    rw [answers, vigil_of_failure busy answer other, List.map_singleton, answer]
    exact List.mem_singleton_self _
  | case5 w k busy e k' answer other => exact busy

end Watch

/-- How a wait ended, from the error that ended its watch, if one did. -/
def Watch.result (failure : Option Errno) (w : Watch) : Except Errno WaitOutcome :=
  match failure with
  | none => .ok w.outcome
  | some e => .error e

/-- A wait for a job with a group is the run of a watch. -/
theorem Job.wait_eq {job : Job} {group : Pid} (hgroup : job.group = some group) {k k' : κ}
    {failure : Option Errno} {w : Watch} (run : Watch.run group (.start job) k = (failure, w, k')) :
    job.wait k = (⟨w.result failure, w.job, w.seen⟩, k') := by
  cases failure <;> simp only [Job.wait, hgroup, run, Watch.result]

/-- A job that runs in the foreground is watched from the handover of the terminal on. -/
theorem Terminal.runForeground_eq (t : Terminal) (job : Job) {group : Pid}
    (hgroup : job.group = some group) {k k' : κ} {failure : Option Errno} {w : Watch}
    (run : Watch.run group (.start job) (t.giveTo group k) = (failure, w, k')) :
    ∃ kernel, t.runForeground job k = (⟨w.result failure, w.job, w.seen⟩, kernel) :=
  ⟨_, by simp only [Terminal.runForeground, hgroup, Job.wait_eq hgroup run]; rfl⟩

/-! ## Waiting for a tracked job -/

namespace Session

variable {s : Session κ} {id : Nat} {job : Job} {group : Pid}

/-- What waiting for a tracked job starts from: its group, a watch that has seen nothing, and the
system after the terminal was handed over. -/
def waitStart? (s : Session κ) (id : Nat) : Option (Pid × Watch × κ) :=
  (s.shell.jobs.find? id).bind fun job => job.group.map fun group =>
    (group, .start { job with mode := .foreground }, s.shell.terminal.giveTo group s.kernel)

/-- The moments at which waiting for a tracked job asks for a report. -/
def vigil (s : Session κ) (id : Nat) : List (Watch × κ) :=
  (s.waitStart? id).elim [] fun (group, w, k) => Watch.vigil group w k

/-- What the system answers at these moments. -/
def answers (s : Session κ) (id : Nat) : List WaitResult :=
  (s.waitStart? id).elim [] fun (group, w, k) => Watch.answers group w k

/-- The reports among the answers. -/
def reports (s : Session κ) (id : Nat) : List Notification :=
  (s.waitStart? id).elim [] fun (group, w, k) => Watch.reports group w k

theorem waitStart?_eq (found : s.shell.jobs.find? id = some job) (hgroup : job.group = some group) :
    s.waitStart? id = some (group, .start { job with mode := .foreground },
      s.shell.terminal.giveTo group s.kernel) := by
  simp only [waitStart?, found, hgroup, Option.bind_some, Option.map_some]

theorem vigil_eq (found : s.shell.jobs.find? id = some job) (hgroup : job.group = some group) :
    s.vigil id = Watch.vigil group (.start { job with mode := .foreground })
      (s.shell.terminal.giveTo group s.kernel) := by
  simp only [vigil, waitStart?_eq found hgroup, Option.elim_some]

theorem answers_eq (found : s.shell.jobs.find? id = some job) (hgroup : job.group = some group) :
    s.answers id = Watch.answers group (.start { job with mode := .foreground })
      (s.shell.terminal.giveTo group s.kernel) := by
  simp only [answers, waitStart?_eq found hgroup, Option.elim_some]

theorem reports_eq (found : s.shell.jobs.find? id = some job) (hgroup : job.group = some group) :
    s.reports id = Watch.reports group (.start { job with mode := .foreground })
      (s.shell.terminal.giveTo group s.kernel) := by
  simp only [reports, waitStart?_eq found hgroup, Option.elim_some]

/-- Waiting for a tracked job concludes the run of its watch. -/
theorem waitForeground_eq (found : s.shell.jobs.find? id = some job)
    (hgroup : job.group = some group) {failure : Option Errno} {w : Watch} {k : κ}
    (run : Watch.run group (.start { job with mode := .foreground })
      (s.shell.terminal.giveTo group s.kernel) = (failure, w, k)) :
    ∃ kernel, s.waitForeground id =
      { s with kernel }.concludeWait id ⟨w.result failure, w.job, w.seen⟩ := by
  obtain ⟨kernel, foreground⟩ :=
    s.shell.terminal.runForeground_eq { job with mode := .foreground } hgroup run
  exact ⟨kernel, by simp only [waitForeground, found, foreground]⟩

end Session

end JobControl
