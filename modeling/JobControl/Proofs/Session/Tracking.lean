import JobControl.Machine.System
import JobControl.Proofs.Job.Tracked
import JobControl.Proofs.Session.Operations
import JobControl.Proofs.Session.Steps

/-!
# Every job in the table is tracked

Between two operations every entry of the table holds a tracked job under its own number, whatever
the system answered (`tracked_between_operations`).  An operation may leave the job it works on in
another state meanwhile; `JobTable.TrackedBut` is what then holds of the others, and the step that
ends the operation takes the job out or makes it a tracked job again.
-/

set_option autoImplicit false

namespace JobControl

/-! ## Tables of tracked jobs -/

namespace JobTable

variable {t : JobTable} {id : Nat} {f : Job → Job}

/-- Every job but the one with this number is tracked under its own number. -/
def TrackedBut (id : Nat) (t : JobTable) : Prop :=
  ∀ e ∈ t.entries, e.id ≠ id → e.job.Tracked e.id

/-- Every job is tracked under its own number. -/
def AllTracked (t : JobTable) : Prop :=
  ∀ e ∈ t.entries, e.job.Tracked e.id

theorem AllTracked.but (h : t.AllTracked) (id : Nat) : t.TrackedBut id :=
  fun e he _ => h e he

theorem TrackedBut.erase (h : t.TrackedBut id) : (t.erase id).AllTracked := by
  intro e he
  obtain ⟨he, hne⟩ := mem_erase.mp he
  exact h e he hne

theorem TrackedBut.modify (h : t.TrackedBut id) (f : Job → Job) :
    (t.modify id f).TrackedBut id := by
  intro e he hne
  rcases cases_of_mem_modify he with ⟨he, -⟩ | ⟨e', -, rfl, rfl⟩
  · exact h e he hne
  · exact absurd rfl hne

/-- A change that makes the job tracked makes all of them tracked. -/
theorem TrackedBut.restore (h : t.TrackedBut id)
    (tracked : ∀ e ∈ t.entries, e.id = id → (f e.job).Tracked id) :
    (t.modify id f).AllTracked := by
  intro e he
  rcases cases_of_mem_modify he with ⟨he, hne⟩ | ⟨e', he', rfl, rfl⟩
  · exact h e he hne
  · exact tracked e' he' rfl

/-- A registration leaves the jobs that were there tracked. -/
theorem AllTracked.register {t' : JobTable} {job : Job} (h : t.AllTracked)
    (registered : t.register job = .ok (id, t')) : t'.TrackedBut id := by
  intro e he hne
  rcases (mem_of_register registered).mp he with rfl | he
  · exact absurd rfl hne
  · exact h e he

/-- A report leaves all jobs tracked: the job it is about leaves the table if it is over, and
otherwise has a stage that has not ended. -/
theorem AllTracked.settle (h : t.AllTracked) (change : StatusChange) :
    (t.settle change).AllTracked := by
  rcases settle_eq t change with ⟨-, same⟩ | ⟨e, he, -, -, settled⟩
  · rw [same]
    exact h
  · rw [settled]
    split
    case isTrue => exact ((h.but e.id).modify _).erase
    case isFalse concluded =>
      refine (h.but e.id).restore fun e' he' hid => ?_
      obtain rfl := eq_of_id_eq he he' hid.symm
      have tracked := h e he
      refine ⟨tracked.toSound.advances (.apply e.job change), tracked.background, ?_⟩
      exact Job.isOver_eq_false_iff.mp (Bool.eq_false_iff.mpr concluded)

theorem AllTracked.reap (h : t.AllTracked) (reports : List Notification) :
    (t.reap reports).table.AllTracked := by
  rw [table_reap]
  induction reports.filterMap Notification.change? generalizing t with
  | nil => exact h
  | cons change rest ih => exact ih (h.settle change)

end JobTable

/-! ## The operations -/

namespace Session

variable {κ : Type} [Kernel κ] {s : Session κ} {id : Nat} {job : Job}

/-- While a job is waited for it only advances. -/
theorem waitInvariant_advances (group : Pid) (job : Job) :
    WaitInvariant group fun w (_ : κ) => job.Advances w.job where
  report := by
    intro w k n k' _ later _
    unfold Watch.observe
    split
    · exact later.trans (.apply w.job _)
    · exact later
  failed := fun _ _ _ _ _ later _ => later

/-- A wait for a sound job leaves all jobs tracked. -/
theorem allTracked_waitForeground (others : s.shell.jobs.TrackedBut id)
    (found : s.shell.jobs.find? id = some job) (sound : job.Sound id) :
    (s.waitForeground id).2.shell.jobs.AllTracked := by
  obtain ⟨group, hgroup⟩ := sound.exists_group
  obtain ⟨w, result, kernel, later, ended, eq⟩ :=
    waitForeground_rule found hgroup (waitInvariant_advances group { job with mode := .foreground })
      (fun _ => .const _) (.refl _)
  have stopped : result ≠ .ok .finished → Job.Tracked id { w.job with mode := .background } :=
    fun h => ⟨((sound.withMode .foreground).advances later).withMode .background, rfl, ended.live h⟩
  rw [eq]
  rcases result with e | (_ | reportedAll)
  · exact others.restore fun _ _ _ => stopped (by simp)
  · rw [concludeWait, shell_removeJob]
    exact others.erase
  · exact others.restore fun _ _ _ => stopped (by simp)

/-- A launch of a fresh job leaves all jobs tracked. -/
theorem allTracked_launchTracked (others : s.shell.jobs.TrackedBut id)
    (found : s.shell.jobs.find? id = some job) (fresh : job.Fresh) (numbered : job.id = some id)
    (external : job.isBuiltin = false) : (s.launchTracked id).2.shell.jobs.AllTracked := by
  rcases launchTracked_rule found fresh (.const True) trivial with
    ⟨e, kernel, changed, -, eq⟩ | ⟨l, pids, launched, kernel, after, shape, started, -, hl, ha, eq⟩
  · rw [eq, shell_removeJob]
    exact (others.modify fun _ => changed).erase
  · rw [← fresh.group] at shape
    obtain ⟨sound, live⟩ := fresh.sound numbered external shape started
    rw [eq]
    subst ha
    split
    case isTrue background =>
      -- left to itself, with a first stage that runs
      refine others.restore fun _ _ _ => ?_
      rw [hl]
      exact ⟨sound, background, live⟩
    case isFalse =>
      have relaunched : (s.shell.jobs.modify id fun _ => launched).find? id = some launched :=
        JobTable.find?_modify found
      refine allTracked_waitForeground (others.modify fun _ => launched) relaunched ?_
      rw [hl]
      exact sound

theorem allTracked_fg (h : s.shell.jobs.AllTracked) : s.fg.2.shell.jobs.AllTracked := by
  cases s.fg_cases with
  | missing recent fg => rw [fg]; exact h
  | groupless e he group fg => rw [fg]; exact h
  | refused e he pgid group cause kernel answer fg => rw [fg]; exact h
  | resumed e he pgid group kernel answer after marked fg =>
    rw [fg, marked]
    have found :
        (s.shell.jobs.modify e.id Job.markContinued).find? e.id = some e.job.markContinued :=
      JobTable.find?_modify (JobTable.find?_of_mem he)
    exact allTracked_waitForeground ((h.but e.id).modify _) found
      ((h e he).toSound.advances (.markContinued e.job))

theorem allTracked_bg (h : s.shell.jobs.AllTracked) : s.bg.2.shell.jobs.AllTracked := by
  cases s.bg_cases with
  | missing bg => rw [bg]; exact h
  | groupless e he group bg => rw [bg]; exact h
  | refused e he pgid group cause kernel answer bg => rw [bg]; exact h
  | resumed e he pgid group kernel answer bg =>
    rw [bg]
    refine (h.but e.id).restore fun e' he' hid => ?_
    obtain rfl := JobTable.eq_of_id_eq he he' hid.symm
    have sound := (h e he).toSound.advances (.markContinued e.job)
    exact ⟨sound.withMode .background, rfl, (h e he).live_markContinued⟩

theorem allTracked_run (h : s.shell.jobs.AllTracked) (line : String) :
    (s.run line).2.shell.jobs.AllTracked := by
  cases s.run_cases line with
  | faulty fault parsed run => rw [run]; exact h
  | blank parsed run => rw [run]; exact h
  | tracked job parsed fresh external id jobs registered run =>
    rw [run]
    exact allTracked_launchTracked (h.register registered) (JobTable.find?_of_register registered)
      (fresh.withId (some id)) rfl external
  | untracked job parsed fresh external full run =>
    simp only [run, shell_launchUntracked fresh, shell_log]
    exact h
  | builtin job parsed fresh stage rest stages builtin run =>
    rw [run]
    have first : ((s.log (.builtinRun stage.program)).runStage stage).2.shell.jobs.AllTracked := by
      unfold runStage
      split
      · exact h
      · rw [jobs_cd]
        exact h
      · exact allTracked_fg h
      · exact allTracked_bg h
      · exact h
    cases s.runBuiltin_cases stages with
    | failed e after answer run => rw [run]; rw [answer] at first; exact first
    | done text after answer last run => rw [run]; rw [answer] at first; exact first
    | piped text after answer more run =>
      rw [answer] at first
      simp only [run, shell_launchUntracked (fresh.tail stages more)]
      exact first

theorem allTracked_perform (h : s.shell.jobs.AllTracked) (operation : Operation) :
    (s.perform operation).shell.jobs.AllTracked := by
  cases operation with
  | run line => exact allTracked_run h line
  | poll => exact h.reap (drain s.kernel).1
  | fg => exact allTracked_fg h
  | bg => exact allTracked_bg h
  | cd arguments =>
    simp only [perform, jobs_cd]
    exact h
  | exit => exact h
  | listJobs => exact h

/-- In every session that a shell can be in, all jobs are tracked. -/
theorem allTracked_of_reachable {settings : Settings} {login : Login}
    (reachable : Reachable settings login s) : s.shell.jobs.AllTracked := by
  induction reachable with
  | start k =>
    intro e he
    cases he
  | perform s operation _ ih => exact allTracked_perform ih operation
  | elapse s kernel _ ih => exact ih

/-- Among tracked jobs the one to resume in the foreground is missing only if there is no job. -/
theorem fg_eq_noBackgroundJob_iff (h : s.shell.jobs.AllTracked) :
    s.fg.1 = .error (.builtin .noBackgroundJob) ↔ s.shell.jobs.entries = [] := by
  constructor
  · intro reply
    cases s.fg_cases with
    | missing recent fg =>
      refine List.eq_nil_iff_forall_not_mem.mpr fun e he => ?_
      have foreground := JobTable.mostRecent?_eq_none_iff.mp recent e he
      rw [(h e he).background] at foreground
      cases foreground
    | groupless e he group fg => rw [fg] at reply; cases reply
    | refused e he pgid group cause kernel answer fg => rw [fg] at reply; cases reply
    | resumed e he pgid group kernel answer after marked fg =>
      rw [fg] at reply
      obtain ⟨cause, hcause⟩ := reply_waitForeground (error_of_map reply)
      cases hcause
  · intro empty
    have none : s.shell.jobs.mostRecentBackground? = none := by
      refine JobTable.mostRecent?_eq_none_iff.mpr fun e he => ?_
      rw [empty] at he
      cases he
    simp only [fg, none]

/-- **The table between two operations.**  Every job in it is tracked under its own number and has
not ended, and there is no job to resume in the foreground only if there is no job at all. -/
theorem tracked_between_operations (settings : Settings) (login : Login)
    (reachable : Reachable settings login s) :
    (∀ e ∈ s.shell.jobs.entries,
        e.job.Tracked e.id ∧ e.job.isComplete = false ∧ e.job.isFinished = false) ∧
      (s.fg.1 = .error (.builtin .noBackgroundJob) ↔ s.shell.jobs.entries = []) := by
  have tracked := allTracked_of_reachable reachable
  refine ⟨fun e he => ⟨tracked e he, ?_⟩, fg_eq_noBackgroundJob_iff tracked⟩
  have unfinished := Job.isOver_eq_false_iff.mpr (tracked e he).live
  rw [Job.isOver_eq] at unfinished
  exact Bool.or_eq_false_iff.mp unfinished

/-- A shell that has run one job in the background has one tracked job. -/
theorem tracked_after_background_job :
    ∃ s : Session Machine, s.shell.jobs.entries.map (fun e => e.job.command) = ["sleep 9"] ∧
      (∀ e ∈ s.shell.jobs.entries,
        e.job.Tracked e.id ∧ e.job.isComplete = false ∧ e.job.isFinished = false) ∧
      (s.fg.1 = .error (.builtin .noBackgroundJob) ↔ s.shell.jobs.entries = []) :=
  ⟨_, by decide +kernel,
    tracked_between_operations ⟨true, "$ ", 2, false⟩ ⟨"user", "/"⟩
      (.perform _ (.run "sleep 9 &") (.start (Machine.boot .bare FileTree.root .sink)))⟩

end Session

end JobControl
