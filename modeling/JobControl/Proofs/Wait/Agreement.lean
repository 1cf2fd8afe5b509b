import JobControl.Machine.System
import JobControl.Proofs.Kernel.Host
import JobControl.Proofs.Poll.Stops
import JobControl.Proofs.Session.Steps
import JobControl.Proofs.Wait.Vigil

/-!
# Waiting and polling agree

A job can be followed in two ways.  A wait in the foreground takes the reports of its group until no
launched stage runs, and asks then which processes were silent and whether some stage is suspended.
A poll takes all reports there are, asks after each whether the job is over, and at the end whether
all its unfinished stages are suspended.

The two ask different questions of the job, but come to the same.  As long as the stages without a
process count as ended, no launched stage runs exactly if the unfinished ones are suspended
(`Job.isStopped_eq`), so a wait takes no report after the one that ends the job
(`Watch.ending?_reports`).  And if no stage was suspended at first, each unfinished one must have
reported by then, so no process was silent (`Watch.silent_eq_nil`).
`Session.wait_agrees_with_poll` puts this together: the reports that a wait takes, given to one poll
instead, leave the job in the same state, take it out of the table in the same cases, and announce
its stop in the same cases with the same text.
-/

set_option autoImplicit false

namespace JobControl

/-! ## Jobs in which nothing runs -/

namespace Job

variable {j : Job} {change : StatusChange} {changes : List StatusChange}

theorem running_eq_zero_iff : j.running = 0 ↔ ∀ s ∈ j.stages, s.isRunning = false := by
  simp [running, List.countP_eq_zero]

theorem running_eq_zero_of_isOver (h : j.isOver = true) : j.running = 0 := by
  refine running_eq_zero_iff.mpr fun s hs => ?_
  have ended : s.status.isFinished = true := List.all_eq_true.mp h s hs
  simp [Stage.isRunning, Stage.isOutstanding, ended]

/-- A job is stopped exactly if no launched stage of it runs. -/
theorem isStopped_eq (abandoned : ∀ s ∈ j.stages, s.pid = none → s.status = .terminated) :
    j.isStopped = decide (j.running = 0) := by
  rw [Bool.eq_iff_iff, decide_eq_true_iff, running_eq_zero_iff]
  simp only [isStopped, List.all_eq_true, List.mem_filter, Bool.not_eq_true', and_imp]
  refine forall₂_congr fun s hs => ?_
  have launched : s.status.isFinished = false → s.pid.isSome = true := by
    intro unfinished
    by_contra none
    rw [abandoned s hs (by simpa using none)] at unfinished
    cases unfinished
  constructor
  · intro stopped
    cases ended : s.status.isFinished with
    | true => simp [Stage.isRunning, Stage.isOutstanding, ended]
    | false =>
      have suspended := stopped ended
      simp only [beq_iff_eq] at suspended
      simp [Stage.isRunning, suspended]
  · intro idle unfinished
    have some_pid := launched unfinished
    simpa [Stage.isRunning, Stage.isOutstanding, some_pid, unfinished] using idle

theorem advances_after (j : Job) (changes : List StatusChange) : j.Advances (j.after changes) := by
  induction changes generalizing j with
  | nil => exact .refl j
  | cons change rest ih => exact (Advances.apply j change).trans (ih (j.apply change))

theorem after_withMode (j : Job) (mode : JobMode) (changes : List StatusChange) :
    after { j with mode } changes = { j.after changes with mode } := by
  induction changes generalizing j with
  | nil => rfl
  | cons change rest ih => exact ih (j.apply change)

theorem ending?_nil (live : j.isOver = false) :
    j.ending? [] = if (j.after []).isOver then some (j.after []) else none :=
  (if_neg (by simp [after, live])).symm

/-- A job that is not over ends with a change exactly if it is over after it. -/
theorem ending?_cons (live : j.isOver = false) (change : StatusChange)
    (rest : List StatusChange) : j.ending? (change :: rest) =
      if (j.apply change).isOver then some (j.apply change) else (j.apply change).ending? rest := by
  rw [ending?]
  by_cases own : change.pid ∈ j.pids
  · simp only [own, true_and]
  · simp [own, apply_eq_self own, live]

theorem mem_modifyStage_of_ne {stages : List Stage} {pid : Pid} {f : Stage → Stage} {s : Stage}
    (hs : s ∈ stages) (other : s.pid ≠ some pid) : s ∈ modifyStage pid f stages := by
  induction stages with
  | nil => cases hs
  | cons t rest ih =>
    simp only [modifyStage]
    rcases List.mem_cons.mp hs with rfl | hs
    · rw [if_neg other]
      exact List.mem_cons_self
    · split
      · exact List.mem_cons_of_mem _ hs
      · exact List.mem_cons_of_mem t (ih hs)

/-- Of a job that is neither over nor running some stage is suspended. -/
theorem isSuspended_eq (abandoned : ∀ s ∈ j.stages, s.pid = none → s.status = .terminated)
    (idle : j.running = 0) : j.isSuspended = !j.isOver := by
  have stopped : j.isStopped = true := by rw [isStopped_eq abandoned, idle]; rfl
  cases closed : j.isOver with
  | true =>
    refine List.any_eq_false.mpr fun s hs suspended => ?_
    have ended : s.status.isFinished = true := List.all_eq_true.mp closed s hs
    rw [beq_iff_eq.mp suspended] at ended
    cases ended
  | false =>
    obtain ⟨s, hs, suspended⟩ := exists_suspended stopped closed
    exact List.any_eq_true.mpr ⟨s, hs, beq_iff_eq.mpr suspended⟩

end Job

/-! ## The watch of a wait -/

namespace Watch

variable {w : Watch}

theorem observe_eq (w : Watch) (n : Notification) :
    (n.change? = none ∧ w.observe n = w) ∨
      ∃ change, n.change? = some change ∧ w.observe n = w.record change := by
  unfold observe
  cases implied : n.change? with
  | none => exact Or.inl ⟨rfl, rfl⟩
  | some change => exact Or.inr ⟨change, rfl, rfl⟩

/-- A watch knows the job as the reports left it. -/
theorem job_foldl_observe (w : Watch) (reports : List Notification) :
    (reports.foldl observe w).job = w.job.after (changesOf reports) := by
  induction reports generalizing w with
  | nil => rfl
  | cons n rest ih =>
    rw [List.foldl_cons, ih]
    rcases w.observe_eq n with ⟨implied, same⟩ | ⟨change, implied, recorded⟩
    · rw [same, changesOf_cons_none implied]
    · rw [recorded, changesOf_cons_some implied]
      rfl

/-- The processes that have not reported are those of stages that run. -/
def SilentRun (w : Watch) : Prop :=
  ∀ pid ∈ w.silent, ∃ s ∈ w.job.stages, s.pid = some pid ∧ s.isRunning = true

theorem silentRun_start (job : Job) (unsuspended : ∀ s ∈ job.stages, s.status ≠ .suspended) :
    (start job).SilentRun := by
  intro pid hpid
  obtain ⟨s, hs, launched⟩ := List.mem_filterMap.mp hpid
  obtain ⟨hs, unfinished⟩ := List.mem_filter.mp hs
  refine ⟨s, hs, launched, ?_⟩
  simp only [Bool.not_eq_true'] at unfinished
  simp [Stage.isRunning, Stage.isOutstanding, launched, unfinished, unsuspended s hs]

theorem SilentRun.record (h : w.SilentRun) (change : StatusChange) :
    (w.record change).SilentRun := by
  intro pid hpid
  simp only [Watch.record] at hpid ⊢
  split at hpid
  case isTrue =>
    -- the process of the report has left the list, and the other stages are as they were
    obtain ⟨hpid, other⟩ := List.mem_filter.mp hpid
    obtain ⟨s, hs, launched, runs⟩ := h pid hpid
    have elsewhere : s.pid ≠ some change.pid := by
      intro same
      rw [launched] at same
      simp [Option.some.inj same] at other
    exact ⟨s, Job.mem_modifyStage_of_ne hs elsewhere, launched, runs⟩
  case isFalse unknown =>
    rw [Job.apply_eq_self fun own => unknown (Job.containsPid_iff.mpr own)]
    exact h pid hpid

theorem SilentRun.foldl_observe (h : w.SilentRun) (reports : List Notification) :
    (reports.foldl observe w).SilentRun := by
  induction reports generalizing w with
  | nil => exact h
  | cons n rest ih =>
    refine ih ?_
    rcases w.observe_eq n with ⟨-, same⟩ | ⟨change, -, recorded⟩
    · rwa [same]
    · rw [recorded]
      exact h.record change

/-- When nothing runs any more, every process has reported. -/
theorem SilentRun.silent_eq_nil (h : w.SilentRun) (idle : w.job.running = 0) : w.silent = [] := by
  refine List.eq_nil_iff_forall_not_mem.mpr fun pid hpid => ?_
  obtain ⟨s, hs, -, runs⟩ := h pid hpid
  rw [Job.running_eq_zero_iff.mp idle s hs] at runs
  cases runs

/-- A watch after which nothing runs says whether the job is over; if it is not, every process has
reported. -/
theorem SilentRun.outcome_eq (h : w.SilentRun)
    (abandoned : ∀ s ∈ w.job.stages, s.pid = none → s.status = .terminated)
    (idle : w.job.running = 0) :
    w.outcome = if w.job.isOver then .finished else .suspended true := by
  rw [outcome, Job.isSuspended_eq abandoned idle, h.silent_eq_nil idle]
  cases w.job.isOver <;> rfl

variable {κ : Type} [Kernel κ]

/-- **A wait takes no report after the one that ends the job**, so that one ends it as all of them
leave it.  The job that is watched may be in another mode. -/
theorem ending?_reports (group : Pid) (w : Watch) (k : κ) {j : Job} {mode : JobMode}
    (watched : w.job = { j with mode }) (live : j.isOver = false) :
    j.ending? (changesOf (reports group w k)) =
      if (j.after (changesOf (reports group w k))).isOver then
        some (j.after (changesOf (reports group w k)))
      else none := by
  fun_induction Watch.run group w k generalizing j with
  | case1 w k idle => rw [reports_of_idle idle]; exact Job.ending?_nil live
  | case2 w k busy n k' answer _ ih =>
    rw [reports_of_report busy answer]
    rcases w.observe_eq n with ⟨implied, same⟩ | ⟨change, implied, recorded⟩
    · rw [same] at ih ⊢
      rw [changesOf_cons_none implied]
      exact ih watched live
    · rw [recorded] at ih ⊢
      rw [changesOf_cons_some implied, Job.ending?_cons live]
      have watched' : (w.record change).job = { j.apply change with mode } := by
        simp only [Watch.record, watched]
        rfl
      cases closed : (j.apply change).isOver with
      | true =>
        -- nothing runs in a job that is over, so this was the last report
        have idle : (w.record change).job.running = 0 := by
          rw [watched']
          exact Job.running_eq_zero_of_isOver closed
        rw [reports_of_idle idle, if_pos rfl]
        exact (if_pos closed).symm
      | false => exact ih watched' closed
  | case3 w k busy k' answer _ ih =>
    rw [reports_of_interruption busy answer]
    exact ih watched live
  | case4 w k busy k' answer other =>
    rw [reports_of_failure busy answer other]
    exact Job.ending?_nil live
  | case5 w k busy e k' answer other =>
    rw [reports_of_failure busy answer other]
    exact Job.ending?_nil live

/-- **How a wait ends** for a job without suspended stages, if it is not told that there is no
child: the job is over; or it has stopped, and all its processes have reported; or an error cut the
wait short. -/
theorem result_cases {group : Pid} {job : Job} {k k' : κ} {failure : Option Errno}
    (run : Watch.run group (.start job) k = (failure, w, k'))
    (abandoned : ∀ s ∈ job.stages, s.pid = none → s.status = .terminated)
    (unsuspended : ∀ s ∈ job.stages, s.status ≠ .suspended)
    (children : .error .echild ∉ answers group (.start job) k) :
    (w.job.isOver = true ∧ w.result failure = .ok .finished) ∨
      (w.job.isOver = false ∧ w.job.isStopped = true ∧
        w.result failure = .ok (.suspended true)) ∨
      (w.job.isOver = false ∧ w.job.isStopped = false ∧
        ∃ cause, w.result failure = .error cause) := by
  have watched := run_watch group (.start job) k
  have ended := run_ended group (.start job) k children
  rw [run] at watched ended
  simp only at watched ended
  have silent : w.SilentRun := by
    rw [watched]
    exact (silentRun_start job unsuspended).foldl_observe _
  have abandoned' : ∀ s ∈ w.job.stages, s.pid = none → s.status = .terminated := by
    rw [watched, job_foldl_observe]
    exact (job.advances_after _).abandoned abandoned
  have stopped := Job.isStopped_eq abandoned'
  cases failure with
  | none =>
    have idle : w.job.running = 0 := ended
    have outcome := silent.outcome_eq abandoned' idle
    cases closed : w.job.isOver with
    | true => exact Or.inl ⟨rfl, by rw [result, outcome, closed]; rfl⟩
    | false =>
      refine Or.inr (Or.inl ⟨rfl, ?_, by rw [result, outcome, closed]; rfl⟩)
      rw [stopped, idle]
      rfl
  | some cause =>
    have busy : w.job.running ≠ 0 := ended
    refine Or.inr (Or.inr ⟨?_, by simp [stopped, busy], cause, rfl⟩)
    exact Bool.eq_false_iff.mpr fun closed => busy (Job.running_eq_zero_of_isOver closed)

end Watch

/-! ## A poll of reports on one job -/

namespace JobTable

variable {t : JobTable} {e : TableEntry} {changes : List StatusChange}
  {reports : List Notification} {id : Nat} {job : Job}

/-- Changes of one job's processes concern no other entry. -/
theorem Apart.settleAll_of_ne (apart : t.Apart) (he : e ∈ t.entries)
    (own : ∀ change ∈ changes, change.pid ∈ e.job.pids) {e' : TableEntry} (he' : e' ∈ t.entries)
    (other : e'.id ≠ e.id) : e'.job.ending? changes = none ∧ e'.settleAll changes = some e' := by
  have elsewhere : ∀ change ∈ changes, change.pid ∉ e'.job.pids :=
    fun change hchange hpid => other (apart e' he' e he change.pid hpid (own change hchange))
  have stays : e'.job.ending? changes = none := by
    cases ends : e'.job.ending? changes with
    | none => rfl
    | some last =>
      obtain ⟨⟨change, hchange, hpid⟩, -⟩ := Job.isOver_of_ending? ends
      exact absurd hpid (elsewhere change hchange)
  exact ⟨stays, by rw [TableEntry.settleAll, stays, Job.after_eq_self elsewhere]⟩

/-- **Changes of one job's processes** end the job or change it, and do nothing else. -/
theorem Apart.settleAll_eq (apart : t.Apart) (he : e ∈ t.entries)
    (own : ∀ change ∈ changes, change.pid ∈ e.job.pids) : t.settleAll changes =
      match e.job.ending? changes with
      | some _ => t.erase e.id
      | none => t.modify e.id fun _ => e.job.after changes := by
  obtain ⟨capacity, registered⟩ := settleAll_frame t changes
  have others : ∀ e' ∈ t.entries, e'.id ≠ e.id → e'.settleAll changes = some e' :=
    fun e' he' other => (apart.settleAll_of_ne he own he' other).2
  cases ends : e.job.ending? changes with
  | some last =>
    show t.settleAll changes = t.erase e.id
    refine ext_entries ?_ capacity registered
    simp only [entries_settleAll apart, JobTable.erase, ← List.filterMap_eq_filter]
    refine List.filterMap_congr fun e' he' => ?_
    by_cases same : e'.id = e.id
    · obtain rfl := eq_of_id_eq he' he same
      simp [TableEntry.settleAll, ends, Option.guard]
    · simp [others e' he' same, same, Option.guard]
  | none =>
    show t.settleAll changes = t.modify e.id fun _ => e.job.after changes
    refine ext_entries ?_ capacity registered
    simp only [entries_settleAll apart, JobTable.modify, ← List.filterMap_eq_map]
    refine List.filterMap_congr fun e' he' => ?_
    by_cases same : e'.id = e.id
    · obtain rfl := eq_of_id_eq he' he same
      simp [TableEntry.settleAll, ends, TableEntry.modify]
    · simp [others e' he' same, same, TableEntry.modify]

/-- A poll that only heard of one job reports on that job or on none. -/
theorem Apart.id_of_mem_reports (apart : t.Apart) (he : e ∈ t.entries)
    (own : ∀ change ∈ changesOf reports, change.pid ∈ e.job.pids)
    (h : (id, job) ∈ (t.bulletin reports).reports) : id = e.id := by
  by_contra other
  rcases List.mem_append.mp h with ended | stopped
  · obtain ⟨e', he', hid, ends⟩ := (mem_ended apart).mp ended
    rw [(apart.settleAll_of_ne he own he' (hid ▸ other)).1] at ends
    cases ends
  · obtain ⟨found, -, change, hchange, -, hpid⟩ := (mem_stops_reap apart).mp stopped
    obtain ⟨e'', he'', hid, rfl⟩ := find?_eq_some_iff.mp found
    rw [table_reap_eq] at he''
    obtain ⟨e', he', -, rfl⟩ := (mem_settleAll apart).mp he''
    simp only at hid hpid
    rw [Job.pids_after] at hpid
    exact other (hid.symm.trans (apart e' he' e he change.pid hpid (own change hchange)))

/-- Such a poll prints its reports on that job. -/
theorem Apart.output_reap_eq (apart : t.Apart) (he : e ∈ t.entries)
    (own : ∀ change ∈ changesOf reports, change.pid ∈ e.job.pids) :
    (t.reap reports).output = Job.reports (t.reportsOn reports e.id) := by
  have all : t.reportsOn reports e.id = (t.bulletin reports).reports :=
    List.filter_eq_self.mpr fun ⟨_, _⟩ h => beq_iff_eq.mpr (apart.id_of_mem_reports he own h)
  rw [output_reap, all]
  rfl

/-- A job that a poll ends is reported once, as it ended. -/
theorem Apart.reportsOn_of_ending? (apart : t.Apart) (he : e ∈ t.entries)
    (ends : e.job.ending? (changesOf reports) = some job) :
    t.reportsOn reports e.id = [(e.id, job)] := by
  have listed : (e.id, job) ∈ t.ended (changesOf reports) :=
    (mem_ended apart).mpr ⟨e, he, rfl, ends⟩
  have gone : (t.reap reports).table.find? e.id = none := by
    rw [table_reap_eq]
    exact ((id_mem_ended_iff apart).mp (List.mem_map.mpr ⟨_, listed, rfl⟩)).2
  have no_stop : (t.reap reports).stops.filter (·.1 == e.id) = [] := by
    refine List.filter_eq_nil_iff.mpr fun ⟨id, other⟩ hstop same => ?_
    obtain rfl : id = e.id := beq_iff_eq.mp same
    have found := ((mem_stops_reap apart).mp hstop).1
    rw [gone] at found
    cases found
  rw [reportsOn, Bulletin.reports, List.filter_append]
  show (t.ended (changesOf reports)).filter _ ++ (t.reap reports).stops.filter _ = _
  rw [filter_fst_eq_singleton (nodup_ended apart _) listed, no_stop, List.append_nil]

/-- **A poll that only hears of one job**, which had no suspended stage, and of nothing after its
end: the job leaves with a last report, or it stays and is reported if it has stopped. -/
theorem Apart.reap_eq (apart : t.Apart) (he : e ∈ t.entries)
    (own : ∀ change ∈ changesOf reports, change.pid ∈ e.job.pids)
    (unsuspended : ∀ s ∈ e.job.stages, s.status ≠ .suspended)
    (after : e.job.after (changesOf reports) = job)
    (ends : e.job.ending? (changesOf reports) = if job.isOver then some job else none) :
    (t.reap reports).table = (if job.isOver then t.erase e.id else t.modify e.id fun _ => job) ∧
      (t.reap reports).output = if job.isOver || job.isStopped then job.report e.id else "" := by
  have settled := apart.settleAll_eq he own
  rw [ends, after] at settled
  have single : Job.reports [(e.id, job)] = job.report e.id := by simp [Job.reports]
  rw [table_reap_eq, apart.output_reap_eq he own]
  cases closed : job.isOver with
  | true =>
    rw [closed] at settled ends
    exact ⟨settled, by rw [apart.reportsOn_of_ending? he ends, single]; rfl⟩
  | false =>
    rw [closed] at settled ends
    have stays : { e with job := job } ∈ (t.reap reports).table.entries := by
      rw [table_reap_eq]
      exact (mem_settleAll apart).mpr ⟨e, he, ends, by rw [after]⟩
    refine ⟨settled, ?_⟩
    rw [reportsOn_of_mem apart stays]
    cases stopped : job.isStopped with
    | true =>
      -- some stage is suspended now and none was before, so one of the changes suspended it
      obtain ⟨s, hs, suspended⟩ := Job.exists_suspended stopped closed
      rw [← after] at hs
      have announced := (Job.suspended_of_after hs suspended).resolve_left (by
        rintro ⟨r, hr, before⟩
        exact unsuspended r hr before)
      have pids : job.pids = e.job.pids := by rw [← after, Job.pids_after]
      rw [if_pos ⟨rfl, by rwa [pids]⟩, single]
      rfl
    | false => simp [Job.reports]

end JobTable

/-! ## One job, waited for or polled -/

namespace Session

variable {κ : Type} [Kernel κ] {s : Session κ} {e : TableEntry} {group : Pid}

/-- **What a wait knows when it ends**, if it is not told that there is no child: the job is as the
reports left it.  Either it is over, or it has stopped, or an error cut the wait short. -/
theorem waitForeground_known (he : e ∈ s.shell.jobs.entries) (hgroup : e.job.group = some group)
    (abandoned : ∀ stage ∈ e.job.stages, stage.pid = none → stage.status = .terminated)
    (unsuspended : ∀ stage ∈ e.job.stages, stage.status ≠ .suspended)
    (children : .error .echild ∉ s.answers e.id) :
    ∃ (job : Job) (result : Except Errno WaitOutcome) (seen : List StatusChange) (kernel : κ),
      job = e.job.after (changesOf (s.reports e.id)) ∧
      (s.shell.terminal.runForeground { e.job with mode := .foreground } s.kernel).1.job =
        { job with mode := .foreground } ∧
      s.waitForeground e.id = { s with kernel }.concludeWait e.id
        ⟨result, { job with mode := .foreground }, seen⟩ ∧
      ((job.isOver = true ∧ result = .ok .finished) ∨
        (job.isOver = false ∧ job.isStopped = true ∧ result = .ok (.suspended true)) ∨
        (job.isOver = false ∧ job.isStopped = false ∧ ∃ cause, result = .error cause)) := by
  have found := JobTable.find?_of_mem he
  obtain ⟨failure, w, k, run⟩ : ∃ failure w k,
      Watch.run group (.start { e.job with mode := .foreground })
        (s.shell.terminal.giveTo group s.kernel) = (failure, w, k) := ⟨_, _, _, rfl⟩
  obtain ⟨kernel, foreground⟩ :=
    s.shell.terminal.runForeground_eq { e.job with mode := .foreground } hgroup run
  obtain ⟨kernel', concluded⟩ := waitForeground_eq found hgroup run
  have known : w.job = { e.job.after (changesOf (s.reports e.id)) with mode := .foreground } := by
    have watched := Watch.run_watch group (.start { e.job with mode := .foreground })
      (s.shell.terminal.giveTo group s.kernel)
    rw [run, ← reports_eq found hgroup] at watched
    simp only at watched
    rw [watched, Watch.job_foldl_observe]
    exact Job.after_withMode e.job .foreground _
  have ways := Watch.result_cases run abandoned unsuspended (answers_eq found hgroup ▸ children)
  rw [known] at concluded ways
  refine ⟨_, w.result failure, w.seen, kernel', rfl, ?_, concluded, ways⟩
  rw [foreground, known]

/-- **Waiting and polling agree.**  Let no two stages of the table have the same process, and let a
job with a group be waited for that is not over, has no suspended stage, and whose stages without a
process count as terminated.  Let the reports that the wait takes be about the job's own processes,
and let it not be told that there is no child.  Then one poll with these reports leaves the job in
the state in which the wait leaves it, up to its mode; both take it out of the table if it is over
then, and otherwise leave it there; and the rest of the table is the same.

If the job is over, the poll prints a last report and the wait nothing.  If it has stopped, both
print the report on it.  Otherwise the wait was cut short by an error, and neither reports on it. -/
theorem wait_agrees_with_poll (distinct : s.shell.jobs.pids.Nodup)
    (he : e ∈ s.shell.jobs.entries) (hgroup : e.job.group = some group)
    (abandoned : ∀ stage ∈ e.job.stages, stage.pid = none → stage.status = .terminated)
    (live : ∃ stage ∈ e.job.stages, stage.status.isFinished = false)
    (unsuspended : ∀ stage ∈ e.job.stages, stage.status ≠ .suspended)
    (own : ∀ change ∈ changesOf (s.reports e.id), change.pid ∈ e.job.pids)
    (children : .error .echild ∉ s.answers e.id) :
    let job := e.job.after (changesOf (s.reports e.id))
    let polled := s.shell.jobs.reap (s.reports e.id)
    let waited := s.waitForeground e.id
    (s.shell.terminal.runForeground { e.job with mode := .foreground } s.kernel).1.job =
      { job with mode := .foreground } ∧
    polled.table = (if job.isOver then s.shell.jobs.erase e.id
      else s.shell.jobs.modify e.id fun _ => job) ∧
    waited.2.shell.jobs = (if job.isOver then s.shell.jobs.erase e.id
      else s.shell.jobs.modify e.id fun _ => { job with mode := .background }) ∧
    ((job.isOver = true ∧ polled.output = job.report e.id ∧ waited.1 = .ok "") ∨
      (job.isOver = false ∧ job.isStopped = true ∧ polled.output = job.report e.id ∧
        waited.1 = .ok (job.report e.id)) ∨
      (job.isOver = false ∧ job.isStopped = false ∧ polled.output = "" ∧
        ∃ cause, waited.1 = .error (.wait cause))) := by
  intro job polled waited
  have apart := JobTable.Apart.of_nodup distinct
  obtain ⟨known, result, seen, kernel, rfl, foreground, concluded, ways⟩ :=
    waitForeground_known he hgroup abandoned unsuspended children
  -- the wait took no report after the one that ended the job
  have ends := Watch.ending?_reports group (.start { e.job with mode := .foreground })
    (s.shell.terminal.giveTo group s.kernel) rfl (Job.isOver_eq_false_iff.mpr live)
  rw [← reports_eq (JobTable.find?_of_mem he) hgroup] at ends
  obtain ⟨table, output⟩ := apart.reap_eq he own unsuspended rfl ends
  refine ⟨foreground, table, ?_⟩
  rcases ways with ⟨ended, rfl⟩ | ⟨left, stopped, rfl⟩ | ⟨left, active, cause, rfl⟩
  · have gone : job.isOver = true := ended
    rw [gone] at output ⊢
    refine ⟨?_, Or.inl ⟨rfl, output, ?_⟩⟩
    · simp only [waited, concluded, concludeWait, shell_removeJob, if_true]
    · simp only [waited, concluded, concludeWait]
  · have stays : job.isOver = false := left
    have halted : job.isStopped = true := stopped
    rw [stays, halted] at output ⊢
    refine ⟨?_, Or.inr (Or.inl ⟨rfl, rfl, output, ?_⟩)⟩
    · simp only [waited, concluded, concludeWait, shell_modifyJob]
      rfl
    · simp only [waited, concluded, concludeWait, if_true]
      rfl
  · have stays : job.isOver = false := left
    have unhalted : job.isStopped = false := active
    rw [stays, unhalted] at output ⊢
    refine ⟨?_, Or.inr (Or.inr ⟨rfl, rfl, output, cause, ?_⟩)⟩
    · simp only [waited, concluded, concludeWait, shell_modifyJob, shell_log]
      rfl
    · simp only [waited, concluded, concludeWait]

/-- A session with the running pipeline `JobTable.pipeline`.  While it is waited for, the first
stage stops, goes on and exits, and then the second one stops. -/
def halting : Session (Host Machine) where
  shell :=
    ⟨⟨true, "$ ", 1, false⟩, "/", "/", ⟨900, false⟩, .pipeline, false⟩
  kernel :=
    ⟨Machine.boot .bare FileTree.root .sink, [⟨100, 100, false, none⟩, ⟨101, 100, false, none⟩],
      [⟨[(100, .stopped .tstp)], 0, none⟩, ⟨[(100, .continued)], 0, none⟩,
        ⟨[(100, .exited 0)], 0, some .eintr⟩, ⟨[], 0, none⟩, ⟨[(101, .stopped .stop)], 0, none⟩], []⟩

/-- Its wait and a poll with the same reports announce the same stop. -/
theorem wait_agrees_with_poll_halting :
    halting.reports 1 =
        [.stopped 100 .tstp, .continued 100, .exited 100 0, .stopped 101 .stop] ∧
      (halting.shell.jobs.reap (halting.reports 1)).output =
        "[1]\t100\tdone\ta|\n\t101\tsuspended\tb\n" ∧
      (halting.waitForeground 1).1 = .ok "[1]\t100\tdone\ta|\n\t101\tsuspended\tb\n" := by
  have taken : halting.reports 1 =
      [.stopped 100 .tstp, .continued 100, .exited 100 0, .stopped 101 .stop] := by decide +kernel
  have agree := wait_agrees_with_poll (s := halting) (e := ⟨1, 0, ⟨some 1, some 100, .background,
    "a | b", [.named "a" 100 .running, .named "b" 101 .running]⟩⟩) (by decide +kernel)
    (by decide +kernel) rfl (by decide) (by decide) (by decide)
    (by simp only [taken]; decide) (by decide +kernel)
  simp only [taken] at agree ⊢
  obtain ⟨-, -, -, ⟨ended, -⟩ | ⟨-, -, polled, waited⟩ | ⟨-, active, -⟩⟩ := agree
  · revert ended
    decide
  · exact ⟨trivial, polled.trans (by decide), waited.trans (by decide)⟩
  · revert active
    decide

end Session

end JobControl
