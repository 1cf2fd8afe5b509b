import JobControl.Machine.System
import JobControl.Proofs.Wait.Results

/-!
# What a wait in the foreground comes to

`Job.WaitAccount` says everything about one wait in terms of the results it takes: when it asks for
one, when it ends, what it knows of the job then, and which outcome it gives.  It holds of every wait
for a job whose stages were launched as different processes (`Job.wait_follows_results`).  Its last
part is what the shell relies on: if no stage was suspended at first, a wait that leaves a job behind
has heard of all of it, so the job is never kept without its report being printed.
-/

set_option autoImplicit false

namespace JobControl

variable {κ κ' : Type} [Kernel κ] [Kernel κ']

/-- **What a wait for a job makes of the results that it takes.** -/
structure Job.WaitAccount (job : Job) (group : Pid) (k : κ) (taken : List WaitResult) : Prop where
  /-- The system gives these results to one who asks for reports of the group. -/
  gives : Gives (Kernel.awaitGroup group) k taken (job.wait k).2
  /-- Whenever one is asked for, some launched stage has neither ended nor stopped. -/
  asks : ∀ before r after, taken = before ++ r :: after →
    ∃ s ∈ (job.told before).stages, s.isRunning = true
  /-- Only reports and interruptions come before the last one. -/
  goes_on : ∀ r ∈ taken.dropLast, WaitResult.goesOn r = true
  /-- It ends when no such stage is left, or with an error. -/
  stops : (∀ s ∈ (job.told taken).stages, s.isRunning = false) ∨
    ∃ e, taken.getLast? = some (.error e) ∧ e ≠ .eintr
  /-- Each stage has the status that was reported last, or the one it had. -/
  job_told : (job.wait k).1.job = job.told taken
  /-- The wait fails with an error other than an interruption and the lack of children. -/
  failed : ∀ e, (job.wait k).1.result = .error e ↔
    taken.getLast? = some (.error e) ∧ e ≠ .eintr ∧ e ≠ .echild
  /-- Otherwise the job counts as suspended if some stage is, and as finished if none is. -/
  suspended : ∀ outcome, (job.wait k).1.result = .ok outcome →
    ((∃ all, outcome = .suspended all) ↔ ∃ s ∈ (job.told taken).stages, s.status = .suspended)
  /-- The flag tells whether every stage has reported that was launched and had not ended. -/
  reportedAll : ∀ all, (job.wait k).1.result = .ok (.suspended all) →
    (all = true ↔ ∀ s ∈ job.stages, s.isOutstanding = true →
      ∃ change ∈ changesAmong taken, s.pid = some change.pid)
  /-- A job that counts as finished has no launched stage that has not ended. -/
  finished : (job.wait k).1.result = .ok .finished → .error .echild ∉ taken →
    ∀ s ∈ (job.told taken).stages, s.pid.isSome = true → s.status.isFinished = true
  /-- If no stage was suspended at first, all have reported when one is. -/
  announced : (∀ s ∈ job.stages, s.status ≠ .suspended) → .error .echild ∉ taken →
    ∀ all, (job.wait k).1.result = .ok (.suspended all) → all = true

namespace Watch

variable {w : Watch} {taken : List WaitResult} {failure : Option Errno}

/-- A watch that ends without an error, and was not told that there is no child, has nothing left to
wait for. -/
theorem Stops.running_eq_zero (stops : Stops taken w none) (children : .error .echild ∉ taken) :
    w.job.running = 0 := by
  cases stops with
  | idle idle => exact idle
  | childless last => exact absurd (List.mem_of_getLast? last) children

/-- Neither has one that only took reports and interruptions; and it ends without an error. -/
theorem Stops.idle_of_goesOn (stops : Stops taken w failure)
    (all : ∀ r ∈ taken, WaitResult.goesOn r = true) : failure = none ∧ w.job.running = 0 := by
  cases stops with
  | idle idle => exact ⟨rfl, idle⟩
  | childless last => cases all _ (List.mem_of_getLast? last)
  | failed last told => exact absurd (eq_of_beq (all _ (List.mem_of_getLast? last))) told

/-- If no stage was suspended at first, no process is silent when nothing runs any more. -/
theorem silent_eq_nil_of_unsuspended {job : Job} {reports : List Notification}
    (unsuspended : ∀ s ∈ job.stages, s.status ≠ .suspended)
    (idle : (reports.foldl observe (start job)).job.running = 0) :
    (reports.foldl observe (start job)).silent = [] :=
  ((silentRun_start job unsuspended).foldl_observe reports).silent_eq_nil idle

theorem Stops.failure_eq_some_iff (stops : Stops taken w failure) {e : Errno} :
    failure = some e ↔ taken.getLast? = some (.error e) ∧ e ≠ .eintr ∧ e ≠ .echild := by
  cases stops with
  | idle _ all =>
    refine ⟨fun h => (nomatch h), fun ⟨last, told, _⟩ => ?_⟩
    have goes_on := all _ (List.mem_of_getLast? last)
    exact absurd (eq_of_beq goes_on) told
  | childless last =>
    refine ⟨fun h => (nomatch h), fun ⟨last', _, children⟩ => ?_⟩
    rw [last] at last'
    cases last'
    exact absurd rfl children
  | @failed cause last told children =>
    constructor
    · rintro h
      cases h
      exact ⟨last, told, children⟩
    · rintro ⟨last', -, -⟩
      rw [last] at last'
      cases last'
      rfl

theorem result_eq_error_iff {e : Errno} : w.result failure = .error e ↔ failure = some e := by
  cases failure with
  | none => simp [result]
  | some cause => simp [result]

theorem result_eq_ok_iff {outcome : WaitOutcome} :
    w.result failure = .ok outcome ↔ failure = none ∧ w.outcome = outcome := by
  cases failure with
  | none => simp [result]
  | some cause => simp [result]

theorem outcome_eq_suspended_iff {all : Bool} :
    w.outcome = .suspended all ↔ w.job.isSuspended = true ∧ w.silent.isEmpty = all := by
  unfold outcome
  split
  case isTrue suspended => simp [suspended]
  case isFalse active => simp [active]

theorem outcome_eq_finished_iff : w.outcome = .finished ↔ w.job.isSuspended = false := by
  unfold outcome
  split
  case isTrue suspended => simp [suspended]
  case isFalse active => simp [active]

end Watch

namespace Job

variable {job : Job} {group : Pid}

theorem isSuspended_iff : job.isSuspended = true ↔ ∃ s ∈ job.stages, s.status = .suspended := by
  simp [isSuspended]

theorem running_ne_zero_iff : job.running ≠ 0 ↔ ∃ s ∈ job.stages, s.isRunning = true := by
  rw [Ne, running_eq_zero_iff]
  simp

theorem told_eq (distinct : job.pids.Nodup) (results : List WaitResult) :
    job.told results = job.after (changesAmong results) :=
  (after_eq_final distinct fun _ => rfl).symm

/-- **Every wait has its account.** -/
theorem waitAccount (distinct : job.pids.Nodup) (hgroup : job.group = some group) (k : κ) :
    job.WaitAccount group k (Watch.answers group (.start job) k) := by
  obtain ⟨failure, w, k', run⟩ : ∃ failure w k',
      Watch.run group (.start job) k = (failure, w, k') := ⟨_, _, _, rfl⟩
  obtain ⟨takes, gives⟩ := Watch.run_takes group (.start job) k
  have watched := Watch.run_watch group (.start job) k
  rw [run] at takes gives watched
  simp only at takes gives watched
  rw [Watch.reports] at watched
  generalize Watch.answers group (.start job) k = taken at takes gives watched
  have stops := takes.stops
  have known : w.job = job.told taken := takes.job_eq.trans (told_eq distinct taken).symm
  have wait := wait_eq hgroup run
  constructor
  case gives =>
    rw [wait]
    exact gives
  case asks =>
    intro before r after cut
    rw [told_eq distinct]
    exact running_ne_zero_iff.mp (takes.busy cut)
  case goes_on => exact takes.goesOn
  case stops =>
    rw [← known]
    cases stops with
    | idle idle => exact Or.inl (running_eq_zero_iff.mp idle)
    | childless last => exact Or.inr ⟨_, last, by decide⟩
    | failed last told => exact Or.inr ⟨_, last, told⟩
  case job_told =>
    rw [wait]
    exact known
  case failed =>
    intro e
    rw [wait]
    exact Watch.result_eq_error_iff.trans stops.failure_eq_some_iff
  case suspended =>
    intro outcome result
    rw [wait] at result
    obtain ⟨-, rfl⟩ := Watch.result_eq_ok_iff.mp result
    rw [← known, ← isSuspended_iff]
    simp only [Watch.outcome_eq_suspended_iff, exists_and_left, exists_eq', and_true]
  case reportedAll =>
    intro all result
    rw [wait] at result
    obtain ⟨-, outcome⟩ := Watch.result_eq_ok_iff.mp result
    obtain ⟨-, rfl⟩ := Watch.outcome_eq_suspended_iff.mp outcome
    rw [watched]
    exact Watch.silent_foldl_isEmpty_iff _
  case finished =>
    intro result children s hs launched
    rw [wait] at result
    obtain ⟨rfl, outcome⟩ := Watch.result_eq_ok_iff.mp result
    have active := Watch.outcome_eq_finished_iff.mp outcome
    rw [← known] at hs
    -- the stage does not run, and it is not suspended either
    have idle := running_eq_zero_iff.mp (stops.running_eq_zero children) s hs
    have unsuspended : s.status ≠ .suspended := fun h => by
      rw [isSuspended_iff.mpr ⟨s, hs, h⟩] at active
      cases active
    simpa [Stage.isRunning, Stage.isOutstanding, launched, unsuspended] using idle
  case announced =>
    intro unsuspended children all result
    rw [wait] at result
    obtain ⟨rfl, outcome⟩ := Watch.result_eq_ok_iff.mp result
    obtain ⟨-, rfl⟩ := Watch.outcome_eq_suspended_iff.mp outcome
    rw [watched, Watch.silent_eq_nil_of_unsuspended unsuspended
      (watched ▸ stops.running_eq_zero children)]
    rfl

/-- Two waits for a job with these processes, on foretold results, come to the same: the result, the
job, the changes of its own processes, and the results that tell about it and are left. -/
structure SameWait (pids : List Pid) (x : Waited × Foretold κ) (y : Waited × Foretold κ') :
    Prop where
  result : y.1.result = x.1.result
  job : y.1.job = x.1.job
  seen : (y.1.seen.filter fun change => change.pid ∈ pids) =
    x.1.seen.filter fun change => change.pid ∈ pids
  left : y.2.results.filter (WaitResult.tells pids) = x.2.results.filter (WaitResult.tells pids)

/-- **Results that do not tell about a job make no difference to a wait for it**, wherever they
come. -/
theorem sameWait_of_filter (hgroup : job.group = some group) (k : κ) (k' : κ')
    {results results' : List WaitResult} (same : results'.filter (WaitResult.tells job.pids) =
      results.filter (WaitResult.tells job.pids)) :
    SameWait job.pids (job.wait (Foretold.mk k results)) (job.wait (Foretold.mk k' results')) := by
  have ends := Watch.sameEnd_of_filter group (.start job) k k' same
  rcases run : Watch.run group (.start job) (Foretold.mk k results) with ⟨failure, w, f⟩
  rcases run' : Watch.run group (.start job) (Foretold.mk k' results') with ⟨failure', w', f'⟩
  rw [run, run'] at ends
  obtain rfl : failure' = failure := ends.failure
  have known : w'.job = w.job := ends.alike.job
  have silent : w'.silent = w.silent := ends.alike.silent
  have outcome : w'.outcome = w.outcome := by
    unfold Watch.outcome
    rw [known, silent]
  rw [wait_eq hgroup run, wait_eq hgroup run']
  refine ⟨?_, known, ends.alike.seen, ends.left⟩
  simp only [Watch.result, outcome]

end Job

/-- **A job without a suspended stage that is waited for leaves the table, or its report is
printed**, if only reports and interruptions come. -/
theorem Session.waitForeground_announces {s : Session κ} {id : Nat} {job : Job} {group : Pid}
    (found : s.shell.jobs.find? id = some job) (hgroup : job.group = some group)
    (unsuspended : ∀ stage ∈ job.stages, stage.status ≠ .suspended)
    (goes_on : ∀ r ∈ s.answers id, WaitResult.goesOn r = true) :
    ((s.waitForeground id).2.shell.jobs.find? id = none ∧ (s.waitForeground id).1 = .ok "") ∨
      ∃ kept, (s.waitForeground id).2.shell.jobs.find? id = some kept ∧
        kept.isSuspended = true ∧ (s.waitForeground id).1 = .ok (kept.report id) := by
  rcases run : Watch.run group (.start { job with mode := .foreground })
    (s.shell.terminal.giveTo group s.kernel) with ⟨failure, w, k'⟩
  obtain ⟨kernel, concluded⟩ := waitForeground_eq found hgroup run
  have stops := (Watch.run_takes group (.start { job with mode := .foreground })
    (s.shell.terminal.giveTo group s.kernel)).1.stops
  have watched := Watch.run_watch group (.start { job with mode := .foreground })
    (s.shell.terminal.giveTo group s.kernel)
  rw [run, ← answers_eq found hgroup] at stops
  rw [run] at watched
  obtain ⟨rfl, idle⟩ := stops.idle_of_goesOn goes_on
  have silent : w.silent = [] := by
    rw [show w = _ from watched] at idle ⊢
    exact Watch.silent_eq_nil_of_unsuspended unsuspended idle
  rw [concluded]
  cases suspended : w.job.isSuspended with
  | false =>
    have outcome : w.outcome = .finished := Watch.outcome_eq_finished_iff.mpr suspended
    refine Or.inl ?_
    simp only [Watch.result, outcome, concludeWait, shell_removeJob, and_true]
    exact JobTable.find?_eq_none_iff.mpr fun e he => (JobTable.mem_erase.mp he).2
  | true =>
    have outcome : w.outcome = .suspended true :=
      Watch.outcome_eq_suspended_iff.mpr ⟨suspended, by rw [silent]; rfl⟩
    refine Or.inr ⟨{ w.job with mode := .background }, ?_, suspended, ?_⟩
    · simp only [Watch.result, outcome, concludeWait, shell_modifyJob]
      exact JobTable.find?_modify found
    · simp only [Watch.result, outcome, concludeWait, if_true]

/-- **What comes of waiting for a job** whose stages were launched as different processes.  Without
a group it is finished at once, and nothing is asked.  Otherwise the results that the system gives
decide everything, as `Job.WaitAccount` says: another system that gives them does the same to the
job.  Results that do not tell about the job can be put in anywhere and make no difference.  And a
session that waits for such a job, none of whose stages was suspended, prints the report on it if it
keeps it. -/
theorem Job.wait_follows_results (job : Job) (distinct : job.pids.Nodup) :
    (job.group = none → ∀ k : κ, job.wait k = (⟨.ok .finished, job, []⟩, k)) ∧
    ∀ group, job.group = some group →
      (∀ k : κ, job.WaitAccount group k (Watch.answers group (.start job) k) ∧
        ∀ other later : κ',
          Gives (Kernel.awaitGroup group) other (Watch.answers group (.start job) k) later →
            job.wait other = ((job.wait k).1, later)) ∧
      (∀ (k : κ) (k' : κ') (results results' : List WaitResult),
        results'.filter (WaitResult.tells job.pids) = results.filter (WaitResult.tells job.pids) →
          SameWait job.pids (job.wait (Foretold.mk k results))
            (job.wait (Foretold.mk k' results'))) ∧
      ∀ (s : Session κ) (id : Nat), s.shell.jobs.find? id = some job →
        (∀ stage ∈ job.stages, stage.status ≠ .suspended) →
        (∀ r ∈ s.answers id, WaitResult.goesOn r = true) →
          ((s.waitForeground id).2.shell.jobs.find? id = none ∧ (s.waitForeground id).1 = .ok "") ∨
            ∃ kept, (s.waitForeground id).2.shell.jobs.find? id = some kept ∧
              kept.isSuspended = true ∧ (s.waitForeground id).1 = .ok (kept.report id) := by
  constructor
  · intro none k
    simp only [wait, none]
  · intro group hgroup
    refine ⟨fun k => ⟨waitAccount distinct hgroup k, fun other later gives => ?_⟩, ?_, ?_⟩
    · have takes := (Watch.run_takes group (.start job) k).1
      rw [wait_eq hgroup (takes.run_eq gives), wait_eq hgroup rfl]
    · exact fun k k' results results' same => sameWait_of_filter hgroup k k' same
    · exact fun s id found => Session.waitForeground_announces found hgroup

/-- A running pipeline of two stages. -/
def Job.twoStages : Job :=
  ⟨some 1, some 100, .foreground, "a | b", [.named "a" 100 .running, .named "b" 101 .running]⟩

/-- The first stage stops, goes on and exits, and then the second one stops. -/
def Job.plainResults : List WaitResult :=
  [.ok (.stopped 100 .tstp), .ok (.continued 100), .ok (.exited 100 0), .ok (.stopped 101 .stop)]

/-- The same with interruptions and with reports that are not about the job or say nothing. -/
def Job.noisyResults : List WaitResult :=
  [.error .eintr, .ok (.stopped 100 .tstp), .ok (.stopped 999 .stop), .ok (.continued 100),
    .ok .stillAlive, .ok (.exited 100 0), .error .eintr, .ok (.stopped 101 .stop),
    .error .eintr]

/-- In both cases all processes have reported when the second stage stops. -/
theorem Job.wait_follows_results_noisy :
    (twoStages.wait (Foretold.mk (Machine.boot .bare FileTree.root .sink) plainResults)).1.result =
        .ok (.suspended true) ∧
      (twoStages.wait (Foretold.mk (Machine.boot .bare FileTree.root .sink) noisyResults)).1.result =
        .ok (.suspended true) := by
  have follows := @wait_follows_results Machine Machine _ _ twoStages (by decide)
  have same := (follows.2 100 rfl).2.1 (Machine.boot .bare FileTree.root .sink)
    (Machine.boot .bare FileTree.root .sink) plainResults noisyResults (by decide)
  have plain : (twoStages.wait
      (Foretold.mk (Machine.boot .bare FileTree.root .sink) plainResults)).1.result =
        .ok (.suspended true) := by
    decide +kernel
  exact ⟨plain, same.result.trans plain⟩

end JobControl
