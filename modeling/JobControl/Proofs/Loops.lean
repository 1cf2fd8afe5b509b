import JobControl.Launch
import JobControl.Reap
import Mathlib.Data.List.Basic

/-!
# Rules for the shell's loops

The shell goes through three loops over the system: a launch starts the stages one by one
(`startStages_inv`, `Job.launch_inv`), a foreground wait takes the reports of a group
(`Watch.run_inv`, `Terminal.runForeground_inv`), and a drain takes all pending reports
(`drain_inv`).  Each rule says that what one call keeps, the loop keeps, and how the loop can have
ended.

The calls of a launch that start no child are the quiet ones (`Quiet`).  `Launched.StartedAs` is the
shape of a launch for the list of processes it was given, whatever made it end.  What every call
keeps (`CallInvariant`), every loop keeps.
-/

set_option autoImplicit false

namespace JobControl

variable {κ : Type} [Kernel κ]

/-! ## Quiet calls -/

/-- Logging several events keeps what logging one keeps. -/
theorem Terminal.logAll_inv {P : κ → Prop} (log : ∀ e k, P k → P (Kernel.log e k))
    (events : List Event) {k : κ} (h : P k) : P (logAll events k) := by
  induction events generalizing k with
  | nil => exact h
  | cons e rest ih => exact ih (log e k h)

/-- A property of the system that opening, closing, regrouping, writing and logging keep. -/
structure Quiet (P : κ → Prop) : Prop where
  openInput : ∀ path k, P k → P (Kernel.openInput path k).2
  openOutput : ∀ file k, P k → P (Kernel.openOutput file k).2
  openPipe : ∀ k, P k → P (Kernel.openPipe k).2
  close : ∀ d k, P k → P (Kernel.close d k)
  joinGroup : ∀ pid group k, P k → P (Kernel.joinGroup pid group k).2
  writeError : ∀ text k, P k → P (Kernel.writeError text k)
  log : ∀ e k, P k → P (Kernel.log e k)

/-- The calls that ask for nothing keep every property that does not look at the system. -/
theorem Quiet.const (p : Prop) : Quiet fun _ : κ => p :=
  ⟨fun _ _ h => h, fun _ _ h => h, fun _ h => h, fun _ _ h => h, fun _ _ _ h => h, fun _ _ h => h,
    fun _ _ h => h⟩

namespace Quiet

variable {P : κ → Prop} {k : κ}

theorem closeOptional (quiet : Quiet P) (d : Option Descriptor) (h : P k) :
    P (JobControl.closeOptional d k) := by
  cases d with
  | none => exact h
  | some d => exact quiet.close d k h

theorem openOutput' (quiet : Quiet P) (s : Stage) (h : P k) :
    P (JobControl.openOutput s k).2 := by
  unfold JobControl.openOutput
  split
  · exact h
  · rename_i file _
    have kept := quiet.openOutput file k h
    split <;> rename_i answer <;> rw [answer] at kept
    · exact kept
    · exact quiet.writeError _ _ (quiet.log _ _ kept)

theorem openInput' (quiet : Quiet P) (s : Stage) (h : P k) :
    P (JobControl.openInput s k).2 := by
  unfold JobControl.openInput
  split
  · exact h
  · rename_i path _
    have kept := quiet.openInput path k h
    split <;> rename_i answer <;> rw [answer] at kept <;> exact kept

theorem connect (quiet : Quiet P) (stage : Stage) (rest : List Stage) (h : P k) :
    P (JobControl.connect stage rest k).2 := by
  unfold JobControl.connect
  split
  · exact quiet.openOutput' stage h
  · have kept := quiet.openPipe k h
    split <;> rename_i answer <;> rw [answer] at kept <;> exact kept

theorem regroup (quiet : Quiet P) (pid group : Pid) (h : P k) :
    P (JobControl.regroup pid group k) := by
  unfold JobControl.regroup
  have kept := quiet.joinGroup pid group k h
  split <;> rename_i answer <;> rw [answer] at kept
  · exact kept
  · exact quiet.log _ _ kept

end Quiet

/-! ## Launching -/

/-- A stage that was started as a process. -/
def Stage.startedAs (s : Stage) (pid : Pid) : Stage :=
  { s with pid := some pid, status := .running }

/-- Stages of which the first ones were started as these processes and the others given up. -/
def Stage.assign : List Stage → List Pid → List Stage
  | stages, [] => stages.map abandon
  | [], _ :: _ => []
  | s :: rest, pid :: pids => s.startedAs pid :: assign rest pids

/-- The shape of a launch that was given these processes: as many stages were started, from the
left, the others count as terminated, and the group is the first process's unless there was one. -/
structure Launched.StartedAs (l : Launched) (planned : List Stage) (group : Option Pid)
    (pids : List Pid) : Prop where
  fits : pids.length ≤ planned.length
  stages : l.stages = Stage.assign planned pids
  founder : l.group = group.or pids.head?
  complete : l.failure = none ↔ pids.length = planned.length

/-- A launch of some stages that was given no process failed, and the job has no group. -/
theorem Launched.StartedAs.failed {l : Launched} {planned : List Stage}
    (shape : l.StartedAs planned none []) (some_planned : planned ≠ []) :
    l.group = none ∧ ∃ e, l.failure = some e := by
  refine ⟨shape.founder, Option.ne_none_iff_exists'.mp fun none => some_planned ?_⟩
  exact List.eq_nil_of_length_eq_zero (shape.complete.mp none).symm

/-- A property of the processes started so far and the system that a launch keeps: quiet calls leave
it, a child that is started joins the list, and a refusal changes nothing.  `group` is the group the
job had before the launch, and `takesTerminal` tells whether its children take the terminal. -/
structure LaunchInvariant (group : Option Pid) (takesTerminal : Bool) (I : List Pid → κ → Prop) :
    Prop where
  quiet : ∀ pids, Quiet (I pids)
  started : ∀ pids plan k pid k', plan.group = group.or pids.head? →
    plan.takesTerminal = takesTerminal → I pids k → Kernel.fork plan k = (.ok pid, k') →
      I (pids ++ [pid]) k'
  refused : ∀ pids plan k e k', I pids k → Kernel.fork plan k = (.error e, k') → I pids k'

theorem LaunchInvariant.const (p : Prop) {group : Option Pid} {takesTerminal : Bool} :
    LaunchInvariant group takesTerminal fun (_ : List Pid) (_ : κ) => p :=
  ⟨fun _ => .const p, fun _ _ _ _ _ _ _ h _ => h, fun _ _ _ _ _ h _ => h⟩

/-- What quiet calls keep, and starting a child whatever the answer, a launch keeps. -/
theorem LaunchInvariant.of_calls {P : κ → Prop} (quiet : Quiet P)
    (fork : ∀ plan k, P k → P (Kernel.fork plan k).2) (group : Option Pid) (takesTerminal : Bool) :
    LaunchInvariant group takesTerminal fun _ => P where
  quiet := fun _ => quiet
  started := by
    intro pids plan k pid k' _ _ h answer
    have kept := fork plan k h
    rwa [answer] at kept
  refused := by
    intro pids plan k e k' h answer
    have kept := fork plan k h
    rwa [answer] at kept

/-- What a launch keeps of all its processes, the launch after the first process keeps of the
others. -/
theorem LaunchInvariant.tail {group : Option Pid} {takesTerminal : Bool} {I : List Pid → κ → Prop}
    (inv : LaunchInvariant group takesTerminal I) (pid : Pid) :
    LaunchInvariant (some (group.getD pid)) takesTerminal fun pids => I (pid :: pids) where
  quiet := fun pids => inv.quiet (pid :: pids)
  started := by
    intro pids plan k next k' hgroup
    refine inv.started (pid :: pids) plan k next k' ?_
    cases group <;> exact hgroup
  refused := fun pids => inv.refused (pid :: pids)

/-- **The rule for starting stages.** -/
theorem startStages_inv (modes : Nat → JobMode) {takesTerminal : Bool} {group : Option Pid}
    {I : List Pid → κ → Prop} (inv : LaunchInvariant group takesTerminal I)
    (stages : List Stage) (index : Nat) (input : Option Descriptor) (k : κ) (h : I [] k) :
    ∃ pids,
      (startStages modes takesTerminal index group input stages k).1.StartedAs stages group pids ∧
      I pids (startStages modes takesTerminal index group input stages k).2 := by
  -- on the stages; `I` varies because after a process its rest speaks of one process more
  induction stages generalizing I group index input k with
  | nil => exact ⟨[], ⟨Nat.le_refl 0, rfl, by simp [startStages], by simp [startStages]⟩, h⟩
  | cons stage rest ih =>
    have connected := (inv.quiet []).connect stage rest h
    rcases hc : connect stage rest k with ⟨e | ⟨output, next⟩, k₁⟩
    · -- no pipe or output: this stage and the ones after it are given up
      rw [hc] at connected
      refine ⟨[], ⟨Nat.zero_le _, ?_, ?_, ?_⟩, ?_⟩
      · simp [startStages, hc, Stage.assign]
      · simp [startStages, hc]
      · simp [startStages, hc]
      · simpa only [startStages, hc] using (inv.quiet []).closeOptional input connected
    · rw [hc] at connected
      rcases hf : Kernel.fork ⟨group, takesTerminal, input, output, stage.words⟩ k₁ with ⟨e | pid, k₂⟩
      · -- no process: likewise, and the ends of the pipe are closed
        have refused := inv.refused [] _ k₁ e k₂ connected hf
        refine ⟨[], ⟨Nat.zero_le _, ?_, ?_, ?_⟩, ?_⟩
        · simp [startStages, hc, hf, Stage.assign]
        · simp [startStages, hc, hf]
        · simp [startStages, hc, hf]
        · simpa only [startStages, hc, hf] using
            (inv.quiet []).closeOptional input ((inv.quiet []).closeOptional next
              ((inv.quiet []).closeOptional output refused))
      · have quiet := inv.quiet [pid]
        have started := inv.started [] _ k₁ pid k₂ (by simp) rfl connected hf
        have joined := quiet.closeOptional output (quiet.closeOptional input
          (quiet.log (.stageStarted pid (group.getD pid) stage.program (modes index)) _
            (quiet.regroup pid (group.getD pid) started)))
        obtain ⟨pids, shape, kept⟩ := ih (inv.tail pid) (index + 1) next _ joined
        refine ⟨pid :: pids, ⟨?_, ?_, ?_, ?_⟩, ?_⟩
        · simpa using shape.fits
        · simpa [startStages, hc, hf, Stage.assign, Stage.startedAs] using shape.stages
        · cases group <;> simpa [startStages, hc, hf] using shape.founder
        · simpa [startStages, hc, hf] using shape.complete
        · simpa only [startStages, hc, hf] using kept

/-- **The rule for launching a job.**  Either the launch failed before any stage was tried, and the
job is as it was, or its stages were started as far as the system gave processes. -/
theorem Job.launch_inv (job : Job) (terminal : Terminal) {I : List Pid → κ → Prop}
    (inv : LaunchInvariant job.group (job.mode == .foreground && terminal.enabled) I)
    (k : κ) (h : I [] k) :
    (∃ e k', job.launch terminal k = (some e, job, k') ∧ I [] k') ∨
      ∃ (l : Launched) (pids : List Pid) (k' : κ), job.launch terminal k =
          (l.failure, { job with group := l.group, stages := l.stages }, k') ∧
        l.StartedAs job.stages job.group pids ∧ I pids k' := by
  unfold Job.launch
  split
  case h_1 hnil =>
    refine Or.inr ⟨⟨none, job.group, []⟩, [], k, by rw [← hnil], ?_, h⟩
    exact ⟨Nat.zero_le _, by simp [hnil, Stage.assign], by simp, by simp [hnil]⟩
  case h_2 first rest hstages =>
    split
    case h_1 stage _ => exact Or.inl ⟨_, k, rfl, h⟩
    case h_2 =>
      have warned := Terminal.logAll_inv (inv.quiet []).log (ignoredRedirections 0 (first :: rest)) h
      have opened := (inv.quiet []).openInput' first warned
      split <;> rename_i answer <;> rw [answer] at opened
      case h_1 e k₁ => exact Or.inl ⟨e, k₁, rfl, opened⟩
      case h_2 input k₁ =>
        obtain ⟨pids, shape, kept⟩ :=
          startStages_inv job.stageMode inv (first :: rest) 0 input k₁ opened
        refine Or.inr ⟨_, pids, _, rfl, ?_, kept⟩
        rw [hstages]
        exact shape

/-- A launch keeps a property of the system alone. -/
theorem LaunchInvariant.launch {P : κ → Prop} {job : Job} {t : Terminal} {k : κ}
    (inv : LaunchInvariant job.group (job.mode == .foreground && t.enabled) fun _ => P) (h : P k) :
    P (job.launch t k).2.2 := by
  rcases job.launch_inv t inv k h with ⟨e, k', launch, kept⟩ | ⟨l, pids, k', launch, -, kept⟩
  · rw [launch]
    exact kept
  · rw [launch]
    exact kept

/-! ## Waiting -/

/-- A property of a watch and the system that a wait for a group keeps, asked for only while some
launched stage runs: a report is observed by the watch, and an error changes nothing. -/
structure WaitInvariant (group : Pid) (I : Watch → κ → Prop) : Prop where
  report : ∀ w k n k', w.job.running ≠ 0 → I w k → Kernel.awaitGroup group k = (.ok n, k') →
    I (w.observe n) k'
  failed : ∀ w k e k', w.job.running ≠ 0 → I w k → Kernel.awaitGroup group k = (.error e, k') →
    I w k'

theorem WaitInvariant.const (p : Prop) {group : Pid} :
    WaitInvariant group fun (_ : Watch) (_ : κ) => p :=
  ⟨fun _ _ _ _ _ h _ => h, fun _ _ _ _ _ h _ => h⟩

/-- What asking for a report keeps, whatever the answer, a wait keeps. -/
theorem WaitInvariant.of_calls {P : κ → Prop} {group : Pid}
    (await : ∀ k, P k → P (Kernel.awaitGroup group k).2) : WaitInvariant group fun _ => P where
  report := by
    intro w k n k' _ h answer
    have kept := await k h
    rwa [answer] at kept
  failed := by
    intro w k e k' _ h answer
    have kept := await k h
    rwa [answer] at kept

/-- How a wait can end with a watch: no launched stage runs any more, or one does and asking for a
report gave an error other than an interruption.  That there is no child left counts as an end of
the job. -/
def Watch.Ended (group : Pid) (I : Watch → κ → Prop) (w : Watch)
    (result : Except Errno WaitOutcome) : Prop :=
  (w.job.running = 0 ∧ result = .ok w.outcome) ∨
    ∃ k e k', w.job.running ≠ 0 ∧ I w k ∧ Kernel.awaitGroup group k = (.error e, k') ∧
      e ≠ .eintr ∧ result = if e = .echild then .ok w.outcome else .error e

/-- **The rule for waiting**, for the loop. -/
theorem Watch.run_inv {group : Pid} {I : Watch → κ → Prop} (inv : WaitInvariant group I)
    (w : Watch) (k : κ) (h : I w k) :
    ∃ failure w' k', Watch.run group w k = (failure, w', k') ∧ I w' k' ∧
      w'.Ended group I (match failure with | none => .ok w'.outcome | some e => .error e) := by
  fun_induction Watch.run group w k with
  | case1 w k idle => exact ⟨none, w, k, rfl, h, Or.inl ⟨idle, rfl⟩⟩
  | case2 w k busy n k' answer _ ih => exact ih (inv.report w k n k' busy h answer)
  | case3 w k busy k' answer _ ih => exact ih (inv.failed w k .eintr k' busy h answer)
  | case4 w k busy k' answer other =>
    refine ⟨none, w, k', rfl, inv.failed w k .echild k' busy h answer, Or.inr ?_⟩
    exact ⟨k, .echild, k', busy, h, answer, other, by rw [if_pos rfl]⟩
  | case5 w k busy e k' answer other alive =>
    refine ⟨some e, w, k', rfl, inv.failed w k e k' busy h answer, Or.inr ?_⟩
    exact ⟨k, e, k', busy, h, answer, other, by rw [if_neg alive]⟩

/-- **The rule for waiting**, for a job with a group. -/
theorem Job.wait_inv {job : Job} {group : Pid} (hgroup : job.group = some group)
    {I : Watch → κ → Prop} (inv : WaitInvariant group I) (k : κ) (h : I (.start job) k) :
    ∃ (w : Watch) (result : Except Errno WaitOutcome) (k' : κ),
      job.wait k = (⟨result, w.job, w.seen⟩, k') ∧ I w k' ∧ w.Ended group I result := by
  obtain ⟨failure, w, k', run, kept, ended⟩ := Watch.run_inv inv (.start job) k h
  cases failure with
  | none => exact ⟨w, .ok w.outcome, k', by simp only [Job.wait, hgroup, run], kept, ended⟩
  | some e => exact ⟨w, .error e, k', by simp only [Job.wait, hgroup, run], kept, ended⟩

/-- **The rule for the system that a wait leaves.**  It is left when no launched stage runs any more,
or by a call that gave an error other than an interruption. -/
theorem Job.wait_last {job : Job} {group : Pid} (hgroup : job.group = some group)
    {I : Watch → κ → Prop} {J : κ → Prop} (inv : WaitInvariant group I)
    (idle : ∀ w k, w.job.running = 0 → I w k → J k)
    (cut : ∀ w k e k', w.job.running ≠ 0 → I w k → Kernel.awaitGroup group k = (.error e, k') →
      e ≠ .eintr → J k')
    (k : κ) (h : I (.start job) k) : J (job.wait k).2 := by
  have general : ∀ w k, I w k → J (Watch.run group w k).2.2 := by
    intro w k h
    fun_induction Watch.run group w k with
    | case1 w k none => exact idle w k none h
    | case2 w k busy n k' answer _ ih => exact ih (inv.report w k n k' busy h answer)
    | case3 w k busy k' answer _ ih => exact ih (inv.failed w k .eintr k' busy h answer)
    | case4 w k busy k' answer other => exact cut w k .echild k' busy h answer other
    | case5 w k busy e k' answer other alive => exact cut w k e k' busy h answer other
  have left := general (.start job) k h
  rcases run : Watch.run group (.start job) k with ⟨_ | e, w, k'⟩
  · rw [run] at left
    simpa only [Job.wait, hgroup, run] using left
  · rw [run] at left
    simpa only [Job.wait, hgroup, run] using left

/-- A property of the system that handing the terminal over and logging keep. -/
structure TerminalQuiet (P : κ → Prop) : Prop where
  setDisposition : ∀ signal d k, P k → P (Kernel.setDisposition signal d k).2
  setForeground : ∀ group k, P k → P (Kernel.setForeground group k).2
  log : ∀ e k, P k → P (Kernel.log e k)

theorem TerminalQuiet.const (p : Prop) : TerminalQuiet fun _ : κ => p :=
  ⟨fun _ _ _ h => h, fun _ _ h => h, fun _ _ h => h⟩

namespace TerminalQuiet

variable {P : κ → Prop} {k : κ}

theorem handOver (quiet : TerminalQuiet P) (group : Pid) (h : P k) :
    P (Terminal.handOver group k).2 :=
  quiet.setDisposition _ _ _ (quiet.setForeground group _ (quiet.setDisposition _ _ k h))

theorem giveTo (quiet : TerminalQuiet P) (t : Terminal) (group : Pid) (h : P k) :
    P (t.giveTo group k) := by
  unfold Terminal.giveTo
  split
  · have kept := quiet.handOver group h
    split <;> rename_i answer <;> rw [answer] at kept <;> exact quiet.log _ _ kept
  · exact h

end TerminalQuiet

/-- **The rule for running a job in the foreground.** -/
theorem Terminal.runForeground_inv (t : Terminal) (job : Job) {group : Pid}
    (hgroup : job.group = some group) {I : Watch → κ → Prop} (inv : WaitInvariant group I)
    (quiet : ∀ w, TerminalQuiet (I w)) (k : κ) (h : I (.start job) k) :
    ∃ (w : Watch) (result : Except Errno WaitOutcome) (k' : κ),
      t.runForeground job k = (⟨result, w.job, w.seen⟩, k') ∧ I w k' ∧ w.Ended group I result := by
  obtain ⟨w, result, k', wait, kept, ended⟩ :=
    Job.wait_inv hgroup inv (t.giveTo group k) ((quiet _).giveTo t group h)
  refine ⟨w, result, _, by simp only [Terminal.runForeground, hgroup, wait]; rfl, ?_, ended⟩
  exact (quiet w).giveTo t t.group (logAll_inv (quiet w).log _ kept)

/-- Running a job in the foreground keeps a property of the system alone. -/
theorem WaitInvariant.runForeground {P : κ → Prop} {k : κ} (t : Terminal) (job : Job)
    (inv : ∀ group, job.group = some group → WaitInvariant group fun _ => P)
    (quiet : TerminalQuiet P) (h : P k) : P (t.runForeground job k).2 := by
  cases hgroup : job.group with
  | none =>
    simp only [Terminal.runForeground, hgroup]
    exact h
  | some group =>
    obtain ⟨w, result, k', run, kept, -⟩ :=
      t.runForeground_inv job hgroup (inv group hgroup) (fun _ => quiet) k h
    rw [run]
    exact kept

/-! ## Draining -/

/-- **The rule for draining.**  A property of the reports taken so far and the system that one more
report keeps, and an answer without a report as well, holds at the end of the drain. -/
theorem drain_inv {I : List Notification → κ → Prop}
    (report : ∀ l k n k', n ≠ .stillAlive → I l k → Kernel.collect k = (.ok n, k') →
      I (l ++ [n]) k')
    (idle : ∀ l k k', I l k → Kernel.collect k = (.ok .stillAlive, k') → I l k')
    (failed : ∀ l k e k', I l k → Kernel.collect k = (.error e, k') → I l k')
    (k : κ) (h : I [] k) : I (drain k).1 (drain k).2.2 := by
  suffices general : ∀ l, I l k → I (l ++ (drain k).1) (drain k).2.2 from general [] h
  clear h
  fun_induction drain k with
  | case1 k k' answer =>
    intro l h
    simpa using idle l k k' h answer
  | case2 k n k' answer hn _ reports failure k'' hdrain ih =>
    intro l h
    simpa [hdrain] using ih (l ++ [n]) (report l k n k' hn h answer)
  | case3 k k' answer _ ih =>
    intro l h
    exact ih l (failed l k .eintr k' h answer)
  | case4 k k' answer =>
    intro l h
    simpa using failed l k .echild k' h answer
  | case5 k e k' answer =>
    intro l h
    simpa using failed l k e k' h answer

/-- What taking one report keeps, whatever the answer, a drain keeps. -/
theorem drain_of_calls {P : κ → Prop} {k : κ} (collect : ∀ k, P k → P (Kernel.collect k).2)
    (h : P k) : P (drain k).2.2 := by
  have step : ∀ k answer k', P k → Kernel.collect k = (answer, k') → P k' := by
    intro k answer k' h eq
    have kept := collect k h
    rwa [eq] at kept
  exact drain_inv (I := fun _ => P) (fun _ k n k' _ => step k (.ok n) k')
    (fun _ k k' => step k (.ok .stillAlive) k') (fun _ k e k' => step k (.error e) k') k h

/-- **The rule for a drain that was not cut short.**  It ended with a call that found nothing to
take: no child has a report, or there is no child. -/
theorem drain_end {I : List Notification → κ → Prop}
    (report : ∀ l k n k', n ≠ .stillAlive → I l k → Kernel.collect k = (.ok n, k') →
      I (l ++ [n]) k')
    (interrupted : ∀ l k k', I l k → Kernel.collect k = (.error .eintr, k') → I l k')
    (k : κ) (h : I [] k) (whole : (drain k).2.1 = none) :
    ∃ k', I (drain k).1 k' ∧ (Kernel.collect k' = (.ok .stillAlive, (drain k).2.2) ∨
      Kernel.collect k' = (.error .echild, (drain k).2.2)) := by
  suffices general : ∀ l, I l k → ∃ k', I (l ++ (drain k).1) k' ∧
      (Kernel.collect k' = (.ok .stillAlive, (drain k).2.2) ∨
        Kernel.collect k' = (.error .echild, (drain k).2.2)) from general [] h
  clear h
  fun_induction drain k with
  | case1 k k' answer =>
    intro l h
    exact ⟨k, by simpa using h, Or.inl answer⟩
  | case2 k n k' answer hn _ reports failure k'' hdrain ih =>
    intro l h
    simpa [hdrain] using ih (by rw [hdrain]; exact whole) (l ++ [n]) (report l k n k' hn h answer)
  | case3 k k' answer _ ih =>
    intro l h
    exact ih whole l (interrupted l k k' h answer)
  | case4 k k' answer =>
    intro l h
    exact ⟨k, by simpa using h, Or.inr answer⟩
  | case5 k e k' answer => cases whole

/-! ## All calls -/

/-- A property of the system that every call keeps which an operation can make, whatever the answer.
A signal is sent by an operation only to continue a group. -/
structure CallInvariant (P : κ → Prop) : Prop extends Quiet P, TerminalQuiet P where
  fork : ∀ plan k, P k → P (Kernel.fork plan k).2
  resume : ∀ group k, P k → P (Kernel.signalGroup group .cont k).2
  await : ∀ group k, P k → P (Kernel.awaitGroup group k).2
  collect : ∀ k, P k → P (Kernel.collect k).2
  changeDirectory : ∀ path k, P k → P (Kernel.changeDirectory path k).2

namespace CallInvariant

variable {P : κ → Prop} {k : κ}

theorem launch (calls : CallInvariant P) (job : Job) (t : Terminal) (h : P k) :
    P (job.launch t k).2.2 :=
  (LaunchInvariant.of_calls calls.toQuiet calls.fork _ _).launch h

end CallInvariant

end JobControl
