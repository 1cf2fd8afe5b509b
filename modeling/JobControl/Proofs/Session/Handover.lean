import JobControl.Machine.System
import JobControl.Proofs.Job.Tracked
import JobControl.Proofs.Kernel.Host
import JobControl.Proofs.Kernel.Tty
import JobControl.Proofs.Session.Course
import JobControl.Proofs.Wait.Agreement

/-!
# The terminal comes back

With job control the terminal is handed over twice for a job in the foreground: by each of its
children, when it is its turn, and by the shell.  After the wait the shell takes the terminal back,
and the wait is the reason that this lasts.  Every child that has its turn is a stage of the job that
runs (`Tty.Away`), and the wait goes on until no stage runs; so when the shell reclaims the terminal
nobody has a turn any more (`Tty.runForeground_steady`).  The guard on `SIGTTOU` is the reason that
the shell is not refused.

That covers the tracked and the untracked jobs and the ones that are resumed, however the wait for
them ended.  After a wait that failed, though, the shell has its terminal only as long as the children
it has given up leave it alone.  Work that stays behind makes no call that could move the terminal
(`Session.idle_perform`), and without job control no operation does
(`Tty.Idle.operationInvariant`).
-/

set_option autoImplicit false

namespace JobControl

/-! ## Jobs with children at the terminal -/

/-- A stage that was launched as this process runs. -/
def Job.RunsAs (j : Job) (pid : Pid) : Prop :=
  ∃ s ∈ j.stages, s.pid = some pid ∧ s.isRunning = true

namespace Job

variable {j : Job} {pid : Pid}

/-- The first stage launched as a process is the one that is changed. -/
theorem exists_mem_modifyStage {stages : List Stage} {f : Stage → Stage}
    (launched : ∃ s ∈ stages, s.pid = some pid) :
    ∃ s ∈ stages, s.pid = some pid ∧ f s ∈ modifyStage pid f stages := by
  induction stages with
  | nil =>
    obtain ⟨s, hs, -⟩ := launched
    cases hs
  | cons t rest ih =>
    simp only [modifyStage]
    by_cases own : t.pid = some pid
    · rw [if_pos own]
      exact ⟨t, List.mem_cons_self, own, List.mem_cons_self⟩
    · obtain ⟨s, hs, hpid⟩ := launched
      rcases List.mem_cons.mp hs with rfl | hs
      · exact absurd hpid own
      · obtain ⟨u, hu, hupid, changed⟩ := ih ⟨s, hs, hpid⟩
        rw [if_neg own]
        exact ⟨u, List.mem_cons_of_mem t hu, hupid, List.mem_cons_of_mem t changed⟩

/-- A process runs on after a report, unless the report is that it has ended or stopped. -/
theorem RunsAs.apply (h : j.RunsAs pid) {change : StatusChange}
    (runs : change.pid = pid → change.status.isFinished = false ∧ change.status ≠ .suspended) :
    (j.apply change).RunsAs pid := by
  obtain ⟨s, hs, hpid, running⟩ := h
  by_cases own : change.pid = pid
  · obtain ⟨unfinished, awake⟩ := runs own
    obtain ⟨t, -, htpid, changed⟩ := exists_mem_modifyStage
      (f := fun s => { s with status := change.status }) ⟨s, hs, hpid⟩
    rw [← own] at changed htpid
    refine ⟨_, changed, by rw [← own]; exact htpid, ?_⟩
    simp [Stage.isRunning, Stage.isOutstanding, htpid, unfinished, awake]
  · refine ⟨s, mem_modifyStage_of_ne hs fun same => own ?_, hpid, running⟩
    exact Option.some.inj (same.symm.trans hpid)

theorem not_runsAs_of_idle (idle : j.running = 0) : ¬ j.RunsAs pid := by
  rintro ⟨s, hs, -, running⟩
  rw [running_eq_zero_iff.mp idle s hs] at running
  cases running

/-- After a launch a stage runs as every process that was started. -/
theorem Fresh.runsAs (fresh : j.Fresh) {l : Launched} {pids : List Pid}
    (shape : l.StartedAs j.stages none pids) (started : pid ∈ pids) :
    ∃ s ∈ l.stages, s.pid = some pid ∧ s.isRunning = true := by
  have unlaunched : ∀ s ∈ j.stages, s.pid = none := fun s hs => (fresh.unlaunched s hs).1
  have placed : some pid ∈ l.stages.map Stage.pid := by
    rw [shape.stages, Stage.map_pid_assign shape.fits unlaunched]
    exact List.mem_append_left _ (List.mem_map_of_mem started)
  obtain ⟨s, hs, hpid⟩ := List.mem_map.mp placed
  refine ⟨s, hs, hpid, ?_⟩
  rw [shape.stages] at hs
  rcases Stage.mem_assign hs with ⟨t, ht, rfl⟩ | ⟨t, -, p, -, rfl⟩
  · rw [Stage.abandon, unlaunched t ht] at hpid
    cases hpid
  · rfl

/-- The children of a job in the background are not to take the terminal. -/
theorem takes_nothing (j : Job) (background : j.mode = .background) (t : Terminal) :
    (j.mode == .foreground && t.enabled) = false := by
  rw [background]
  rfl

end Job

namespace Tty

variable {κ : Type} {own : Pid} {signals : Dispositions}

/-! ## A job in the foreground -/

/-- Between two operations: the shell is the same as ever and has its terminal back. -/
structure Steady (own : Pid) (signals : Dispositions) (c : Tty κ) : Prop where
  own : c.own = own
  signals : c.dispositions = signals
  regained : c.Regained

/-- While a job is in the foreground: the shell is the same as ever, and only processes of a certain
class have their turn. -/
structure Away (own : Pid) (signals : Dispositions) (runs : Pid → Prop) (c : Tty κ) : Prop where
  own : c.own = own
  signals : c.dispositions = signals
  front : ∀ p ∈ c.front, runs p

theorem stable_away (runs : Pid → Prop) : Stable (Away own signals runs : Tty κ → Prop) where
  move := by
    intro c m h
    obtain ⟨h₁, h₂, h₃⟩ := (stable_standing fun o d front =>
      o = own ∧ d = signals ∧ ∀ p ∈ front, runs p).move c m ⟨h.own, h.signals, h.front⟩
    exact ⟨h₁, h₂, h₃⟩
  below := fun _ _ _ h => ⟨h.own, h.signals, h.front⟩

theorem idle_steady : Idle (Steady own signals : Tty κ → Prop) where
  move := by
    intro c m h
    obtain ⟨h₁, h₂⟩ := (stable_standing fun o d _ => o = own ∧ d = signals).move c m
      ⟨h.own, h.signals⟩
    exact ⟨h₁, h₂, steadfast_regained.move c m h.regained⟩
  below := fun c system script h =>
    ⟨h.own, h.signals, steadfast_regained.below c system script h.regained⟩
  front := fun _ h => h.regained.front
  dismiss := fun _ gone h => ⟨h.own, h.signals, h.regained.dismiss gone⟩

/-- Once the children are given up, none of them has its turn. -/
theorem Away.forsake {runs : Pid → Prop} {c : Tty κ} (h : Away own signals runs c)
    (others : Pid → Prop) : Away own signals others c.forsake :=
  ⟨h.own, h.signals, fun p hp => by cases hp⟩

theorem Steady.away {c : Tty κ} (h : Steady own signals c) (runs : Pid → Prop) :
    Away own signals runs c :=
  ⟨h.own, h.signals, by simp [h.regained.front]⟩

variable [Kernel κ]

/-- What a launch has done once some processes were started: only they can have their turn, and until
then, or if they are not to have one, the terminal is where it was. -/
theorem launchInvariant_away (takesTerminal : Bool) :
    LaunchInvariant none takesTerminal fun pids (c : Tty κ) =>
      Away own signals (· ∈ pids) c ∧ (pids = [] ∨ takesTerminal = false → c.Regained) := by
  have stable : ∀ pids : List Pid, Stable fun c : Tty κ =>
      Away own signals (· ∈ pids) c ∧ (pids = [] ∨ takesTerminal = false → c.Regained) :=
    fun pids => (stable_away _).and (steadfast_regained.toStable.imp _)
  refine ⟨fun pids => (stable pids).quiet, ?_, ?_⟩
  · intro pids plan c pid c' _ takes h answer
    obtain ⟨d, ⟨away, regained⟩, rfl⟩ := (stable pids).fork_ok h answer
    rw [takes]
    cases takesTerminal with
    | true =>
      refine ⟨⟨away.own, away.signals, fun p hp => ?_⟩, by simp⟩
      rcases List.mem_append.mp hp with hp | hp
      · exact List.mem_append_left _ (away.front p hp)
      · exact List.mem_append_right _ hp
    | false =>
      refine ⟨⟨away.own, away.signals, fun p hp => ?_⟩, fun _ => regained (Or.inr rfl)⟩
      exact List.mem_append_left _ (away.front p hp)
  · exact fun pids plan c e c' h answer => (stable pids).fork_error h answer

/-- While the shell waits for a job, every process that has its turn is a stage that runs. -/
theorem waitInvariant_away (group : Pid) :
    WaitInvariant group fun w (c : Tty κ) => Away own signals w.job.RunsAs c where
  report := by
    intro w c n c' _ h answer
    obtain ⟨d, away, rfl⟩ := (stable_away w.job.RunsAs).hear h answer
    refine ⟨away.own, away.signals, fun p hp => ?_⟩
    obtain ⟨hp, stays⟩ := List.mem_filter.mp hp
    have runs := away.front p hp
    unfold Watch.observe
    split
    · rename_i change implied
      refine runs.apply fun hpid => ?_
      simpa [Notification.endsTurn, implied, hpid] using stays
    · exact runs
  failed := by
    intro w c e c' _ h answer
    obtain ⟨d, away, rfl⟩ := (stable_away w.job.RunsAs).hear h answer
    simp only [learn]
    split
    · exact away
    · exact away.forsake w.job.RunsAs

/-- **A job that runs in the foreground gives the terminal back**, however the wait for it ends. -/
theorem runForeground_steady {t : Terminal} (enabled : t.enabled = true) (held : t.group = own)
    (job : Job) {group : Pid} (hgroup : job.group = some group) {c : Tty κ}
    (h : Away own signals job.RunsAs c) : Steady own signals (t.runForeground job c).2 := by
  have kept := steadfast_standing (κ := κ) fun o front => o = own ∧ ∀ p ∈ front, job.RunsAs p
  obtain ⟨⟨given, front⟩, same⟩ := giveTo_rule group kept kept (fun _ h => h)
    (fun _ _ h => h) ⟨h.own, h.front⟩ enabled
  have ready : Away own signals job.RunsAs (t.giveTo group c) :=
    ⟨given, same.trans h.signals, front⟩
  -- nobody has a turn any more: no stage runs, or the wait has failed and they were given up
  have rested := Job.wait_last hgroup (waitInvariant_away group)
    (J := Away own signals fun _ => False)
    (fun w c idle away => ⟨away.own, away.signals, fun p hp =>
      Job.not_runsAs_of_idle idle (away.front p hp)⟩)
    (fun w c e c' _ away answer other => by
      obtain ⟨d, away, rfl⟩ := (stable_away w.job.RunsAs).hear away answer
      rw [learn, if_neg other]
      exact away.forsake _)
    (t.giveTo group c) ready
  rcases waiting : job.wait (t.giveTo group c) with ⟨waited, c'⟩
  rw [waiting] at rested
  have logged := Terminal.logAll_inv (stable_away _).quiet.log (waited.seen.map .foregroundChanged)
    rested
  have none_left := List.eq_nil_iff_forall_not_mem.mpr logged.front
  obtain ⟨⟨back, regained⟩, same'⟩ := giveTo_rule t.group
    (steadfast_standing fun o front => o = own ∧ front = [])
    ((steadfast_standing fun o _ => o = own).and steadfast_regained)
    (fun d h => ⟨h.1, h.2, Or.inl (held.trans h.1.symm)⟩)
    (fun other => absurd (held.trans logged.own.symm) other) ⟨logged.own, none_left⟩ enabled
  simp only [Terminal.runForeground, hgroup, waiting, Terminal.reclaim]
  exact ⟨back, same'.trans logged.signals, regained⟩

/-- **The rule for operations with job control.** -/
theorem operationInvariant_steady {t : Terminal} (enabled : t.enabled = true)
    (held : t.group = own) :
    OperationInvariant t (fun _ => True) (Steady own signals : Tty κ → Prop) fun job c =>
      (∃ group, job.group = some group) ∧ Away own signals job.RunsAs c where
  log := idle_steady.toStable.quiet.log
  launch := by
    intro job c failure launched c' fresh steady answer
    rcases fresh.launch_inv t (launchInvariant_away (job.mode == .foreground && t.enabled)) c
        ⟨steady.away _, fun _ => steady.regained⟩ with
      ⟨e, left, k', launch, none, away, regained⟩ |
      ⟨l, pids, first, k', launch, shape, lead, away, regained⟩
    · cases launch.symm.trans answer
      rw [if_pos (Or.inl ⟨rfl, none⟩)]
      exact ⟨away.own, away.signals, regained (Or.inl rfl)⟩
    · cases launch.symm.trans answer
      have group : l.group = some first := shape.founder.trans lead
      split
      case isTrue stays =>
        rcases stays with ⟨-, none⟩ | background
        · cases group.symm.trans none
        · have stays := job.takes_nothing background t
          exact ⟨away.own, away.signals, regained (Or.inr stays)⟩
      case isFalse =>
        exact ⟨⟨first, group⟩, away.own, away.signals,
          fun p hp => fresh.runsAs shape (away.front p hp)⟩
  foreground := fun job mode _ ⟨⟨_, hgroup⟩, away⟩ =>
    runForeground_steady enabled held { job with mode } hgroup
      ⟨away.own, away.signals, away.front⟩
  changeDirectory := fun _ _ h => idle_steady.pass _ h
  refused := fun _ _ _ _ _ h answer => idle_steady.passed h answer
  resumed := by
    intro group c c' _ h answer
    have kept := idle_steady.passed h answer
    exact ⟨kept, fun job hgroup => ⟨⟨group, hgroup⟩, kept.away _⟩⟩

/-! ## Work that leaves the terminal alone -/

section

variable {P : Tty κ → Prop}

/-- A launch whose children are not to take the terminal. -/
theorem launchInvariant_idle (stable : Stable P) (group : Option Pid) :
    LaunchInvariant group false fun (_ : List Pid) => P where
  quiet := fun _ => stable.quiet
  started := by
    intro pids plan c pid c' _ takes h answer
    obtain ⟨d, kept, rfl⟩ := stable.fork_ok h answer
    rwa [takes]
  refused := fun _ _ _ _ _ h answer => stable.fork_error h answer

namespace Idle

variable (idle : Idle P)

omit [Kernel κ] in
include idle in
theorem hear (call : κ → WaitResult × κ) {c : Tty κ} (h : P c) : P (hear call c).2 := by
  rcases answer : Tty.hear call c with ⟨result, c'⟩
  obtain ⟨d, kept, rfl⟩ := idle.toStable.hear h answer
  unfold learn
  split
  · exact idle.dismiss d _ kept
  · split
    · exact kept
    · rwa [forsake_eq_self (idle.front d kept)]

include idle in
/-- A poll leaves what is stable while no child has its turn. -/
theorem drain (c : Tty κ) (h : P c) : P (drain c).2.2 :=
  drain_of_calls (fun _ h => idle.hear _ h) h

include idle in
/-- Without job control nothing is handed over for a job in the foreground. -/
theorem runForeground {t : Terminal} (detached : t.enabled = false) (job : Job) (c : Tty κ)
    (h : P c) : P (t.runForeground job c).2 := by
  have given : ∀ group (c' : Tty κ), t.giveTo group c' = c' := fun _ _ => if_neg (by simp [detached])
  cases hgroup : job.group with
  | none => simpa only [Terminal.runForeground, hgroup] using h
  | some group =>
    have inv : WaitInvariant group fun (_ : Watch) => P :=
      .of_calls fun _ h => idle.hear _ h
    obtain ⟨w, result, c', wait, kept, -⟩ := Job.wait_inv hgroup inv c h
    simp only [Terminal.runForeground, hgroup, Terminal.reclaim, given, wait]
    exact Terminal.logAll_inv idle.quiet.log _ kept

include idle in
/-- **The rule for operations without job control.** -/
theorem operationInvariant {t : Terminal} (detached : t.enabled = false) :
    OperationInvariant t (fun _ => True) P fun _ => P where
  log := idle.quiet.log
  launch := by
    intro job c failure launched c' _ h answer
    have inv := launchInvariant_idle idle.toStable job.group
    have kept := LaunchInvariant.launch (t := t) (by rw [detached, Bool.and_false]; exact inv) h
    rw [answer] at kept
    split <;> exact kept
  foreground := fun job mode c h => idle.runForeground detached { job with mode } c h
  changeDirectory := fun _ _ h => idle.pass _ h
  refused := fun _ _ _ _ _ h answer => idle.passed h answer
  resumed := fun _ _ _ _ h answer => ⟨idle.passed h answer, fun _ _ => idle.passed h answer⟩

end Idle

end

end Tty

/-! ## Work that stays behind -/

/-- Nothing of the job is going to run in the foreground. -/
def Job.staysBehind (j : Job) : Bool :=
  match j.stages with
  | [] => true
  | stage :: rest =>
    if stage.kind.isBuiltin then stage.kind != .fg && (rest.isEmpty || j.mode == .background)
    else j.mode == .background

/-- The operation is not going to run anything in the foreground. -/
def Operation.staysBehind : Operation → Bool
  | .fg => false
  | .run line =>
    match Job.ofLine line with
    | .ok (some job) => job.staysBehind
    | _ => true
  | _ => true

theorem Operation.staysBehind_run {line : String} {job : Job}
    (parsed : Job.ofLine line = .ok (some job)) :
    (Operation.run line).staysBehind = job.staysBehind := by
  simp only [staysBehind, parsed]

theorem Job.Fresh.background {job : Job} (fresh : job.Fresh) (external : job.isBuiltin = false)
    (behind : job.staysBehind = true) : job.mode = .background := by
  obtain ⟨stage, rest, stages⟩ := List.exists_cons_of_ne_nil fresh.stages
  have leads : stage.kind.isBuiltin = false := by simpa only [isBuiltin, stages] using external
  simpa [staysBehind, stages, leads] using behind

namespace Session

variable {κ : Type} [Kernel κ] {s : Session (Tty κ)} {id : Nat} {job : Job}

section

variable {P : Tty κ → Prop} (stable : Tty.Stable P)

include stable in
theorem stable_launchTracked (found : s.shell.jobs.find? id = some job) (fresh : job.Fresh)
    (background : job.mode = .background) (h : P s.kernel) : P (s.launchTracked id).2.kernel := by
  have inv := Tty.launchInvariant_idle stable none
  rw [← job.takes_nothing background s.shell.terminal] at inv
  rcases launchTracked_rule found fresh inv h with
    ⟨e, kernel, changed, kept, launch⟩ | ⟨l, pids, launched, kernel, after, -, -, kept, -, rfl, launch⟩
  · rw [launch]
    exact removeJob_inv stable.quiet.log id kept
  · rw [launch, if_pos background]
    exact kept

include stable in
theorem stable_launchUntracked (fresh : job.Fresh) (background : job.mode = .background)
    (h : P s.kernel) : P (s.launchUntracked job).2.kernel := by
  have inv := Tty.launchInvariant_idle stable none
  rw [← job.takes_nothing background s.shell.terminal] at inv
  rcases launchUntracked_rule fresh inv h with
    ⟨e, kernel, kept, launch⟩ | ⟨l, pids, launched, after, kernel, -, -, kept, -, rfl, launch⟩
  · rw [launch]
    exact kept
  · rw [launch, if_pos background]
    exact kept

include stable in
theorem stable_bg (h : P s.kernel) : P s.bg.2.kernel := by
  cases s.bg_cases with
  | missing bg => rw [bg]; exact h
  | groupless e he group bg => rw [bg]; exact h
  | refused e he pgid group cause kernel answer bg =>
    rw [bg]
    exact stable.passed h answer
  | resumed e he pgid group kernel answer bg =>
    rw [bg]
    exact stable.passed h answer

include stable in
theorem stable_cd (arguments : List String) (h : P s.kernel) : P (s.cd arguments).2.kernel := by
  obtain ⟨path, asked⟩ := kernel_cd s arguments
  rw [asked]
  exact stable.pass _ h

include stable in
theorem stable_runStage {stage : Stage} (behind : stage.kind ≠ .fg) (h : P s.kernel) :
    P (s.runStage stage).2.kernel := by
  unfold runStage
  split
  case h_1 => exact h
  case h_2 => exact stable_cd stable stage.arguments h
  case h_3 kind => exact absurd kind behind
  case h_4 => exact stable_bg stable h
  case h_5 => exact h

include stable in
theorem stable_runBuiltin (fresh : job.Fresh) {stage : Stage} {rest : List Stage}
    (stages : job.stages = stage :: rest) (builtin : stage.kind.isBuiltin = true)
    (behind : job.staysBehind = true) (h : P s.kernel) : P (s.runBuiltin job).2.kernel := by
  have parts : stage.kind ≠ .fg ∧ (rest = [] ∨ job.mode = .background) := by
    simpa [Job.staysBehind, stages, builtin] using behind
  have first := stable_runStage (s := s.log (.builtinRun stage.program)) stable parts.1
    (stable.quiet.log _ _ h)
  cases s.runBuiltin_cases stages with
  | failed e after answer run => rw [run]; rwa [answer] at first
  | done text after answer last run => rw [run]; rwa [answer] at first
  | piped text after answer more run =>
    rw [answer] at first
    rw [run]
    exact stable_launchUntracked stable (fresh.tail stages more)
      (parts.2.resolve_left more) first

include stable in
theorem stable_run {line : String} (behind : (Operation.run line).staysBehind = true)
    (h : P s.kernel) : P (s.run line).2.kernel := by
  cases s.run_cases line with
  | faulty fault parsed run => rw [run]; exact h
  | blank parsed run => rw [run]; exact h
  | tracked job parsed fresh external id jobs registered run =>
    rw [Operation.staysBehind_run parsed] at behind
    rw [run]
    exact stable_launchTracked stable (JobTable.find?_of_register registered)
      (fresh.withId (some id)) (fresh.background external behind) (stable.quiet.log _ _ h)
  | untracked job parsed fresh external full run =>
    rw [Operation.staysBehind_run parsed] at behind
    rw [run]
    exact stable_launchUntracked (s := s.log (.tableFull full.capacity)) stable fresh
      (fresh.background external behind) (stable.quiet.log _ _ h)
  | builtin job parsed fresh stage rest stages builtin run =>
    rw [Operation.staysBehind_run parsed] at behind
    rw [run]
    exact stable_runBuiltin stable fresh stages builtin behind h

/-- **Work that stays behind changes nothing that is stable** while no child has its turn. -/
theorem idle_perform (idle : Tty.Idle P) {operation : Operation}
    (behind : operation.staysBehind = true) (h : P s.kernel) :
    P (s.perform operation).kernel := by
  cases operation with
  | run line => exact stable_run idle.toStable behind h
  | poll => exact Terminal.logAll_inv idle.quiet.log _ (idle.drain s.kernel h)
  | fg => cases behind
  | bg => exact stable_bg idle.toStable h
  | cd arguments => exact stable_cd idle.toStable arguments h
  | exit => exact h
  | listJobs => exact h

end

end Session

/-! ## The start of a session -/

namespace Tty

variable {κ : Type} [Kernel κ] {c : Tty κ}

/-- No child was ever started with the terminal. -/
structure Unused (c : Tty κ) : Prop where
  front : c.front = []
  adrift : c.adrift = []
  past : c.past = []

omit [Kernel κ] in
theorem steadfast_unused : Steadfast (Unused : Tty κ → Prop) where
  move := by
    intro c m h
    unfold move
    simp only [h.front, h.adrift, h.past, List.not_mem_nil, if_false]
    exact h
  below := fun _ _ _ h => ⟨h.front, h.adrift, h.past⟩
  signals := fun _ _ h => ⟨h.front, h.adrift, h.past⟩

omit [Kernel κ] in
theorem Spared.unused {c c' : Tty κ} (spared : c.Spared c') (h : c.Unused) : c'.Unused := by
  have none : ∀ p, p ∉ c'.past ++ c'.adrift := fun p hp => by
    simpa [h.past, h.adrift] using spared.others p hp
  obtain ⟨past, adrift⟩ := List.append_eq_nil_iff.mp (List.eq_nil_iff_forall_not_mem.mpr none)
  exact ⟨spared.front, adrift, past⟩

theorem unused_ignoreJobControl (h : c.Unused) : (Terminal.ignoreJobControl c).Unused := by
  have step : ∀ (signals : List Signal) (c : Tty κ), c.Unused → (signals.foldl (fun k s =>
      Kernel.log (.signalIgnored s) (Kernel.setDisposition s .ignore k).2) c).Unused := by
    intro signals
    induction signals with
    | nil => exact fun _ h => h
    | cons signal rest ih =>
      intro c h
      refine ih _ (steadfast_unused.quiet.log _ _ ?_)
      exact steadfast_unused.signals c.act _ (steadfast_unused.act h)
  exact step _ c h

theorem unused_comeToForeground (h : c.Unused) : (Kernel.comeToForeground c).2.Unused := by
  have kept := steadfast_unused.pass Kernel.comeToForeground h
  simp only [Kernel.comeToForeground, comeToForeground]
  split <;> rename_i passed <;> rw [passed] at kept
  · exact ⟨kept.front, kept.adrift, kept.past⟩
  · exact kept

theorem unused_foundGroup (h : c.Unused) : (Kernel.foundGroup c).2.Unused := by
  have kept := steadfast_unused.pass Kernel.foundGroup h
  simp only [Kernel.foundGroup, foundGroup]
  split <;> rename_i passed <;> rw [passed] at kept
  · exact ⟨kept.front, kept.adrift, kept.past⟩
  · exact kept

/-- A terminal that a shell asked for: it got it, or the terminal is still unused. -/
def Asked (result : Except Errno Terminal) (c : Tty κ) : Prop :=
  match result with
  | .ok t => t.enabled = true ∧ t.group = c.own ∧ c.Regained
  | .error _ => c.Unused

theorem asked_claim (h : c.Unused) :
    Asked (Terminal.attach.claim c).1 (Terminal.attach.claim c).2 := by
  obtain ⟨⟨own, regained, unused⟩, -⟩ := handOver_rule c.own
    ((steadfast_standing fun own _ => own = c.own).and steadfast_unused)
    ((steadfast_standing fun own _ => own = c.own).and (steadfast_regained.and steadfast_unused))
    (fun d h => ⟨h.1, ⟨h.2.front, Or.inl h.1.symm⟩, ⟨h.2.front, h.2.adrift, h.2.past⟩⟩)
    (fun other => absurd rfl other) ⟨rfl, h⟩
  unfold Terminal.attach.claim
  have answer : Kernel.ownGroup c = c.own := rfl
  rw [answer]
  split <;> rename_i k handed <;> rw [handed] at own regained unused
  · exact unused
  · obtain ⟨group, settled⟩ := ((steadfast_standing fun own _ => k.own = own).and
      steadfast_regained).quiet.log (.terminalAttached (Kernel.ownGroup k)) k ⟨rfl, regained⟩
    exact ⟨rfl, group, settled⟩

theorem asked_attach (h : c.Unused) : Asked (Terminal.attach c).1 (Terminal.attach c).2 := by
  have came := unused_comeToForeground h
  unfold Terminal.attach
  split <;> rename_i k answer <;> rw [answer] at came
  · exact came
  · have founded := unused_foundGroup (unused_ignoreJobControl came)
    split <;> rename_i k' answer' <;> rw [answer'] at founded
    · split
      · exact asked_claim (steadfast_unused.quiet.log _ _ founded)
      · exact founded
    · exact asked_claim founded

end Tty

namespace Session

variable {κ : Type} [Kernel κ] {s : Session (Tty κ)}

/-! ## Sessions at a terminal -/

/-- The sessions that a shell with these settings can be in between two operations, from a terminal
at which it has started no child yet.  Between two operations children can move the terminal, and the
system below can do as it likes. -/
inductive AtTerminal (settings : Settings) (login : Login) : Session (Tty κ) → Prop
  | start (c : Tty κ) (unused : c.Unused) : AtTerminal settings login (.start settings login c)
  | perform (s : Session (Tty κ)) (operation : Operation) (before : AtTerminal settings login s) :
      AtTerminal settings login (s.perform operation)
  | elapse (s : Session (Tty κ)) (moves : List (Pid × Pid)) (system : κ)
      (script : List (List (Pid × Pid))) (before : AtTerminal settings login s) :
      AtTerminal settings login
        { s with kernel := { s.kernel.moveAll moves with system, script } }

/-- What holds between two operations: a shell with job control has its terminal back, and one without
it has never started a child with the terminal. -/
structure Seated (s : Session (Tty κ)) : Prop where
  attached : s.shell.terminal.enabled = true →
    s.shell.terminal.group = s.kernel.own ∧ s.kernel.Regained
  detached : s.shell.terminal.enabled = false → s.kernel.Unused

namespace Seated

theorem start (settings : Settings) (login : Login) {c : Tty κ} (unused : c.Unused) :
    (Session.start settings login c).Seated := by
  have quiet := (Tty.steadfast_unused (κ := κ)).quiet
  cases wanted : settings.jobControl with
  | false =>
    simp only [Session.start, wanted]
    exact ⟨fun enabled => (by cases enabled), fun _ => quiet.log _ c unused⟩
  | true =>
    have asked := Tty.asked_attach unused
    rcases answer : Terminal.attach c with ⟨e | terminal, k⟩
    · rw [answer] at asked
      simp only [Session.start, wanted, if_true, answer]
      exact ⟨fun enabled => (by cases enabled), fun _ => quiet.log _ _ (quiet.log _ k asked)⟩
    · rw [answer] at asked
      obtain ⟨enabled, group, regained⟩ := asked
      have held := (Tty.steadfast_standing (κ := κ) fun own _ => terminal.group = own).and
        Tty.steadfast_regained
      simp only [Session.start, wanted, if_true, answer]
      exact ⟨fun _ => held.quiet.log _ k ⟨group, regained⟩,
        fun detached => absurd (enabled.symm.trans detached) (by simp)⟩

omit [Kernel κ] in
theorem steady (seated : s.Seated) (enabled : s.shell.terminal.enabled = true) :
    Tty.Steady s.kernel.own s.kernel.dispositions s.kernel :=
  ⟨rfl, rfl, (seated.attached enabled).2⟩

omit [Kernel κ] in
theorem front (seated : s.Seated) : s.kernel.front = [] := by
  cases enabled : s.shell.terminal.enabled with
  | true => exact (seated.attached enabled).2.front
  | false => exact (seated.detached enabled).front

/-- With job control an operation leaves the shell as it was, with its terminal back. -/
theorem steady_perform (seated : s.Seated) (enabled : s.shell.terminal.enabled = true)
    (operation : Operation) :
    Tty.Steady s.kernel.own s.kernel.dispositions (s.perform operation).kernel :=
  (Tty.operationInvariant_steady enabled (seated.attached enabled).1).perform operation
    (fun _ _ _ _ _ => trivial)
    (fun _ => Tty.idle_steady.drain)
    (seated.steady enabled)

/-- Without job control an operation leaves the terminal alone. -/
theorem spared_perform (seated : s.Seated) (detached : s.shell.terminal.enabled = false)
    (operation : Operation) : s.kernel.Spared (s.perform operation).kernel :=
  ((Tty.Spared.idle s.kernel).operationInvariant detached).perform operation
    (fun _ _ _ _ _ => trivial) (fun _ => (Tty.Spared.idle s.kernel).drain) (.refl seated.front)

theorem perform (seated : s.Seated) (operation : Operation) : (s.perform operation).Seated := by
  have held := s.terminal_perform operation
  refine ⟨fun enabled => ?_, fun detached => ?_⟩
  · rw [held] at enabled ⊢
    have steady := seated.steady_perform enabled operation
    exact ⟨(seated.attached enabled).1.trans steady.own.symm, steady.regained⟩
  · rw [held] at detached
    exact (seated.spared_perform detached operation).unused (seated.detached detached)

omit [Kernel κ] in
theorem elapse (seated : s.Seated) (moves : List (Pid × Pid)) (system : κ)
    (script : List (List (Pid × Pid))) :
    Seated { s with kernel := { s.kernel.moveAll moves with system, script } } := by
  have held := Tty.steadfast_standing (κ := κ) fun own _ => s.shell.terminal.group = own
  refine ⟨fun enabled => ?_, fun detached => ?_⟩
  · obtain ⟨group, regained⟩ := (held.and Tty.steadfast_regained).moveAll moves
      (seated.attached enabled)
    exact ⟨group, Tty.steadfast_regained.below _ system script regained⟩
  · exact Tty.steadfast_unused.below _ system script
      (Tty.steadfast_unused.moveAll moves (seated.detached detached))

end Seated

theorem seated_of_atTerminal {settings : Settings} {login : Login}
    (reachable : s.AtTerminal settings login) : s.Seated := by
  induction reachable with
  | start c unused => exact .start settings login unused
  | perform s operation _ seated => exact seated.perform operation
  | elapse s moves system script _ seated => exact seated.elapse moves system script

/-- What an operation does about the terminal. -/
structure KeepsTerminal (s : Session (Tty κ)) (operation : Operation) : Prop where
  /-- The shell's group and what it does with signals, `SIGTTOU` among them, are the same as before. -/
  own : (s.perform operation).kernel.own = s.kernel.own
  signals : (s.perform operation).kernel.dispositions = s.kernel.dispositions
  /-- With job control the shell has its terminal back, if no child was ever late and none has strayed
  since the shell last took it. -/
  regained : s.shell.terminal.enabled = true → (s.perform operation).kernel.late = [] →
    (s.perform operation).kernel.stray = [] →
      (s.perform operation).kernel.foreground = s.kernel.own
  /-- In any case it has, or such a child put the group there that has it. -/
  taken : s.shell.terminal.enabled = true →
    (s.perform operation).kernel.foreground ≠ s.kernel.own →
      ∃ m ∈ (s.perform operation).kernel.late ++ (s.perform operation).kernel.stray,
        m.2 = (s.perform operation).kernel.foreground
  /-- Work that stays behind does not move the terminal.  If it moves, such a child moved it. -/
  behind : operation.staysBehind = true → s.kernel.Spared (s.perform operation).kernel
  still : operation.staysBehind = true →
    (s.perform operation).kernel.late = s.kernel.late →
      (s.perform operation).kernel.stray = s.kernel.stray →
        (s.perform operation).kernel.moves = s.kernel.moves ∧
          (s.perform operation).kernel.foreground = s.kernel.foreground
  /-- Without job control nothing moves the terminal. -/
  detached : s.shell.terminal.enabled = false →
    (s.perform operation).kernel.moves = s.kernel.moves ∧
      (s.perform operation).kernel.foreground = s.kernel.foreground

/-- **The shell always gets its terminal back**: in every session, in every operation, whatever the
children do, whatever the system answers, and however the operation ends.  It keeps it unless a child
takes it that the shell cannot wait for any more. -/
theorem terminal_comes_back (settings : Settings) (login : Login) (s : Session (Tty κ))
    (reachable : s.AtTerminal settings login) (operation : Operation) :
    s.KeepsTerminal operation := by
  have seated := seated_of_atTerminal reachable
  have behind : operation.staysBehind = true → s.kernel.Spared (s.perform operation).kernel :=
    fun stays => idle_perform (Tty.Spared.idle s.kernel) stays (.refl seated.front)
  cases enabled : s.shell.terminal.enabled with
  | true =>
    have steady := seated.steady_perform enabled operation
    refine ⟨steady.own, steady.signals, fun _ punctual moored => ?_, fun _ other => ?_, behind,
      fun stays => (behind stays).still, ?_⟩
    · rcases steady.regained.foreground with back | ⟨m, out, -⟩
      · exact back.trans steady.own
      · simp [punctual, moored] at out
    · exact steady.regained.foreground.resolve_left fun back => other (back.trans steady.own)
    · exact fun detached => absurd (enabled.symm.trans detached) (by simp)
  | false =>
    have spared := seated.spared_perform enabled operation
    have unused := seated.detached enabled
    refine ⟨spared.own, spared.signals, ?_, ?_, behind, fun stays => (behind stays).still,
      fun _ => spared.still_of_unused unused.past unused.adrift⟩
    · exact fun attached => absurd (enabled.symm.trans attached) (by simp)
    · exact fun attached => absurd (enabled.symm.trans attached) (by simp)

/-- A terminal with a shell that is not in a group of its own yet. -/
def bareTty : Tty (Host Machine) :=
  let machine := { Machine.boot .bare FileTree.root .sink with
    console := some ⟨Machine.shellPid, [], []⟩ }
  ⟨⟨machine, [], [], []⟩, Machine.shellPid, 800, .allDefault, 800, [], [], [], [], [], [], []⟩

/-- A shell that has just taken its terminal.  When it runs a pipeline of two, the first child takes
the terminal for their group before the shell hands it over, and the second one long after that, while
the shell waits.  Then the first one is stopped and the second one ends. -/
def beforePipeline : Session (Tty (Host Machine)) :=
  let s := start ⟨true, "$ ", 2, true⟩ ⟨"user", "/"⟩ bareTty
  { s with kernel := { s.kernel.moveAll [] with
    system := { s.kernel.system with
      turns := [⟨[(100001, .stopped .tstp)], 0, none⟩, ⟨[(100002, .exited 0)], 0, none⟩] }
    script := List.replicate 4 [] ++ [[(100001, 100001)]] ++ List.replicate 10 [] ++
      [[(100002, 100001)]] } }

/-- The terminal goes to the group of the pipeline three times, and comes back. -/
theorem terminal_comes_back_after_stop :
    ∃ s : Session (Tty (Host Machine)), s.shell.terminal.enabled = true ∧
      s.kernel.own = 900 ∧ (s.run "cat | cat").2.kernel.late = [] ∧
      (s.run "cat | cat").2.kernel.stray = [] ∧
      (s.run "cat | cat").2.kernel.moves = [900, 100001, 100001, 100001, 900] ∧
      s.KeepsTerminal (.run "cat | cat") :=
  ⟨beforePipeline, by decide +kernel, by decide +kernel, by decide +kernel, by decide +kernel,
    by decide +kernel,
    terminal_comes_back ⟨true, "$ ", 2, true⟩ ⟨"user", "/"⟩ beforePipeline
      (.elapse _ [] _ _ (.start _ ⟨rfl, rfl, rfl⟩)) (.run "cat | cat")⟩

/-- The same shell, but when it waits for the pipeline an error is the answer, while both children run.
It takes the terminal back and keeps the job in its table.  After that the second child takes the
terminal for their group. -/
def afterFailedWait : Session (Tty (Host Machine)) :=
  let s := start ⟨true, "$ ", 2, true⟩ ⟨"user", "/"⟩ bareTty
  let s := perform { s with kernel := { s.kernel.moveAll [] with
    system := { s.kernel.system with turns := [⟨[], 0, some .einval⟩] }, script := [] } }
    (.run "cat | cat")
  { s with kernel := { s.kernel.moveAll [(100002, 100001)] with
    system := s.kernel.system, script := [] } }

/-- The terminal can be lost although the shell was never refused it and no child was late: the shell
has given up waiting for a child that runs on. -/
theorem terminal_lost_after_failed_wait :
    ∃ s : Session (Tty (Host Machine)), s.AtTerminal ⟨true, "$ ", 2, true⟩ ⟨"user", "/"⟩ ∧
      s.shell.terminal.enabled = true ∧ s.kernel.own = 900 ∧
      (s.perform .poll).kernel.system.children =
        [⟨100001, 100001, false, none⟩, ⟨100002, 100001, false, none⟩] ∧
      (s.perform .poll).kernel.late = [] ∧
      (s.perform .poll).kernel.moves = [900, 100001, 900, 100001] ∧
      (s.perform .poll).kernel.foreground ≠ 900 :=
  ⟨afterFailedWait, .elapse _ _ _ _ (.perform _ _ (.elapse _ [] _ _ (.start _ ⟨rfl, rfl, rfl⟩))),
    by decide +kernel, by decide +kernel, by decide +kernel, by decide +kernel, by decide +kernel,
    by decide +kernel⟩

end Session

end JobControl
