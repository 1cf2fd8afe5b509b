import JobControl.Machine.System
import JobControl.Proofs.Kernel.Ledger
import JobControl.Proofs.Session.Steps

/-!
# Failed commands

A line that answers with an error leaves the shell as it was, if it is not a built-in with a
pipeline after it and the error is not that of a wait: the table, the directory, the wish to exit
and the record of what was done to the system are the same (`failed_run_unmoved`).  In particular no
child was started; a line that started one answers with text, or with the error of a wait.
-/

set_option autoImplicit false

namespace JobControl

/-- A built-in leads, and stages follow it. -/
def Job.isMixed (j : Job) : Bool :=
  j.isBuiltin && 1 < j.stages.length

/-- The error is that of a wait. -/
def ShellError.isWait : ShellError → Bool
  | .wait _ => true
  | _ => false

namespace Session

variable {κ : Type} [Kernel κ] {s s' s'' : Session (Ledger κ)} {id : Nat} {job : Job}

/-- Nothing has happened to the shell, and nothing was done to the system: the second session
differs from the first one at most in the number of registrations so far and in what the system is
busy with. -/
structure Unmoved (s s' : Session (Ledger κ)) : Prop where
  shell : { s'.shell with jobs := s.shell.jobs } = s.shell
  capacity : s'.shell.jobs.capacity = s.shell.jobs.capacity
  entries : s'.shell.jobs.entries = s.shell.jobs.entries
  record : s.kernel.SameRecord s'.kernel

namespace Unmoved

omit [Kernel κ] in
theorem refl (s : Session (Ledger κ)) : s.Unmoved s :=
  ⟨rfl, rfl, rfl, .refl _⟩

omit [Kernel κ] in
theorem trans (h : s.Unmoved s') (h' : s'.Unmoved s'') : s.Unmoved s'' where
  shell := by
    have first := h.shell
    rw [← h'.shell] at first
    exact first
  capacity := h'.capacity.trans h.capacity
  entries := h'.entries.trans h.entries
  record := h.record.trans h'.record

theorem log (s : Session (Ledger κ)) (e : Event) : s.Unmoved (s.log e) :=
  ⟨rfl, rfl, rfl, ⟨rfl, rfl, rfl⟩⟩

end Unmoved

/-! ## Built-in commands -/

/-- A failed change of directory moves nothing. -/
theorem unmoved_of_cd {arguments : List String} {e : ShellError}
    (h : s.cd arguments = (.error e, s')) : s.Unmoved s' := by
  cases arguments with
  | nil =>
    simp only [cd, goHome] at h
    split at h
    case h_1 answer =>
      cases h
      exact ⟨rfl, rfl, rfl, Ledger.SameRecord.of_error answer⟩
    case h_2 => cases h
  | cons argument rest =>
    simp only [cd] at h
    split at h
    case h_1 answer =>
      cases h
      exact ⟨rfl, rfl, rfl, Ledger.SameRecord.of_error answer⟩
    case h_2 => cases h

/-- Resuming a job in the foreground fails by an error of its wait or moves nothing. -/
theorem unmoved_of_fg {e : ShellError} (h : s.fg = (.error e, s')) (other : e.isWait = false) :
    s.Unmoved s' := by
  cases s.fg_cases with
  | missing recent fg =>
    rw [fg] at h
    cases h
    exact .refl s
  | groupless entry he group fg =>
    rw [fg] at h
    cases h
    exact .refl s
  | refused entry he pgid group cause kernel answer fg =>
    rw [fg] at h
    cases h
    exact ⟨rfl, rfl, rfl, Ledger.SameRecord.of_pass answer⟩
  | resumed entry he pgid group kernel answer after marked fg =>
    rw [fg] at h
    obtain ⟨cause, rfl⟩ := reply_waitForeground (error_of_map (congrArg Prod.fst h))
    cases other

theorem unmoved_of_bg {e : ShellError} (h : s.bg = (.error e, s')) : s.Unmoved s' := by
  cases s.bg_cases with
  | missing bg =>
    rw [bg] at h
    cases h
    exact .refl s
  | groupless entry he group bg =>
    rw [bg] at h
    cases h
    exact .refl s
  | refused entry he pgid group cause kernel answer bg =>
    rw [bg] at h
    cases h
    exact ⟨rfl, rfl, rfl, Ledger.SameRecord.of_pass answer⟩
  | resumed entry he pgid group kernel answer bg =>
    rw [bg] at h
    cases h

/-- A built-in that fails moves nothing, unless the error is that of a wait. -/
theorem unmoved_of_runStage {stage : Stage} {e : ShellError}
    (h : s.runStage stage = (.error e, s')) (other : e.isWait = false) : s.Unmoved s' := by
  unfold runStage at h
  split at h
  · cases h
  · exact unmoved_of_cd h
  · exact unmoved_of_fg h other
  · exact unmoved_of_bg h
  · cases h

theorem started_cd (s : Session (Ledger κ)) (arguments : List String) :
    (s.cd arguments).2.kernel.started = s.kernel.started := by
  have entered : ∀ path, (Kernel.changeDirectory path s.kernel).2.started = s.kernel.started := by
    intro path
    simp only [Kernel.changeDirectory, Ledger.enter]
    split <;> rfl
  cases arguments with
  | nil =>
    have kept := entered s.shell.home
    simp only [cd, goHome]
    split <;> rename_i answer <;> rw [answer] at kept <;> exact kept
  | cons argument rest =>
    simp only [cd]
    have kept := entered (Directory.resolve s.shell.directory
      (String.ofList (Text.trim Text.isWhiteSpace argument.toList)))
    split <;> rename_i answer <;> rw [answer] at kept <;> exact kept

theorem started_waitForeground {group : Pid} (found : s.shell.jobs.find? id = some job)
    (hgroup : job.group = some group) :
    (s.waitForeground id).2.kernel.started = s.kernel.started := by
  obtain ⟨w, result, kernel, kept, -, wait⟩ := waitForeground_rule found hgroup
    (Ledger.waitInvariant s.kernel.started group)
    (fun _ => Ledger.terminalQuiet s.kernel.started) rfl
  rw [wait]
  rcases result with e | (_ | reportedAll)
  · exact kept
  · rcases kernel_removeJob { s with kernel } id with eq | ⟨event, eq⟩
    · rw [concludeWait, eq]
      exact kept
    · rw [concludeWait, eq]
      exact kept
  · exact kept

theorem started_fg (s : Session (Ledger κ)) : s.fg.2.kernel.started = s.kernel.started := by
  cases s.fg_cases with
  | missing recent fg => rw [fg]
  | groupless entry he group fg => rw [fg]
  | refused entry he pgid group cause kernel answer fg =>
    rw [fg]
    exact (Ledger.SameRecord.of_pass answer).started
  | resumed entry he pgid group kernel answer after marked fg =>
    have resumed : after.shell.jobs.find? entry.id = some entry.job.markContinued := by
      rw [marked]
      exact JobTable.find?_modify (JobTable.find?_of_mem he)
    rw [fg, started_waitForeground resumed group, marked]
    exact (Ledger.SameRecord.of_pass answer).started

theorem started_bg (s : Session (Ledger κ)) : s.bg.2.kernel.started = s.kernel.started := by
  cases s.bg_cases with
  | missing bg => rw [bg]
  | groupless entry he group bg => rw [bg]
  | refused entry he pgid group cause kernel answer bg =>
    rw [bg]
    exact (Ledger.SameRecord.of_pass answer).started
  | resumed entry he pgid group kernel answer bg =>
    rw [bg]
    exact (Ledger.SameRecord.of_pass answer).started

theorem started_runStage (s : Session (Ledger κ)) (stage : Stage) :
    (s.runStage stage).2.kernel.started = s.kernel.started := by
  unfold runStage
  split
  · rfl
  · exact started_cd s stage.arguments
  · exact started_fg s
  · exact started_bg s
  · rfl

/-! ## Launches -/

/-- A tracked job that could not be launched leaves no trace. -/
theorem unmoved_of_launchTracked {jobs : JobTable} (fresh : job.Fresh)
    (registered : s.shell.jobs.register job = .ok (id, jobs)) {event : Event} {e : ShellError}
    (h : ((s.withJobs jobs).log event).launchTracked id = (.error e, s'))
    (other : e.isWait = false) : s.Unmoved s' := by
  have found := JobTable.find?_of_register registered
  obtain ⟨-, capacity, -⟩ := JobTable.register_eq_ok registered
  rcases launchTracked_rule (s := (s.withJobs jobs).log event) found (fresh.withId (some id))
      (Ledger.launchInvariant s.kernel none _) (fun _ => ⟨rfl, rfl, rfl⟩) with
    ⟨cause, kernel, changed, same, launch⟩ |
    ⟨l, pids, launched, kernel, after, -, -, -, -, -, launch⟩
  · rw [launch] at h
    obtain rfl := congrArg Prod.snd h
    refine ⟨?_, ?_, ?_, ?_⟩
    · rw [shell_removeJob]
      rfl
    · rw [shell_removeJob]
      exact capacity
    · rw [shell_removeJob]
      exact JobTable.entries_erase_register registered
    · rcases kernel_removeJob ({ (s.withJobs jobs).log event with kernel }.modifyJob id
          fun _ => changed) id with eq | ⟨event, eq⟩
      · rw [eq]
        exact same rfl
      · rw [eq]
        exact (same rfl).trans ⟨rfl, rfl, rfl⟩
  · rw [launch] at h
    split at h
    · cases h
    · obtain ⟨cause, rfl⟩ := reply_waitForeground (error_of_map (congrArg Prod.fst h))
      cases other

/-- An untracked job that could not be launched leaves no trace. -/
theorem unmoved_of_launchUntracked (fresh : job.Fresh) {e : ShellError}
    (h : (s.launchUntracked job).1 = .error e) (other : e.isWait = false) :
    s.Unmoved (s.launchUntracked job).2 := by
  rcases launchUntracked_rule (s := s) fresh (Ledger.launchInvariant s.kernel none _)
      (fun _ => .refl _) with
    ⟨cause, kernel, same, launch⟩ | ⟨l, pids, launched, after, kernel, -, -, -, -, -, launch⟩
  · rw [launch]
    exact ⟨rfl, rfl, rfl, same rfl⟩
  · rw [launch] at h
    split at h
    · cases h
    · obtain ⟨cause, rfl⟩ := reply_waitUntracked (error_of_map h)
      cases other

/-! ## Lines -/

/-- A line that fails moves nothing, unless the error is that of a wait or the line is a built-in
with a pipeline after it; and it starts no process even then. -/
theorem unmoved_of_run {line : String} {e : ShellError} (h : s.run line = (.error e, s'))
    (other : e.isWait = false) :
    ((∀ job, Job.ofLine line = .ok (some job) → job.isMixed = false) → s.Unmoved s') ∧
      s'.kernel.started = s.kernel.started := by
  suffices moved : s.Unmoved s' ∨ ((∃ job, Job.ofLine line = .ok (some job) ∧ job.isMixed = true) ∧
      s'.kernel.started = s.kernel.started) by
    rcases moved with unmoved | ⟨⟨job, parsed, mixed⟩, started⟩
    · exact ⟨fun _ => unmoved, unmoved.record.started⟩
    · refine ⟨fun simple => ?_, started⟩
      rw [simple job parsed] at mixed
      cases mixed
  cases s.run_cases line with
  | faulty fault parsed run =>
    rw [run] at h
    cases h
    exact Or.inl (.refl s)
  | blank parsed run =>
    rw [run] at h
    cases h
  | tracked job parsed fresh external id jobs registered run =>
    rw [run] at h
    exact Or.inl (unmoved_of_launchTracked fresh registered h other)
  | untracked job parsed fresh external full run =>
    rw [run] at h
    obtain ⟨reply, rfl⟩ := Prod.mk.inj h
    exact Or.inl ((Unmoved.log s (.tableFull full.capacity)).trans
      (unmoved_of_launchUntracked fresh (error_of_map reply) other))
  | builtin job parsed fresh stage rest stages builtin run =>
    rw [run] at h
    cases s.runBuiltin_cases stages with
    | failed e' after first run =>
      rw [run] at h
      cases h
      exact Or.inl ((Unmoved.log s _).trans (unmoved_of_runStage first other))
    | done text after first last run =>
      rw [run] at h
      cases h
    | piped text after first more run =>
      rw [run] at h
      obtain ⟨reply, rfl⟩ := Prod.mk.inj h
      refine Or.inr ⟨⟨job, parsed, ?_⟩, ?_⟩
      · have := List.length_pos_of_ne_nil more
        simp [Job.isMixed, Job.isBuiltin, stages, builtin]
        omega
      · have before := started_runStage (s.log (.builtinRun stage.program)) stage
        rw [first] at before
        have launched := unmoved_of_launchUntracked (fresh.tail stages more)
          (error_of_map reply) other
        exact launched.record.started.trans before

/-- **Failed commands leave the shell as it was.**  Whatever the system answers, a line that fails
moves nothing, unless it is a built-in with a pipeline after it or the error is that of a wait.  A
line that started a process answers with text, unless the error is that of a wait. -/
theorem failed_run_unmoved (s : Session (Ledger κ)) (line : String) :
    (∀ e, (s.run line).1 = .error e → e.isWait = false →
        (∀ job, Job.ofLine line = .ok (some job) → job.isMixed = false) →
          s.Unmoved (s.run line).2) ∧
      ((s.run line).2.kernel.started ≠ s.kernel.started →
        ∀ e, (s.run line).1 = .error e → e.isWait = true) := by
  constructor
  · intro e reply other simple
    exact (unmoved_of_run (Prod.ext reply rfl) other).1 simple
  · intro started e reply
    by_contra other
    exact started (unmoved_of_run (Prod.ext reply rfl) (Bool.eq_false_iff.mpr other)).2

/-- Without a descriptor to spare, a job that reads a file fails and moves nothing, and a job in the
background starts a process and answers with text. -/
theorem failed_run_without_descriptor :
    ∃ s : Session (Ledger Machine),
      (s.run "cat < data").1 = .error (.launch (.input "data" (.refused .emfile))) ∧
      s.Unmoved (s.run "cat < data").2 ∧
      (s.run "sleep 9 &").2.kernel.started = [100001] ∧
      ∀ e, (s.run "sleep 9 &").1 = .error e → e.isWait = true := by
  refine ⟨.start ⟨true, "$ ", 2, false⟩ ⟨"user", "/"⟩
      ⟨{ Machine.boot .bare FileTree.root .sink with spare := some 0 }, [], [], []⟩,
    by decide +kernel, ?_, by decide +kernel, ?_⟩
  · refine (failed_run_unmoved _ "cat < data").1 (.launch (.input "data" (.refused .emfile)))
      (by decide +kernel) rfl fun job parsed => ?_
    have simple : (Job.ofLine "cat < data").map (Option.map Job.isMixed) = .ok (some false) := by
      decide +kernel
    rw [parsed] at simple
    exact Option.some.inj (Except.ok.inj simple)
  · exact (failed_run_unmoved _ "sleep 9 &").2 (by decide +kernel)

end Session

end JobControl
