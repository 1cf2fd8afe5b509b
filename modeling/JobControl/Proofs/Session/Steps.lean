import JobControl.Proofs.Job.Table
import JobControl.Proofs.Line.Fresh
import JobControl.Proofs.Loops
import JobControl.Shell.Builtin

/-!
# What one operation does

One rule for each operation of a session, from which every argument about sessions starts.  A rule
lists the ways the operation can go and the session each leaves; what a loop inside the operation
keeps of the system enters it as an invariant of that loop.

* `waitForeground_rule`: a tracked job is waited for, and the wait is concluded.
* `launchTracked_rule`, `launchUntracked_rule`: no stage was started and the launch error is the
  reply, or some were and the job is left to itself or waited for.
* `fg_cases`, `bg_cases`: there is no job to resume, or the signal is refused, or it is resumed.
* `run_cases`, `runBuiltin_cases`: what kind of line it was, and what became of a leading built-in.
-/

set_option autoImplicit false

namespace JobControl

/-- **The rule for launching a job that nothing has happened to yet.**  Either the launch failed and
left the job without a group, or some stages were started and the first one leads the group. -/
theorem Job.Fresh.launch_inv {κ : Type} [Kernel κ] {job : Job} (fresh : job.Fresh) (t : Terminal)
    {I : List Pid → κ → Prop} (inv : LaunchInvariant none (job.mode == .foreground && t.enabled) I)
    (k : κ) (h : I [] k) :
    (∃ (e : LaunchError) (left : Job) (k' : κ), job.launch t k = (some e, left, k') ∧
        left.group = none ∧ I [] k') ∨
      ∃ (l : Launched) (pids : List Pid) (first : Pid) (k' : κ), job.launch t k =
          (l.failure, { job with group := l.group, stages := l.stages }, k') ∧
        l.StartedAs job.stages none pids ∧ pids.head? = some first ∧ I pids k' := by
  rw [← fresh.group] at inv
  rcases job.launch_inv t inv k h with
    ⟨e, k', launch, kept⟩ | ⟨l, pids, k', launch, shape, kept⟩
  · exact Or.inl ⟨e, job, k', launch, fresh.group, kept⟩
  · rw [fresh.group] at shape
    cases pids with
    | nil =>
      obtain ⟨group, e, failure⟩ := shape.failed fresh.stages
      rw [failure] at launch
      exact Or.inl ⟨e, _, k', launch, group, kept⟩
    | cons first others => exact Or.inr ⟨l, first :: others, first, k', launch, shape, rfl, kept⟩

namespace Session

variable {κ : Type} [Kernel κ] {s : Session κ} {id : Nat} {job : Job}

/-! ## Parts of a session -/

@[simp] theorem shell_log (e : Event) : (s.log e).shell = s.shell := rfl

@[simp] theorem kernel_log (e : Event) : (s.log e).kernel = Kernel.log e s.kernel := rfl

omit [Kernel κ] in
@[simp] theorem shell_withJobs (jobs : JobTable) :
    (s.withJobs jobs).shell = { s.shell with jobs } := rfl

omit [Kernel κ] in
@[simp] theorem kernel_withJobs (jobs : JobTable) : (s.withJobs jobs).kernel = s.kernel := rfl

omit [Kernel κ] in
@[simp] theorem shell_modifyJob (f : Job → Job) :
    (s.modifyJob id f).shell = { s.shell with jobs := s.shell.jobs.modify id f } := rfl

omit [Kernel κ] in
@[simp] theorem kernel_modifyJob (f : Job → Job) : (s.modifyJob id f).kernel = s.kernel := rfl

@[simp] theorem shell_removeJob :
    (s.removeJob id).shell = { s.shell with jobs := s.shell.jobs.erase id } := by
  unfold removeJob
  split
  · rfl
  · rename_i h
    rw [JobTable.erase_eq_self h]

/-- A job that leaves the table is logged; the system sees nothing else of it. -/
theorem kernel_removeJob (s : Session κ) (id : Nat) :
    (s.removeJob id).kernel = s.kernel ∨ ∃ e, (s.removeJob id).kernel = Kernel.log e s.kernel := by
  unfold removeJob
  split
  · exact Or.inr ⟨_, rfl⟩
  · exact Or.inl rfl

theorem removeJob_inv {P : κ → Prop} (log : ∀ e k, P k → P (Kernel.log e k)) (id : Nat)
    (h : P s.kernel) : P (s.removeJob id).kernel := by
  rcases kernel_removeJob s id with unlogged | ⟨e, logged⟩
  · rw [unlogged]
    exact h
  · rw [logged]
    exact log e s.kernel h

/-- Text before a reply does not touch its error. -/
theorem error_of_map {reply : Reply} {f : String → String} {e : ShellError}
    (h : reply.map f = .error e) : reply = .error e := by
  cases reply with
  | error e' => exact congrArg _ (Except.error.inj h)
  | ok text => cases h

/-! ## Waiting -/

/-- **The rule for waiting for a tracked job.** -/
theorem waitForeground_rule {group : Pid} (found : s.shell.jobs.find? id = some job)
    (hgroup : job.group = some group) {I : Watch → κ → Prop} (inv : WaitInvariant group I)
    (quiet : ∀ w, TerminalQuiet (I w)) (h : I (.start { job with mode := .foreground }) s.kernel) :
    ∃ (w : Watch) (result : Except Errno WaitOutcome) (kernel : κ), I w kernel ∧
      w.Ended group I result ∧
      s.waitForeground id = { s with kernel }.concludeWait id ⟨result, w.job, w.seen⟩ := by
  obtain ⟨w, result, kernel, run, kept, ended⟩ :=
    Terminal.runForeground_inv s.shell.terminal { job with mode := .foreground } hgroup inv quiet
      s.kernel h
  exact ⟨w, result, kernel, kept, ended, by simp only [waitForeground, found, run]⟩

/-- A wait that is concluded answers with text or with the error that cut the wait short. -/
theorem reply_concludeWait {waited : Waited} {e : ShellError}
    (h : (s.concludeWait id waited).1 = .error e) : ∃ cause, e = .wait cause := by
  unfold concludeWait at h
  split at h
  · cases h
  · cases h
  · cases h
    exact ⟨_, rfl⟩

theorem reply_waitForeground {e : ShellError} (h : (s.waitForeground id).1 = .error e) :
    ∃ cause, e = .wait cause := by
  unfold waitForeground at h
  split at h
  · cases h
  · exact reply_concludeWait h

/-- **The rule for waiting for an untracked job.**  Only the system changes. -/
theorem waitUntracked_rule {group : Pid} (hgroup : job.group = some group) {I : Watch → κ → Prop}
    (inv : WaitInvariant group I) (quiet : ∀ w, TerminalQuiet (I w)) (h : I (.start job) s.kernel) :
    ∃ (w : Watch) (kernel : κ), I w kernel ∧ (s.waitUntracked job).2 = { s with kernel } := by
  obtain ⟨w, result, kernel, run, kept, -⟩ :=
    Terminal.runForeground_inv s.shell.terminal job hgroup inv quiet s.kernel h
  rcases result with e | (_ | reportedAll)
  · exact ⟨w, kernel, kept, by simp only [waitUntracked, run]⟩
  · exact ⟨w, kernel, kept, by simp only [waitUntracked, run]⟩
  · exact ⟨w, _, (quiet w).log (.untrackedStopped job.command) kernel kept,
      by simp only [waitUntracked, run, log]⟩

theorem reply_waitUntracked {e : ShellError} (h : (s.waitUntracked job).1 = .error e) :
    ∃ cause, e = .wait cause := by
  simp only [waitUntracked] at h
  split at h
  · cases h
  · cases h
  · cases h
    exact ⟨_, rfl⟩

/-! ## Launching -/

/-- **The rule for launching a tracked job** that nothing has happened to yet. -/
theorem launchTracked_rule (found : s.shell.jobs.find? id = some job) (fresh : job.Fresh)
    {I : List Pid → κ → Prop}
    (inv : LaunchInvariant none (job.mode == .foreground && s.shell.terminal.enabled) I)
    (h : I [] s.kernel) :
    (∃ e kernel changed, I [] kernel ∧ s.launchTracked id =
        (.error (.launch e), ({ s with kernel }.modifyJob id fun _ => changed).removeJob id)) ∨
      ∃ (l : Launched) (pids : List Pid) (launched : Job) (kernel : κ) (after : Session κ),
        l.StartedAs job.stages none pids ∧ pids ≠ [] ∧ I pids kernel ∧
        launched = { job with group := l.group, stages := l.stages } ∧
        after = { s with kernel }.modifyJob id (fun _ => launched) ∧
        s.launchTracked id =
          if job.mode = .background then
            (.ok (launchNotice l.failure ++ launched.listing id), after)
          else ((after.waitForeground id).1.map (launchNotice l.failure ++ ·),
            (after.waitForeground id).2) := by
  rcases fresh.launch_inv s.shell.terminal inv s.kernel h with
    ⟨e, changed, kernel, launch, none, kept⟩ | ⟨l, pids, first, kernel, launch, shape, lead, kept⟩
  · exact Or.inl ⟨e, kernel, changed, kept, by simp only [launchTracked, found, launch, none]⟩
  · have group := shape.founder.trans lead
    have started : pids ≠ [] := fun none => by rw [none] at lead; cases lead
    refine Or.inr ⟨l, pids, _, kernel, _, shape, started, kept, rfl, rfl, ?_⟩
    cases failure : l.failure <;> simp only [launchTracked, found, launch, group, failure]

/-- **The rule for launching an untracked job** that nothing has happened to yet. -/
theorem launchUntracked_rule (fresh : job.Fresh) {I : List Pid → κ → Prop}
    (inv : LaunchInvariant none (job.mode == .foreground && s.shell.terminal.enabled) I)
    (h : I [] s.kernel) :
    (∃ e kernel, I [] kernel ∧ s.launchUntracked job = (.error (.launch e), { s with kernel })) ∨
      ∃ (l : Launched) (pids : List Pid) (launched : Job) (after : Session κ) (kernel : κ),
        l.StartedAs job.stages none pids ∧ pids ≠ [] ∧ I pids kernel ∧
        launched = { job with group := l.group, stages := l.stages } ∧
        after = { s with kernel } ∧
        s.launchUntracked job =
          if job.mode = .background then (.ok (launchNotice l.failure), after)
          else ((after.waitUntracked launched).1.map (launchNotice l.failure ++ ·),
            (after.waitUntracked launched).2) := by
  rcases fresh.launch_inv s.shell.terminal inv s.kernel h with
    ⟨e, changed, kernel, launch, none, kept⟩ | ⟨l, pids, first, kernel, launch, shape, lead, kept⟩
  · exact Or.inl ⟨e, kernel, kept, by simp only [launchUntracked, launch, none]⟩
  · have group := shape.founder.trans lead
    have started : pids ≠ [] := fun none => by rw [none] at lead; cases lead
    refine Or.inr ⟨l, pids, _, _, kernel, shape, started, kept, rfl, rfl, ?_⟩
    cases failure : l.failure <;> simp only [launchUntracked, launch, group, failure]

/-- An untracked job changes nothing in the shell itself. -/
theorem shell_launchUntracked (fresh : job.Fresh) : (s.launchUntracked job).2.shell = s.shell := by
  rcases launchUntracked_rule (s := s) fresh (.const True) trivial with
    ⟨e, kernel, -, eq⟩ | ⟨l, pids, launched, after, kernel, shape, started, -, hl, rfl, eq⟩
  · rw [eq]
  · obtain ⟨group, hgroup⟩ : ∃ group, launched.group = some group := by
      obtain ⟨first, others, rfl⟩ := List.exists_cons_of_ne_nil started
      exact ⟨first, by rw [hl]; exact shape.founder⟩
    obtain ⟨w, kernel', -, waited⟩ :=
      waitUntracked_rule (s := { s with kernel }) hgroup (.const True) (fun _ => .const True)
        trivial
    rw [eq]
    split
    · rfl
    · rw [waited]

/-! ## Changing the directory -/

theorem jobs_cd (arguments : List String) : (s.cd arguments).2.shell.jobs = s.shell.jobs := by
  cases arguments with
  | nil =>
    simp only [cd, goHome]
    split <;> rfl
  | cons argument rest =>
    simp only [cd]
    split <;> rfl

/-- Of the system it asks for one change. -/
theorem kernel_cd (s : Session κ) (arguments : List String) :
    ∃ path, (s.cd arguments).2.kernel = (Kernel.changeDirectory path s.kernel).2 := by
  cases arguments with
  | nil =>
    refine ⟨s.shell.home, ?_⟩
    simp only [cd, goHome]
    split <;> rename_i answer <;> rw [answer]
  | cons argument rest =>
    let target := String.ofList (Text.trim Text.isWhiteSpace argument.toList)
    refine ⟨Directory.resolve s.shell.directory target, ?_⟩
    simp only [cd]
    split <;> rename_i answer <;> rw [answer]

/-! ## Resuming -/

/-- What can become of resuming a job in the foreground: there is none in the background; or the
most recent one has no group, or its group could not be signalled; or it is resumed and waited for.
-/
inductive FgCases (s : Session κ) : Prop
  | missing (recent : s.shell.jobs.mostRecentBackground? = none)
      (fg : s.fg = (.error (.builtin .noBackgroundJob), s))
  | groupless (e : TableEntry) (tracked : e ∈ s.shell.jobs.entries) (group : e.job.group = none)
      (fg : s.fg = (.error (.builtin (.jobNotFound "fg" e.id none)), s))
      (recent : s.shell.jobs.mostRecentBackground? = some e.id)
  | refused (e : TableEntry) (tracked : e ∈ s.shell.jobs.entries) (pgid : Pid)
      (group : e.job.group = some pgid) (cause : Errno) (kernel : κ)
      (answer : Kernel.signalGroup pgid .cont s.kernel = (.error cause, kernel))
      (fg : s.fg = (.error (.builtin (.jobNotFound "fg" e.id (some cause))), { s with kernel }))
      (recent : s.shell.jobs.mostRecentBackground? = some e.id)
  | resumed (e : TableEntry) (tracked : e ∈ s.shell.jobs.entries) (pgid : Pid)
      (group : e.job.group = some pgid) (kernel : κ)
      (answer : Kernel.signalGroup pgid .cont s.kernel = (.ok (), kernel))
      (after : Session κ) (marked : after = { s with kernel }.modifyJob e.id Job.markContinued)
      (fg : s.fg = ((after.waitForeground e.id).1.map (e.job.command ++ "\n" ++ ·),
        (after.waitForeground e.id).2))
      (recent : s.shell.jobs.mostRecentBackground? = some e.id)

/-- **The rule for resuming in the foreground.** -/
theorem fg_cases (s : Session κ) : s.FgCases := by
  cases recent : s.shell.jobs.mostRecentBackground? with
  | none => exact .missing recent (by simp only [fg, recent])
  | some id =>
    obtain ⟨e, he, rfl, -⟩ := JobTable.mostRecent?_eq_some recent
    have found := JobTable.find?_of_mem he
    cases group : e.job.group with
    | none => exact .groupless e he group (by simp only [fg, recent, found, group]) recent
    | some pgid =>
      rcases answer : Kernel.signalGroup pgid .cont s.kernel with ⟨cause | ⟨⟩, kernel⟩
      · exact .refused e he pgid group cause kernel answer
          (by simp only [fg, recent, found, group, answer]) recent
      · exact .resumed e he pgid group kernel answer _ rfl
          (by simp only [fg, recent, found, group, answer]) recent

/-- What can become of resuming a job in the background: none has a suspended stage; or the most
recent one that has has no group, or its group could not be signalled; or it is resumed. -/
inductive BgCases (s : Session κ) : Prop
  | missing (bg : s.bg = (.error (.builtin .noSuspendedJob), s))
      (recent : s.shell.jobs.mostRecentSuspended? = none)
  | groupless (e : TableEntry) (tracked : e ∈ s.shell.jobs.entries) (group : e.job.group = none)
      (bg : s.bg = (.error (.builtin (.jobNotFound "bg" e.id none)), s))
      (recent : s.shell.jobs.mostRecentSuspended? = some e.id)
  | refused (e : TableEntry) (tracked : e ∈ s.shell.jobs.entries) (pgid : Pid)
      (group : e.job.group = some pgid) (cause : Errno) (kernel : κ)
      (answer : Kernel.signalGroup pgid .cont s.kernel = (.error cause, kernel))
      (bg : s.bg = (.error (.builtin (.jobNotFound "bg" e.id (some cause))), { s with kernel }))
      (recent : s.shell.jobs.mostRecentSuspended? = some e.id)
  | resumed (e : TableEntry) (tracked : e ∈ s.shell.jobs.entries) (pgid : Pid)
      (group : e.job.group = some pgid) (kernel : κ)
      (answer : Kernel.signalGroup pgid .cont s.kernel = (.ok (), kernel))
      (bg : s.bg = (.ok (e.job.listing e.id), { s with kernel }.modifyJob e.id fun job =>
        { job.markContinued with mode := .background }))
      (recent : s.shell.jobs.mostRecentSuspended? = some e.id)

/-- **The rule for resuming in the background.** -/
theorem bg_cases (s : Session κ) : s.BgCases := by
  cases recent : s.shell.jobs.mostRecentSuspended? with
  | none => exact .missing (by simp only [bg, recent]) recent
  | some id =>
    obtain ⟨e, he, rfl, -⟩ := JobTable.mostRecent?_eq_some recent
    have found := JobTable.find?_of_mem he
    cases group : e.job.group with
    | none => exact .groupless e he group (by simp only [bg, recent, found, group]) recent
    | some pgid =>
      rcases answer : Kernel.signalGroup pgid .cont s.kernel with ⟨cause | ⟨⟩, kernel⟩
      · exact .refused e he pgid group cause kernel answer
          (by simp only [bg, recent, found, group, answer]) recent
      · exact .resumed e he pgid group kernel answer
          (by simp only [bg, recent, found, group, answer]) recent

/-! ## Running a line -/

/-- What can become of a line: it is faulty or blank; it is led by an external program, and the job
is tracked or found the table full; or it is led by a built-in. -/
inductive RunCases (s : Session κ) (line : String) : Prop
  | faulty (fault : LineFault) (parsed : Job.ofLine line = .error fault)
      (run : s.run line = (.error (.parse fault), s))
  | blank (parsed : Job.ofLine line = .ok none) (run : s.run line = (.ok "", s))
  | tracked (job : Job) (parsed : Job.ofLine line = .ok (some job)) (fresh : job.Fresh)
      (external : job.isBuiltin = false) (id : Nat) (jobs : JobTable)
      (registered : s.shell.jobs.register job = .ok (id, jobs))
      (run : s.run line =
        ((s.withJobs jobs).log (.jobRegistered id job.command)).launchTracked id)
  | untracked (job : Job) (parsed : Job.ofLine line = .ok (some job)) (fresh : job.Fresh)
      (external : job.isBuiltin = false) (full : TableFull)
      (run : s.run line =
        (((s.log (.tableFull full.capacity)).launchUntracked job).1.map
            ("ish: " ++ full.message ++ "\n" ++ ·),
          ((s.log (.tableFull full.capacity)).launchUntracked job).2))
      (refused : s.shell.jobs.register job = .error full)
  | builtin (job : Job) (parsed : Job.ofLine line = .ok (some job)) (fresh : job.Fresh)
      (stage : Stage) (rest : List Stage) (stages : job.stages = stage :: rest)
      (builtin : stage.kind.isBuiltin = true) (run : s.run line = s.runBuiltin job)

/-- **The rule for running a line.** -/
theorem run_cases (s : Session κ) (line : String) : s.RunCases line := by
  rcases parsed : Job.ofLine line with fault | (_ | job)
  · exact .faulty fault parsed (by simp only [run, parsed])
  · exact .blank parsed (by simp only [run, parsed])
  · have fresh := Job.fresh_of_ofLine parsed
    cases leads : job.isBuiltin with
    | false =>
      rcases registered : s.shell.jobs.register job with full | ⟨id, jobs⟩
      · refine .untracked job parsed fresh leads full ?_ registered
        have handed_back := JobTable.register_eq_error registered
        simp only [run, parsed, launch, leads, launchExternal, registered, handed_back]
        rfl
      · refine .tracked job parsed fresh leads id jobs registered ?_
        simp only [run, parsed, launch, leads, launchExternal, registered]
        rfl
    | true =>
      obtain ⟨stage, rest, stages⟩ := List.exists_cons_of_ne_nil fresh.stages
      refine .builtin job parsed fresh stage rest stages ?_ ?_
      · simpa only [Job.isBuiltin, stages] using leads
      · simp only [run, parsed, launch, leads, if_true]

/-- What can become of a job led by a built-in: the built-in failed; or it is all there was to do;
or the stages after it run as an untracked pipeline. -/
inductive BuiltinCases (s : Session κ) (job : Job) (stage : Stage) (rest : List Stage) : Prop
  | failed (e : ShellError) (after : Session κ)
      (first : (s.log (.builtinRun stage.program)).runStage stage = (.error e, after))
      (run : s.runBuiltin job = (.error e, after))
  | done (text : String) (after : Session κ)
      (first : (s.log (.builtinRun stage.program)).runStage stage = (.ok text, after))
      (last : rest = [] ∨ after.shell.exitRequested = true)
      (run : s.runBuiltin job = (.ok text, after))
  | piped (text : String) (after : Session κ)
      (first : (s.log (.builtinRun stage.program)).runStage stage = (.ok text, after))
      (more : rest ≠ [])
      (run : s.runBuiltin job =
        ((after.launchUntracked { job with stages := rest }).1.map (text ++ ·),
          (after.launchUntracked { job with stages := rest }).2))

/-- **The rule for running a built-in.** -/
theorem runBuiltin_cases (s : Session κ) {job : Job} {stage : Stage} {rest : List Stage}
    (stages : job.stages = stage :: rest) : s.BuiltinCases job stage rest := by
  rcases first : (s.log (.builtinRun stage.program)).runStage stage with ⟨e | text, after⟩
  · exact .failed e after first (by simp only [runBuiltin, stages, first])
  · by_cases last : rest = [] ∨ after.shell.exitRequested = true
    · exact .done text after first last (by simp only [runBuiltin, stages, first, if_pos last])
    · refine .piped text after first (fun h => last (Or.inl h)) ?_
      simp only [runBuiltin, stages, first, if_neg last]

end Session

end JobControl
