import JobControl.Proofs.Session.Coherence

/-!
# Sessions on a system with children

`Hosted` is every session of a shell on a system with children of their own will.  Operations and
the children take turns in any order; the one thing asked is that no process is started under an id
that a job of the table has (`StartsFresh`).  Every such session is coherent, and
`coherent_between_operations` says what that means for the table.

A line led by a built-in does two things: the built-in may change the table, and the stages after it
run as an untracked pipeline.  `launchPoint` is the session in between.
-/

set_option autoImplicit false

namespace JobControl.Session

/-! ## Built-ins -/

section Builtins

variable {σ : Type} [Kernel σ] {s : Session (Host σ)}

omit [Kernel σ] in
/-- Once the group of a job is continued, the other jobs agree with the roll. -/
theorem coherentBut_resumed (h : s.Coherent) {e : TableEntry} (he : e ∈ s.shell.jobs.entries)
    {group : Pid} (hgroup : e.job.group = some group) {kernel : Host σ}
    (resumed : kernel.roll = s.kernel.roll.resume group) :
    CoherentBut e.id { s with kernel } where
  tracked := h.tracked.but e.id
  apart := h.apart
  coheres := by
    intro e' he' hne
    rw [resumed]
    refine (h.coheres e' he').resume_other fun own => hne ?_
    have leads : group ∈ e'.job.pids := (h.tracked e' he').group_mem_pids own
    exact h.apart e' he' e he group leads ((h.tracked e he).group_mem_pids hgroup)

/-- Resuming a job in the foreground keeps the table and the children in agreement. -/
theorem keeps_fg (h : s.Coherent) : s.Keeps s.fg.2 := by
  cases s.fg_cases with
  | missing recent fg =>
    rw [fg]
    exact h.keeps rfl rfl
  | groupless e he group fg =>
    rw [fg]
    exact h.keeps rfl rfl
  | refused e he pgid group cause kernel answer fg =>
    rw [fg]
    exact h.keeps rfl (Host.roll_signalGroup_error answer)
  | resumed e he pgid group kernel answer after marked fg =>
    have resumed := Host.roll_signalGroup_ok answer
    have found := JobTable.find?_of_mem he
    have same := (Job.Advances.markContinued e.job).pids_eq
    have placed : after.shell.jobs.find? e.id = some e.job.markContinued := by
      rw [marked]
      exact JobTable.find?_modify found
    have others : after.CoherentBut e.id := by
      rw [marked]
      exact (coherentBut_resumed h he group resumed).modify found _ same
    have agrees : e.job.markContinued.Coheres after.kernel.roll := by
      rw [marked]
      exact resumed ▸ (h.coheres e he).resume group
    have sound := (h.tracked e he).toSound.advances (.markContinued e.job)
    have concluded := concluded_waitForeground others placed sound agrees
    rw [fg]
    refine ⟨concluded.coherent, fun e' he' => ?_⟩
    -- the wait started from the table in which the job was marked as continued
    obtain ⟨m, hm, hid, hpids⟩ : ∃ m ∈ after.shell.jobs.entries, m.id = e'.id ∧
        m.job.pids = e'.job.pids := by
      rw [marked]
      by_cases own : e'.id = e.id
      · have same := (Job.Advances.markContinued e'.job).pids_eq
        exact ⟨_, JobTable.mem_modify_of_eq he' own, rfl, same⟩
      · exact ⟨e', JobTable.mem_modify_of_ne he' own, rfl, rfl⟩
    rcases concluded.accounted m hm with ⟨n, hn, hnid, hnpids⟩ | gone
    · exact Or.inl ⟨n, hn, hnid.trans hid, hnpids.trans hpids⟩
    · exact Or.inr (hpids ▸ gone)

theorem keeps_bg (h : s.Coherent) : s.Keeps s.bg.2 := by
  cases s.bg_cases with
  | missing bg =>
    rw [bg]
    exact h.keeps rfl rfl
  | groupless e he group bg =>
    rw [bg]
    exact h.keeps rfl rfl
  | refused e he pgid group cause kernel answer bg =>
    rw [bg]
    exact h.keeps rfl (Host.roll_signalGroup_error answer)
  | resumed e he pgid group kernel answer bg =>
    have resumed := Host.roll_signalGroup_ok answer
    have found := JobTable.find?_of_mem he
    have same := (Job.Advances.markContinued e.job).pids_eq
    have others := (coherentBut_resumed h he group resumed).modify found
      (fun job => { job.markContinued with mode := .background }) same
    have agrees : Job.Coheres { e.job.markContinued with mode := .background } kernel.roll :=
      resumed ▸ ((h.coheres e he).resume group).withMode .background
    have tracked : Job.Tracked e.id { e.job.markContinued with mode := .background } := by
      refine ⟨?_, rfl, (h.tracked e he).live_markContinued⟩
      exact ((h.tracked e he).toSound.advances (.markContinued e.job)).withMode .background
    rw [bg]
    refine ⟨others.all (JobTable.find?_modify found) tracked agrees, ?_⟩
    refine (JobTable.Accounted.refl _ _).modify fun e' _ _ => ?_
    exact (Job.Advances.markContinued e'.job).pids_eq

theorem roll_cd (s : Session (Host σ)) (arguments : List String) :
    (s.cd arguments).2.kernel.roll = s.kernel.roll := by
  obtain ⟨path, asked⟩ := kernel_cd s arguments
  rw [asked]
  rfl

/-- A built-in keeps the table and the children in agreement. -/
theorem keeps_runStage (h : s.Coherent) (stage : Stage) : s.Keeps (s.runStage stage).2 := by
  unfold runStage
  split
  · exact h.keeps rfl rfl
  · exact h.keeps (congrArg JobTable.entries (jobs_cd _)) (roll_cd s _)
  · exact keeps_fg h
  · exact keeps_bg h
  · exact h.keeps rfl rfl

end Builtins

/-! ## Lines -/

/-- What the leading built-in of a line makes of a session. -/
def afterBuiltin? {κ : Type} [Kernel κ] (s : Session κ) (line : String) : Option (Session κ) :=
  (leadingBuiltin? line).map fun stage => ((s.log (.builtinRun stage.program)).runStage stage).2

/-- The session from which a line starts its processes. -/
def launchPoint {κ : Type} [Kernel κ] (s : Session κ) (line : String) : Session κ :=
  (s.afterBuiltin? line).getD s

/-- The session as it was when an operation had made its last change to the table: the stages after
a leading built-in are untracked. -/
def settled {κ : Type} [Kernel κ] (s : Session κ) : Operation → Session κ
  | .run line => (s.afterBuiltin? line).getD (s.run line).2
  | operation => s.perform operation

section Lines

variable {σ : Type} [Kernel σ] {s : Session (Host σ)}

/-- No process is started by an operation under an id that a job of the table has then. -/
def StartsFresh (s : Session (Host σ)) : Operation → Prop
  | .run line => (s.launchPoint line).StartedFresh (s.run line).2
  | _ => True

instance (s : Session (Host σ)) : (operation : Operation) → Decidable (s.StartsFresh operation)
  | .run line => inferInstanceAs (Decidable ((s.launchPoint line).StartedFresh (s.run line).2))
  | .poll | .fg | .bg | .cd _ | .exit | .listJobs => inferInstanceAs (Decidable True)

/-- A line without a leading built-in starts its processes from the session it is run in. -/
theorem afterBuiltin?_of_external {κ : Type} [Kernel κ] (s : Session κ) {line : String} {job : Job}
    (parsed : Job.ofLine line = .ok (some job)) (external : job.isBuiltin = false) :
    s.afterBuiltin? line = none := by
  have none : leadingBuiltin? line = none := by
    simp only [leadingBuiltin?, parsed]
    cases stages : job.stages with
    | nil => rfl
    | cons stage rest =>
      simp only [Job.isBuiltin, stages] at external
      simp [external]
  rw [afterBuiltin?, none, Option.map_none]

/-- What a line comes to: the table changes last at the settled session, where the table and the
children agree and every job is accounted for, and they agree when the line is done. -/
structure LineCases (s : Session (Host σ)) (line : String) : Prop where
  settled : s.Keeps (s.settled (.run line))
  coherent : (s.run line).2.Coherent
  jobs : (s.run line).2.shell.jobs = (s.settled (.run line)).shell.jobs

/-- A line without a leading built-in may change the table until it is done. -/
theorem LineCases.of_external {line : String} (none : s.afterBuiltin? line = none)
    (keeps : s.Keeps (s.run line).2) : s.LineCases line := by
  have settles : s.settled (.run line) = (s.run line).2 := by
    simp only [Session.settled, none, Option.getD_none]
  exact ⟨settles ▸ keeps, keeps.coherent, by rw [settles]⟩

/-- **Running a line keeps the table and the children in agreement.** -/
theorem line_cases (h : s.Coherent) {line : String} (fresh : s.StartsFresh (.run line)) :
    s.LineCases line := by
  have new : (s.launchPoint line).StartedFresh (s.run line).2 := fresh
  cases s.run_cases line with
  | faulty fault parsed run =>
    refine .of_external (by simp only [afterBuiltin?, leadingBuiltin?, parsed, Option.map_none]) ?_
    rw [run]
    exact h.keeps rfl rfl
  | blank parsed run =>
    refine .of_external (by simp only [afterBuiltin?, leadingBuiltin?, parsed, Option.map_none]) ?_
    rw [run]
    exact h.keeps rfl rfl
  | tracked job parsed unlaunched external id jobs registered run =>
    have none := s.afterBuiltin?_of_external parsed external
    rw [launchPoint, none, run] at new
    have launched := launchedFrom_launchTracked h unlaunched external registered new
    refine .of_external none ?_
    rw [run]
    exact ⟨launched.coherent, fun e he => Or.inl ⟨e, launched.others e he, rfl, rfl⟩⟩
  | untracked job parsed unlaunched external full run =>
    have none := s.afterBuiltin?_of_external parsed external
    rw [launchPoint, none, run] at new
    have logged : (s.log (.tableFull full.capacity)).Coherent := h.congr rfl rfl
    have same : ((s.log (.tableFull full.capacity)).launchUntracked job).2.shell = s.shell :=
      shell_launchUntracked unlaunched
    refine .of_external none ?_
    rw [run]
    refine ⟨coherent_launchUntracked logged unlaunched new, fun e he => ?_⟩
    exact Or.inl ⟨e, by rw [same]; exact he, rfl, rfl⟩
  | builtin job parsed unlaunched stage rest stages builtin run =>
    have leads : leadingBuiltin? line = some stage := by
      simp [leadingBuiltin?, parsed, stages, builtin]
    have logged : (s.log (.builtinRun stage.program)).Coherent := h.congr rfl rfl
    have first := keeps_runStage logged stage
    obtain ⟨after, hafter⟩ : ∃ after, after =
        ((s.log (.builtinRun stage.program)).runStage stage).2 := ⟨_, rfl⟩
    have some_after : s.afterBuiltin? line = some after := by
      rw [afterBuiltin?, leads, Option.map_some, hafter]
    have settles : s.settled (.run line) = after := by
      simp only [Session.settled, some_after, Option.getD_some]
    have keeps : s.Keeps after := by
      rw [hafter]
      exact ⟨first.coherent, first.accounted⟩
    rw [launchPoint, some_after, Option.getD_some] at new
    cases s.runBuiltin_cases stages with
    | failed e after' answer result =>
      obtain rfl : after = after' := by rw [hafter, answer]
      refine ⟨settles ▸ keeps, ?_, ?_⟩
      · rw [run, result]
        exact keeps.coherent
      · rw [run, result, settles]
    | done text after' answer last result =>
      obtain rfl : after = after' := by rw [hafter, answer]
      refine ⟨settles ▸ keeps, ?_, ?_⟩
      · rw [run, result]
        exact keeps.coherent
      · rw [run, result, settles]
    | piped text after' answer more result =>
      obtain rfl : after = after' := by rw [hafter, answer]
      have tail := unlaunched.tail stages more
      rw [run, result] at new
      refine ⟨settles ▸ keeps, ?_, ?_⟩
      · rw [run, result]
        exact coherent_launchUntracked keeps.coherent tail new
      · rw [run, result, settles, shell_launchUntracked tail]

end Lines

/-! ## Collecting reports -/

section Polling

variable {σ : Type} [Kernel σ] {s : Session (Host σ)}

/-- What a drain has come to once it took some reports: the roll has changed by them, the table they
make agrees with it, and whichever of them were settled first, every job is accounted for. -/
structure Drained (s : Session (Host σ)) (reports : List Notification) (h : Host σ) : Prop where
  roll : h.roll = s.kernel.roll.reportAll (reports.filterMap Notification.change?)
  apart : (s.shell.jobs.reap reports).table.Apart
  coheres : ∀ e ∈ (s.shell.jobs.reap reports).table.entries, e.job.Coheres h.roll
  accounted : ∀ earlier, earlier <+: reports →
    s.shell.jobs.Accounted (s.shell.jobs.reap earlier).table
      (s.kernel.roll.reportAll (earlier.filterMap Notification.change?))

omit [Kernel σ] in
/-- One more report on a child keeps that. -/
theorem Drained.report {reports : List Notification} {h h' : Host σ} (drained : s.Drained reports h)
    {n : Notification} {group : Pid} {change : StatusChange}
    (takes : h.roll.Takes n group change h'.roll) : s.Drained (reports ++ [n]) h' := by
  have settles : (s.shell.jobs.reap (reports ++ [n])).table =
      (s.shell.jobs.reap reports).table.settle change := by
    simp only [JobTable.table_reap, List.filterMap_append, List.foldl_append,
      List.filterMap_cons_some takes.implied, List.filterMap_nil, List.foldl_cons, List.foldl_nil]
  have roll : h'.roll =
      s.kernel.roll.reportAll ((reports ++ [n]).filterMap Notification.change?) := by
    simp only [takes.after, drained.roll, Roll.reportAll, List.filterMap_append, List.foldl_append,
      List.filterMap_cons_some takes.implied, List.filterMap_nil, List.foldl_cons, List.foldl_nil]
  refine ⟨roll, ?_, ?_, ?_⟩
  · rw [settles]
    exact drained.apart.settle change
  · rw [settles, takes.after]
    exact JobTable.coheres_settle drained.apart drained.coheres takes.present
  · intro earlier first
    -- either all reports, the new one last, or some of the older ones
    rcases List.prefix_concat_iff.mp first with rfl | before
    · have accounted := drained.accounted reports (List.prefix_refl reports)
      rw [← drained.roll] at accounted
      rw [settles, ← roll, takes.after]
      exact accounted.settle drained.coheres takes.present
    · exact drained.accounted earlier before

/-- **Draining keeps the table and the children in agreement**, report by report. -/
theorem drained_drain (h : s.Coherent) : s.Drained (drain s.kernel).1 (drain s.kernel).2.2 := by
  refine drain_inv (I := fun reports k => s.Drained reports k) ?_ ?_ ?_ s.kernel ?_
  · intro reports k n k' some_report kept answer
    obtain ⟨group, change, takes⟩ := Host.roll_collect_ok answer some_report
    exact kept.report takes
  · intro reports k k' kept answer
    have same := Host.roll_collect_none answer
    exact ⟨same.trans kept.roll, kept.apart, same ▸ kept.coheres, kept.accounted⟩
  · intro reports k e k' kept answer
    have same := Host.roll_collect_error answer
    exact ⟨same.trans kept.roll, kept.apart, same ▸ kept.coheres, kept.accounted⟩
  · refine ⟨rfl, h.apart, h.coheres, fun earlier first => ?_⟩
    obtain rfl := List.prefix_nil.mp first
    exact JobTable.Accounted.refl s.shell.jobs s.kernel.roll

theorem keeps_poll (h : s.Coherent) : s.Keeps s.poll.2 := by
  have drained := drained_drain h
  have roll : s.poll.2.kernel.roll = (drain s.kernel).2.2.roll :=
    Terminal.logAll_inv (Host.terminalQuiet_roll fun r => r = (drain s.kernel).2.2.roll).log _ rfl
  refine ⟨⟨h.tracked.reap (drain s.kernel).1, drained.apart, ?_⟩, ?_⟩
  · rw [roll]
    exact drained.coheres
  · rw [roll, drained.roll]
    exact drained.accounted _ (List.prefix_refl _)

end Polling

/-! ## All sessions -/

section Sessions

variable {σ : Type} [Kernel σ] {settings : Settings} {login : Login} {s : Session (Host σ)}

/-- The sessions of a shell with these settings on a system with children.  Between two operations
anything may happen to the children, and to the rest of the system. -/
inductive Hosted (settings : Settings) (login : Login) : Session (Host σ) → Prop
  | start (h : Host σ) : Hosted settings login (.start settings login h)
  | perform (s : Session (Host σ)) (operation : Operation) (before : Hosted settings login s)
      (fresh : s.StartsFresh operation) : Hosted settings login (s.perform operation)
  | elapse (s : Session (Host σ)) (changes : List (Pid × Host.News)) (turns : List Host.Turn)
      (world : σ) (before : Hosted settings login s) :
      Hosted settings login { s with kernel :=
        { s.kernel with children := Host.undergo s.kernel.children changes, turns, world } }

/-- Every operation accounts for the jobs that leave the table. -/
theorem keeps_settled (h : s.Coherent) {operation : Operation} (fresh : s.StartsFresh operation) :
    s.Keeps (s.settled operation) := by
  cases operation with
  | run line => exact (line_cases h fresh).settled
  | poll => exact keeps_poll h
  | fg => exact keeps_fg h
  | bg => exact keeps_bg h
  | cd arguments => exact h.keeps (congrArg JobTable.entries (jobs_cd _)) (roll_cd s _)
  | exit => exact h.keeps rfl rfl
  | listJobs => exact h.keeps rfl rfl

/-- After its last change to the table an operation leaves it alone. -/
theorem jobs_settled (h : s.Coherent) {operation : Operation} (fresh : s.StartsFresh operation) :
    (s.perform operation).shell.jobs = (s.settled operation).shell.jobs := by
  cases operation with
  | run line => exact (line_cases h fresh).jobs
  | poll => rfl
  | fg => rfl
  | bg => rfl
  | cd arguments => rfl
  | exit => rfl
  | listJobs => rfl

theorem coherent_perform (h : s.Coherent) {operation : Operation}
    (fresh : s.StartsFresh operation) : (s.perform operation).Coherent := by
  cases operation with
  | run line => exact (line_cases h fresh).coherent
  | poll => exact (keeps_settled h fresh).coherent
  | fg => exact (keeps_settled h fresh).coherent
  | bg => exact (keeps_settled h fresh).coherent
  | cd arguments => exact (keeps_settled h fresh).coherent
  | exit => exact (keeps_settled h fresh).coherent
  | listJobs => exact (keeps_settled h fresh).coherent

/-- In every session on a system with children the table and the children agree. -/
theorem coherent_of_hosted (hosted : Hosted settings login s) : s.Coherent := by
  induction hosted with
  | start h =>
    refine ⟨?_, ?_, ?_⟩
    · intro e he
      cases he
    · intro e he
      cases he
    · intro e he
      cases he
  | perform s operation _ fresh ih => exact coherent_perform ih fresh
  | elapse s changes turns world _ ih =>
    refine ih.congr rfl ?_
    simp only [Host.roll, Host.map_place_undergo]

/-- **The table is in step with the children.** -/
structure InStep (s : Session (Host σ)) : Prop where
  /-- A launched stage is unfinished exactly if its process is an unreaped child of the job's group,
  and its status is what became of that process according to all reports that were ever taken. -/
  launched : ∀ e ∈ s.shell.jobs.entries, ∃ group, e.job.group = some group ∧
    ∀ stage ∈ e.job.stages, ∀ pid, stage.pid = some pid →
      (stage.status.isFinished = false ↔
        ∃ c ∈ s.kernel.children, c.pid = pid ∧ c.group = group) ∧
      stage.status = s.kernel.roll.statusOf pid group
  /-- No report touched a stage that was not launched. -/
  unlaunched : ∀ e ∈ s.shell.jobs.entries, ∀ stage ∈ e.job.stages, stage.pid = none →
    stage.status = .terminated
  /-- No process belongs to two stages of a job. -/
  distinct : ∀ e ∈ s.shell.jobs.entries, e.job.pids.Nodup
  /-- No process belongs to two jobs. -/
  apart : s.shell.jobs.Apart
  /-- When an operation has changed the table, no job that left it has an unreaped process. -/
  departed : ∀ operation, s.StartsFresh operation →
    s.shell.jobs.Accounted (s.perform operation).shell.jobs (s.settled operation).kernel.roll
  /-- The same at every moment of a drain: after the reports taken by then. -/
  drained : ∀ earlier, earlier <+: (drain s.kernel).1 →
    s.shell.jobs.Accounted (s.shell.jobs.reap earlier).table
      (s.kernel.roll.reportAll (earlier.filterMap Notification.change?))
  /-- A process that a line starts for a job of its own is then in the table, or has been reaped. -/
  recorded : ∀ line job id jobs, Job.ofLine line = .ok (some job) → job.isBuiltin = false →
    s.shell.jobs.register job = .ok (id, jobs) → s.StartsFresh (.run line) →
    ∀ pid group, .started pid group ∈ (s.run line).2.happenedSince s →
      (∃ e ∈ (s.run line).2.shell.jobs.entries, pid ∈ e.job.pids) ∨
        ∀ g, (pid, g) ∉ (s.run line).2.kernel.roll.children

/-- Every process that a line starts for a tracked job is recorded or reaped. -/
theorem recorded_run (h : s.Coherent) {line : String} {job : Job} {id : Nat} {jobs : JobTable}
    (parsed : Job.ofLine line = .ok (some job)) (external : job.isBuiltin = false)
    (registered : s.shell.jobs.register job = .ok (id, jobs))
    (fresh : s.StartsFresh (.run line)) : s.LaunchedFrom (s.run line).2 := by
  have new : (s.launchPoint line).StartedFresh (s.run line).2 := fresh
  have run : (s.run line).2 =
      (((s.withJobs jobs).log (.jobRegistered id job.command)).launchTracked id).2 := by
    simp only [Session.run, parsed, launch, external, launchExternal, registered]
    rfl
  rw [launchPoint, s.afterBuiltin?_of_external parsed external, run] at new
  rw [run]
  exact launchedFrom_launchTracked h (Job.fresh_of_ofLine parsed) external registered new

/-- **Between two operations the table is in step with the children**, whatever they did and in
whatever order their reports were taken. -/
theorem inStep_between_operations (settings : Settings) (login : Login)
    (hosted : Hosted settings login s) : s.InStep := by
  have h := coherent_of_hosted hosted
  refine ⟨?_, ?_, ?_, h.apart, ?_, (drained_drain h).accounted, ?_⟩
  · intro e he
    obtain ⟨group, hgroup⟩ := (h.tracked e he).exists_group
    refine ⟨group, hgroup, fun stage hs pid hpid => ⟨?_, ?_⟩⟩
    · rw [← Host.mem_roll]
      exact (h.coheres e he).present stage hs pid group hpid hgroup
    · exact (h.coheres e he).status stage hs pid group hpid hgroup
  · exact fun e he => (h.tracked e he).abandoned
  · exact fun e he => (h.coheres e he).distinct
  · intro operation fresh
    rw [jobs_settled h fresh]
    exact (keeps_settled h fresh).accounted
  · intro line job id jobs parsed external registered fresh
    exact (recorded_run h parsed external registered fresh).started

/-- A pipeline in the background of which one child stops and the other exits before the next poll:
the reports are taken in that order, and each is applied to the stage it is about. -/
theorem inStep_after_stop_and_exit :
    ∃ s : Session (Host Machine),
      s.shell.jobs.entries.map (fun e => e.job.stages.map Stage.status) = [[.suspended, .done]] ∧
        s.InStep :=
  ⟨_, by decide +kernel,
    inStep_between_operations ⟨true, "$ ", 2, false⟩ ⟨"user", "/"⟩
      (.perform _ .poll
        (.elapse _ [(100001, .stopped .tstp), (100002, .exited 0)]
          [⟨[], 0, none⟩, ⟨[], 0, none⟩, ⟨[], 0, none⟩] (Machine.boot .bare FileTree.root .sink)
          (.perform _ (.run "sleep 9 | cat &")
            (.start ⟨Machine.boot .bare FileTree.root .sink, [], [], []⟩)
            (fun _ _ _ e he => by cases he)))
        trivial)⟩

end Sessions

end JobControl.Session
