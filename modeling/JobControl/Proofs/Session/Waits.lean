import JobControl.Proofs.Session.Calls
import JobControl.Proofs.Session.Hosted
import JobControl.Proofs.Wait.Diary
import JobControl.Proofs.Wait.Waking

/-!
# No wait of a session is in vain

An operation waits for a tracked job in two places: when a line launched the job to run it in the
foreground, and when a job is resumed there.  `waitPoint?` is the session from which it does.  When it
waits for none, no turn of the children passes, so it asked for no report (`wait_cases`).

The processes of the table are up to date in every session (`upToDate_of_hosted`): they were
started by the shell, and since then nothing could break it.  At a wait point the job also agrees with
the roll, since its group was just continued or its processes were just started (`Poised`).  That is
where the argument about a single wait starts.  It is an argument about the moments of `vigil`, and
`noted_eq` says that these are the moments at which the shell does ask.
-/

set_option autoImplicit false

namespace JobControl.Session

/-! ## Where an operation waits -/

section

variable {κ : Type} [Kernel κ]

/-- The session in which a job that is resumed in the foreground is waited for, and its number. -/
def resumed? (s : Session κ) : Option (Session κ × Nat) :=
  s.shell.jobs.mostRecentBackground?.bind fun id =>
    ((s.shell.jobs.find? id).bind Job.group).bind fun group =>
      match Kernel.signalGroup group .cont s.kernel with
      | (.ok (), kernel) => some ({ s with kernel }.modifyJob id Job.markContinued, id)
      | (.error _, _) => none

/-- The session in which a job that is launched is waited for. -/
def launched? (s : Session κ) (id : Nat) : Option (Session κ) :=
  (s.shell.jobs.find? id).bind fun job =>
    let (failure, job, kernel) := job.launch s.shell.terminal s.kernel
    if failure.isSome ∧ job.group = none ∨ job.mode = .background then none
    else some ({ s with kernel }.modifyJob id fun _ => job)

/-- The session in which an operation waits for a tracked job, and the number of the job. -/
def waitPoint? (s : Session κ) : Operation → Option (Session κ × Nat)
  | .fg => s.resumed?
  | .run line =>
    match leadingBuiltin? line with
    | some stage => if stage.kind = .fg then (s.log (.builtinRun stage.program)).resumed? else none
    | none =>
      match Job.ofLine line with
      | .ok (some job) =>
        match s.shell.jobs.register job with
        | .ok (id, jobs) =>
          (((s.withJobs jobs).log (.jobRegistered id job.command)).launched? id).map (·, id)
        | .error _ => none
      | _ => none
  | _ => none

end

section

variable {σ : Type} [Kernel σ] {s after : Session (Host σ)} {id : Nat} {job : Job} {group : Pid}

/-- What a wait for a tracked job starts from. -/
structure Poised (s : Session (Host σ)) (id : Nat) (job : Job) (group : Pid) : Prop where
  found : s.shell.jobs.find? id = some job
  hgroup : job.group = some group
  coheres : job.Coheres s.kernel.roll
  upToDate : ∀ p ∈ job.pids, Host.UpToDate s.kernel.children s.kernel.history p

/-- Whenever a wait that starts so asks for a report, it is not in vain. -/
theorem Poised.awaited (poised : s.Poised id job group) :
    ∀ moment ∈ s.vigil id, job.Awaited group moment.1 moment.2 := by
  have start : job.Followed group (.start { job with mode := .foreground }) s.kernel :=
    ⟨poised.hgroup, rfl, poised.coheres.withMode .foreground, poised.upToDate⟩
  have given := (Job.Followed.terminalQuiet job group _).giveTo s.shell.terminal group start
  rw [vigil_eq poised.found poised.hgroup]
  intro moment hmoment
  obtain ⟨followed, busy⟩ :=
    Watch.vigil_inv (Job.Followed.waiting job group) _ _ given moment hmoment
  exact followed.awaited busy

/-! ## Resuming -/

/-- What resuming in the foreground comes to: a wait, or no turn passes. -/
theorem fg_waits (h : s.Coherent)
    (upToDate : ∀ pid ∈ s.shell.jobs.pids, Host.UpToDate s.kernel.children s.kernel.history pid) :
    (∃ after id job group, s.resumed? = some (after, id) ∧ s.fg.2 = (after.waitForeground id).2 ∧
      after.Poised id job group) ∨
    s.resumed? = none ∧ s.fg.2.kernel.turns = s.kernel.turns := by
  cases s.fg_cases with
  | missing recent fg => exact Or.inr ⟨by simp only [resumed?, recent, Option.bind_none], by rw [fg]⟩
  | groupless e he group fg recent =>
    refine Or.inr ⟨?_, by rw [fg]⟩
    simp only [resumed?, recent, JobTable.find?_of_mem he, group, Option.bind_some, Option.bind_none]
  | refused e he pgid group cause kernel answer fg recent =>
    refine Or.inr ⟨?_, ?_⟩
    · simp only [resumed?, recent, JobTable.find?_of_mem he, group, Option.bind_some, answer]
    · have same : (Kernel.signalGroup pgid .cont s.kernel).2.turns = s.kernel.turns :=
        Host.turns_signalGroup pgid .cont s.kernel
      rw [answer] at same
      rw [fg]
      exact same
  | resumed e he pgid group kernel answer after marked fg recent =>
    have found := JobTable.find?_of_mem he
    have resumed := Host.roll_signalGroup_ok answer
    refine Or.inl ⟨after, e.id, e.job.markContinued, pgid, ?_, by rw [fg], ?_⟩
    · simp only [resumed?, recent, found, group, Option.bind_some, answer, marked]
    · rw [marked]
      refine ⟨JobTable.find?_modify found, group, ?_, fun p hp => ?_⟩
      · exact resumed ▸ (h.coheres e he).resume group
      · rw [(Job.Advances.markContinued e.job).pids_eq] at hp
        have kept := (Host.callInvariant_upToDate p).resume pgid s.kernel
          (upToDate p (JobTable.mem_pids.mpr ⟨e, he, hp⟩))
        rwa [answer] at kept

/-! ## Launching -/

theorem turns_removeJob (s : Session (Host σ)) (id : Nat) :
    (s.removeJob id).kernel.turns = s.kernel.turns :=
  removeJob_inv (P := fun h : Host σ => h.turns = s.kernel.turns) (fun _ _ same => same) id rfl

/-- A job that was just launched is ready to be waited for: its processes were children of nobody
before. -/
theorem poised_launched (found : s.shell.jobs.find? id = some job) (fresh : job.Fresh)
    {failure : Option LaunchError} {launched : Job} {kernel : Host σ}
    (launch : job.launch s.shell.terminal s.kernel = (failure, launched, kernel))
    (started : ¬(failure.isSome ∧ launched.group = none)) :
    ∃ group, Poised ({ s with kernel }.modifyJob id fun _ => launched) id launched group := by
  have inv : LaunchInvariant job.group (job.mode == .foreground && s.shell.terminal.enabled)
      fun pids (h : Host σ) => Host.Launching s.kernel.roll pids h := by
    rw [fresh.group]
    exact Host.launchInvariant_roll s.kernel.roll _
  rcases job.launch_inv s.shell.terminal inv s.kernel (Host.launching_nil s.kernel) with
    ⟨e, kernel', answer, -⟩ | ⟨l, pids, kernel', answer, shape, roll, distinct, unused⟩
  · rw [launch] at answer
    cases answer
    exact absurd ⟨rfl, fresh.group⟩ started
  · rw [launch] at answer
    cases answer
    rw [fresh.group] at shape
    have some_started : pids ≠ [] := by
      rintro rfl
      obtain ⟨group, e, failure⟩ := shape.failed fresh.stages
      exact started ⟨by rw [failure]; rfl, group⟩
    have own := fresh.pids_launched shape
    obtain ⟨first, others, rfl⟩ := List.exists_cons_of_ne_nil some_started
    refine ⟨first, JobTable.find?_modify found, shape.founder, ?_, fun p hp => ?_⟩
    · exact roll ▸ fresh.coheres shape some_started distinct unused
    · rw [own] at hp
      have absent : Host.UpToDate s.kernel.children s.kernel.history p :=
        .of_unused fun c hc hpid => unused p hp c.group (Host.mem_roll.mpr ⟨c, hc, hpid, rfl⟩)
      have kept := (Host.callInvariant_upToDate p).launch job s.shell.terminal absent
      rwa [launch] at kept

/-- What launching a tracked job comes to: a wait, or no turn passes. -/
theorem launchTracked_waits (found : s.shell.jobs.find? id = some job) (fresh : job.Fresh) :
    (∃ after job group, s.launched? id = some after ∧
      (s.launchTracked id).2 = (after.waitForeground id).2 ∧ after.Poised id job group) ∨
    s.launched? id = none ∧ (s.launchTracked id).2.kernel.turns = s.kernel.turns := by
  have turns : (job.launch s.shell.terminal s.kernel).2.2.turns = s.kernel.turns :=
    (Host.launchInvariant_turns s.kernel.turns _ _).launch rfl
  rcases launch : job.launch s.shell.terminal s.kernel with ⟨failure, launched, kernel⟩
  rw [launch] at turns
  by_cases left : failure.isSome ∧ launched.group = none ∨ launched.mode = .background
  · refine Or.inr ⟨by simp only [launched?, found, Option.bind_some, launch, if_pos left], ?_⟩
    simp only [launchTracked, found, launch]
    split
    · exact (turns_removeJob _ id).trans turns
    · rename_i started
      split
      · exact turns
      · rename_i foreground
        obtain ⟨failed, none⟩ := left.resolve_right foreground
        obtain ⟨e, he⟩ := Option.isSome_iff_exists.mp failed
        exact (started e he none).elim
  · obtain ⟨started, foreground⟩ := not_or.mp left
    obtain ⟨group, poised⟩ := poised_launched found fresh launch started
    refine Or.inl ⟨_, launched, group, ?_, ?_, poised⟩
    · simp only [launched?, found, Option.bind_some, launch, if_neg left]
    · simp only [launchTracked, found, launch, if_neg foreground]
      split
      · rename_i e none
        exact absurd ⟨rfl, none⟩ started
      · rfl

/-! ## All operations -/

theorem turns_cd (s : Session (Host σ)) (arguments : List String) :
    (s.cd arguments).2.kernel.turns = s.kernel.turns := by
  obtain ⟨path, asked⟩ := kernel_cd s arguments
  rw [asked]
  rfl

theorem turns_bg (s : Session (Host σ)) : s.bg.2.kernel.turns = s.kernel.turns := by
  have same : ∀ group, (Kernel.signalGroup group .cont s.kernel).2.turns = s.kernel.turns :=
    fun group => Host.turns_signalGroup group .cont s.kernel
  cases s.bg_cases with
  | missing bg => rw [bg]
  | groupless e he group bg => rw [bg]
  | refused e he pgid group cause kernel answer bg => rw [bg, ← same pgid, answer]
  | resumed e he pgid group kernel answer bg => rw [bg, ← same pgid, answer]; rfl

/-- Of the built-ins only the one that resumes a job in the foreground can wait. -/
theorem turns_runStage (s : Session (Host σ)) {stage : Stage} (other : stage.kind ≠ .fg) :
    (s.runStage stage).2.kernel.turns = s.kernel.turns := by
  unfold runStage
  split
  · rfl
  · exact turns_cd s stage.arguments
  · rename_i resumes
    exact absurd resumes other
  · exact turns_bg s
  · rfl

/-- A job that the table cannot hold runs in this operation. -/
def Untracked (s : Session (Host σ)) : Operation → Prop
  | .run line => ∃ job full, Job.ofLine line = .ok (some job) ∧ job.isBuiltin = false ∧
      s.shell.jobs.register job = .error full
  | _ => False

/-- What an operation comes to as to tracked jobs: it waits for one, or lets no turn of the children
pass while it works on the table.  Collecting reports and running an untracked job are another
matter. -/
inductive WaitCases (s : Session (Host σ)) (operation : Operation) : Prop
  | waits (after : Session (Host σ)) (id : Nat) (job : Job) (group : Pid)
      (point : s.waitPoint? operation = some (after, id))
      (settled : s.settled operation = (after.waitForeground id).2)
      (poised : after.Poised id job group)
  | none (point : s.waitPoint? operation = none)
      (still : (s.settled operation).kernel.turns = s.kernel.turns)
  | other (point : s.waitPoint? operation = none)
      (exempt : operation = .poll ∨ s.Untracked operation)

/-- **The rule for waits in an operation.** -/
theorem wait_cases (h : s.Coherent)
    (upToDate : ∀ pid ∈ s.shell.jobs.pids, Host.UpToDate s.kernel.children s.kernel.history pid)
    (operation : Operation) : s.WaitCases operation := by
  cases operation with
  | fg =>
    rcases fg_waits h upToDate with ⟨after, id, job, group, point, fg, poised⟩ | ⟨point, still⟩
    · exact .waits after id job group point fg poised
    · exact .none point still
  | poll => exact .other rfl (Or.inl rfl)
  | bg => exact .none rfl (turns_bg s)
  | cd arguments => exact .none rfl (turns_cd s arguments)
  | exit => exact .none rfl rfl
  | listJobs => exact .none rfl rfl
  | run line =>
    cases s.run_cases line with
    | faulty fault parsed run =>
      have leads : leadingBuiltin? line = none := by simp only [leadingBuiltin?, parsed]
      refine .none (by simp only [waitPoint?, leads, parsed]) ?_
      simp only [settled, afterBuiltin?, leads, Option.map_none, Option.getD_none, run]
    | blank parsed run =>
      have leads : leadingBuiltin? line = none := by simp only [leadingBuiltin?, parsed]
      refine .none (by simp only [waitPoint?, leads, parsed]) ?_
      simp only [settled, afterBuiltin?, leads, Option.map_none, Option.getD_none, run]
    | tracked job parsed fresh external id jobs registered run =>
      have unled := s.afterBuiltin?_of_external parsed external
      have leads : leadingBuiltin? line = none := Option.map_eq_none_iff.mp unled
      have found :
          ((s.withJobs jobs).log (.jobRegistered id job.command)).shell.jobs.find? id =
            some { job with id := some id } := JobTable.find?_of_register registered
      have settles : s.settled (.run line) = (s.run line).2 := by
        simp only [settled, unled, Option.getD_none]
      rcases launchTracked_waits found (fresh.withId (some id)) with
        ⟨after, job, group, point, launch, poised⟩ | ⟨point, still⟩
      · refine .waits after id job group ?_ ?_ poised
        · simp only [waitPoint?, leads, parsed, registered, point, Option.map_some]
        · rw [settles, run]
          exact launch
      · refine .none ?_ ?_
        · simp only [waitPoint?, leads, parsed, registered, point, Option.map_none]
        · rw [settles, run]
          exact still
    | untracked job parsed fresh external full run refused =>
      have leads : leadingBuiltin? line = none :=
        Option.map_eq_none_iff.mp (s.afterBuiltin?_of_external parsed external)
      refine .other ?_ (Or.inr ⟨job, full, parsed, external, refused⟩)
      simp only [waitPoint?, leads, parsed, refused]
    | builtin job parsed fresh stage rest stages builtin run =>
      have leads : leadingBuiltin? line = some stage := by
        simp [leadingBuiltin?, parsed, stages, builtin]
      have logged : (s.log (.builtinRun stage.program)).Coherent := h.congr rfl rfl
      have settles : s.settled (.run line) =
          ((s.log (.builtinRun stage.program)).runStage stage).2 := by
        simp only [settled, afterBuiltin?, leads, Option.map_some, Option.getD_some]
      by_cases resumes : stage.kind = .fg
      · have same : s.waitPoint? (.run line) = (s.log (.builtinRun stage.program)).resumed? := by
          simp only [waitPoint?, leads, if_pos resumes]
        rw [runStage, resumes] at settles
        rcases fg_waits logged upToDate with
          ⟨after, id, job, group, point, fg, poised⟩ | ⟨point, still⟩
        · exact .waits after id job group (same.trans point) (settles.trans fg) poised
        · exact .none (same.trans point) (by rw [settles]; exact still)
      · refine .none (by simp only [waitPoint?, leads, if_neg resumes]) ?_
        rw [settles]
        exact turns_runStage _ resumes

/-- In every session the processes of the table are up to date. -/
theorem upToDate_of_hosted {settings : Settings} {login : Login} (hosted : Hosted settings login s) :
    ∀ pid ∈ s.shell.jobs.pids, Host.UpToDate s.kernel.children s.kernel.history pid := by
  induction hosted with
  | start h =>
    intro pid hpid
    cases hpid
  | perform s operation _ _ ih =>
    intro pid hpid
    refine (Host.callInvariant_upToDate pid).perform operation ?_
    rcases mem_pids_perform hpid with old | unused
    · exact ih pid old
    · exact .of_unused fun c hc own => unused c.group (Host.mem_roll.mpr ⟨c, hc, own, rfl⟩)
  | elapse s changes turns world _ ih => exact fun pid hpid => (ih pid hpid).undergo changes

/-- Whenever an operation asks for a report on a tracked job, there is one to come. -/
structure Unblocked (s : Session (Host σ)) (operation : Operation) : Prop where
  /-- A wait for a tracked job asks only for what is not in vain, up to its end.  The systems it asks
  are those that a diary of the wait notes. -/
  waits : ∀ after id, s.waitPoint? operation = some (after, id) →
    s.settled operation = (after.waitForeground id).2 ∧
      ∃ job group, after.shell.jobs.find? id = some job ∧ job.group = some group ∧
        after.noted id = (after.vigil id).map Prod.snd ∧
          ∀ moment ∈ after.vigil id, job.Awaited group moment.1 moment.2
  /-- There is no other wait for a tracked job. -/
  otherwise : s.waitPoint? operation = none → operation ≠ .poll → ¬s.Untracked operation →
    (s.settled operation).kernel.turns = s.kernel.turns

/-- **A wait for a tracked job never sleeps in vain**, whatever the children did before it and do
while it lasts. -/
theorem never_waits_in_vain (settings : Settings) (login : Login)
    (hosted : Hosted settings login s) (operation : Operation) : s.Unblocked operation := by
  cases wait_cases (coherent_of_hosted hosted) (upToDate_of_hosted hosted) operation with
  | waits after id job group point settled poised =>
    refine ⟨fun after' id' there => ?_, fun missing => ?_⟩
    · rw [point] at there
      cases there
      exact ⟨settled, job, group, poised.found, poised.hgroup,
        noted_eq poised.found poised.hgroup, poised.awaited⟩
    · rw [point] at missing
      cases missing
  | none point still =>
    refine ⟨fun after id there => ?_, fun _ _ _ => still⟩
    rw [point] at there
    cases there
  | other point exempt =>
    refine ⟨fun after id there => ?_, fun _ polls untracked => ?_⟩
    · rw [point] at there
      cases there
    · exact absurd exempt (not_or.mpr ⟨polls, untracked⟩)

end

/-- A session with a job in the background. -/
def backgroundSleep : Session (Host Machine) :=
  perform (start ⟨true, "$ ", 2, false⟩ ⟨"user", "/"⟩
    ⟨Machine.boot .bare FileTree.root .sink, [], [], []⟩) (.run "sleep 9 &")

/-- The same after the job stopped and was reported so. -/
def stoppedSleep : Session (Host Machine) :=
  perform { backgroundSleep with kernel := { backgroundSleep.kernel with
    children := Host.undergo backgroundSleep.kernel.children [(100001, .stopped .tstp)]
    turns := [⟨[], 0, none⟩, ⟨[], 0, none⟩] } } .poll

/-- The job is resumed, and stops again before it is waited for: the wait asks once, and ends. -/
theorem never_waits_in_vain_stopped_again :
    ∃ s : Session (Host Machine),
      s.shell.jobs.entries.map (fun e => e.job.stages.map Stage.status) = [[.suspended]] ∧
      (s.waitPoint? .fg).map (fun (after, id) => after.answers id) =
        some [.ok (.stopped 100001 .stop)] ∧
      s.Unblocked .fg :=
  ⟨_, by decide +kernel, by decide +kernel,
    never_waits_in_vain ⟨true, "$ ", 2, false⟩ ⟨"user", "/"⟩
      (.elapse stoppedSleep [] [⟨[(100001, .stopped .stop)], 0, none⟩] stoppedSleep.kernel.world
        (.perform _ .poll
          (.elapse backgroundSleep [(100001, .stopped .tstp)] [⟨[], 0, none⟩, ⟨[], 0, none⟩]
            backgroundSleep.kernel.world
            (.perform _ (.run "sleep 9 &")
              (.start ⟨Machine.boot .bare FileTree.root .sink, [], [], []⟩)
              (fun _ _ _ e he => by cases he)))
          trivial)) .fg⟩

end JobControl.Session
