import JobControl.Machine.System
import JobControl.Proofs.Session.Untracked

/-!
# Work on one job leaves the others alone

Every operation but a poll works on one job at most (`worksOn?`): it registers and launches it, or
resumes it.  All other entries of the table stay as they are (`agreeBut_perform`).  Of the system an
operation takes no report but those on the job's group and on a group that it founded itself: of
every other group nothing was heard (`Host.Beside`), and what is due on its children the next poll
takes.  The processes that it started without an entry are never seen (`unseen_later`).
-/

set_option autoImplicit false

namespace JobControl

/-! ## Entries -/

namespace JobTable

variable {t t' : JobTable} {own : Option Nat} {id : Nat} {pid : Pid}

/-- Two tables have the same entries, apart from one of a job. -/
def AgreeBut (own : Option Nat) (t t' : JobTable) : Prop :=
  ∀ e, own ≠ some e.id → (e ∈ t.entries ↔ e ∈ t'.entries)

theorem AgreeBut.refl (own : Option Nat) (t : JobTable) : AgreeBut own t t :=
  fun _ _ => Iff.rfl

/-- Changing the job, or taking it out, does not touch the others. -/
theorem agreeBut_keptAt (t : JobTable) (hid : own = some id) :
    KeptAt id fun t' => AgreeBut own t t' where
  modify := by
    intro t' f agree e hne
    have hne' : e.id ≠ id := fun same => hne (by rw [hid, same])
    rw [agree e hne]
    refine ⟨fun he => mem_modify_of_ne he hne', fun he => ?_⟩
    rcases cases_of_mem_modify he with ⟨he, -⟩ | ⟨e', -, hid', rfl⟩
    · exact he
    · exact absurd hid' hne'
  erase := by
    intro t' agree e hne
    have hne' : e.id ≠ id := fun same => hne (by rw [hid, same])
    rw [agree e hne, mem_erase]
    exact ⟨fun he => ⟨he, hne'⟩, And.left⟩

theorem AgreeBut.register {job : Job} (registered : t.register job = .ok (id, t')) :
    AgreeBut (some id) t t' := by
  intro e hne
  rw [mem_of_register registered]
  refine ⟨Or.inr, fun he => he.resolve_left ?_⟩
  rintro rfl
  exact hne rfl

end JobTable

/-! ## The groups of other jobs -/

namespace Host

variable {σ : Type} {h₀ h h' : Host σ} {g group : Pid}

/-- Since a moment a group was founded. -/
def Founded (g : Pid) (h₀ h : Host σ) : Prop :=
  ∃ new, h.history = h₀.history ++ new ∧ .started g g ∈ new

/-- Since a moment nothing was heard of a group, unless it was founded since. -/
def Beside (g : Pid) (h₀ h : Host σ) : Prop :=
  h.roll.Distinct ∧ h₀.history <+: h.history ∧ (Founded g h₀ h ∨ Unheard g h₀ h)

theorem Founded.append (founded : Founded g h₀ h) {more : List Happening}
    (history : h'.history = h.history ++ more) : Founded g h₀ h' := by
  obtain ⟨new, since, hfounded⟩ := founded
  refine ⟨new ++ more, ?_, List.mem_append_left more hfounded⟩
  rw [history, since, List.append_assoc]

theorem Beside.refl (distinct : h.roll.Distinct) : Beside g h h :=
  ⟨distinct, List.prefix_refl _, Or.inr (.refl g h)⟩

/-- What is heard of other groups only, or of one that was founded, leaves it so. -/
theorem Beside.step (beside : Beside g h₀ h) (distinct : h'.roll.Distinct)
    {more : List Happening} (history : h'.history = h.history ++ more)
    (next : Founded g h₀ h' ∨ Unheard g h h') : Beside g h₀ h' := by
  obtain ⟨-, since, so_far⟩ := beside
  refine ⟨distinct, ?_, ?_⟩
  · rw [history]
    exact since.trans (List.prefix_append _ _)
  · rcases next with founded | unheard
    · exact Or.inl founded
    · exact so_far.imp (·.append history) (·.trans unheard)

variable [Kernel σ]

/-- A launch founds at most one group, with its first process, and all its processes join it. -/
theorem launchInvariant_beside (takesTerminal : Bool) :
    LaunchInvariant none takesTerminal fun pids (h : Host σ) =>
      Beside g h₀ h ∧ (pids.head? = some g → Founded g h₀ h) where
  quiet := fun _ => ⟨fun _ _ kept => kept, fun _ _ kept => kept, fun _ kept => kept,
    fun _ _ kept => kept, fun _ _ _ kept => kept, fun _ _ kept => kept, fun _ _ kept => kept⟩
  started := by
    rintro pids plan h pid h' hgroup - ⟨beside, led⟩ answer
    obtain ⟨unused, after⟩ := roll_fork_ok answer
    have history : h'.history = h.history ++ [.started pid (plan.group.getD pid)] :=
      congrArg Roll.history after
    have distinct : h'.roll.Distinct := by
      rw [after]
      exact beside.1.start unused _
    have leads : (pids ++ [pid]).head? = some (plan.group.getD pid) := by
      rw [hgroup, List.head?_append]
      cases pids.head? <;> rfl
    have founded : plan.group.getD pid = g → Founded g h₀ h' := by
      intro own
      cases lead : pids.head? with
      | none =>
        -- it is the first process, so it founds the group
        have founder : pid = g := by rw [hgroup, lead] at own; exact own
        obtain ⟨new, since⟩ := beside.2.1
        refine ⟨new ++ [.started g g], ?_, by simp⟩
        rw [history, ← since, own, founder, List.append_assoc]
      | some first =>
        have founder : first = g := by rw [hgroup, lead] at own; exact own
        exact (led (by rw [lead, founder])).append history
    refine ⟨beside.step distinct history ?_, fun lead => founded ?_⟩
    · by_cases own : plan.group.getD pid = g
      · exact Or.inl (founded own)
      · exact Or.inr (.fork answer own)
    · rw [leads] at lead
      exact Option.some.inj lead
  refused := by
    intro pids plan h e h' kept answer
    obtain ⟨world, rfl⟩ := fork_error answer
    exact kept

/-- Waiting for a group takes reports on it, and on no other. -/
theorem waitInvariant_beside (group : Pid) :
    WaitInvariant group fun _ (h : Host σ) =>
      Beside g h₀ h ∧ (group = g → Founded g h₀ h) := by
  have step : ∀ (h h' : Host σ) answer (more : List Happening),
      Beside g h₀ h ∧ (group = g → Founded g h₀ h) → Kernel.awaitGroup group h = (answer, h') →
      h'.history = h.history ++ more →
      Beside g h₀ h' ∧ (group = g → Founded g h₀ h') := by
    rintro h h' answer more ⟨beside, led⟩ eq history
    have distinct := callInvariant_distinct.await group h beside.1
    rw [eq] at distinct
    refine ⟨beside.step distinct history ?_, fun own => (led own).append history⟩
    by_cases own : group = g
    · exact Or.inl ((led own).append history)
    · have unheard := Unheard.await own beside.1 rfl
      change Unheard g h (Kernel.awaitGroup group h).2 at unheard
      rw [eq] at unheard
      exact Or.inr unheard
  refine ⟨fun w h n h' _ kept answer => ?_, fun w h e h' _ kept answer => ?_⟩
  · obtain ⟨change, takes⟩ := roll_await_ok answer
    exact step h h' (.ok n) _ kept answer (congrArg Roll.history takes.after)
  · have same := congrArg Roll.history (roll_await_error answer).1
    exact step h h' (.error e) [] kept answer (same.trans (List.append_nil _).symm)

/-- **An operation hears of no group but those that it may continue and those that it founds.** -/
theorem operationInvariant_beside (t : Terminal) {R : Pid → Prop} (other : ¬R g) :
    OperationInvariant t R (fun h : Host σ => Beside g h₀ h)
      fun job h => Beside g h₀ h ∧ (job.group = some g → Founded g h₀ h) where
  log := fun _ _ kept => kept
  launch := by
    intro job h failure launched h' fresh kept answer
    rcases fresh.launch_inv t (launchInvariant_beside _) h ⟨kept, fun lead => by cases lead⟩ with
      ⟨e, left, k, launch, none, beside, -⟩ | ⟨l, pids, first, k, launch, shape, lead, beside, led⟩
    · cases launch.symm.trans answer
      rw [if_pos (Or.inl ⟨rfl, none⟩)]
      exact beside
    · cases launch.symm.trans answer
      split
      · exact beside
      · refine ⟨beside, fun own => led ?_⟩
        exact shape.founder.symm.trans own
  foreground := by
    intro job mode h kept
    have inv : ∀ group, job.group = some group → WaitInvariant group fun _ (h : Host σ) =>
        Beside g h₀ h ∧ (job.group = some g → Founded g h₀ h) := by
      intro group hgroup
      simpa only [hgroup, Option.some.injEq] using waitInvariant_beside group
    exact (WaitInvariant.runForeground t { job with mode } inv
      ⟨fun _ _ _ kept => kept, fun _ _ kept => kept, fun _ _ kept => kept⟩ kept).1
  changeDirectory := fun _ _ kept => kept
  refused := by
    intro group h e h' _ kept answer
    obtain ⟨world, rfl⟩ := signalGroup_error answer
    exact kept
  resumed := by
    intro group h h' allowed beside answer
    have elsewhere : group ≠ g := fun own => other (own ▸ allowed)
    have roll := roll_signalGroup_ok answer
    have unheard : Unheard g h (signalGroup group .cont h).2 := .signalGroup elsewhere .cont
    have distinct : h'.roll.Distinct := by
      rw [roll]
      exact beside.1
    change signalGroup group .cont h = (.ok (), h') at answer
    rw [answer] at unheard
    have kept := beside.step distinct (congrArg Roll.history roll) (Or.inr unheard)
    refine ⟨kept, fun job own => ⟨kept, fun mine => ?_⟩⟩
    exact absurd (Option.some.inj (own.symm.trans mine)) elsewhere

end Host

/-! ## Operations -/

namespace Session

section

variable {κ : Type} [Kernel κ]

/-- The job that an operation works on: one that it registers or one that it resumes. -/
def worksOn? (s : Session κ) (operation : Operation) : Option Nat :=
  (s.registers? operation).or (s.resumedBy? operation)

/-- **An operation leaves the entries of the jobs that it does not work on.** -/
theorem agreeBut_perform (s : Session κ) {operation : Operation} (polls : operation ≠ .poll) :
    s.shell.jobs.AgreeBut (s.worksOn? operation) (s.perform operation).shell.jobs := by
  have resumed : ∀ id, s.registers? operation = none → s.resumedBy? operation = some id →
      JobTable.KeptAt id fun t' => s.shell.jobs.AgreeBut (s.worksOn? operation) t' := by
    intro id none resumes
    refine JobTable.agreeBut_keptAt _ ?_
    rw [worksOn?, none, resumes]
    rfl
  cases operation with
  | poll => exact absurd rfl polls
  | fg => exact jobs_fg (fun id recent => resumed id rfl recent) (.refl _ _)
  | bg => exact jobs_bg (fun id recent => resumed id rfl recent) (.refl _ _)
  | cd arguments =>
    simp only [perform, jobs_cd]
    exact .refl _ _
  | exit => exact .refl _ _
  | listJobs => exact .refl _ _
  | run line =>
    cases s.run_cases line with
    | faulty fault parsed run =>
      simp only [perform, run]
      exact .refl _ _
    | blank parsed run =>
      simp only [perform, run]
      exact .refl _ _
    | tracked job parsed fresh external id jobs registered run =>
      have works : s.worksOn? (.run line) = some id := by
        simp only [worksOn?, registers?, parsed, external, registered]
        rfl
      rw [works]
      simp only [perform, run]
      exact jobs_launchTracked (JobTable.agreeBut_keptAt _ rfl) (.register registered)
    | untracked job parsed fresh external full run refused =>
      simp only [perform, run, shell_launchUntracked fresh]
      exact .refl _ _
    | builtin job parsed fresh stage rest stages builtin run =>
      have leads : job.isBuiltin = true := by simpa only [Job.isBuiltin, stages] using builtin
      have first : leadingBuiltin? line = some stage := by
        simp [leadingBuiltin?, parsed, stages, builtin]
      simp only [perform, run]
      refine jobs_runBuiltin fresh stages (fun id resumes => resumed id ?_ ?_) (.refl _ _)
      · simp only [registers?, parsed, leads, if_true]
      · rw [resumedBy?, first, Option.bind_some, resumes]

/-- The group is that of the job that an operation resumes. -/
def WorksIn (s : Session κ) (operation : Operation) (g : Pid) : Prop :=
  ∃ e ∈ s.shell.jobs.entries, s.resumedBy? operation = some e.id ∧ e.job.group = some g

end

variable {σ : Type} [Kernel σ] {s : Session (Host σ)} {operation : Operation}

theorem beside_perform (distinct : s.kernel.roll.Distinct) (polls : operation ≠ .poll) {g : Pid}
    (other : ¬s.WorksIn operation g) : Host.Beside g s.kernel (s.perform operation).kernel :=
  (Host.operationInvariant_beside s.shell.terminal other).perform operation
    (fun e he resumes _ hgroup => ⟨e, he, resumes, hgroup⟩) (fun isPoll => absurd isPoll polls)
    (.refl distinct)

/-- **Work on one job leaves the others alone.** -/
structure LeavesOthers (s : Session (Host σ)) (operation : Operation) : Prop where
  /-- The entries of all other jobs stay as they are, and none joins them. -/
  entries : s.shell.jobs.AgreeBut (s.worksOn? operation) (s.perform operation).shell.jobs
  /-- No report is taken on a group but that of the job that is resumed and one that is founded. -/
  unheard : ∀ g, ¬s.WorksIn operation g → .started g g ∉ (s.perform operation).happenedSince s →
    Host.Unheard g s.kernel (s.perform operation).kernel
  /-- A report on a child of such a group that was pending is taken by the next poll, whatever
  happens until then, unless that poll is cut short.  It is the same report if the child has ended,
  and otherwise the newest there is. -/
  polled : ∀ g, ¬s.WorksIn operation g → .started g g ∉ (s.perform operation).happenedSince s →
    ∀ c ∈ s.kernel.children, c.group = g → ∀ n, c.news = some n →
    ∀ (changes : List (Pid × Host.News)) (turns : List Host.Turn) (world : σ),
    ∀ next : Host σ, next = { (s.perform operation).kernel with
      children := Host.undergo (s.perform operation).kernel.children changes, turns, world } →
    (drain next).2.1 = none →
    ∃ m : Host.News, m.report c.pid ∈ (drain next).1 ∧ (n.status.isFinished = true → m = n)
  /-- A process that is started without an entry has none in any session that follows, and no poll
  makes anything of a report on it, until one said that it ended. -/
  untracked : ∀ line, operation = .run line → s.registers? operation = none →
    ∀ pid g, .started pid g ∈ (s.run line).2.happenedSince (s.launchPoint line) →
    ∀ s', (s.run line).2.Later s' →
    (∀ change, .reported change ∈ s'.happenedSince (s.launchPoint line) → change.pid = pid →
      change.status.isFinished = false) → s'.Unseen pid

/-- Of a group that an operation neither resumes nor founds nothing is heard. -/
theorem unheard_perform (distinct : s.kernel.roll.Distinct) (polls : operation ≠ .poll) {g : Pid}
    (other : ¬s.WorksIn operation g)
    (unfounded : .started g g ∉ (s.perform operation).happenedSince s) :
    Host.Unheard g s.kernel (s.perform operation).kernel := by
  obtain ⟨-, -, ⟨new, since, founded⟩ | unheard⟩ := beside_perform distinct polls other
  · rw [happenedSince, since, List.drop_left] at unfounded
    exact absurd founded unfounded
  · exact unheard

/-- What nothing was heard of and is pending, the next drain takes. -/
theorem polled_of_unheard {g : Pid} {h h' next : Host σ} (unheard : Host.Unheard g h h')
    (distinct : h'.roll.Distinct) {c : Host.Process} (hc : c ∈ h.children) (hgroup : c.group = g)
    {n : Host.News} (hnews : c.news = some n) {changes : List (Pid × Host.News)}
    {turns : List Host.Turn} {world : σ}
    (hnext : next = { h' with children := Host.undergo h'.children changes, turns, world })
    (whole : (drain next).2.1 = none) :
    ∃ m : Host.News, m.report c.pid ∈ (drain next).1 ∧ (n.status.isFinished = true → m = n) := by
  obtain ⟨passed, -, left⟩ := unheard
  have distinct : next.roll.Distinct := by
    simp only [hnext, Host.roll, Host.map_place_undergo]
    exact distinct
  -- any lasting news of the child is due in the state from which the drain starts
  have due : ∀ said, Host.Lasting said → said n → Host.Due c.pid said [] next := by
    intro said lasting hsaid
    have member : c ∈ Host.members g h.children := Host.mem_members.mpr ⟨hc, hgroup⟩
    obtain ⟨d, hd, hpid, m, hm, hmsaid⟩ :=
      lasting.undergo ⟨c, member, rfl, n, hnews, hsaid⟩ (passed.flatMap Host.Turn.changes)
    rw [← left] at hd
    have later := lasting.undergo ⟨d, (Host.mem_members.mp hd).1, hpid, m, hm, hmsaid⟩ changes
    refine ⟨distinct, Or.inl ?_⟩
    rw [hnext]
    exact later
  by_cases ends : n.status.isFinished = true
  · have lasting := Host.lasting_end ends
    obtain ⟨m, rfl, heard⟩ := (due _ lasting rfl).drain lasting whole
    exact ⟨m, heard, fun _ => rfl⟩
  · obtain ⟨m, -, heard⟩ := (due _ Host.lasting_any trivial).drain Host.lasting_any whole
    exact ⟨m, heard, fun finished => absurd finished ends⟩

/-- **Work in the foreground and work that is not tracked leave other jobs alone**: for every state of
the shell, every operation but a poll, and whatever the children do meanwhile, as long as no two
children have one process id and new processes have ids that no job of the table has. -/
theorem leaves_others_alone (s : Session (Host σ)) (distinct : s.kernel.roll.Distinct)
    (operation : Operation) (polls : operation ≠ .poll) (fresh : s.StartsFresh operation) :
    s.LeavesOthers operation where
  entries := s.agreeBut_perform polls
  unheard := fun _ other unfounded => unheard_perform distinct polls other unfounded
  polled := by
    intro g other unfounded c hc hgroup n hnews changes turns world next hnext whole
    have unheard := unheard_perform distinct polls other unfounded
    exact polled_of_unheard unheard (beside_perform distinct polls other).1 hc hgroup hnews hnext
      whole
  untracked := by
    rintro line rfl none pid g started s' later alive
    exact unseen_later none fresh started later alive

/-- A session whose only place in the table is taken by a job that has ended and was not reported. -/
def endedUnreported : Session (Host Machine) :=
  let s : Session (Host Machine) := perform (start ⟨true, "$ ", 1, false⟩ ⟨"user", "/"⟩
    ⟨Machine.boot .bare FileTree.root .sink, [], [], []⟩) (.run "sleep 9 &")
  { s with kernel := { s.kernel with
    children := Host.undergo s.kernel.children [(100001, .exited 0)]
    turns := [⟨[], 0, none⟩, ⟨[(100002, .exited 0)], 0, none⟩] } }

/-- The table is full, so a second job runs without an entry and is waited for; the report on the
first one is still there after that. -/
theorem leaves_others_alone_full_table :
    ∃ s : Session (Host Machine), s.registers? (.run "cat") = none ∧
      (s.run "cat").2.happenedSince s = [.started 100002 100002, .reported ⟨100002, .done⟩] ∧
      (s.run "cat").2.kernel.children = [⟨100001, 100001, false, some (.exited 0)⟩] ∧
      s.LeavesOthers (.run "cat") :=
  ⟨endedUnreported, by decide +kernel, by decide +kernel, by decide +kernel,
    leaves_others_alone endedUnreported (by decide +kernel) (.run "cat") (by simp)
      (by decide +kernel)⟩

end Session

end JobControl
