import JobControl.Machine.System
import JobControl.Proofs.Job.Coherence
import JobControl.Proofs.Kernel.Host
import JobControl.Proofs.Session.Tracking

/-!
# The table and the children agree

On a system with children of their own will (`Host`), the table tells the truth between two
operations: a launched stage is unfinished exactly if its process is an unreaped child of the job's
group, and its status is what the reports on its process come to, whoever took them.  A job that
left the table had no unreaped process left.

`Session.Coherent` is the invariant.  Each operation has one lemma that keeps it; a job that is
being waited for is left out of it meanwhile (`Session.CoherentBut`).
-/

set_option autoImplicit false

namespace JobControl.Session

variable {σ : Type} [Kernel σ] {s s' : Session (Host σ)} {id : Nat} {job : Job}

/-- All jobs are tracked, have no process in common, and agree with the roll. -/
structure Coherent (s : Session (Host σ)) : Prop where
  tracked : s.shell.jobs.AllTracked
  apart : s.shell.jobs.Apart
  coheres : ∀ e ∈ s.shell.jobs.entries, e.job.Coheres s.kernel.roll

/-- The same for all jobs but one. -/
structure CoherentBut (id : Nat) (s : Session (Host σ)) : Prop where
  tracked : s.shell.jobs.TrackedBut id
  apart : s.shell.jobs.Apart
  coheres : ∀ e ∈ s.shell.jobs.entries, e.id ≠ id → e.job.Coheres s.kernel.roll

omit [Kernel σ] in
/-- Only the entries and the roll matter. -/
theorem Coherent.congr (h : s.Coherent) (entries : s'.shell.jobs.entries = s.shell.jobs.entries)
    (roll : s'.kernel.roll = s.kernel.roll) : s'.Coherent where
  tracked := by
    unfold JobTable.AllTracked
    rw [entries]
    exact h.tracked
  apart := by
    unfold JobTable.Apart
    rw [entries]
    exact h.apart
  coheres := by
    rw [entries, roll]
    exact h.coheres

/-- What an operation comes to: the table and the children agree, and every job that left the table
has no child any more. -/
structure Keeps (s s' : Session (Host σ)) : Prop where
  coherent : s'.Coherent
  accounted : s.shell.jobs.Accounted s'.shell.jobs s'.kernel.roll

omit [Kernel σ] in
/-- What leaves the entries and the roll alone keeps a coherent session so. -/
theorem Coherent.keeps (h : s.Coherent) (entries : s'.shell.jobs.entries = s.shell.jobs.entries)
    (roll : s'.kernel.roll = s.kernel.roll) : s.Keeps s' where
  coherent := h.congr entries roll
  accounted := fun e he => Or.inl ⟨e, entries ▸ he, rfl, rfl⟩

omit [Kernel σ] in
/-- Taking the other job out makes the rest coherent. -/
theorem CoherentBut.erase (h : s.CoherentBut id) :
    Coherent { s with shell := { s.shell with jobs := s.shell.jobs.erase id } } where
  tracked := h.tracked.erase
  apart := h.apart.erase id
  coheres := by
    intro e he
    obtain ⟨he, hne⟩ := JobTable.mem_erase.mp he
    exact h.coheres e he hne

omit [Kernel σ] in
/-- A change of the other job that keeps its processes leaves the rest coherent. -/
theorem CoherentBut.modify (h : s.CoherentBut id) (found : s.shell.jobs.find? id = some job)
    (f : Job → Job) (same : (f job).pids = job.pids) : (s.modifyJob id f).CoherentBut id where
  tracked := h.tracked.modify f
  apart := by
    refine h.apart.modify fun e he hid => ?_
    rw [JobTable.job_of_find? found he hid]
    exact same
  coheres := by
    intro e he hne
    rcases JobTable.cases_of_mem_modify he with ⟨he, -⟩ | ⟨e', -, rfl, rfl⟩
    · exact h.coheres e he hne
    · exact absurd rfl hne

omit [Kernel σ] in
/-- If the other job is tracked and agrees with the roll too, all is coherent. -/
theorem CoherentBut.all (h : s.CoherentBut id) (found : s.shell.jobs.find? id = some job)
    (tracked : job.Tracked id) (agrees : job.Coheres s.kernel.roll) : s.Coherent where
  tracked := by
    intro e he
    by_cases own : e.id = id
    · rw [JobTable.job_of_find? found he own, own]
      exact tracked
    · exact h.tracked e he own
  apart := h.apart
  coheres := by
    intro e he
    by_cases own : e.id = id
    · rw [JobTable.job_of_find? found he own]
      exact agrees
    · exact h.coheres e he own

omit [Kernel σ] in
/-- The other jobs have other groups. -/
theorem CoherentBut.group_ne (h : s.CoherentBut id) (found : s.shell.jobs.find? id = some job)
    {group : Pid} (own : group ∈ job.pids) :
    ∀ e ∈ s.shell.jobs.entries, e.id ≠ id → e.job.group ≠ some group := by
  intro e he hne hgroup
  obtain ⟨e', he', rfl, rfl⟩ := JobTable.find?_eq_some_iff.mp found
  exact hne (h.apart e he e' he' group ((h.tracked e he hne).group_mem_pids hgroup) own)

/-- Taking a job out is nothing to the children. -/
theorem roll_removeJob (s : Session (Host σ)) (id : Nat) :
    (s.removeJob id).kernel.roll = s.kernel.roll :=
  removeJob_inv (P := fun h : Host σ => h.roll = s.kernel.roll) (fun _ _ same => same) id rfl

theorem roll_concludeWait (s : Session (Host σ)) (id : Nat) (waited : Waited) :
    (s.concludeWait id waited).2.kernel.roll = s.kernel.roll := by
  unfold concludeWait
  split
  · exact roll_removeJob s id
  · rfl
  · rfl

/-! ## Waiting -/

/-- What a wait keeps: the job has only received reports, it agrees with the roll, and so do the
other jobs. -/
structure Watching (t : JobTable) (id : Nat) (job : Job) (w : Watch) (r : Roll) : Prop where
  advances : job.Advances w.job
  coheres : w.job.Coheres r
  others : ∀ e ∈ t.entries, e.id ≠ id → e.job.Coheres r

omit [Kernel σ] in
/-- A report on the group of the job that is waited for keeps that. -/
theorem Watching.record {t : JobTable} {group : Pid}
    (elsewhere : ∀ e ∈ t.entries, e.id ≠ id → e.job.group ≠ some group) {w : Watch} {r r' : Roll}
    {n : Notification} {change : StatusChange} (h : Watching t id job w r)
    (takes : r.Takes n group change r') : Watching t id job (w.record change) r' where
  advances := h.advances.trans (.apply w.job change)
  coheres := by
    rw [takes.after]
    exact h.coheres.report takes.present
  others := fun e he hne => (h.others e he hne).report_elsewhere takes (elsewhere e he hne)

/-- When a wait finds a job finished, every launched stage has ended: that the group has no child
left is never the answer while a stage runs. -/
theorem finished_of_ended {group : Pid} {J : Watch → Roll → Prop} {w : Watch}
    (ended : w.Ended group (fun w (h : Host σ) => J w h.roll) (.ok .finished))
    (agrees : ∀ r, J w r → w.job.Coheres r ∧ w.job.group = some group) :
    ∀ s ∈ w.job.stages, ∀ p, s.pid = some p → s.status.isFinished = true := by
  intro s hs p hp
  rcases ended with ⟨idle, result⟩ | ⟨k, e, k', busy, kept, answer, -, result⟩
  · -- nothing runs, and nothing is suspended since the job counts as finished
    have running := List.countP_eq_zero.mp idle s hs
    have calm : s.status ≠ .suspended := by
      intro suspended
      have some_suspended : w.job.isSuspended = true :=
        List.any_eq_true.mpr ⟨s, hs, by rw [suspended]; rfl⟩
      rw [Watch.outcome, if_pos some_suspended] at result
      cases result
    by_contra alive
    have unfinished := Bool.eq_false_iff.mpr alive
    exact running (by simp [Stage.isRunning, Stage.isOutstanding, hp, unfinished, calm])
  · -- a stage that runs is a child of the group, so there being none cannot be the answer
    exfalso
    obtain ⟨t, ht, runs⟩ := List.countP_pos_iff.mp (Nat.pos_of_ne_zero busy)
    simp only [Stage.isRunning, Stage.isOutstanding, Bool.and_eq_true, Bool.not_eq_true'] at runs
    obtain ⟨⟨launched, unfinished⟩, -⟩ := runs
    obtain ⟨q, hq⟩ := Option.isSome_iff_exists.mp launched
    obtain ⟨coheres, hgroup⟩ := agrees k.roll kept
    have child := (coheres.present t ht q group hq hgroup).mp unfinished
    by_cases none : e = .echild
    · exact (Host.roll_await_error answer).2 none q child
    · rw [if_neg none] at result
      cases result

/-- Waiting for a tracked job notes nothing but reports. -/
theorem reported_waitForeground {group : Pid} (found : s.shell.jobs.find? id = some job)
    (hgroup : job.group = some group) :
    (s.waitForeground id).2.kernel.roll.ReportedSince s.kernel.roll.history := by
  obtain ⟨w, result, kernel, reported, -, eq⟩ :=
    waitForeground_rule found hgroup
      (Host.waitInvariant_reported s.kernel.roll.history) (fun _ => Host.terminalQuiet_roll _)
      (Roll.reportedSince_self _)
  rw [eq, roll_concludeWait]
  exact reported

/-- What a wait for a tracked job comes to: the table and the children agree, every job is accounted
for, and the other jobs are still there. -/
structure Concluded (s : Session (Host σ)) (id : Nat) (s' : Session (Host σ)) : Prop
    extends s.Keeps s' where
  others : ∀ e ∈ s.shell.jobs.entries, e.id ≠ id → e ∈ s'.shell.jobs.entries

/-- **Waiting for a tracked job keeps the table and the children in agreement.** -/
theorem concluded_waitForeground (others : s.CoherentBut id)
    (found : s.shell.jobs.find? id = some job) (sound : job.Sound id)
    (agrees : job.Coheres s.kernel.roll) : s.Concluded id (s.waitForeground id).2 := by
  obtain ⟨group, hgroup⟩ := sound.exists_group
  have elsewhere := others.group_ne found (sound.group_mem_pids hgroup)
  obtain ⟨w, result, kernel, watching, ended, eq⟩ :=
    waitForeground_rule found hgroup
      (Host.waitInvariant_roll (J := Watching s.shell.jobs id { job with mode := .foreground })
        fun _ _ _ _ _ kept takes => kept.record elsewhere takes)
      (fun _ => Host.terminalQuiet_roll _)
      ⟨.refl _, agrees.withMode .foreground, others.coheres⟩
  have rest : CoherentBut id { s with kernel } := ⟨others.tracked, others.apart, watching.others⟩
  have same : w.job.pids = job.pids := watching.advances.pids_eq
  -- a job that stopped and one whose wait was cut short are put back in the same way
  have stopped : result ≠ .ok .finished → s.Concluded id
      ({ s with kernel }.modifyJob id fun _ => { w.job with mode := .background }) := by
    intro unfinished
    have tracked : Job.Tracked id { w.job with mode := .background } :=
      ⟨((sound.withMode .foreground).advances watching.advances).withMode .background, rfl,
        ended.live unfinished⟩
    have placed : (s.shell.jobs.modify id fun _ => { w.job with mode := .background }).find? id =
        some { w.job with mode := .background } := JobTable.find?_modify found
    have left := rest.modify found (fun _ => { w.job with mode := .background }) same
    refine ⟨⟨left.all placed tracked (watching.coheres.withMode .background), ?_⟩, ?_⟩
    · refine (JobTable.Accounted.refl _ _).modify fun e he hid => ?_
      rw [JobTable.job_of_find? found he hid]
      exact same
    · exact fun e he hne => JobTable.mem_modify_of_ne he hne
  rw [eq]
  rcases result with e | (_ | reportedAll)
  · have left := stopped (by simp)
    exact ⟨⟨left.coherent.congr rfl rfl, left.accounted⟩, left.others⟩
  · have gone : ∀ p ∈ w.job.pids, ∀ g, (p, g) ∉ kernel.roll.children := by
      refine watching.coheres.absent (finished_of_ended ended fun r kept => ⟨kept.coheres, ?_⟩)
      exact kept.advances.group.trans hgroup
    have roll := roll_removeJob { s with kernel } id
    refine ⟨⟨rest.erase.congr (by rw [concludeWait, shell_removeJob]) roll, ?_⟩, ?_⟩
    · rw [concludeWait, shell_removeJob, roll]
      refine (JobTable.Accounted.refl s.shell.jobs kernel.roll).erase fun e he hid => ?_
      rw [JobTable.job_of_find? found he hid, ← same]
      exact gone
    · intro e he hne
      rw [concludeWait, shell_removeJob]
      exact JobTable.mem_erase.mpr ⟨he, hne⟩
  · exact stopped (by simp)

/-! ## Launching -/

/-- What a session's children did since a moment in its history. -/
def happenedSince (s : Session (Host σ)) (before : Session (Host σ)) : List Happening :=
  s.kernel.history.drop before.kernel.history.length

/-- No process was started since that moment under an id that a job of the table had then. -/
def StartedFresh (before after : Session (Host σ)) : Prop :=
  ∀ pid group, .started pid group ∈ after.happenedSince before →
    ∀ e ∈ before.shell.jobs.entries, pid ∉ e.job.pids

instance (before after : Session (Host σ)) : Decidable (before.StartedFresh after) :=
  decidable_of_iff
    ((after.happenedSince before).all (Happening.spares before.shell.jobs.pids) = true) <| by
      simp only [List.all_eq_true, StartedFresh]
      constructor
      · intro spared pid group started e he own
        have absent := spared _ started
        simp only [Happening.spares, Bool.not_eq_true', List.contains_eq_mem,
          decide_eq_false_iff_not] at absent
        exact absent (JobTable.mem_pids.mpr ⟨e, he, own⟩)
      · intro fresh happening hmem
        cases happening with
        | started pid group =>
          simp only [Happening.spares, Bool.not_eq_true', List.contains_eq_mem,
            decide_eq_false_iff_not]
          intro recorded
          obtain ⟨e, he, own⟩ := JobTable.mem_pids.mp recorded
          exact fresh pid group hmem e he own
        | reported change => rfl
        | resumed group => rfl

omit [Kernel σ] in
/-- The processes of a launch are those that happened to be started, if nothing but reports was
noted after it. -/
theorem started_iff {before after : Session (Host σ)} {pids : List Pid} {g : Pid}
    (reported : after.kernel.roll.ReportedSince
      (before.kernel.roll.startAll pids g).history) {pid group : Pid} :
    .started pid group ∈ after.happenedSince before ↔ pid ∈ pids ∧ group = g := by
  obtain ⟨changes, history⟩ := reported
  rw [Roll.history_startAll, List.append_assoc] at history
  have since : after.happenedSince before =
      pids.map (Happening.started · g) ++ changes.map Happening.reported := by
    simp only [Host.roll] at history
    rw [happenedSince, history, List.drop_left]
  rw [since]
  simp only [List.mem_append, List.mem_map, Happening.started.injEq, reduceCtorEq, and_false,
    exists_false, or_false]
  constructor
  · rintro ⟨p, hp, rfl, rfl⟩
    exact ⟨hp, rfl⟩
  · rintro ⟨hp, rfl⟩
    exact ⟨pid, hp, rfl, rfl⟩

/-- What launching a tracked job comes to: all jobs agree with the roll, the jobs that were there
are still there, and every process that was started belongs to a job of the table or has been
reaped. -/
structure LaunchedFrom (s s' : Session (Host σ)) : Prop where
  coherent : s'.Coherent
  others : ∀ e ∈ s.shell.jobs.entries, e ∈ s'.shell.jobs.entries
  started : ∀ pid group, .started pid group ∈ s'.happenedSince s →
    (∃ e ∈ s'.shell.jobs.entries, pid ∈ e.job.pids) ∨ ∀ g, (pid, g) ∉ s'.kernel.roll.children

omit [Kernel σ] in
/-- A launch that started nothing and left the entries alone. -/
theorem LaunchedFrom.of_refused (h : s.Coherent)
    (entries : s'.shell.jobs.entries = s.shell.jobs.entries)
    (roll : s'.kernel.roll = s.kernel.roll) : s.LaunchedFrom s' := by
  have reported : s'.kernel.roll.ReportedSince (s.kernel.roll.startAll [] 0).history := by
    rw [roll]
    exact Roll.reportedSince_self _
  refine ⟨h.congr entries roll, fun e he => entries ▸ he, fun pid group started => ?_⟩
  cases ((started_iff reported).mp started).1

omit [Kernel σ] in
/-- Once a job that was registered is launched as processes that no other job has, the other jobs
agree with the roll, and those that were there before are still there. -/
theorem coherentBut_launched (h : s.Coherent) {jobs : JobTable}
    (registered : s.shell.jobs.register job = .ok (id, jobs)) (unlaunched : job.pids = [])
    {launched : Job} (unrecorded : ∀ p ∈ launched.pids, ∀ e ∈ s.shell.jobs.entries, p ∉ e.job.pids)
    {after : Session (Host σ)} (table : after.shell.jobs = jobs.modify id fun _ => launched)
    {group : Pid} (roll : after.kernel.roll = s.kernel.roll.startAll launched.pids group) :
    after.CoherentBut id ∧
      ∀ e ∈ s.shell.jobs.entries, e.id ≠ id ∧ e ∈ after.shell.jobs.entries := by
  have old : ∀ e ∈ jobs.entries, e.id ≠ id → e ∈ s.shell.jobs.entries := by
    intro e he hne
    rcases (JobTable.mem_of_register registered).mp he with rfl | he
    · exact absurd rfl hne
    · exact he
  refine ⟨⟨?_, ?_, ?_⟩, ?_⟩
  · rw [table]
    exact (h.tracked.register registered).modify _
  · rw [table]
    refine (h.apart.register unlaunched registered).launch fun e he hne p hp => ?_
    exact unrecorded p hp e (old e he hne)
  · intro e he hne
    rw [table] at he
    rcases JobTable.cases_of_mem_modify he with ⟨he, -⟩ | ⟨e', -, rfl, rfl⟩
    · have there := old e he hne
      rw [roll]
      exact (h.coheres e there).startAll fun p hp => unrecorded p hp e there
    · exact absurd rfl hne
  · intro e he
    rw [table]
    have hne : e.id ≠ id := (JobTable.register_eq_ok registered).2.2.2 e he
    have there : e ∈ jobs.entries := (JobTable.mem_of_register registered).mpr (Or.inr he)
    exact ⟨hne, JobTable.mem_modify_of_ne there hne⟩

/-- **Launching a tracked job keeps the table and the children in agreement.** -/
theorem launchedFrom_launchTracked (h : s.Coherent) {jobs : JobTable} (fresh : job.Fresh)
    (external : job.isBuiltin = false) (registered : s.shell.jobs.register job = .ok (id, jobs))
    {event : Event} (new : s.StartedFresh (((s.withJobs jobs).log event).launchTracked id).2) :
    s.LaunchedFrom (((s.withJobs jobs).log event).launchTracked id).2 := by
  have found :
      ((s.withJobs jobs).log event).shell.jobs.find? id = some { job with id := some id } :=
    JobTable.find?_of_register registered
  have unlaunched := fresh.pids_eq_nil
  rcases launchTracked_rule found (fresh.withId (some id))
      (Host.launchInvariant_roll s.kernel.roll _) (Host.launching_nil s.kernel) with
    ⟨e, kernel, changed, ⟨roll, -, -⟩, launch⟩ |
    ⟨l, pids, launched, kernel, after, shape, some_started, ⟨roll, distinct, unused⟩, hl, ha,
      launch⟩
  · -- nothing was started: the registration is undone and nothing happened
    rw [launch]
    refine .of_refused h ?_ ?_
    · rw [shell_removeJob]
      exact JobTable.entries_erase_register registered
    · rw [roll_removeJob]
      exact roll
  · have own : launched.pids = pids := by
      rw [hl]
      exact (fresh.withId (some id)).pids_launched shape
    have placed : after.shell.jobs.find? id = some launched := by
      rw [ha]
      exact JobTable.find?_modify found
    obtain ⟨sound, live⟩ :
        Job.Sound id launched ∧ ∃ t ∈ launched.stages, t.status.isFinished = false := by
      rw [hl]
      rw [← fresh.group] at shape
      exact (fresh.withId (some id)).sound rfl external shape some_started
    have agrees : launched.Coheres after.kernel.roll := by
      rw [ha, hl]
      exact roll ▸ (fresh.withId (some id)).coheres shape some_started distinct unused
    obtain ⟨pgid, hpgid⟩ := sound.exists_group
    have here : after.kernel.roll = s.kernel.roll.startAll pids (pids.headD 0) := by
      rw [ha]
      exact roll
    have reported : (((s.withJobs jobs).log event).launchTracked id).2.kernel.roll.ReportedSince
        (s.kernel.roll.startAll pids (pids.headD 0)).history := by
      rw [launch, ← here]
      split
      · exact Roll.reportedSince_self _
      · exact reported_waitForeground placed hpgid
    -- the one place where it matters that the processes have new ids
    have unrecorded : ∀ p ∈ pids, ∀ e ∈ s.shell.jobs.entries, p ∉ e.job.pids :=
      fun p hp => new p (pids.headD 0) ((started_iff reported).mpr ⟨hp, rfl⟩)
    obtain ⟨rest, kept⟩ : after.CoherentBut id ∧
        ∀ e ∈ s.shell.jobs.entries, e.id ≠ id ∧ e ∈ after.shell.jobs.entries := by
      rw [← own] at unrecorded here
      exact coherentBut_launched h registered unlaunched unrecorded (by rw [ha]; rfl) here
    obtain ⟨entry, hentry, hid, hjob⟩ := JobTable.find?_eq_some_iff.mp placed
    rw [launch] at reported ⊢
    by_cases background : job.mode = .background
    · have tracked : Job.Tracked id launched := by
        refine ⟨sound, ?_, live⟩
        rw [hl]
        exact background
      rw [if_pos background] at reported ⊢
      refine ⟨rest.all placed tracked agrees, fun e he => (kept e he).2, ?_⟩
      intro pid group started
      refine Or.inl ⟨entry, hentry, ?_⟩
      rw [hjob, own]
      exact ((started_iff reported).mp started).1
    · rw [if_neg background] at reported ⊢
      have concluded := concluded_waitForeground rest placed sound agrees
      refine ⟨concluded.coherent, fun e he => ?_, fun pid group started => ?_⟩
      · exact concluded.others e (kept e he).2 (kept e he).1
      · have hpid : pid ∈ entry.job.pids := by
          rw [hjob, own]
          exact ((started_iff reported).mp started).1
        rcases concluded.accounted entry hentry with ⟨e, he, -, hpids⟩ | gone
        · exact Or.inl ⟨e, he, hpids ▸ hpid⟩
        · exact Or.inr (gone pid hpid)

theorem reported_waitUntracked {group : Pid} (hgroup : job.group = some group) :
    (s.waitUntracked job).2.kernel.roll.ReportedSince s.kernel.roll.history := by
  obtain ⟨w, kernel, reported, eq⟩ :=
    waitUntracked_rule hgroup
      (Host.waitInvariant_reported s.kernel.roll.history) (fun _ => Host.terminalQuiet_roll _)
      (Roll.reportedSince_self _)
  rw [eq]
  exact reported

/-- Waiting for an untracked job keeps the table and the children in agreement. -/
theorem coherent_waitUntracked (h : s.Coherent) {group : Pid} (hgroup : job.group = some group)
    (elsewhere : ∀ e ∈ s.shell.jobs.entries, e.job.group ≠ some group) :
    (s.waitUntracked job).2.Coherent := by
  obtain ⟨w, kernel, coheres, eq⟩ :=
    waitUntracked_rule hgroup
      (Host.waitInvariant_roll (J := fun _ r => ∀ e ∈ s.shell.jobs.entries, e.job.Coheres r)
        fun _ _ _ _ _ kept takes e he => (kept e he).report_elsewhere takes (elsewhere e he))
      (fun _ => Host.terminalQuiet_roll fun r => ∀ e ∈ s.shell.jobs.entries, e.job.Coheres r)
      h.coheres
  rw [eq]
  exact ⟨h.tracked, h.apart, coheres⟩

/-- **Launching an untracked job keeps the table and the children in agreement.** -/
theorem coherent_launchUntracked (h : s.Coherent) (fresh : job.Fresh)
    (new : s.StartedFresh (s.launchUntracked job).2) : (s.launchUntracked job).2.Coherent := by
  rcases launchUntracked_rule fresh (Host.launchInvariant_roll s.kernel.roll _)
      (Host.launching_nil s.kernel) with
    ⟨e, kernel, ⟨roll, -, -⟩, launch⟩ |
    ⟨l, pids, launched, after, kernel, shape, some_started, ⟨roll, -, -⟩, hl, ha, launch⟩
  · rw [launch]
    exact h.congr rfl roll
  · have here : after.kernel.roll = s.kernel.roll.startAll pids (pids.headD 0) := by
      rw [ha]
      exact roll
    have hgroup : launched.group = some (pids.headD 0) := by
      obtain ⟨first, others, rfl⟩ := List.exists_cons_of_ne_nil some_started
      rw [hl]
      exact shape.founder
    have reported : (s.launchUntracked job).2.kernel.roll.ReportedSince
        (s.kernel.roll.startAll pids (pids.headD 0)).history := by
      rw [launch, ← here]
      split
      · exact Roll.reportedSince_self _
      · exact reported_waitUntracked hgroup
    have unrecorded : ∀ p ∈ pids, ∀ e ∈ s.shell.jobs.entries, p ∉ e.job.pids :=
      fun p hp => new p (pids.headD 0) ((started_iff reported).mpr ⟨hp, rfl⟩)
    have started : after.Coherent := by
      rw [ha]
      refine ⟨h.tracked, h.apart, fun e he => ?_⟩
      exact roll ▸ (h.coheres e he).startAll fun p hp => unrecorded p hp e he
    have elsewhere : ∀ e ∈ after.shell.jobs.entries, e.job.group ≠ some (pids.headD 0) := by
      intro e he own
      have founder : pids.headD 0 ∈ pids := by
        obtain ⟨first, others, rfl⟩ := List.exists_cons_of_ne_nil some_started
        exact List.mem_cons_self
      rw [ha] at he
      exact unrecorded _ founder e he ((h.tracked e he).group_mem_pids own)
    rw [launch]
    split
    · exact started
    · exact coherent_waitUntracked started hgroup elsewhere

end JobControl.Session
