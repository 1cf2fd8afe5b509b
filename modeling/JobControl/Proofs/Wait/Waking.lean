import JobControl.Proofs.Job.Coherence
import JobControl.Proofs.Kernel.UpToDate
import JobControl.Proofs.Session.Tracking
import JobControl.Proofs.Wait.Vigil

/-!
# No question of a wait is in vain

A wait asks for a report of a group only while some launched stage of the job runs as far as it
knows.  The child of that stage is still there, and it runs, or has an untaken report, or has been
stopped and reported so; in the last case the stage would count as suspended.  So some child of the
job runs or has an untaken report whenever the wait asks (`Job.Stirs`).

If no child of the job runs, one of them has an untaken report, so the question is answered at once.
If in addition nothing happens any more, every answer leaves one untaken report less, and there are
at most as many questions as there were reports (`length_vigil_le`).
-/

set_option autoImplicit false

namespace JobControl

open Host

/-! ## The children of a job -/

/-- Some launched stage of the job is a child of the group that runs or has an untaken report. -/
def Job.Stirs (job : Job) (group : Pid) (children : List Process) : Prop :=
  ∃ c ∈ children, c.pid ∈ job.pids ∧ c.group = group ∧
    (c.isRunning = true ∨ ∃ n, c.news = some n)

/-- All children of the job have stopped or ended. -/
def Job.Resting (job : Job) (children : List Process) : Prop :=
  ∀ c ∈ children, c.pid ∈ job.pids → c.isRunning = false

/-- A child that does not run has an untaken report, or is stopped. -/
theorem Host.Process.stopped_of_silent {c : Process} (resting : c.isRunning = false)
    (silent : c.news = none) : c.stopped = true := by
  simpa [Process.isRunning, Process.hasEnded, silent] using resting

/-- A job that stirs although none of its children runs has one with an untaken report. -/
theorem Job.Stirs.exists_news {job : Job} {group : Pid} {children : List Process}
    (stirs : job.Stirs group children) (resting : job.Resting children) :
    ∃ c ∈ children, c.group = group ∧ ∃ n, c.news = some n := by
  obtain ⟨c, hc, own, hgroup, runs | news⟩ := stirs
  · rw [resting c hc own] at runs
    cases runs
  · exact ⟨c, hc, hgroup, news⟩

/-- While all children of a job have stopped or ended, taking a report leaves it so. -/
theorem Job.Resting.take {job : Job} {children : List Process} {history : List Happening}
    (resting : job.Resting children) (upToDate : ∀ p ∈ job.pids, UpToDate children history p)
    {c : Process} {n : News} (hc : c ∈ children) (hnews : c.news = some n) :
    job.Resting (children.filterMap (Process.afterReport c.pid n)) := by
  intro d hd hpid
  rcases (upToDate d.pid hpid).cases_of_mem_taken hc hd rfl with ⟨hd, -⟩ | ⟨own, unfinished, rfl⟩
  · exact resting d hd hpid
  · have rests := resting c hc hpid
    simpa [Process.isRunning, Process.hasEnded, hnews, unfinished] using rests

namespace Host

variable {σ : Type}

/-- The child is one of the group and has an untaken report. -/
def Process.speaks (group : Pid) (c : Process) : Bool :=
  decide (c.group = group) && c.news.isSome

/-- The number of untaken reports on children of a group. -/
def unread (group : Pid) (h : Host σ) : Nat :=
  h.children.countP (Process.speaks group)

/-- Taking a report on a child of the group leaves at least one untaken report less. -/
theorem unread_take_lt {h : Host σ} {group : Pid} {c : Process} {n : News} (hc : c ∈ h.children)
    (hgroup : c.group = group) (hnews : c.news = some n) :
    (h.take (c.pid, n)).2.unread group < h.unread group := by
  have fewer : ∀ d : Process,
      ((d.afterReport c.pid n).map (Process.speaks group)).getD false = true →
      d.speaks group = true := by
    intro d
    unfold Process.afterReport
    split
    · split <;> simp [Process.speaks]
    · simp
  have gone : ((c.afterReport c.pid n).map (Process.speaks group)).getD false = false := by
    unfold Process.afterReport
    simp only [if_true]
    split <;> simp [Process.speaks]
  have spoke : c.speaks group = true := by simp [Process.speaks, hgroup, hnews]
  obtain ⟨before, after, parts⟩ := List.append_of_mem hc
  have earlier := List.countP_mono_left (l := before) fun d _ => fewer d
  have later := List.countP_mono_left (l := after) fun d _ => fewer d
  simp only [unread, take, List.countP_filterMap, parts, List.countP_append, List.countP_cons, gone,
    spoke, if_true, Bool.false_eq_true, if_false]
  omega

end Host

/-! ## What a wait knows of its job -/

variable {σ : Type} {group : Pid} {job : Job} {w : Watch} {h : Host σ}

/-- What is known of a job while it is waited for: its group and its processes are what they were, it
agrees with the roll of the children, and the children are up to date. -/
structure Job.Followed (job : Job) (group : Pid) (w : Watch) (h : Host σ) : Prop where
  hgroup : w.job.group = some group
  same : w.job.pids = job.pids
  coheres : w.job.Coheres h.roll
  upToDate : ∀ p ∈ job.pids, UpToDate h.children h.history p

namespace Job.Followed

/-- **While a launched stage runs as far as the wait knows, some child of the job runs or has an
untaken report**, whatever happened to the children meanwhile. -/
theorem stirs (followed : job.Followed group w h) (busy : w.job.running ≠ 0)
    (changes : List (Pid × News)) : job.Stirs group (undergo h.children changes) := by
  obtain ⟨s, hs, runs⟩ := List.countP_pos_iff.mp (Nat.pos_of_ne_zero busy)
  simp only [Stage.isRunning, Stage.isOutstanding, Bool.and_eq_true, Bool.not_eq_true',
    bne_iff_ne] at runs
  obtain ⟨⟨launched, unfinished⟩, calm⟩ := runs
  obtain ⟨p, hp⟩ := Option.isSome_iff_exists.mp launched
  have hgroup := followed.hgroup
  have own : p ∈ job.pids := followed.same ▸ Job.mem_pids.mpr ⟨s, hs, hp⟩
  -- its process is a child of the group, whatever happened
  have child := (followed.coheres.present s hs p group hp hgroup).mp unfinished
  rw [roll, ← map_place_undergo changes] at child
  obtain ⟨c, hc, place⟩ := List.mem_map.mp child
  obtain ⟨rfl, rfl⟩ : c.pid = p ∧ c.group = group := by simpa [Process.place] using place
  refine ⟨c, hc, own, rfl, ?_⟩
  by_contra silent
  obtain ⟨idle, unheard⟩ := not_or.mp silent
  have none : c.news = none := Option.eq_none_iff_forall_ne_some.mpr fun n hn => unheard ⟨n, hn⟩
  -- a child that stopped and was reported so is known to be suspended
  have stopped := Process.stopped_of_silent (Bool.eq_false_iff.mpr idle) none
  have noted := (((followed.upToDate c.pid own).undergo changes).each c hc rfl).noted stopped none
  exact calm ((followed.coheres.status s hs c.pid c.group hp hgroup).trans noted)

variable [Kernel σ]

/-- A wait for the group keeps that. -/
theorem waiting (job : Job) (group : Pid) :
    WaitInvariant group fun w (h : Host σ) => job.Followed group w h where
  report := by
    intro w h n h' _ followed answer
    obtain ⟨change, takes⟩ := roll_await_ok answer
    have observed : w.observe n = w.record change := by
      simp only [Watch.observe, takes.implied]
    rw [observed]
    have later := Job.Advances.apply w.job change
    refine ⟨later.group.trans followed.hgroup, later.pids_eq.trans followed.same, ?_,
      fun p hp => ?_⟩
    · rw [takes.after]
      exact followed.coheres.report takes.present
    · have kept := (callInvariant_upToDate p).await group h (followed.upToDate p hp)
      rwa [answer] at kept
  failed := by
    intro w h e h' _ followed answer
    refine ⟨followed.hgroup, followed.same, ?_, fun p hp => ?_⟩
    · rw [(roll_await_error answer).1]
      exact followed.coheres
    · have kept := (callInvariant_upToDate p).await group h (followed.upToDate p hp)
      rwa [answer] at kept

/-- Handing the terminal over keeps it too. -/
theorem terminalQuiet (job : Job) (group : Pid) (w : Watch) :
    TerminalQuiet fun h : Host σ => job.Followed group w h where
  setDisposition := fun _ _ _ followed => ⟨followed.1, followed.2, followed.3, followed.4⟩
  setForeground := fun _ _ followed => ⟨followed.1, followed.2, followed.3, followed.4⟩
  log := fun _ _ followed => ⟨followed.1, followed.2, followed.3, followed.4⟩

end Job.Followed

/-! ## Waiting for a job at rest -/

namespace Host

/-- A question about a job at rest is answered within the turn in which it is asked, unless the call
fails. -/
theorem await_of_stirs {t : Turn} {turns : List Turn}
    (stirs : job.Stirs group (h.pass t turns).children)
    (resting : job.Resting (h.pass t turns).children) (succeeds : t.failure = none) :
    ∃ c ∈ (h.pass t turns).children, ∃ n, c.group = group ∧ c.news = some n ∧
      await group (t :: turns) h = (h.pass t turns).take (c.pid, n) := by
  obtain ⟨c, hc, hgroup, n, hn⟩ := stirs.exists_news resting
  obtain ⟨report, found⟩ : ∃ report,
      t.find (·.group = group) (h.pass t turns).children = .ok (some report) :=
    Turn.find_of_news hc (by simp [hgroup]) hn succeeds
  obtain ⟨d, hd, hdgroup, hdpid, hdnews⟩ := Turn.mem_of_find (n := report.2) found
  refine ⟨d, hd, report.2, by simpa using hdgroup, hdnews, ?_⟩
  simp only [await, found, hdpid]

/-- Nothing happens to the children in the turns to come, and no call fails. -/
def Calm (h : Host σ) : Prop :=
  ∀ t ∈ h.turns, t.changes = [] ∧ t.failure = none

end Host

section

variable [Kernel σ]

/-- What a question comes to when a job is at rest and nothing happens any more: a report of the
group is taken, unless there is no turn left to take it in. -/
theorem Job.Followed.await_cases (followed : job.Followed group w h) (busy : w.job.running ≠ 0)
    (resting : job.Resting h.children) (calm : h.Calm) :
    (0 < h.unread group ∧ ∃ h', Kernel.awaitGroup group h = (.error .edeadlk, h')) ∨
      ∃ n h', Kernel.awaitGroup group h = (.ok n, h') ∧ h'.unread group < h.unread group ∧
        job.Resting h'.children ∧ h'.Calm := by
  have answer : Kernel.awaitGroup group h = await group h.turns h := rfl
  cases hturns : h.turns with
  | nil =>
    obtain ⟨c, hc, hgroup, n, hn⟩ := (followed.stirs busy []).exists_news resting
    have speaks : c.speaks group = true := by simp [Process.speaks, hgroup, hn]
    refine Or.inl ⟨List.countP_pos_iff.mpr ⟨c, hc, speaks⟩, { h with turns := [] }, ?_⟩
    rw [answer, hturns]
    rfl
  | cons t turns =>
    obtain ⟨quiet, succeeds⟩ := calm t (by rw [hturns]; exact List.mem_cons_self)
    have same : (h.pass t turns).children = h.children := by
      rw [Host.pass, quiet]
      rfl
    have rests : job.Resting (h.pass t turns).children := same ▸ resting
    obtain ⟨c, hc, n, hgroup, hn, taken⟩ :=
      await_of_stirs (followed.stirs busy t.changes) rests succeeds
    have fewer := unread_take_lt hc hgroup hn
    rw [unread, unread, same, ← unread, ← unread] at fewer
    refine Or.inr ⟨n.report c.pid, ((h.pass t turns).take (c.pid, n)).2, ?_, fewer, ?_, ?_⟩
    · rw [answer, hturns, taken]
      rfl
    · exact rests.take (fun p hp => (followed.upToDate p hp).undergo t.changes) hc hn
    · intro u hu
      exact calm u (by rw [hturns]; exact List.mem_cons_of_mem t hu)

/-- **A wait for a job at rest asks at most as often as there are untaken reports**, if nothing
happens any more. -/
theorem Job.Followed.length_vigil_le (followed : job.Followed group w h)
    (resting : job.Resting h.children) (calm : h.Calm) :
    (Watch.vigil group w h).length ≤ h.unread group := by
  -- on the questions; each report that is taken leaves fewer untaken ones
  fun_induction Watch.run group w h with
  | case1 w h idle =>
    rw [Watch.vigil_of_idle idle]
    exact Nat.zero_le _
  | case2 w h busy n h' answer _ ih =>
    rcases followed.await_cases busy resting calm with
      ⟨-, k, refused⟩ | ⟨m, k, taken, fewer, rests, calmly⟩
    · rw [answer] at refused
      cases refused
    · rw [answer] at taken
      cases taken
      have later := ih ((Job.Followed.waiting job group).report w h n h' busy followed answer)
        rests calmly
      rw [Watch.vigil_of_report busy answer, List.length_cons]
      omega
  | case3 w h busy h' answer _ ih =>
    rcases followed.await_cases busy resting calm with ⟨-, k, refused⟩ | ⟨m, k, taken, -⟩
    · rw [answer] at refused
      cases refused
    · rw [answer] at taken
      cases taken
  | case4 w h busy h' answer other =>
    rcases followed.await_cases busy resting calm with ⟨-, k, refused⟩ | ⟨m, k, taken, -⟩
    · rw [answer] at refused
      cases refused
    · rw [answer] at taken
      cases taken
  | case5 w h busy e h' answer other =>
    rw [Watch.vigil_of_failure busy answer other]
    rcases followed.await_cases busy resting calm with ⟨some_report, -⟩ | ⟨m, k, taken, -⟩
    · exact some_report
    · rw [answer] at taken
      cases taken

/-! ## The moments of a wait -/

/-- What holds of a job when the shell, with this watch on it, is about to ask for a report of its
group. -/
structure Job.Awaited (job : Job) (group : Pid) (w : Watch) (h : Host σ) : Prop where
  /-- Whatever happens before the call is made, some launched stage of the job runs or has an untaken
  report. -/
  stirs : ∀ changes, job.Stirs group (undergo h.children changes)
  /-- If all its stages have stopped or ended by then, the call takes a report at once. -/
  prompt : ∀ (t : Turn) (turns : List Turn), t.failure = none →
    job.Resting (h.pass t turns).children →
      ∃ report, Kernel.awaitGroup group { h with turns := t :: turns } =
        (h.pass t turns).take report
  /-- If they have, and nothing happens any more, the wait asks at most as often as there are untaken
  reports. -/
  bounded : job.Resting h.children → h.Calm → (Watch.vigil group w h).length ≤ h.unread group

theorem Job.Followed.awaited (followed : job.Followed group w h) (busy : w.job.running ≠ 0) :
    job.Awaited group w h where
  stirs := followed.stirs busy
  prompt := by
    intro t turns succeeds resting
    obtain ⟨c, -, n, -, -, taken⟩ :=
      await_of_stirs (followed.stirs busy t.changes) resting succeeds
    exact ⟨(c.pid, n), taken⟩
  bounded := followed.length_vigil_le

end

end JobControl
