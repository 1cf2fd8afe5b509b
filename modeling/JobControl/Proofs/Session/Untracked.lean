import JobControl.Proofs.Kernel.Unheard
import JobControl.Proofs.Poll.Bulletin
import JobControl.Proofs.Session.Calls
import JobControl.Proofs.Session.Hosted
import JobControl.Proofs.Session.Recency

/-!
# Processes without an entry

A line can start processes that no job of the table stands for: when the table is full, or after a
built-in.  None of them is in the table then.  None is later, since a process that is started takes
an id that no child has, and such a process stays a child until a report said that it ended
(`Roll.Kept`).  So until then every poll, in whichever session that follows, takes reports on it as
if they had not been there (`JobTable.reap_filter`).
-/

set_option autoImplicit false

namespace JobControl

/-! ## Reports -/

namespace JobTable

variable {pid : Pid}

/-- Leaving out the changes of a process without an entry makes no difference to what is seen. -/
theorem SameSight.foldl (changes : List StatusChange) {r r' : Reaping} (same : SameSight r r')
    (unknown : pid ∉ r.table.pids) :
    SameSight ((changes.filter (·.pid != pid)).foldl Reaping.record r)
      (changes.foldl Reaping.record r') := by
  induction changes generalizing r r' with
  | nil => exact same
  | cons change rest ih =>
    by_cases own : change.pid = pid
    · rw [List.filter_cons_of_neg (by simp [own]), List.foldl_cons]
      exact ih (same.record_unknown (own ▸ unknown)) unknown
    · rw [List.filter_cons_of_pos (by simpa using own), List.foldl_cons, List.foldl_cons]
      refine ih (same.record change) fun hpid => unknown ?_
      rw [table_record] at hpid
      exact pids_settle r.table change hpid

end JobTable

/-- The report is about a process. -/
def Notification.isAbout (n : Notification) (pid : Pid) : Bool :=
  n.change?.any (·.pid == pid)

/-- **Reports on a process without an entry change no entry and print nothing**: without them the
table is the same, and so is what is printed. -/
theorem JobTable.reap_filter {t : JobTable} {pid : Pid} (unknown : pid ∉ t.pids)
    (reports : List Notification) :
    (t.reap reports).table = (t.reap (reports.filter fun n => !n.isAbout pid)).table ∧
      (t.reap reports).output = (t.reap (reports.filter fun n => !n.isAbout pid)).output := by
  have changes : (reports.filter fun n => !n.isAbout pid).filterMap Notification.change? =
      (reports.filterMap Notification.change?).filter (·.pid != pid) := by
    rw [List.filterMap_filter, List.filter_filterMap]
    refine List.filterMap_congr fun n _ => ?_
    unfold Notification.isAbout
    cases n.change? with
    | none => simp
    | some change => by_cases own : change.pid = pid <;> simp [own, Option.filter]
  have untracked : pid ∉ (Reaping.start t).table.pids := unknown
  obtain ⟨events, same⟩ :=
    SameSight.foldl (reports.filterMap Notification.change?) (.refl _) untracked
  unfold reap
  rw [changes, same]
  exact ⟨rfl, rfl⟩

/-! ## Processes that were told to have ended -/

namespace Roll

variable {base : List Happening} {pid g : Pid} {r r' : Roll}

/-- Since a history a report said that a process ended. -/
def ToldEnd (base : List Happening) (pid : Pid) (r : Roll) : Prop :=
  ∃ new, r.history = base ++ new ∧
    ∃ change, .reported change ∈ new ∧ change.pid = pid ∧ change.status.isFinished = true

theorem ToldEnd.append (told : r.ToldEnd base pid) {more : List Happening}
    (history : r'.history = r.history ++ more) : r'.ToldEnd base pid := by
  obtain ⟨new, since, change, noted, ended⟩ := told
  refine ⟨new ++ more, ?_, change, List.mem_append_left more noted, ended⟩
  rw [history, since, List.append_assoc]

/-- A process is still a child, unless it was told to have ended. -/
def Kept (base : List Happening) (pid g : Pid) (r : Roll) : Prop :=
  r.ToldEnd base pid ∨ base <+: r.history ∧ (pid, g) ∈ r.children

theorem Kept.start (kept : r.Kept base pid g) (p group : Pid) : (r.start p group).Kept base pid g := by
  rcases kept with told | ⟨since, child⟩
  · exact Or.inl (told.append rfl)
  · exact Or.inr ⟨since.trans (List.prefix_append _ _), mem_start.mpr (Or.inl child)⟩

theorem Kept.report (kept : r.Kept base pid g) (change : StatusChange) :
    (r.report change).Kept base pid g := by
  rcases kept with told | ⟨⟨new, since⟩, child⟩
  · exact Or.inl (told.append rfl)
  · by_cases ends : change.pid = pid ∧ change.status.isFinished = true
    · refine Or.inl ⟨new ++ [.reported change], ?_, change, by simp, ends⟩
      rw [Roll.report, ← since, List.append_assoc]
    · refine Or.inr ⟨⟨new ++ [.reported change], ?_⟩, mem_report.mpr ⟨child, fun finished same => ?_⟩⟩
      · rw [Roll.report, ← since, List.append_assoc]
      · exact ends ⟨same.symm, finished⟩

theorem Kept.resume (kept : r.Kept base pid g) (group : Pid) :
    (r.resume group).Kept base pid g := by
  rcases kept with told | ⟨since, child⟩
  · exact Or.inl (told.append rfl)
  · exact Or.inr ⟨since.trans (List.prefix_append _ _), child⟩

/-- Every process that was started since a history is still a child, unless it was told to have
ended. -/
def AllKept (base : List Happening) (r : Roll) : Prop :=
  ∃ new, r.history = base ++ new ∧ ∀ pid g, .started pid g ∈ new → r.Kept base pid g

theorem AllKept.step (all : r.AllKept base) {happening : Happening}
    (history : r'.history = r.history ++ [happening])
    (kept : ∀ pid g, r.Kept base pid g → r'.Kept base pid g)
    (new : ∀ pid g, happening = .started pid g → (pid, g) ∈ r'.children) : r'.AllKept base := by
  obtain ⟨so_far, since, started⟩ := all
  have further : r'.history = base ++ (so_far ++ [happening]) := by
    rw [history, since, List.append_assoc]
  refine ⟨_, further, fun pid g hstarted => ?_⟩
  rcases List.mem_append.mp hstarted with old | last
  · exact kept pid g (started pid g old)
  · refine Or.inr ⟨⟨_, further.symm⟩, new pid g ?_⟩
    exact (List.mem_singleton.mp last).symm

end Roll

namespace Host

variable {σ : Type} [Kernel σ]

theorem callInvariant_toldEnd (base : List Happening) (pid : Pid) :
    CallInvariant fun h : Host σ => h.roll.ToldEnd base pid :=
  callInvariant_roll (fun _ _ _ _ told => told.append rfl) (fun _ _ _ _ told => told.append rfl)
    fun _ _ told => told.append rfl

theorem callInvariant_kept (base : List Happening) (pid g : Pid) :
    CallInvariant fun h : Host σ => h.roll.Kept base pid g :=
  callInvariant_roll (fun _ p group _ kept => kept.start p group)
    (fun _ change _ _ kept => kept.report change) fun _ group kept => kept.resume group

theorem callInvariant_allKept (base : List Happening) :
    CallInvariant fun h : Host σ => h.roll.AllKept base :=
  callInvariant_roll
    (fun _ p group _ all => all.step rfl (fun _ _ kept => kept.start p group) fun pid g new => by
      cases new
      exact Roll.mem_start.mpr (Or.inr ⟨rfl, rfl⟩))
    (fun _ change _ _ all => all.step rfl (fun _ _ kept => kept.report change) fun _ _ new => by
      cases new)
    fun _ group all => all.step rfl (fun _ _ kept => kept.resume group) fun _ _ new => by cases new

end Host

/-! ## Lines that start such processes -/

namespace Session

section

variable {κ : Type} [Kernel κ]

/-- How a line goes on from the session in which it starts its processes: it registers a job there;
or it is done; or it launches a job that is not tracked. -/
inductive PointCases (s : Session κ) (line : String) : Prop
  | registers (id : Nat) (new : s.registers? (.run line) = some id) (point : s.launchPoint line = s)
  | done (run : (s.run line).2 = s.launchPoint line)
  | untracked (job : Job) (fresh : job.Fresh) (events : List Event)
      (run : (s.run line).2 = ({ s.launchPoint line with
        kernel := Terminal.logAll events (s.launchPoint line).kernel }.launchUntracked job).2)

theorem point_cases (s : Session κ) (line : String) : s.PointCases line := by
  cases s.run_cases line with
  | faulty fault parsed run =>
    refine .done ?_
    simp only [run, launchPoint, afterBuiltin?, leadingBuiltin?, parsed, Option.map_none,
      Option.getD_none]
  | blank parsed run =>
    refine .done ?_
    simp only [run, launchPoint, afterBuiltin?, leadingBuiltin?, parsed, Option.map_none,
      Option.getD_none]
  | tracked job parsed fresh external id jobs registered run =>
    refine .registers id ?_ ?_
    · simp only [registers?, parsed, external, registered]
      rfl
    · rw [launchPoint, s.afterBuiltin?_of_external parsed external, Option.getD_none]
  | untracked job parsed fresh external full run =>
    refine .untracked job fresh [.tableFull full.capacity] ?_
    rw [launchPoint, s.afterBuiltin?_of_external parsed external, Option.getD_none, run]
    rfl
  | builtin job parsed fresh stage rest stages builtin run =>
    have leads : leadingBuiltin? line = some stage := by
      simp [leadingBuiltin?, parsed, stages, builtin]
    have point : s.launchPoint line = ((s.log (.builtinRun stage.program)).runStage stage).2 := by
      rw [launchPoint, afterBuiltin?, leads, Option.map_some, Option.getD_some]
    cases s.runBuiltin_cases stages with
    | failed e after answer result =>
      refine .done ?_
      rw [run, result, point, answer]
    | done text after answer last result =>
      refine .done ?_
      rw [run, result, point, answer]
    | piped text after answer more result =>
      refine .untracked { job with stages := rest } (fresh.tail stages more) [] ?_
      rw [run, result, point, answer]
      rfl

/-- A line that registers no job leaves the table as it was when its processes were started. -/
theorem jobs_run_of_unregistered {s : Session κ} {line : String}
    (none : s.registers? (.run line) = none) :
    (s.run line).2.shell.jobs = (s.launchPoint line).shell.jobs := by
  cases s.point_cases line with
  | registers id new point =>
    rw [none] at new
    cases new
  | done run => rw [run]
  | untracked job fresh events run => rw [run, shell_launchUntracked fresh]

end

variable {σ : Type} [Kernel σ] {s s' : Session (Host σ)} {pid g : Pid}

/-- What every call keeps, a line keeps after the session in which it starts its processes. -/
theorem run_of_launchPoint {P : Host σ → Prop} (calls : CallInvariant P) {line : String}
    (h : P (s.launchPoint line).kernel) : P (s.run line).2.kernel := by
  cases s.point_cases line with
  | registers id new point =>
    rw [point] at h
    exact calls.perform (.run line) h
  | done run => rwa [run]
  | untracked job fresh events run =>
    rw [run]
    exact (calls.operation _).toWorkInvariant.launchUntracked fresh
      (Terminal.logAll_inv calls.toQuiet.log events h)

/-- The sessions that can follow on a session. -/
inductive Later (s : Session (Host σ)) : Session (Host σ) → Prop
  | refl : Later s s
  | perform (s' : Session (Host σ)) (operation : Operation) (before : Later s s') :
      Later s (s'.perform operation)
  | elapse (s' : Session (Host σ)) (changes : List (Pid × Host.News)) (turns : List Host.Turn)
      (world : σ) (before : Later s s') :
      Later s { s' with kernel :=
        { s'.kernel with children := Host.undergo s'.kernel.children changes, turns, world } }

/-- A process was told to have ended since a history, or it is a child without an entry. -/
def Outside (base : List Happening) (pid g : Pid) (s : Session (Host σ)) : Prop :=
  s.kernel.roll.ToldEnd base pid ∨
    s.kernel.roll.Kept base pid g ∧ pid ∉ s.shell.jobs.pids

/-- An operation brings no child into the table that was one before. -/
theorem Outside.perform {base : List Happening} (outside : s.Outside base pid g)
    (operation : Operation) : (s.perform operation).Outside base pid g := by
  rcases outside with told | ⟨kept, absent⟩
  · exact Or.inl ((Host.callInvariant_toldEnd base pid).perform operation told)
  · rcases kept with told | ⟨since, child⟩
    · exact Or.inl ((Host.callInvariant_toldEnd base pid).perform operation told)
    · refine Or.inr ⟨(Host.callInvariant_kept base pid g).perform operation (Or.inr ⟨since, child⟩),
        fun hpid => ?_⟩
      rcases mem_pids_perform hpid with old | unused
      · exact absent old
      · exact unused g child

theorem Outside.later {base : List Happening} (outside : s.Outside base pid g)
    (later : s.Later s') : s'.Outside base pid g := by
  induction later with
  | refl => exact outside
  | perform s' operation _ ih => exact ih.perform operation
  | elapse s' changes turns world _ ih =>
    have same : ({ s'.kernel with children := Host.undergo s'.kernel.children changes, turns, world } :
        Host σ).roll = s'.kernel.roll := by
      simp only [Host.roll, Host.map_place_undergo]
    unfold Outside
    rw [same]
    exact ih

/-- A process has no entry, and the next poll makes of the reports on it what it would make without
them. -/
structure Unseen (s : Session (Host σ)) (pid : Pid) : Prop where
  absent : pid ∉ s.shell.jobs.pids
  jobs : s.poll.2.shell.jobs =
    (s.shell.jobs.reap ((drain s.kernel).1.filter fun n => !n.isAbout pid)).table
  output : s.poll.1 =
    (s.shell.jobs.reap ((drain s.kernel).1.filter fun n => !n.isAbout pid)).output

theorem Unseen.of_absent (absent : pid ∉ s.shell.jobs.pids) : s.Unseen pid :=
  have same := JobTable.reap_filter absent (drain s.kernel).1
  ⟨absent, same.1, same.2⟩

/-- **A process that is started without an entry is never seen**, until a report said that it ended.
-/
theorem unseen_later {line : String} (none : s.registers? (.run line) = none)
    (fresh : s.StartsFresh (.run line))
    (started : .started pid g ∈ (s.run line).2.happenedSince (s.launchPoint line))
    (later : (s.run line).2.Later s')
    (alive : ∀ change, .reported change ∈ s'.happenedSince (s.launchPoint line) →
      change.pid = pid → change.status.isFinished = false) : s'.Unseen pid := by
  have start : (s.launchPoint line).kernel.roll.AllKept (s.launchPoint line).kernel.history :=
    ⟨[], (List.append_nil _).symm, fun _ _ hstarted => by cases hstarted⟩
  obtain ⟨new, since, kept⟩ := run_of_launchPoint (Host.callInvariant_allKept _) start
  have unrecorded : pid ∉ (s.run line).2.shell.jobs.pids := by
    rw [jobs_run_of_unregistered none]
    intro hpid
    obtain ⟨e, he, hpid⟩ := JobTable.mem_pids.mp hpid
    exact fresh pid g started e he hpid
  have is_new : .started pid g ∈ new := by
    change (s.run line).2.kernel.history = _ at since
    rwa [happenedSince, since, List.drop_left] at started
  rcases Outside.later (Or.inr ⟨kept pid g is_new, unrecorded⟩) later with
    ⟨told, since, change, noted, same, ended⟩ | ⟨-, absent⟩
  · change s'.kernel.history = _ at since
    rw [happenedSince, since, List.drop_left] at alive
    rw [alive change noted same] at ended
    cases ended
  · exact .of_absent absent

end Session

end JobControl
