import JobControl.Proofs.Job.Table

/-!
# Whose report it is

A report names a process, and the table looks for that process among all launched stages, the
finished ones included.  It settles for the first it finds: the job with the lowest number, and in
it the first stage (`JobTable.record_eq_some_iff`).  The system may give the number of a process
that has ended to a new one, while the job of the ended process goes on with its other stages.  Then
several stages record the same number, of which only the newest can still be alive.

`JobTable.LiveAt` says that exactly one of them is unfinished.  A report reaches that stage exactly
if no finished one stands before it (`JobTable.record_eq_live_iff`); otherwise it goes to a finished
stage and the live one is left waiting (`JobTable.record_misses_live`).
-/

set_option autoImplicit false

namespace JobControl

/-! ## The first stage of a list -/

namespace Job

variable {pid : Pid} {f : Stage → Stage} {before behind stages : List Stage} {s : Stage}

theorem length_modifyStage : (modifyStage pid f stages).length = stages.length := by
  induction stages with
  | nil => rfl
  | cons s rest ih =>
    simp only [modifyStage]
    split
    · rfl
    · exact congrArg (· + 1) ih

theorem modifyStage_append_of_ne (h : ∀ r ∈ before, r.pid ≠ some pid) (hs : s.pid = some pid) :
    modifyStage pid f (before ++ s :: behind) = before ++ f s :: behind := by
  induction before with
  | nil => rw [List.nil_append, modifyStage, if_pos hs, List.nil_append]
  | cons r rest ih =>
    rw [List.cons_append, modifyStage, if_neg (h r List.mem_cons_self),
      ih fun q hq => h q (List.mem_cons_of_mem r hq), List.cons_append]

theorem modifyStage_append_of_mem (h : ∃ r ∈ before, r.pid = some pid) :
    modifyStage pid f (before ++ behind) = modifyStage pid f before ++ behind := by
  induction before with
  | nil => obtain ⟨r, hr, -⟩ := h; cases hr
  | cons r rest ih =>
    simp only [List.cons_append, modifyStage]
    split
    case isTrue => rfl
    case isFalse hne =>
      obtain ⟨q, hq, hpid⟩ := h
      rcases List.mem_cons.mp hq with rfl | hq
      · exact absurd hpid hne
      · rw [ih ⟨q, hq, hpid⟩, List.cons_append]

/-- A change that leaves the stages as they are leaves the first one launched as that process. -/
theorem exists_fixed_of_modifyStage_eq (h : modifyStage pid f stages = stages)
    (launched : ∃ r ∈ stages, r.pid = some pid) : ∃ r ∈ stages, r.pid = some pid ∧ f r = r := by
  induction stages with
  | nil => obtain ⟨r, hr, -⟩ := launched; cases hr
  | cons r rest ih =>
    simp only [modifyStage] at h
    split at h
    case isTrue hr => exact ⟨r, List.mem_cons_self, hr, (List.cons.inj h).1⟩
    case isFalse hne =>
      obtain ⟨q, hq, hpid⟩ := launched
      rcases List.mem_cons.mp hq with rfl | hq
      · exact absurd hpid hne
      · obtain ⟨fixed, hfixed, rest⟩ := ih (List.cons.inj h).2 ⟨q, hq, hpid⟩
        exact ⟨fixed, List.mem_cons_of_mem r hfixed, rest⟩

end Job

/-! ## The first job of a table -/

namespace JobTable

variable {t t' : JobTable} {e : TableEntry} {id : Nat} {pid : Pid} {change : StatusChange}

/-- Of the jobs with a process, the one with the lowest number is found. -/
theorem findByPid?_eq_some_iff : t.findByPid? pid = some id ↔
    ∃ e ∈ t.entries, e.id = id ∧ pid ∈ e.job.pids ∧
      ∀ e' ∈ t.entries, e'.id < id → pid ∉ e'.job.pids := by
  simp only [findByPid?, Option.map_eq_some_iff, List.find?_eq_some_iff_append]
  constructor
  · rintro ⟨e, ⟨own, before, behind, whole, none⟩, rfl⟩
    have ordered := t.ordered
    rw [whole, List.pairwise_append, List.pairwise_cons] at ordered
    have he : e ∈ t.entries := by
      rw [whole]
      exact List.mem_append_right _ List.mem_cons_self
    refine ⟨e, he, rfl, Job.containsPid_iff.mp own, ?_⟩
    intro e' he' lower hpid
    rw [whole] at he'
    rcases List.mem_append.mp he' with he' | he'
    · simpa [Job.containsPid_iff.mpr hpid] using none e' he'
    · rcases List.mem_cons.mp he' with rfl | he'
      · exact Nat.lt_irrefl _ lower
      · exact Nat.lt_asymm lower (ordered.2.1.1 e' he')
  · rintro ⟨e, he, rfl, hpid, first⟩
    obtain ⟨before, behind, whole⟩ := List.append_of_mem he
    have ordered := t.ordered
    rw [whole, List.pairwise_append] at ordered
    refine ⟨e, ⟨Job.containsPid_iff.mpr hpid, before, behind, whole, ?_⟩, rfl⟩
    intro e' he'
    have there : e' ∈ t.entries := by
      rw [whole]
      exact List.mem_append_left _ he'
    have absent := first e' there (ordered.2.2 e' he' e List.mem_cons_self)
    simpa [← Job.containsPid_iff] using absent

/-- **A report goes to the first job with its process**, and there to the first stage. -/
theorem record_eq_some_iff : t.record change = some (id, t') ↔
    ∃ e ∈ t.entries, e.id = id ∧ change.pid ∈ e.job.pids ∧
      (∀ e' ∈ t.entries, e'.id < id → change.pid ∉ e'.job.pids) ∧
      t' = t.modify id fun job => job.apply change := by
  simp only [record, Option.map_eq_some_iff, Prod.mk.injEq, findByPid?_eq_some_iff]
  constructor
  · rintro ⟨_, ⟨e, he, rfl, hpid, first⟩, rfl, rfl⟩
    exact ⟨e, he, rfl, hpid, first, rfl⟩
  · rintro ⟨e, he, rfl, hpid, first, rfl⟩
    exact ⟨e.id, ⟨e, he, rfl, hpid, first⟩, rfl, rfl⟩

theorem modify_eq_modify_iff {f g : Job → Job} (he : e ∈ t.entries) :
    t.modify e.id f = t.modify e.id g ↔ f e.job = g e.job := by
  constructor
  · intro same
    have found := find?_modify (f := f) (find?_of_mem he)
    rw [same, find?_modify (find?_of_mem he)] at found
    exact (Option.some.inj found).symm
  · intro same
    have entries : t.entries.map (TableEntry.modify e.id f) =
        t.entries.map (TableEntry.modify e.id g) := by
      refine List.map_congr_left fun e' he' => ?_
      by_cases hid : e'.id = e.id
      · rw [eq_of_id_eq he' he hid]
        simp only [TableEntry.modify, same]
      · simp only [TableEntry.modify, if_neg hid]
    simp only [modify, entries]

/-! ## One live stage -/

/-- Exactly one unfinished stage was launched as this process: `s`, a stage of the entry `e` with
these stages before and behind it.  Finished stages, of this job or of others, may have been
launched as a process of the same number. -/
structure LiveAt (t : JobTable) (pid : Pid) (e : TableEntry) (before : List Stage) (s : Stage)
    (behind : List Stage) : Prop where
  entry : e ∈ t.entries
  stages : e.job.stages = before ++ s :: behind
  launched : s.pid = some pid
  unfinished : s.status.isFinished = false
  same_job : ∀ r ∈ before ++ behind, r.pid = some pid → r.status.isFinished = true
  other_jobs : ∀ e' ∈ t.entries, e'.id ≠ e.id →
    ∀ r ∈ e'.job.stages, r.pid = some pid → r.status.isFinished = true

/-- The table in which one stage of an entry has another status, and nothing else has changed. -/
def withStatus (t : JobTable) (e : TableEntry) (before : List Stage) (s : Stage)
    (behind : List Stage) (status : Status) : JobTable :=
  t.modify e.id fun job => { job with stages := before ++ { s with status } :: behind }

/-- **A report reaches the one live stage of its process exactly if no finished stage stands before
it**, neither in a job with a lower number nor in its own job. -/
theorem record_eq_live_iff (change : StatusChange) {before behind : List Stage} {s : Stage}
    (live : t.LiveAt change.pid e before s behind) :
    t.record change = some (e.id, t.withStatus e before s behind change.status) ↔
      (∀ e' ∈ t.entries, e'.id < e.id → change.pid ∉ e'.job.pids) ∧
        ∀ r ∈ before, r.pid ≠ some change.pid := by
  have own : change.pid ∈ e.job.pids := by
    refine Job.mem_pids.mpr ⟨s, ?_, live.launched⟩
    rw [live.stages]
    exact List.mem_append_right _ List.mem_cons_self
  constructor
  · intro reached
    obtain ⟨e', he', hid, -, first, same⟩ := record_eq_some_iff.mp reached
    refine ⟨first, fun r hr hpid => ?_⟩
    -- the first stage with the process is a finished one, and it would have to keep its status
    have stages := congrArg Job.stages ((modify_eq_modify_iff live.entry).mp same)
    simp only [Job.apply, live.stages, Job.modifyStage_append_of_mem ⟨r, hr, hpid⟩] at stages
    obtain ⟨kept, tail⟩ := List.append_inj stages.symm Job.length_modifyStage
    obtain ⟨r', hr', hpid', fixed⟩ := Job.exists_fixed_of_modifyStage_eq kept ⟨r, hr, hpid⟩
    have finished := live.same_job r' (List.mem_append_left _ hr') hpid'
    have status : change.status = r'.status := congrArg Stage.status fixed
    have status' : s.status = change.status := congrArg Stage.status (List.cons.inj tail).1
    rw [← status, ← status', live.unfinished] at finished
    cases finished
  · rintro ⟨first, none⟩
    refine record_eq_some_iff.mpr ⟨e, live.entry, rfl, own, first, ?_⟩
    refine (modify_eq_modify_iff live.entry).mpr ?_
    simp only [Job.apply, live.stages, Job.modifyStage_append_of_ne none live.launched]

/-- A finished stage that stands before the live one: of process 101, which the second stage of the
first job was and the second job is. -/
def staleBefore : JobTable where
  capacity := 2
  entries :=
    [⟨1, 0, ⟨some 1, some 100, .background, "a | b",
      [.named "a" 100 .running, .named "b" 101 .done]⟩⟩,
     ⟨2, 1, ⟨some 2, some 101, .background, "c", [.named "c" 101 .running]⟩⟩]
  registered := 2
  ordered := by decide
  numbered := by decide

/-- A finished stage that stands behind the live one: the jobs of `staleBefore` the other way
round. -/
def staleBehind : JobTable where
  capacity := 2
  entries :=
    [⟨1, 1, ⟨some 1, some 101, .background, "c", [.named "c" 101 .running]⟩⟩,
     ⟨2, 0, ⟨some 2, some 100, .background, "a | b",
      [.named "a" 100 .running, .named "b" 101 .done]⟩⟩]
  registered := 2
  ordered := by decide
  numbered := by decide

/-- The end of a process reaches its stage past a finished stage of the same number behind it. -/
theorem record_eq_live_staleBehind :
    staleBehind.LiveAt 101
        ⟨1, 1, ⟨some 1, some 101, .background, "c", [.named "c" 101 .running]⟩⟩
        [] (.named "c" 101 .running) [] ∧
      staleBehind.record ⟨101, .terminated⟩ =
        some (1, staleBehind.withStatus
          ⟨1, 1, ⟨some 1, some 101, .background, "c", [.named "c" 101 .running]⟩⟩
          [] (.named "c" 101 .running) [] .terminated) := by
  have live : staleBehind.LiveAt 101
      ⟨1, 1, ⟨some 1, some 101, .background, "c", [.named "c" 101 .running]⟩⟩
      [] (.named "c" 101 .running) [] :=
    ⟨by decide, rfl, rfl, rfl, by decide, by decide⟩
  exact ⟨live, (record_eq_live_iff ⟨101, .terminated⟩ live).mpr
    ⟨by decide, by decide⟩⟩

/-- **A report does not always reach the one live stage of its process.**  In `staleBefore` the end
of the second job is recorded for the stage of the first job that was done already. -/
theorem record_misses_live :
    ¬∀ (t : JobTable) (change : StatusChange) (e : TableEntry) (before : List Stage) (s : Stage)
      (behind : List Stage), t.LiveAt change.pid e before s behind →
        t.record change = some (e.id, t.withStatus e before s behind change.status) := by
  intro reaches
  have live : staleBefore.LiveAt 101
      ⟨2, 1, ⟨some 2, some 101, .background, "c", [.named "c" 101 .running]⟩⟩
      [] (.named "c" 101 .running) [] :=
    ⟨by decide, rfl, rfl, rfl, by decide, by decide⟩
  have reached := reaches staleBefore ⟨101, .terminated⟩ _ _ _ _ live
  have diverted : (staleBefore.record ⟨101, .terminated⟩).map Prod.fst = some 1 := by decide
  rw [reached] at diverted
  cases diverted

end JobTable

end JobControl
