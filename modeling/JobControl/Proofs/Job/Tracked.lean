import JobControl.Proofs.Job.Changes
import JobControl.Proofs.Line.Fresh
import JobControl.Proofs.Loops

/-!
# Tracked jobs

What holds of every job in the table between two operations (`Job.Tracked`).  The part of it that
does not look at the mode or at what is still running is `Job.Sound`: a launch that started a stage
gives it (`Job.Fresh.sound`), and reports keep it (`Job.Sound.advances`).  That some stage has not
ended is what an operation has to see to: a launch starts with such a stage, and a wait that ends
other than by the end of the job leaves one (`Watch.Ended.live`).
-/

set_option autoImplicit false

namespace JobControl

/-! ## Sound jobs -/

/-- A job that was launched under a number: it is led by an external program; the stages with a
process are the first ones, and there is at least one; the group is the first one's process; and the
stages without a process count as terminated. -/
structure Job.Sound (id : Nat) (j : Job) : Prop where
  numbered : j.id = some id
  external : j.stages.head?.map Stage.kind = some .external
  launched : ∃ (first : Pid) (others : List Pid) (missing : Nat), j.group = some first ∧
    j.stages.map Stage.pid = (first :: others).map some ++ List.replicate missing none
  abandoned : ∀ s ∈ j.stages, s.pid = none → s.status = .terminated

namespace Job.Sound

variable {id : Nat} {j j' : Job}

/-- Reports keep a job sound. -/
theorem advances (h : j.Sound id) (later : j.Advances j') : j'.Sound id where
  numbered := later.id.trans h.numbered
  external := by
    have kinds := later.map_eq Stage.kind fun _ => rfl
    rw [← List.head?_map, kinds, List.head?_map]
    exact h.external
  launched := by
    obtain ⟨first, others, missing, hgroup, hpids⟩ := h.launched
    have pids := later.map_eq Stage.pid fun _ => rfl
    exact ⟨first, others, missing, later.group.trans hgroup, pids.trans hpids⟩
  abandoned := later.abandoned h.abandoned

theorem withMode (h : j.Sound id) (mode : JobMode) : Job.Sound id { j with mode } :=
  h.advances ((Job.Advances.refl j).withMode mode)

theorem exists_group (h : j.Sound id) : ∃ group, j.group = some group := by
  obtain ⟨first, -, -, hgroup, -⟩ := h.launched
  exact ⟨first, hgroup⟩

end Job.Sound

/-- A sound job that is in the background and is not over. -/
structure Job.Tracked (id : Nat) (j : Job) : Prop extends Job.Sound id j where
  background : j.mode = .background
  live : ∃ s ∈ j.stages, s.status.isFinished = false

/-! ## What is still running -/

/-- A job with a launched stage that runs has a stage that has not ended. -/
theorem Job.live_of_running {j : Job} (h : j.running ≠ 0) :
    ∃ s ∈ j.stages, s.status.isFinished = false := by
  obtain ⟨s, hs, runs⟩ := List.countP_pos_iff.mp (Nat.pos_of_ne_zero h)
  simp only [Stage.isRunning, Stage.isOutstanding, Bool.and_eq_true, Bool.not_eq_true'] at runs
  exact ⟨s, hs, runs.1.2⟩

theorem Job.live_of_isSuspended {j : Job} (h : j.isSuspended = true) :
    ∃ s ∈ j.stages, s.status.isFinished = false := by
  obtain ⟨s, hs, suspended⟩ := List.any_eq_true.mp h
  have suspended : s.status = .suspended := by simpa using suspended
  exact ⟨s, hs, by rw [suspended]; rfl⟩

/-- Continuing a job ends no stage. -/
theorem Job.Tracked.live_markContinued {id : Nat} {j : Job} (h : j.Tracked id) :
    ∃ s ∈ j.markContinued.stages, s.status.isFinished = false := by
  obtain ⟨s, hs, unfinished⟩ := h.live
  refine ⟨s.markContinued, List.mem_map_of_mem hs, ?_⟩
  rw [Stage.markContinued, unfinished]
  rfl

/-- A wait that does not end with the end of the job leaves a stage that has not ended. -/
theorem Watch.Ended.live {κ : Type} [Kernel κ] {group : Pid} {I : Watch → κ → Prop} {w : Watch}
    {result : Except Errno WaitOutcome} (ended : w.Ended group I result)
    (h : result ≠ .ok .finished) : ∃ s ∈ w.job.stages, s.status.isFinished = false := by
  rcases ended with ⟨-, rfl⟩ | ⟨k, e, k', busy, -⟩
  · refine Job.live_of_isSuspended ?_
    by_contra running
    exact h (by simp only [Watch.outcome, if_neg running])
  · exact Job.live_of_running busy

/-! ## A launch -/

namespace Stage

variable {stages : List Stage} {pids : List Pid}

/-- The stages that were started come first. -/
theorem map_pid_assign (fits : pids.length ≤ stages.length)
    (unlaunched : ∀ s ∈ stages, s.pid = none) :
    (assign stages pids).map Stage.pid =
      pids.map some ++ List.replicate (stages.length - pids.length) none := by
  induction stages generalizing pids with
  | nil =>
    obtain rfl : pids = [] := List.eq_nil_of_length_eq_zero (Nat.le_zero.mp fits)
    rfl
  | cons s rest ih =>
    have hrest : ∀ t ∈ rest, t.pid = none := fun t ht => unlaunched t (List.mem_cons_of_mem s ht)
    cases pids with
    | nil =>
      simp only [assign, List.map_map, List.map_nil, List.nil_append, List.length_nil, Nat.sub_zero]
      exact List.eq_replicate_of_mem (fun pid hpid => by
        obtain ⟨t, ht, rfl⟩ := List.mem_map.mp hpid
        exact unlaunched t ht) |>.trans (by rw [List.length_map])
    | cons pid pids =>
      have tail : (assign rest pids).map Stage.pid =
          pids.map some ++ List.replicate (rest.length - pids.length) none :=
        ih (Nat.le_of_succ_le_succ fits) hrest
      simp only [assign, List.map_cons, startedAs, tail, List.cons_append, List.length_cons,
        Nat.add_sub_add_right]

/-- A stage was started as one of the processes or given up. -/
theorem mem_assign {s : Stage} (h : s ∈ assign stages pids) :
    (∃ t ∈ stages, s = t.abandon) ∨ ∃ t ∈ stages, ∃ pid ∈ pids, s = t.startedAs pid := by
  induction stages generalizing pids with
  | nil => cases pids <;> cases h
  | cons t rest ih =>
    cases pids with
    | nil =>
      obtain ⟨t', ht', rfl⟩ := List.mem_map.mp h
      exact Or.inl ⟨t', ht', rfl⟩
    | cons pid pids =>
      rcases List.mem_cons.mp h with rfl | h
      · exact Or.inr ⟨t, List.mem_cons_self, pid, List.mem_cons_self, rfl⟩
      · rcases ih h with ⟨u, hu, rfl⟩ | ⟨u, hu, pid', hpid', rfl⟩
        · exact Or.inl ⟨u, List.mem_cons_of_mem t hu, rfl⟩
        · exact Or.inr ⟨u, List.mem_cons_of_mem t hu, pid', List.mem_cons_of_mem pid hpid', rfl⟩

/-- A stage is of one kind before and after. -/
theorem map_kind_assign (fits : pids.length ≤ stages.length) :
    (assign stages pids).map kind = stages.map kind := by
  induction stages generalizing pids with
  | nil =>
    obtain rfl : pids = [] := List.eq_nil_of_length_eq_zero (Nat.le_zero.mp fits)
    rfl
  | cons s rest ih =>
    cases pids with
    | nil =>
      simp only [assign, List.map_map]
      exact List.map_congr_left fun t _ => rfl
    | cons pid pids =>
      simp only [assign, List.map_cons, ih (Nat.le_of_succ_le_succ fits)]
      rfl

end Stage

/-- A fresh job, launched under a number as some processes, is sound and has a stage that runs. -/
theorem Job.Fresh.sound {j : Job} (fresh : j.Fresh) {id : Nat} (numbered : j.id = some id)
    (external : j.isBuiltin = false) {l : Launched} {pids : List Pid}
    (shape : l.StartedAs j.stages j.group pids) (some_started : pids ≠ []) :
    Job.Sound id { j with group := l.group, stages := l.stages } ∧
      ∃ s ∈ l.stages, s.status.isFinished = false := by
  obtain ⟨first, others, rfl⟩ := List.exists_cons_of_ne_nil some_started
  obtain ⟨lead, rest, hstages⟩ := List.exists_cons_of_ne_nil fresh.stages
  have unlaunched : ∀ s ∈ j.stages, s.pid = none := fun s hs => (fresh.unlaunched s hs).1
  have hkind : lead.kind = .external := by
    simpa [Job.isBuiltin, hstages, StageKind.isBuiltin] using external
  refine ⟨⟨numbered, ?_, ?_, ?_⟩, ?_⟩
  · rw [← List.head?_map, shape.stages, Stage.map_kind_assign shape.fits, hstages]
    simp only [List.map_cons, List.head?_cons, hkind]
  · refine ⟨first, others, j.stages.length - (first :: others).length, ?_, ?_⟩
    · simpa [fresh.group] using shape.founder
    · rw [shape.stages]
      exact Stage.map_pid_assign shape.fits unlaunched
  · intro s hs hpid
    simp only [shape.stages] at hs
    rcases Stage.mem_assign hs with ⟨t, -, rfl⟩ | ⟨t, -, pid, -, rfl⟩
    · rfl
    · cases hpid
  · refine ⟨lead.startedAs first, ?_, rfl⟩
    rw [shape.stages, hstages]
    exact List.mem_cons_self

end JobControl
