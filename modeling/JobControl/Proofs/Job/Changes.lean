import JobControl.Job.Basic
import Mathlib.Data.List.Basic

/-!
# What a report changes in a job

A report, and the signal that continues a job, change the statuses of stages and nothing else:
`Job.Advances` is that relation between a job and the job after some reports.  It is what every
argument about a job that was waited for, polled or resumed starts from.

The last section says when a job is over.  A job whose stages have all ended is exactly one that is
complete or finished (`Job.isOver_eq`).
-/

set_option autoImplicit false

namespace JobControl

/-! ## Changing one stage of a list -/

namespace Job

variable {α : Type} {pid : Pid} {f : Stage → Stage} {stages : List Stage}

/-- A view of the stages that the change respects is the same after the change. -/
theorem map_modifyStage (g : Stage → α) (h : ∀ s, g (f s) = g s) :
    (modifyStage pid f stages).map g = stages.map g := by
  induction stages with
  | nil => rfl
  | cons s rest ih =>
    simp only [modifyStage]
    split
    · simp only [List.map_cons, h]
    · simp only [List.map_cons, ih]

/-- A stage after the change is a stage from before, or the change of one launched as that
process. -/
theorem mem_modifyStage {s : Stage} (hs : s ∈ modifyStage pid f stages) :
    s ∈ stages ∨ ∃ t ∈ stages, t.pid = some pid ∧ s = f t := by
  induction stages with
  | nil => cases hs
  | cons t rest ih =>
    simp only [modifyStage] at hs
    split at hs
    case isTrue ht =>
      rcases List.mem_cons.mp hs with rfl | hs
      · exact Or.inr ⟨t, List.mem_cons_self, ht, rfl⟩
      · exact Or.inl (List.mem_cons_of_mem t hs)
    case isFalse =>
      rcases List.mem_cons.mp hs with rfl | hs
      · exact Or.inl List.mem_cons_self
      · rcases ih hs with h | ⟨u, hu, hpid, rfl⟩
        · exact Or.inl (List.mem_cons_of_mem t h)
        · exact Or.inr ⟨u, List.mem_cons_of_mem t hu, hpid, rfl⟩

theorem modifyStage_eq_self (h : ∀ s ∈ stages, s.pid ≠ some pid) :
    modifyStage pid f stages = stages := by
  induction stages with
  | nil => rfl
  | cons s rest ih =>
    simp only [modifyStage, if_neg (h s List.mem_cons_self)]
    rw [ih fun t ht => h t (List.mem_cons_of_mem s ht)]

end Job

/-! ## Jobs that differ in their statuses -/

/-- A stage of a program without arguments, launched as a process. -/
def Stage.named (program : String) (pid : Pid) (status : Status) : Stage :=
  { program, arguments := [], input := none, output := none, pid := some pid, status }

/-- A stage after a change: one of another process makes no difference. -/
def Stage.apply (s : Stage) (change : StatusChange) : Stage :=
  if s.pid = some change.pid then { s with status := change.status } else s

/-- Everything a stage was set up with, that is, all but its status. -/
def Stage.setup (s : Stage) : Stage :=
  { s with status := .running }

/-- The second job is the first one after some reports: only statuses differ, and a stage that was
never started still counts as terminated. -/
structure Job.Advances (j j' : Job) : Prop where
  id : j'.id = j.id
  group : j'.group = j.group
  command : j'.command = j.command
  setup : j'.stages.map Stage.setup = j.stages.map Stage.setup
  abandoned : (∀ s ∈ j.stages, s.pid = none → s.status = .terminated) →
    ∀ s ∈ j'.stages, s.pid = none → s.status = .terminated

namespace Job.Advances

variable {j j' j'' : Job}

theorem refl (j : Job) : j.Advances j :=
  ⟨rfl, rfl, rfl, rfl, fun h => h⟩

theorem trans (h : j.Advances j') (h' : j'.Advances j'') : j.Advances j'' :=
  ⟨h'.id.trans h.id, h'.group.trans h.group, h'.command.trans h.command, h'.setup.trans h.setup,
    fun ended => h'.abandoned (h.abandoned ended)⟩

/-- A view of the stages that does not look at statuses is the same for both jobs. -/
theorem map_eq (h : j.Advances j') {α : Type} (g : Stage → α) (hg : ∀ s, g s.setup = g s) :
    j'.stages.map g = j.stages.map g := by
  have same := congrArg (List.map g) h.setup
  simpa only [List.map_map, Function.comp_def, hg] using same

theorem withMode (h : j.Advances j') (mode : JobMode) : j.Advances { j' with mode } :=
  ⟨h.id, h.group, h.command, h.setup, h.abandoned⟩

theorem apply (j : Job) (change : StatusChange) : j.Advances (j.apply change) where
  id := rfl
  group := rfl
  command := rfl
  setup := map_modifyStage Stage.setup fun _ => rfl
  abandoned := by
    intro ended s hs hpid
    rcases mem_modifyStage hs with h | ⟨t, -, ht, rfl⟩
    · exact ended s h hpid
    · exact absurd (hpid.symm.trans ht) (by simp)

theorem markContinued (j : Job) : j.Advances j.markContinued where
  id := rfl
  group := rfl
  command := rfl
  setup := by
    simp only [Job.markContinued, List.map_map]
    refine List.map_congr_left fun s _ => ?_
    simp only [Function.comp_apply, Stage.markContinued]
    split <;> rfl
  abandoned := by
    intro ended s hs hpid
    obtain ⟨t, ht, rfl⟩ := List.mem_map.mp hs
    have hnone : t.pid = none := by
      unfold Stage.markContinued at hpid
      split at hpid <;> exact hpid
    have hstatus := ended t ht hnone
    simp only [Stage.markContinued, hstatus, Status.isFinished, if_true]

end Job.Advances

/-! ## The processes of a job -/

namespace Job

/-- The processes the stages were launched as, in order. -/
def pids (j : Job) : List Pid :=
  j.stages.filterMap Stage.pid

theorem mem_pids {j : Job} {pid : Pid} : pid ∈ j.pids ↔ ∃ s ∈ j.stages, s.pid = some pid := by
  simp only [pids, List.mem_filterMap]

theorem containsPid_iff {j : Job} {pid : Pid} : j.containsPid pid = true ↔ pid ∈ j.pids := by
  simp only [containsPid, List.any_eq_true, beq_iff_eq, mem_pids]

/-- Reports do not change which processes a job has. -/
theorem Advances.pids_eq {j j' : Job} (h : j.Advances j') : j'.pids = j.pids := by
  have through : ∀ l : List Stage,
      l.filterMap Stage.pid = (l.map Stage.pid).filterMap fun pid => pid := by
    intro l
    rw [List.filterMap_map]
    rfl
  simp only [pids, through, h.map_eq Stage.pid fun _ => rfl]

/-- A report on another process changes nothing. -/
theorem apply_eq_self {j : Job} {change : StatusChange} (h : change.pid ∉ j.pids) :
    j.apply change = j := by
  have none : ∀ s ∈ j.stages, s.pid ≠ some change.pid :=
    fun s hs hpid => h (mem_pids.mpr ⟨s, hs, hpid⟩)
  simp only [apply, modifyStage_eq_self none]

/-- If no process was used twice, a report reaches every stage that it is about. -/
theorem apply_eq_map {j : Job} (distinct : j.pids.Nodup) (change : StatusChange) :
    j.apply change = { j with stages := j.stages.map (·.apply change) } := by
  suffices ∀ stages : List Stage, (stages.filterMap Stage.pid).Nodup →
      modifyStage change.pid (fun s => { s with status := change.status }) stages =
        stages.map (·.apply change) by
    simp only [apply, this j.stages distinct]
  intro stages distinct
  induction stages with
  | nil => rfl
  | cons s rest ih =>
    simp only [modifyStage, List.map_cons, Stage.apply]
    split
    case isTrue hpid =>
      rw [List.filterMap_cons_some hpid, List.nodup_cons] at distinct
      -- the process is the first stage's, so no later stage has it
      have unchanged : rest.map (·.apply change) = rest := by
        refine (List.map_congr_left fun r hr => ?_).trans (List.map_id rest)
        exact if_neg fun own => distinct.1 (List.mem_filterMap.mpr ⟨r, hr, own⟩)
      exact congrArg (_ :: ·) unchanged.symm
    case isFalse =>
      rw [ih (distinct.sublist ((List.sublist_cons_self s rest).filterMap Stage.pid))]
      rfl

/-- If no process was used twice, a report changes the status of the stage with its process, and no
other stage. -/
theorem mem_apply {j : Job} (distinct : j.pids.Nodup) {change : StatusChange} {s : Stage}
    (hs : s ∈ (j.apply change).stages) {pid : Pid} (hpid : s.pid = some pid) :
    (pid = change.pid ∧ s.status = change.status) ∨ (pid ≠ change.pid ∧ s ∈ j.stages) := by
  rw [apply_eq_map distinct] at hs
  obtain ⟨r, hr, rfl⟩ := List.mem_map.mp hs
  unfold Stage.apply at hpid ⊢
  split at hpid
  case isTrue own =>
    rw [if_pos own]
    exact Or.inl ⟨Option.some.inj (hpid.symm.trans own), rfl⟩
  case isFalse other =>
    rw [if_neg other]
    exact Or.inr ⟨fun same => other (hpid.trans (congrArg some same)), hr⟩

/-! ## Jobs that are over -/

/-- Every stage has ended. -/
def isOver (j : Job) : Bool :=
  j.stages.all fun s => s.status.isFinished

/-- The two ways for a job to be over are to be complete and to be finished. -/
theorem isOver_eq (j : Job) : j.isOver = (j.isComplete || j.isFinished) := by
  have ended : ∀ s : Status, s.isFinished = true ↔ s = .done ∨ s = .terminated := by
    intro s
    cases s <;> simp [Status.isFinished]
  rw [Bool.eq_iff_iff]
  simp only [isOver, isComplete, isFinished, Bool.or_eq_true, Bool.and_eq_true, List.all_eq_true,
    List.any_eq_true, beq_iff_eq, ended]
  constructor
  · intro h
    by_cases killed : ∃ s ∈ j.stages, s.status = .terminated
    · exact Or.inr ⟨h, killed⟩
    · refine Or.inl fun s hs => (h s hs).resolve_right fun hk => killed ⟨s, hs, hk⟩
  · rintro (h | ⟨h, -⟩) s hs
    · exact Or.inl (h s hs)
    · exact h s hs

/-- A job is not over as long as some stage has not ended. -/
theorem isOver_eq_false_iff {j : Job} :
    j.isOver = false ↔ ∃ s ∈ j.stages, s.status.isFinished = false := by
  simp only [isOver, List.all_eq_false, Bool.not_eq_true]

/-- A report on a process of the job gives one of its stages the status reported. -/
theorem exists_status_of_apply {j : Job} {change : StatusChange} (own : change.pid ∈ j.pids) :
    ∃ s ∈ (j.apply change).stages, s.status = change.status := by
  simp only [apply, pids] at own ⊢
  generalize j.stages = stages at own ⊢
  induction stages with
  | nil => cases own
  | cons s rest ih =>
    simp only [modifyStage]
    split
    case isTrue => exact ⟨_, List.mem_cons_self, rfl⟩
    case isFalse hne =>
      obtain ⟨t, ht, hpid⟩ := List.mem_filterMap.mp own
      rcases List.mem_cons.mp ht with rfl | ht
      · exact absurd hpid hne
      · obtain ⟨u, hu, hstatus⟩ := ih (List.mem_filterMap.mpr ⟨t, ht, hpid⟩)
        exact ⟨u, List.mem_cons_of_mem s hu, hstatus⟩

/-- A report that does not end a process does not end its job. -/
theorem isOver_apply_of_unfinished {j : Job} {change : StatusChange} (own : change.pid ∈ j.pids)
    (unfinished : change.status.isFinished = false) : (j.apply change).isOver = false := by
  obtain ⟨s, hs, hstatus⟩ := exists_status_of_apply own
  exact isOver_eq_false_iff.mpr ⟨s, hs, by rwa [hstatus]⟩

end Job

end JobControl
