import JobControl.Proofs.Job.Table
import JobControl.Proofs.Job.Tracked
import JobControl.Proofs.Kernel.Roll

/-!
# Jobs that agree with the roll

A job agrees with the roll of the children (`Job.Coheres`) if the status of each launched stage is
what the history of its process comes to, and a stage is unfinished exactly if its process is still
a child of the job's group.  Reports, resumptions and new children keep that (`Job.Coheres.report`,
`Job.Coheres.resume`, `Job.Coheres.startAll`), and a launch brings it about (`Job.Fresh.coheres`).

In a table the jobs have no process in common (`JobTable.Apart`), so a report on one of them leaves
the others alone (`JobTable.coheres_settle`).
-/

set_option autoImplicit false

namespace JobControl

/-! ## One job -/

/-- The job agrees with the roll. -/
structure Job.Coheres (j : Job) (r : Roll) : Prop where
  distinct : j.pids.Nodup
  status : ∀ s ∈ j.stages, ∀ pid group, s.pid = some pid → j.group = some group →
    s.status = r.statusOf pid group
  present : ∀ s ∈ j.stages, ∀ pid group, s.pid = some pid → j.group = some group →
    (s.status.isFinished = false ↔ (pid, group) ∈ r.children)
  grouped : ∀ pid group, pid ∈ j.pids → (pid, group) ∈ r.children → j.group = some group

namespace Job.Coheres

variable {j : Job} {r : Roll} {change : StatusChange} {pid group : Pid}

theorem withMode (h : j.Coheres r) (mode : JobMode) : Job.Coheres { j with mode } r :=
  ⟨h.distinct, h.status, h.present, h.grouped⟩

theorem report_other (h : j.Coheres r) (other : change.pid ∉ j.pids) :
    j.Coheres (r.report change) where
  distinct := h.distinct
  status := by
    intro s hs pid group hpid hgroup
    have hne : change.pid ≠ pid := fun eq => other (eq ▸ mem_pids.mpr ⟨s, hs, hpid⟩)
    rw [Roll.statusOf_report, if_neg hne]
    exact h.status s hs pid group hpid hgroup
  present := by
    intro s hs pid group hpid hgroup
    have hne : pid ≠ change.pid := fun eq => other (eq ▸ mem_pids.mpr ⟨s, hs, hpid⟩)
    rw [h.present s hs pid group hpid hgroup, Roll.mem_report]
    exact ⟨fun present => ⟨present, fun _ => hne⟩, And.left⟩
  grouped := fun pid group hpid present => h.grouped pid group hpid (Roll.mem_report.mp present).1

/-- **A report on a child keeps a job and the roll in agreement.** -/
theorem report (h : j.Coheres r) (child : (change.pid, group) ∈ r.children) :
    (j.apply change).Coheres (r.report change) := by
  by_cases own : change.pid ∈ j.pids
  · have same := (Advances.apply j change).pids_eq
    have hgroup := h.grouped change.pid group own child
    refine ⟨?_, ?_, ?_, ?_⟩
    · rw [same]
      exact h.distinct
    · intro s hs pid g hpid hg
      rcases mem_apply h.distinct hs hpid with ⟨rfl, hstatus⟩ | ⟨hne, hs⟩
      · rw [Roll.statusOf_report, if_pos rfl, hstatus]
      · rw [Roll.statusOf_report, if_neg (Ne.symm hne)]
        exact h.status s hs pid g hpid hg
    · intro s hs pid g hpid hg
      rcases mem_apply h.distinct hs hpid with ⟨rfl, hstatus⟩ | ⟨hne, hs⟩
      · obtain rfl : group = g := Option.some.inj (hgroup.symm.trans hg)
        rw [hstatus, Roll.mem_report]
        constructor
        · intro unfinished
          exact ⟨child, fun finished => by rw [unfinished] at finished; cases finished⟩
        · rintro ⟨-, reaped⟩
          exact Bool.eq_false_iff.mpr fun finished => reaped finished rfl
      · rw [h.present s hs pid g hpid hg, Roll.mem_report]
        exact ⟨fun present => ⟨present, fun _ => hne⟩, And.left⟩
    · intro pid g hpid present
      rw [same] at hpid
      exact h.grouped pid g hpid (Roll.mem_report.mp present).1
  · rw [apply_eq_self own]
    exact h.report_other own

/-- A report on a child of another group makes no difference. -/
theorem report_elsewhere (h : j.Coheres r) {n : Notification} {r' : Roll}
    (takes : r.Takes n group change r') (other : j.group ≠ some group) : j.Coheres r' := by
  rw [takes.after]
  refine h.report_other fun own => other ?_
  exact h.grouped change.pid group own takes.present

/-- New children under other process ids make no difference. -/
theorem startAll (h : j.Coheres r) {pids : List Pid} (other : ∀ p ∈ pids, p ∉ j.pids) :
    j.Coheres (r.startAll pids group) where
  distinct := h.distinct
  status := by
    intro s hs pid g hpid hg
    have hne : pid ∉ pids := fun hp => other pid hp (mem_pids.mpr ⟨s, hs, hpid⟩)
    rw [Roll.statusOf_startAll, if_neg hne]
    exact h.status s hs pid g hpid hg
  present := by
    intro s hs pid g hpid hg
    have hne : pid ∉ pids := fun hp => other pid hp (mem_pids.mpr ⟨s, hs, hpid⟩)
    rw [h.present s hs pid g hpid hg, Roll.mem_startAll]
    exact ⟨Or.inl, fun present => present.resolve_right fun new => hne new.1⟩
  grouped := by
    intro pid g hpid present
    rcases Roll.mem_startAll.mp present with present | ⟨new, -⟩
    · exact h.grouped pid g hpid present
    · exact absurd hpid (other pid new)

theorem resume_other (h : j.Coheres r) (other : j.group ≠ some group) :
    j.Coheres (r.resume group) where
  distinct := h.distinct
  status := by
    intro s hs pid g hpid hg
    have hne : ¬(group = g ∧ (r.statusOf pid g).isFinished = false) :=
      fun eq => other (by rw [hg, eq.1])
    rw [Roll.statusOf_resume, if_neg hne]
    exact h.status s hs pid g hpid hg
  present := h.present
  grouped := h.grouped

/-- **Continuing the group of a job keeps the job and the roll in agreement.** -/
theorem resume (h : j.Coheres r) (own : j.group = some group) :
    j.markContinued.Coheres (r.resume group) := by
  have same := (Advances.markContinued j).pids_eq
  have marked : ∀ s ∈ j.markContinued.stages, ∃ t ∈ j.stages, s.pid = t.pid ∧
      s.status = if t.status.isFinished = false then .continued else t.status := by
    intro s hs
    obtain ⟨t, ht, rfl⟩ := List.mem_map.mp hs
    refine ⟨t, ht, ?_, ?_⟩ <;> unfold Stage.markContinued <;>
      cases t.status.isFinished <;> rfl
  refine ⟨?_, ?_, ?_, ?_⟩
  · rw [same]
    exact h.distinct
  · intro s hs pid g hpid hg
    obtain ⟨t, ht, htpid, hstatus⟩ := marked s hs
    obtain rfl : group = g := Option.some.inj (own.symm.trans hg)
    rw [hstatus, Roll.statusOf_resume, ← h.status t ht pid group (htpid ▸ hpid) own]
    simp only [true_and]
  · intro s hs pid g hpid hg
    obtain ⟨t, ht, htpid, hstatus⟩ := marked s hs
    have finished : s.status.isFinished = t.status.isFinished := by
      rw [hstatus]
      cases hf : t.status.isFinished
      · rfl
      · simpa using hf
    rw [finished]
    exact h.present t ht pid g (htpid ▸ hpid) hg
  · intro pid g hpid present
    rw [same] at hpid
    exact h.grouped pid g hpid present

/-- A job whose launched stages have ended has no child left. -/
theorem absent (h : j.Coheres r)
    (ended : ∀ s ∈ j.stages, ∀ p, s.pid = some p → s.status.isFinished = true) :
    ∀ p ∈ j.pids, ∀ g, (p, g) ∉ r.children := by
  intro p hp g child
  obtain ⟨s, hs, hpid⟩ := mem_pids.mp hp
  have unfinished := (h.present s hs p g hpid (h.grouped p g hp child)).mpr child
  rw [ended s hs p hpid] at unfinished
  cases unfinished

end Job.Coheres

/-- A stage given up was never launched, so the launched stages are the started ones. -/
theorem Stage.filterMap_pid_assign {stages : List Stage} {pids : List Pid}
    (fits : pids.length ≤ stages.length) (unlaunched : ∀ s ∈ stages, s.pid = none) :
    (assign stages pids).filterMap Stage.pid = pids := by
  have shape := congrArg (List.filterMap fun pid => pid) (map_pid_assign fits unlaunched)
  rw [List.filterMap_map, List.filterMap_append, List.filterMap_map] at shape
  simpa [Function.comp_def] using shape

namespace Job.Fresh

variable {j : Job} {l : Launched} {group : Option Pid} {pids : List Pid}

theorem pids_eq_nil (fresh : j.Fresh) : j.pids = [] :=
  List.filterMap_eq_nil_iff.mpr fun t ht => (fresh.unlaunched t ht).1

/-- A job has the processes that its launch was given. -/
theorem pids_launched (fresh : j.Fresh) (shape : l.StartedAs j.stages group pids) :
    Job.pids { j with group := l.group, stages := l.stages } = pids := by
  rw [Job.pids, shape.stages]
  exact Stage.filterMap_pid_assign shape.fits fun t ht => (fresh.unlaunched t ht).1

end Job.Fresh

/-- **A launch brings a job and the roll into agreement**, if its processes were children of nobody
before. -/
theorem Job.Fresh.coheres {j : Job} (fresh : j.Fresh) {l : Launched} {pids : List Pid}
    (shape : l.StartedAs j.stages none pids) (some_started : pids ≠ []) (distinct : pids.Nodup)
    {r : Roll} (unused : ∀ p ∈ pids, ∀ g, (p, g) ∉ r.children) :
    Job.Coheres { j with group := l.group, stages := l.stages }
      (r.startAll pids (pids.headD 0)) := by
  have unlaunched : ∀ s ∈ j.stages, s.pid = none := fun s hs => (fresh.unlaunched s hs).1
  have group : l.group = some (pids.headD 0) := by
    obtain ⟨first, others, rfl⟩ := List.exists_cons_of_ne_nil some_started
    exact shape.founder
  have same := fresh.pids_launched shape
  have runs : ∀ s ∈ l.stages, ∀ p, s.pid = some p → p ∈ pids ∧ s.status = .running := by
    intro s hs p hp
    rw [shape.stages] at hs
    rcases Stage.mem_assign hs with ⟨t, ht, rfl⟩ | ⟨t, -, q, hq, rfl⟩
    · cases (unlaunched t ht).symm.trans hp
    · cases hp
      exact ⟨hq, rfl⟩
  refine ⟨?_, ?_, ?_, ?_⟩
  · rw [same]
    exact distinct
  · intro s hs p g hp _
    obtain ⟨hmem, running⟩ := runs s hs p hp
    rw [Roll.statusOf_startAll, if_pos hmem, running]
  · intro s hs p g hp hg
    obtain ⟨hmem, running⟩ := runs s hs p hp
    obtain rfl : pids.headD 0 = g := Option.some.inj (group.symm.trans hg)
    rw [running]
    exact ⟨fun _ => Roll.mem_startAll.mpr (Or.inr ⟨hmem, rfl⟩), fun _ => rfl⟩
  · intro p g hp present
    rw [same] at hp
    rcases Roll.mem_startAll.mp present with present | ⟨-, rfl⟩
    · exact absurd present (unused p hp g)
    · exact group

/-! ## Tables -/

/-- The group of a sound job is one of its processes. -/
theorem Job.Sound.group_mem_pids {id : Nat} {j : Job} (h : j.Sound id) {group : Pid}
    (hgroup : j.group = some group) : group ∈ j.pids := by
  obtain ⟨first, others, missing, hfirst, hpids⟩ := h.launched
  obtain rfl : first = group := Option.some.inj (hfirst.symm.trans hgroup)
  obtain ⟨s, rest, hstages, hpid, -⟩ := List.map_eq_cons_iff.mp hpids
  refine mem_pids.mpr ⟨s, ?_, hpid⟩
  rw [hstages]
  exact List.mem_cons_self

namespace JobTable

variable {t t' : JobTable} {id : Nat} {r : Roll}

/-- **Settling a report on a child keeps the table and the roll in agreement.** -/
theorem coheres_settle (apart : t.Apart) (h : ∀ e ∈ t.entries, e.job.Coheres r)
    {change : StatusChange} {group : Pid} (child : (change.pid, group) ∈ r.children) :
    ∀ e ∈ (t.settle change).entries, e.job.Coheres (r.report change) := by
  rcases settle_eq t change with ⟨unknown, same⟩ | ⟨e, he, -, own, settled⟩
  · intro e he
    rw [same] at he
    exact (h e he).report_other (findByPid?_eq_none_iff.mp unknown e he)
  · -- before it is known whether the job leaves the table
    have changed : ∀ e' ∈ (t.modify e.id fun job => job.apply change).entries,
        e'.job.Coheres (r.report change) := by
      intro e' he'
      rcases cases_of_mem_modify he' with ⟨he', hne⟩ | ⟨a, ha, -, rfl⟩
      · refine (h e' he').report_other fun other => hne ?_
        exact apart e' he' e he change.pid other own
      · exact (h a ha).report child
    intro e' he'
    rw [settled] at he'
    split at he'
    · exact changed e' (mem_erase.mp he').1
    · exact changed e' he'

/-- Every job of the first table is still in the second one with its processes, or none of its
processes is on the roll. -/
def Accounted (t t' : JobTable) (r : Roll) : Prop :=
  ∀ e ∈ t.entries, (∃ e' ∈ t'.entries, e'.id = e.id ∧ e'.job.pids = e.job.pids) ∨
    ∀ p ∈ e.job.pids, ∀ g, (p, g) ∉ r.children

theorem Accounted.refl (t : JobTable) (r : Roll) : t.Accounted t r :=
  fun e he => Or.inl ⟨e, he, rfl, rfl⟩

theorem Accounted.modify (h : t.Accounted t' r) {f : Job → Job}
    (same : ∀ e ∈ t'.entries, e.id = id → (f e.job).pids = e.job.pids) :
    t.Accounted (t'.modify id f) r := by
  intro e he
  rcases h e he with ⟨e', he', hid, hpids⟩ | gone
  · refine Or.inl ?_
    by_cases own : e'.id = id
    · exact ⟨_, mem_modify_of_eq he' own, hid, (same e' he' own).trans hpids⟩
    · exact ⟨e', mem_modify_of_ne he' own, hid, hpids⟩
  · exact Or.inr gone

/-- A job that is taken out is accounted for if it has no child left. -/
theorem Accounted.erase (h : t.Accounted t' r)
    (gone : ∀ e ∈ t'.entries, e.id = id → ∀ p ∈ e.job.pids, ∀ g, (p, g) ∉ r.children) :
    t.Accounted (t'.erase id) r := by
  intro e he
  rcases h e he with ⟨e', he', hid, hpids⟩ | absent
  · by_cases own : e'.id = id
    · refine Or.inr ?_
      rw [← hpids]
      exact gone e' he' own
    · exact Or.inl ⟨e', mem_erase.mpr ⟨he', own⟩, hid, hpids⟩
  · exact Or.inr absent

/-- Settling a report on a child accounts for every job: one that leaves the table is over. -/
theorem Accounted.settle (h : t.Accounted t' r) (agrees : ∀ e ∈ t'.entries, e.job.Coheres r)
    {change : StatusChange} {group : Pid} (child : (change.pid, group) ∈ r.children) :
    t.Accounted (t'.settle change) (r.report change) := by
  have later : t.Accounted t' (r.report change) := by
    intro e he
    rcases h e he with there | gone
    · exact Or.inl there
    · exact Or.inr fun p hp g present => gone p hp g (Roll.mem_report.mp present).1
  rcases settle_eq t' change with ⟨-, same⟩ | ⟨a, ha, -, -, settled⟩
  · rw [same]
    exact later
  · have changed : t.Accounted (t'.modify a.id fun job => job.apply change) (r.report change) :=
      later.modify fun e _ _ => (Job.Advances.apply e.job change).pids_eq
    rw [settled]
    split
    case isTrue concluded =>
      refine changed.erase ?_
      intro e he hid
      rcases cases_of_mem_modify he with ⟨-, hne⟩ | ⟨b, hb, hb_id, rfl⟩
      · exact absurd hid hne
      · obtain rfl := eq_of_id_eq ha hb hb_id.symm
        exact ((agrees a ha).report child).absent fun s hs _ _ => List.all_eq_true.mp concluded s hs
    case isFalse => exact changed

end JobTable

end JobControl
