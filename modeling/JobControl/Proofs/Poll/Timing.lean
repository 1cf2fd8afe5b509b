import JobControl.Proofs.Poll.Bulletin

/-!
# Polls do not depend on timing

Each process has its own history, the changes of its status in their order, and nothing follows its
end.  The system may deliver the histories of all processes interleaved in any way, and the shell
may poll at any moments.  Neither makes a difference to what polls come to
(`JobTable.polls_ignore_timing`): the table at the end is the same, and so are the final reports on
the jobs that ended, up to their order.

The histories alone say what that is.  A stage only sees the history of its own process, so a job
after all changes is what the histories leave of it (`Job.after_eq_final`).  And a job ends with the
last change that concerns it, since when its last stage ends no process of it has anything left to
report (`Job.ending?_eq`).
-/

set_option autoImplicit false

namespace JobControl

/-- The changes of the status of each process, in their order. -/
abbrev Histories := Pid → List Status

/-- The histories that are interleaved in a list of changes. -/
def Histories.of (changes : List StatusChange) : Histories :=
  fun pid => (changes.filter (·.pid == pid)).map StatusChange.status

/-- A list of changes that interleaves the histories: the changes of each process are its history. -/
def Histories.Interleaved (h : Histories) (changes : List StatusChange) : Prop :=
  ∀ pid, of changes pid = h pid

namespace Histories

variable {change : StatusChange} {changes changes' : List StatusChange} {pid : Pid}

theorem of_cons_of_eq (h : change.pid = pid) (rest : List StatusChange) :
    of (change :: rest) pid = change.status :: of rest pid := by
  rw [of, List.filter_cons, if_pos (beq_iff_eq.mpr h), List.map_cons]
  rfl

theorem of_cons_of_ne (h : change.pid ≠ pid) (rest : List StatusChange) :
    of (change :: rest) pid = of rest pid := by
  rw [of, List.filter_cons, if_neg (by simpa using h)]
  rfl

theorem mem_of_self (h : change ∈ changes) : change.status ∈ of changes change.pid :=
  List.mem_map_of_mem (List.mem_filter.mpr ⟨h, beq_self_eq_true _⟩)

theorem of_eq_nil (h : ∀ change ∈ changes, change.pid ≠ pid) : of changes pid = [] := by
  rw [of, List.filter_eq_nil_iff.mpr fun change hmem => by simpa using h change hmem, List.map_nil]

/-- Whether a list of changes interleaves the histories of another one shows in the processes of
both. -/
theorem interleaved_of
    (h : ∀ change ∈ changes ++ changes', of changes' change.pid = of changes change.pid) :
    (of changes).Interleaved changes' := by
  intro pid
  by_cases known : ∃ change ∈ changes ++ changes', change.pid = pid
  · obtain ⟨change, hmem, rfl⟩ := known
    exact h change hmem
  · push Not at known
    exact (of_eq_nil fun change hmem => known change (List.mem_append_right _ hmem)).trans
      (of_eq_nil fun change hmem => known change (List.mem_append_left _ hmem)).symm

end Histories

namespace Histories.Interleaved

variable {h : Histories} {changes : List StatusChange}

theorem mem (interleaved : h.Interleaved changes) {change : StatusChange}
    (hmem : change ∈ changes) : change.status ∈ h change.pid := by
  rw [← interleaved change.pid]
  exact mem_of_self hmem

/-- The processes with a change are those with a history. -/
theorem exists_iff (interleaved : h.Interleaved changes) (pids : List Pid) :
    (∃ change ∈ changes, change.pid ∈ pids) ↔ ∃ pid ∈ pids, h pid ≠ [] := by
  constructor
  · rintro ⟨change, hmem, hpid⟩
    exact ⟨change.pid, hpid, List.ne_nil_of_mem (interleaved.mem hmem)⟩
  · rintro ⟨pid, hpid, some_change⟩
    obtain ⟨status, hstatus⟩ := List.exists_mem_of_ne_nil _ some_change
    rw [← interleaved pid] at hstatus
    obtain ⟨change, hmem, -⟩ := List.mem_map.mp hstatus
    obtain ⟨hmem, same⟩ := List.mem_filter.mp hmem
    exact ⟨change, hmem, by rwa [eq_of_beq same]⟩

end Histories.Interleaved

/-! ## What histories come to -/

/-- A stage in the last status of its process's history; as it was if that is empty. -/
def Stage.final (h : Histories) (s : Stage) : Stage :=
  { s with status := (s.pid.bind fun pid => (h pid).getLast?).getD s.status }

/-- A job with each stage as its process's history leaves it. -/
def Job.final (h : Histories) (j : Job) : Job :=
  { j with stages := j.stages.map (Stage.final h) }

/-- The histories end the job: they change it, and leave it with all stages ended. -/
def Job.ends (h : Histories) (j : Job) : Bool :=
  (j.pids.any fun pid => !(h pid).isEmpty) && (j.final h).isOver

/-- A stage takes the changes of its own process and no others. -/
theorem Stage.foldl_apply (s : Stage) (changes : List StatusChange) :
    changes.foldl Stage.apply s = s.final (.of changes) := by
  induction changes generalizing s with
  | nil => rcases s with ⟨_, _, _, _, _ | _, _⟩ <;> rfl
  | cons change rest ih =>
    rw [List.foldl_cons, ih, apply]
    split
    case isTrue own =>
      simp only [final, own, Option.bind_some, Histories.of_cons_of_eq, List.getLast?_cons,
        Option.getD_some]
    case isFalse other =>
      cases hpid : s.pid with
      | none => simp only [final, hpid, Option.bind_none]
      | some pid =>
        have differs : change.pid ≠ pid := fun same => other (hpid.trans (congrArg some same.symm))
        simp only [final, hpid, Option.bind_some, Histories.of_cons_of_ne differs]

namespace Job

variable {j j' : Job} {change : StatusChange} {changes : List StatusChange} {h : Histories}

theorem after_eq_map (distinct : j.pids.Nodup) (changes : List StatusChange) :
    j.after changes = { j with stages := j.stages.map fun s => changes.foldl Stage.apply s } := by
  induction changes generalizing j with
  | nil => simp [after]
  | cons change rest ih =>
    have later := ih (j := j.apply change) (by rwa [pids_apply])
    rw [apply_eq_map distinct] at later
    simpa only [after, List.foldl_cons, apply_eq_map distinct, List.map_map,
      Function.comp_def] using later

/-- A job comes to what the histories leave of it, in whatever order the processes report. -/
theorem after_eq_final (distinct : j.pids.Nodup) (interleaved : h.Interleaved changes) :
    j.after changes = j.final h := by
  obtain rfl : Histories.of changes = h := funext interleaved
  simp only [after_eq_map distinct, final, Stage.foldl_apply]

/-! ## When a job ends -/

/-- Changes that the processes of a job can still report: nothing follows the end of a process, and
a stage that has ended reports nothing. -/
structure Expects (j : Job) (changes : List StatusChange) : Prop where
  last : ∀ pid, (Histories.of changes pid).Pairwise fun status _ => status.isFinished = false
  silent : ∀ change ∈ changes, ∀ s ∈ j.stages, s.pid = some change.pid →
    s.status.isFinished = false

theorem Expects.unfinished {rest : List StatusChange} (h : j.Expects (change :: rest))
    {later : StatusChange} (hlater : later ∈ rest) (same : later.pid = change.pid) :
    change.status.isFinished = false := by
  have last := h.last change.pid
  rw [Histories.of_cons_of_eq rfl, List.pairwise_cons] at last
  exact last.1 later.status (same ▸ Histories.mem_of_self hlater)

theorem Expects.apply {rest : List StatusChange} (h : j.Expects (change :: rest))
    (distinct : j.pids.Nodup) : (j.apply change).Expects rest where
  last pid := (h.last pid).sublist
    (((List.sublist_cons_self change rest).filter _).map StatusChange.status)
  silent := by
    intro later hlater s hs hpid
    rcases mem_apply distinct hs hpid with ⟨same, status⟩ | ⟨-, hs⟩
    · rw [status]
      exact h.unfinished hlater same
    · exact h.silent later (List.mem_cons_of_mem change hlater) s hs hpid

/-- When all stages of a job have ended, none of its processes has anything left to report. -/
theorem Expects.absent (h : j.Expects changes) (closed : j.isOver = true) :
    ∀ change ∈ changes, change.pid ∉ j.pids := by
  intro change hchange hpid
  obtain ⟨s, hs, launched⟩ := mem_pids.mp hpid
  have finished : s.status.isFinished = true := List.all_eq_true.mp closed s hs
  rw [h.silent change hchange s hs launched] at finished
  cases finished

/-- A job that ends does so as all changes together leave it: no process of it reports later. -/
theorem Expects.eq_after (expects : j.Expects changes) (distinct : j.pids.Nodup)
    (ends : j.ending? changes = some j') : j' = j.after changes := by
  induction changes generalizing j with
  | nil => cases ends
  | cons change rest ih =>
    have expects' := expects.apply distinct
    rw [ending?] at ends
    split at ends
    case isTrue closed =>
      obtain rfl := Option.some.inj ends
      exact (after_eq_self (expects'.absent closed.2)).symm
    case isFalse => exact ih expects' (by rwa [pids_apply]) ends

/-- **A job ends exactly if the histories end it**, and then it ends as they leave it. -/
theorem ending?_eq (distinct : j.pids.Nodup) (expects : j.Expects changes)
    (interleaved : h.Interleaved changes) :
    j.ending? changes = if j.ends h then some (j.final h) else none := by
  have concerned : (∃ change ∈ changes, change.pid ∈ j.pids) ↔
      (j.pids.any fun pid => !(h pid).isEmpty) = true := by
    simp [interleaved.exists_iff]
  have final := after_eq_final distinct interleaved
  cases ending : j.ending? changes with
  | some last =>
    -- it leaves with some change, but as all of them would leave it
    obtain ⟨changed, closed⟩ := isOver_of_ending? ending
    rw [expects.eq_after distinct ending, final] at closed ⊢
    rw [if_pos (by rw [ends, concerned.mp changed, closed, Bool.and_self])]
  | none =>
    -- the job stays although it was changed, so it is not over
    refine (if_neg fun ended => ?_).symm
    obtain ⟨changed, closed⟩ := Bool.and_eq_true_iff.mp ended
    have runs := isOver_after ending (concerned.mpr changed)
    rw [final, closed] at runs
    cases runs

end Job

/-! ## Tables -/

namespace JobTable

variable {t : JobTable} {h : Histories} {changes changes' : List StatusChange}

/-- Histories that can still happen to the processes of a table: nothing follows the end of a
process, and a stage that has ended has no history left. -/
structure Allows (t : JobTable) (h : Histories) : Prop where
  last : ∀ pid, (h pid).Pairwise fun status _ => status.isFinished = false
  silent : ∀ e ∈ t.entries, ∀ s ∈ e.job.stages, ∀ pid, s.pid = some pid →
    s.status.isFinished = true → h pid = []

theorem Allows.of_changes
    (last : ∀ change ∈ changes, (Histories.of changes change.pid).Pairwise
      fun status _ => status.isFinished = false)
    (silent : ∀ e ∈ t.entries, ∀ s ∈ e.job.stages, s.status.isFinished = true →
      ∀ change ∈ changes, s.pid ≠ some change.pid) : t.Allows (.of changes) where
  last pid := by
    by_cases known : ∃ change ∈ changes, change.pid = pid
    · obtain ⟨change, hmem, rfl⟩ := known
      exact last change hmem
    · push Not at known
      rw [Histories.of_eq_nil known]
      exact .nil
  silent e he s hs pid hpid finished :=
    Histories.of_eq_nil fun change hmem same => silent e he s hs finished change hmem (same ▸ hpid)

theorem Allows.expects (allowed : t.Allows h) (interleaved : h.Interleaved changes)
    {e : TableEntry} (he : e ∈ t.entries) : e.job.Expects changes where
  last pid := by
    rw [interleaved pid]
    exact allowed.last pid
  silent := by
    intro change hchange s hs hpid
    by_contra finished
    have none := allowed.silent e he s hs change.pid hpid (by simpa using finished)
    exact List.ne_nil_of_mem (interleaved.mem hchange) none

/-- The entries that the histories leave in a table. -/
def left (t : JobTable) (h : Histories) : List TableEntry :=
  t.entries.filterMap fun e => if e.job.ends h then none else some { e with job := e.job.final h }

/-- The jobs that the histories end, with their numbers. -/
def gone (t : JobTable) (h : Histories) : List (Nat × Job) :=
  t.entries.filterMap fun e => if e.job.ends h then some (e.id, e.job.final h) else none

theorem Allows.ending?_eq (allowed : t.Allows h) (distinct : t.pids.Nodup)
    (interleaved : h.Interleaved changes) {e : TableEntry} (he : e ∈ t.entries) :
    e.job.ending? changes = if e.job.ends h then some (e.job.final h) else none :=
  Job.ending?_eq ((nodup_pids_iff.mp distinct).1 e he) (allowed.expects interleaved he) interleaved

/-- In whatever order the processes report, the entries at the end are those that the histories
leave. -/
theorem Allows.entries_settleAll (allowed : t.Allows h) (distinct : t.pids.Nodup)
    (interleaved : h.Interleaved changes) : (t.settleAll changes).entries = t.left h := by
  rw [JobTable.entries_settleAll (.of_nodup distinct), left]
  refine List.filterMap_congr fun e he => ?_
  rw [TableEntry.settleAll, allowed.ending?_eq distinct interleaved he,
    Job.after_eq_final ((nodup_pids_iff.mp distinct).1 e he) interleaved]
  cases e.job.ends h <;> rfl

/-- In whatever order the processes report, the jobs that end are those that the histories end. -/
theorem Allows.ended_perm (allowed : t.Allows h) (distinct : t.pids.Nodup)
    (interleaved : h.Interleaved changes) : (t.ended changes).Perm (t.gone h) := by
  have apart := Apart.of_nodup distinct
  -- both lists name every job at most once, so it is enough that they have the same members
  have once : (t.gone h).Nodup := by
    refine t.ordered.filterMap _ fun e e' lower r hr r' hr' same => ?_
    obtain rfl := Option.some.inj (Option.ite_none_right_eq_some.mp hr).2
    obtain rfl := Option.some.inj (Option.ite_none_right_eq_some.mp hr').2
    exact Nat.ne_of_lt lower (congrArg Prod.fst same)
  refine (List.perm_ext_iff_of_nodup (.of_map _ (nodup_ended apart changes)) once).mpr
    fun ⟨id, job⟩ => ?_
  rw [mem_ended apart, gone, List.mem_filterMap]
  refine exists_congr fun e => and_congr_right fun he => ?_
  rw [allowed.ending?_eq distinct interleaved he]
  cases e.job.ends h <;> simp

theorem Allows.settleAll_congr (allowed : t.Allows h) (distinct : t.pids.Nodup)
    (first : h.Interleaved changes) (second : h.Interleaved changes') :
    t.settleAll changes = t.settleAll changes' := by
  obtain ⟨capacity, registered⟩ := settleAll_frame t changes
  obtain ⟨capacity', registered'⟩ := settleAll_frame t changes'
  refine ext_entries ?_ (capacity.trans capacity'.symm) (registered.trans registered'.symm)
  rw [allowed.entries_settleAll distinct first, allowed.entries_settleAll distinct second]

/-- What polls print are their bulletins, in which the final reports are those on jobs that are
over. -/
theorem outputs_bulletins (distinct : t.pids.Nodup) (rounds : List (List Notification)) :
    t.outputs rounds = (t.bulletins rounds).map Bulletin.text ∧
      ∀ b ∈ t.bulletins rounds, ∀ report ∈ b.reports,
        report ∈ b.ended ↔ report.2.isOver = true := by
  refine ⟨outputs_eq t rounds, fun b hb report hreport => ?_⟩
  obtain ⟨⟨u, reports⟩, hpoll, rfl⟩ := List.mem_map.mp hb
  exact mem_ended_bulletin_iff (apart_of_mem_polls (.of_nodup distinct) hpoll) hreport

/-- **Polls do not depend on timing.**  Let no two stages of a table have the same process, and let
two series of polls bring the same histories, which can still happen to these processes.  Then both
series end with the same table, and their final reports are the same up to their order; if the
changes come in the same order and only the moments of the polls differ, in the same order too.

The histories alone say what that is.  The table holds the jobs that they do not end, each stage in
the last status of its process, and the final reports are on those that they end, one on each and
each as they leave it.  What the polls print are these reports and the stop reports, which are on
jobs that are not over. -/
theorem polls_ignore_timing (distinct : t.pids.Nodup) (allowed : t.Allows h)
    {rounds rounds' : List (List Notification)}
    (first : h.Interleaved (changesOf rounds.flatten))
    (second : h.Interleaved (changesOf rounds'.flatten)) :
    t.afterPolls rounds = t.afterPolls rounds' ∧
    (t.endedInPolls rounds).Perm (t.endedInPolls rounds') ∧
    (changesOf rounds.flatten = changesOf rounds'.flatten →
      t.endedInPolls rounds = t.endedInPolls rounds') ∧
    ∀ series ∈ [rounds, rounds'],
      (t.afterPolls series).entries = t.left h ∧
      (t.endedInPolls series).Perm (t.gone h) ∧
      ((t.endedInPolls series).map Prod.fst).Nodup ∧
      t.outputs series = (t.bulletins series).map Bulletin.text ∧
      ∀ b ∈ t.bulletins series, ∀ report ∈ b.reports,
        report ∈ b.ended ↔ report.2.isOver = true := by
  have apart := Apart.of_nodup distinct
  have interleaved : ∀ series ∈ [rounds, rounds'], h.Interleaved (changesOf series.flatten) := by
    simp [first, second]
  simp only [afterPolls_eq, endedInPolls_eq]
  refine ⟨allowed.settleAll_congr distinct first second, ?_, fun same => by rw [same],
    fun series hseries => ⟨?_, ?_, nodup_ended apart _, outputs_bulletins distinct series⟩⟩
  · exact (allowed.ended_perm distinct first).trans (allowed.ended_perm distinct second).symm
  · exact allowed.entries_settleAll distinct (interleaved series hseries)
  · exact allowed.ended_perm distinct (interleaved series hseries)

/-- Two running pipelines; in the second one a stage has ended. -/
def twoPipelines : JobTable where
  capacity := 2
  entries :=
    [⟨1, 0, ⟨some 1, some 100, .background, "a | b",
      [.named "a" 100 .running, .named "b" 101 .running]⟩⟩,
     ⟨2, 1, ⟨some 2, some 200, .background, "c | d",
      [.named "c" 200 .running, .named "d" 201 .done]⟩⟩]
  registered := 2
  ordered := by decide
  numbered := by decide

/-- Two polls in which both pipelines end, the second one first. -/
def twoPolls : List (List Notification) :=
  [[.stopped 100 .stop, .exited 200 0], [.continued 100, .signaled 101 .kill false, .exited 100 0]]

/-- Three polls that bring the same, in which the first pipeline ends first. -/
def threePolls : List (List Notification) :=
  [[.signaled 101 .kill false, .stopped 100 .stop, .continued 100], [.exited 100 0],
    [.exited 200 0]]

/-- Two polls and three polls that bring the same histories leave the same table, and report the
same jobs as ended. -/
theorem polls_ignore_timing_twoPipelines :
    twoPipelines.afterPolls twoPolls = twoPipelines.afterPolls threePolls ∧
      (twoPipelines.endedInPolls twoPolls).Perm (twoPipelines.endedInPolls threePolls) ∧
      (twoPipelines.endedInPolls twoPolls).map Prod.fst = [2, 1] := by
  have allowed : twoPipelines.Allows (.of (changesOf twoPolls.flatten)) :=
    .of_changes (by decide) (by decide)
  have same : Histories.Interleaved (.of (changesOf twoPolls.flatten))
      (changesOf threePolls.flatten) := Histories.interleaved_of (by decide)
  obtain ⟨table, reports, -⟩ := polls_ignore_timing (by decide) allowed (fun _ => rfl) same
  exact ⟨table, reports, by decide⟩

end JobTable

end JobControl
