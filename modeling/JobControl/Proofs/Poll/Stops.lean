import JobControl.Proofs.Poll.Bulletin

/-!
# Which stops are announced

A poll can leave a job stopped: all its unfinished stages are suspended.  It then reports on the job
exactly once if one of its own changes suspended a stage of it, and says nothing about it otherwise
(`JobTable.reports_on_stopped`).  What earlier polls saw makes no difference to that.

So a job is always announced that comes to a stop from no suspended stage at all
(`JobTable.announced_of_unsuspended`).  But if some stages were suspended in earlier polls, and the
last active stage then ends by itself or by a signal, the job has stopped and no poll says so
(`JobTable.stop_unannounced`).
-/

set_option autoImplicit false

namespace JobControl

/-! ## Where a suspension comes from -/

namespace Job

variable {j : Job} {changes : List StatusChange} {s : Stage}

/-- A stage that is suspended in the end was so before, or one of the changes suspended a stage of
the job. -/
theorem suspended_of_after (hs : s ∈ (j.after changes).stages) (suspended : s.status = .suspended) :
    (∃ r ∈ j.stages, r.status = .suspended) ∨
      ∃ change ∈ changes, change.status = .suspended ∧ change.pid ∈ j.pids := by
  induction changes generalizing j with
  | nil => exact Or.inl ⟨s, hs, suspended⟩
  | cons change rest ih =>
    -- either a later change suspends a stage, or the first change leaves one suspended
    rcases ih (j := j.apply change) hs with ⟨r, hr, before⟩ | ⟨later, hlater, sets, hpid⟩
    · rcases mem_modifyStage hr with hr | ⟨q, hq, launched, rfl⟩
      · exact Or.inl ⟨r, hr, before⟩
      · exact Or.inr ⟨change, List.mem_cons_self, before, mem_pids.mpr ⟨q, hq, launched⟩⟩
    · rw [pids_apply] at hpid
      exact Or.inr ⟨later, List.mem_cons_of_mem change hlater, sets, hpid⟩

theorem exists_suspended (stopped : j.isStopped = true) (runs : j.isOver = false) :
    ∃ s ∈ j.stages, s.status = .suspended := by
  obtain ⟨s, hs, unfinished⟩ := isOver_eq_false_iff.mp runs
  have waiting := List.all_eq_true.mp stopped s (List.mem_filter.mpr ⟨hs, by simp [unfinished]⟩)
  exact ⟨s, hs, eq_of_beq waiting⟩

end Job

/-! ## The reports on one job -/

/-- Of reports under different numbers, one is on the job with a number that occurs. -/
theorem filter_fst_eq_singleton {l : List (Nat × Job)} {id : Nat} {job : Job}
    (distinct : (l.map Prod.fst).Nodup) (h : (id, job) ∈ l) :
    l.filter (·.1 == id) = [(id, job)] := by
  induction l with
  | nil => cases h
  | cons first rest ih =>
    obtain ⟨new, distinct⟩ := List.nodup_cons.mp distinct
    rcases List.mem_cons.mp h with rfl | h
    · have others : rest.filter (·.1 == id) = [] :=
        List.filter_eq_nil_iff.mpr fun other hother same =>
          new (List.mem_map.mpr ⟨other, hother, eq_of_beq same⟩)
      rw [List.filter_cons, if_pos (beq_self_eq_true id), others]
    · have differs : first.1 ≠ id := fun same => new (List.mem_map.mpr ⟨_, h, same.symm⟩)
      rw [List.filter_cons, if_neg (by simpa using differs), ih distinct h]

namespace JobTable

variable {t : JobTable} {reports : List Notification} {e : TableEntry}

/-- The reports of a poll on the job with this number, in order. -/
def reportsOn (t : JobTable) (reports : List Notification) (id : Nat) : List (Nat × Job) :=
  (t.bulletin reports).reports.filter (·.1 == id)

theorem filter_ended_eq_nil (apart : t.Apart) (he : e ∈ (t.reap reports).table.entries) :
    (t.bulletin reports).ended.filter (·.1 == e.id) = [] := by
  refine List.filter_eq_nil_iff.mpr fun report hreport same => ?_
  have gone := ((id_mem_ended_iff apart).mp (List.mem_map.mpr ⟨report, hreport, eq_of_beq same⟩)).2
  rw [← table_reap_eq, find?_of_mem he] at gone
  cases gone

/-- The reports of a poll on a job that is still there after it: none, or one that shows it
stopped. -/
theorem reportsOn_of_mem (apart : t.Apart) (he : e ∈ (t.reap reports).table.entries) :
    t.reportsOn reports e.id =
      if e.job.isStopped = true ∧
          ∃ change ∈ changesOf reports, change.status = .suspended ∧ change.pid ∈ e.job.pids
      then [(e.id, e.job)] else [] := by
  -- the job has not left, so only a stop report can be on it
  rw [reportsOn, Bulletin.reports, List.filter_append, filter_ended_eq_nil apart he,
    List.nil_append]
  split
  case isTrue announced =>
    exact filter_fst_eq_singleton (nodup_stops_reap t reports)
      ((mem_stops_reap apart).mpr ⟨find?_of_mem he, announced⟩)
  case isFalse silent =>
    refine List.filter_eq_nil_iff.mpr fun ⟨id, job⟩ hstop same => silent ?_
    obtain rfl : id = e.id := eq_of_beq same
    obtain ⟨found, announced⟩ := (mem_stops_reap apart).mp hstop
    rwa [job_of_find? found he rfl]

theorem Apart.afterPolls (apart : t.Apart) (rounds : List (List Notification)) :
    (t.afterPolls rounds).Apart := by
  rw [afterPolls_eq]
  exact apart.settleAll _

/-- A job that had no suspended stage before a poll and has stopped after it is announced, exactly
once. -/
theorem announced_of_unsuspended (apart : t.Apart) {b : TableEntry} (hb : b ∈ t.entries)
    (he : e ∈ (t.reap reports).table.entries) (same : b.id = e.id)
    (active : b.job.isSuspended = false) (runs : e.job.isOver = false)
    (stopped : e.job.isStopped = true) : t.reportsOn reports e.id = [(e.id, e.job)] := by
  rw [reportsOn_of_mem apart he, if_pos]
  refine ⟨stopped, ?_⟩
  obtain ⟨s, hs, suspended⟩ := Job.exists_suspended stopped runs
  rw [table_reap_eq] at he
  obtain ⟨b', hb', -, rfl⟩ := (mem_settleAll apart).mp he
  obtain rfl := eq_of_id_eq hb' hb same.symm
  rw [Job.pids_after]
  rcases Job.suspended_of_after hs suspended with ⟨r, hr, before⟩ | announced
  · have none := List.any_eq_false.mp active r hr
    exact absurd (beq_iff_eq.mpr before) none
  · exact announced

/-- **A job that has stopped is announced exactly by the polls that saw a stage of it stop.**  Let no
two stages of a table have the same process, and let polls in a row be followed by one that leaves a
job with all its unfinished stages suspended.  What that poll prints are the reports of its
bulletin, and of these exactly one is on the job if one of the changes of this poll suspended a
stage of it, and none otherwise.  That is always so of a job that had no suspended stage before. -/
theorem reports_on_stopped (distinct : t.pids.Nodup) (earlier : List (List Notification))
    (he : e ∈ ((t.afterPolls earlier).reap reports).table.entries)
    (stopped : e.job.isStopped = true) :
    ((t.afterPolls earlier).reap reports).output =
      ((t.afterPolls earlier).bulletin reports).text ∧
    (t.afterPolls earlier).reportsOn reports e.id =
      (if ∃ change ∈ changesOf reports, change.status = .suspended ∧ change.pid ∈ e.job.pids
      then [(e.id, e.job)] else []) ∧
    ∀ b ∈ (t.afterPolls earlier).entries, b.id = e.id → b.job.isSuspended = false →
      e.job.isOver = false → (t.afterPolls earlier).reportsOn reports e.id = [(e.id, e.job)] := by
  have apart := (Apart.of_nodup distinct).afterPolls earlier
  refine ⟨output_reap _ _, ?_, fun b hb same active runs =>
    announced_of_unsuspended apart hb he same active runs stopped⟩
  rw [reportsOn_of_mem apart he]
  simp only [stopped, true_and]

/-- A running pipeline of two stages. -/
def pipeline : JobTable where
  capacity := 1
  entries := [⟨1, 0, ⟨some 1, some 100, .background, "a | b",
    [.named "a" 100 .running, .named "b" 101 .running]⟩⟩]
  registered := 1
  ordered := by decide
  numbered := by decide

/-- The pipeline when its first stage has stopped and the second one has got there as well. -/
def stalled (status : Status) : TableEntry :=
  ⟨1, 0, ⟨some 1, some 100, .background, "a | b",
    [.named "a" 100 .suspended, .named "b" 101 status]⟩⟩

/-- If the two stages stop in different polls, the second poll announces it. -/
theorem reports_on_stopped_pipeline :
    (pipeline.afterPolls [[.stopped 100 .stop]]).reportsOn [.stopped 101 .stop] 1 =
      [(1, (stalled .suspended).job)] := by
  have stays : stalled .suspended ∈
      ((pipeline.afterPolls [[.stopped 100 .stop]]).reap [.stopped 101 .stop]).table.entries := by
    decide
  have reported := (reports_on_stopped (by decide) [[.stopped 100 .stop]] stays (by decide)).2.1
  rwa [if_pos (by decide)] at reported

/-- **A job that comes to a stop is not always announced.**  In `pipeline` the first stage stops in
one poll and the second one is killed in the next. -/
theorem stop_unannounced :
    ¬∀ (t : JobTable) (earlier : List (List Notification)) (reports : List Notification),
      t.pids.Nodup → ∀ b ∈ (t.afterPolls earlier).entries,
        ∀ e ∈ ((t.afterPolls earlier).reap reports).table.entries, e.id = b.id →
          (∃ s ∈ b.job.stages, s.status.isFinished = false ∧ s.status ≠ .suspended) →
          e.job.isStopped = true →
            (t.afterPolls earlier).reportsOn reports e.id = [(e.id, e.job)] := by
  intro announced
  have silent := announced pipeline [[.stopped 100 .stop]] [.signaled 101 .kill false] (by decide)
    (stalled .running) (by decide) (stalled .terminated) (by decide) rfl (by decide) (by decide)
  revert silent
  decide

end JobTable

end JobControl
