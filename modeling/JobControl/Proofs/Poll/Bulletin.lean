import JobControl.Proofs.Poll.Settling

/-!
# What polls print

The text of a poll is a list of reports on jobs, its `Bulletin`: first on the jobs that ended, as
they ended, and after the drain on the jobs that have stopped (`JobTable.output_reap`).  The second
part names a job exactly if it is still there, all its unfinished stages are suspended, and one of
the changes suspended a stage of it (`JobTable.mem_stops_reap`).

Polls that follow one another with nothing in between are `JobTable.polls`.  They do to the table
what all their changes do to it (`JobTable.afterPolls_eq`), and the jobs they report as ended are
those that all these changes end, in the same order (`JobTable.endedInPolls_eq`).
-/

set_option autoImplicit false

namespace JobControl

/-- The status changes that reports imply, in order. -/
def changesOf (reports : List Notification) : List StatusChange :=
  reports.filterMap Notification.change?

theorem changesOf_append (reports more : List Notification) :
    changesOf (reports ++ more) = changesOf reports ++ changesOf more :=
  List.filterMap_append

theorem changesOf_cons_none {n : Notification} (implied : n.change? = none)
    (rest : List Notification) : changesOf (n :: rest) = changesOf rest :=
  List.filterMap_cons_none implied

theorem changesOf_cons_some {n : Notification} {change : StatusChange}
    (implied : n.change? = some change) (rest : List Notification) :
    changesOf (n :: rest) = change :: changesOf rest :=
  List.filterMap_cons_some implied

/-- The reports on some jobs under their numbers, one after the other. -/
def Job.reports (jobs : List (Nat × Job)) : String :=
  String.join (jobs.map fun (id, job) => job.report id)

theorem Job.reports_append (jobs more : List (Nat × Job)) :
    Job.reports (jobs ++ more) = Job.reports jobs ++ Job.reports more := by
  rw [Job.reports, List.map_append, String.join_append]
  rfl

/-- The reports of a poll: on the jobs that ended, and on the jobs that have stopped. -/
structure Bulletin where
  ended : List (Nat × Job)
  stopped : List (Nat × Job)

namespace Bulletin

/-- All reports in order. -/
def reports (b : Bulletin) : List (Nat × Job) :=
  b.ended ++ b.stopped

/-- The text of the reports. -/
def text (b : Bulletin) : String :=
  Job.reports b.reports

end Bulletin

namespace Reaping

variable {r : Reaping} {change : StatusChange} {changes : List StatusChange} {id : Nat} {job : Job}
  {e : TableEntry}

/-! ## The jobs that ended -/

theorem printed_record (r : Reaping) (change : StatusChange) :
    (r.record change).printed = r.printed ++ Job.reports (r.table.endedBy change) := by
  have none : r.printed = r.printed ++ Job.reports [] := by simp [Job.reports]
  rcases h : r.table.record change with _ | ⟨id, table⟩
  · simpa only [record, JobTable.endedBy, h] using none
  rcases hf : table.find? id with _ | job
  · simp only [record, JobTable.endedBy, h, JobTable.retire, hf]
    split <;> exact none
  rcases closed : job.isComplete || job.isFinished with _ | _
  · simp only [record, JobTable.endedBy, h, JobTable.retire, hf, Job.isOver_eq, closed,
      Bool.false_eq_true, if_false]
    split <;> exact none
  · simp [record, JobTable.endedBy, h, JobTable.retire, hf, Job.isOver_eq, closed, Job.reports]

theorem table_foldl (r : Reaping) (changes : List StatusChange) :
    (changes.foldl record r).table = r.table.settleAll changes := by
  induction changes generalizing r with
  | nil => rfl
  | cons change rest ih =>
    rw [List.foldl_cons, ih, JobTable.table_record]
    rfl

theorem printed_foldl (r : Reaping) (changes : List StatusChange) :
    (changes.foldl record r).printed = r.printed ++ Job.reports (r.table.ended changes) := by
  induction changes generalizing r with
  | nil => simp [JobTable.ended, Job.reports]
  | cons change rest ih =>
    rw [List.foldl_cons, ih, printed_record, JobTable.table_record, JobTable.ended,
      Job.reports_append, String.append_assoc]

/-! ## The jobs that stopped -/

/-- A suspension of one of its stages puts a job on the list of those to look at after the drain,
unless it is on it, and nothing else does. -/
theorem stopped_record (r : Reaping) (change : StatusChange) : (r.record change).stopped =
    match r.table.findByPid? change.pid with
    | some id =>
      if change.status = .suspended ∧ ¬id ∈ r.stopped then r.stopped ++ [id] else r.stopped
    | none => r.stopped := by
  rcases found : r.table.findByPid? change.pid with _ | id
  · simp only [record, JobTable.record, found, Option.map_none]
  obtain ⟨e, he, rfl, hpid⟩ := JobTable.findByPid?_eq_some found
  simp only [record, JobTable.record, found, Option.map_some]
  split
  case h_1 report smaller closed =>
    -- a job that is over has not just had a stage suspended
    have ended : change.status ≠ .suspended := by
      intro suspended
      have running := Job.isOver_apply_of_unfinished hpid (by rw [suspended]; rfl)
      have there := JobTable.find?_modify (f := fun job => job.apply change)
        (JobTable.find?_of_mem he)
      rw [Job.isOver_eq] at running
      simp [JobTable.retire, there, running] at closed
    rw [if_neg fun h => ended h.1]
  case h_2 => split <;> rfl

theorem mem_stopped_record : id ∈ (r.record change).stopped ↔ id ∈ r.stopped ∨
    (change.status = .suspended ∧ r.table.findByPid? change.pid = some id) := by
  rw [stopped_record]
  rcases r.table.findByPid? change.pid with _ | own
  · simp
  · by_cases suspended : change.status = .suspended
    · by_cases new : own ∈ r.stopped
      · simp only [suspended, new, not_true_eq_false, and_false, if_false, true_and,
          Option.some.injEq]
        exact ⟨Or.inl, fun h => h.elim (fun old => old) fun same => same ▸ new⟩
      · simp [suspended, new, eq_comm]
    · simp [suspended]

theorem nodup_stopped_record (h : r.stopped.Nodup) : (r.record change).stopped.Nodup := by
  rw [stopped_record]
  split
  case h_1 id _ =>
    split
    case isTrue new =>
      exact List.nodup_append.mpr ⟨h, List.nodup_singleton id, fun a ha b hb same => by
        rw [List.mem_singleton.mp hb] at same
        exact new.2 (same ▸ ha)⟩
    case isFalse => exact h
  case h_2 => exact h

theorem nodup_stopped_foldl (h : r.stopped.Nodup) (changes : List StatusChange) :
    (changes.foldl record r).stopped.Nodup := by
  induction changes generalizing r with
  | nil => exact h
  | cons change rest ih => exact ih (nodup_stopped_record h)

/-- A job that stays to the end is looked at after the drain if some change suspended a stage of
it. -/
theorem mem_stopped_foldl (apart : r.table.Apart)
    (he : e ∈ (changes.foldl record r).table.entries) :
    e.id ∈ (changes.foldl record r).stopped ↔ e.id ∈ r.stopped ∨
      ∃ change ∈ changes, change.status = .suspended ∧ change.pid ∈ e.job.pids := by
  induction changes generalizing r with
  | nil => simp
  | cons change rest ih =>
    have table : (r.record change).table = r.table.settle change :=
      JobTable.table_record r change
    have apart' : (r.record change).table.Apart := by
      rw [table]
      exact apart.settle change
    -- the entry was there at the beginning, with the processes it has now
    have whole := he
    rw [table_foldl] at whole
    obtain ⟨first, hfirst, -, rfl⟩ := (JobTable.mem_settleAll apart).mp whole
    have own : r.table.findByPid? change.pid = some first.id ↔
        change.pid ∈ (first.job.after (change :: rest)).pids := by
      rw [apart.findByPid?_eq_iff hfirst, Job.pids_after]
    have later := ih apart' he
    simp only [List.foldl_cons, later, mem_stopped_record, own, List.exists_mem_cons_iff,
      or_assoc]

/-- The jobs that are reported as stopped after a drain. -/
def stops (r : Reaping) : List (Nat × Job) :=
  r.stopped.filterMap fun id =>
    (r.table.find? id).bind fun job => if job.isStopped then some (id, job) else none

theorem mem_stops : (id, job) ∈ r.stops ↔
    id ∈ r.stopped ∧ r.table.find? id = some job ∧ job.isStopped = true := by
  simp only [stops, List.mem_filterMap, Option.bind_eq_some_iff, Option.ite_none_right_eq_some,
    Option.some.injEq, Prod.mk.injEq]
  constructor
  · rintro ⟨_, hid, _, found, stopped, rfl, rfl⟩
    exact ⟨hid, found, stopped⟩
  · rintro ⟨hid, found, stopped⟩
    exact ⟨id, hid, job, found, stopped, rfl, rfl⟩

theorem nodup_stops (h : r.stopped.Nodup) : (r.stops.map Prod.fst).Nodup := by
  refine h.sublist ?_
  simp only [stops]
  generalize r.stopped = ids
  induction ids with
  | nil => exact List.Sublist.slnil
  | cons id rest ih =>
    rw [List.filterMap_cons]
    split
    case h_1 => exact ih.trans (List.sublist_cons_self id rest)
    case h_2 report found =>
      obtain ⟨job, -, reported⟩ := Option.bind_eq_some_iff.mp found
      obtain ⟨-, same⟩ := Option.ite_none_right_eq_some.mp reported
      obtain rfl := Option.some.inj same
      exact ih.cons_cons id

theorem join_stopReport (r : Reaping) :
    String.join (r.stopped.map (stopReport r.table)) = Job.reports r.stops := by
  simp only [stops]
  generalize r.stopped = ids
  induction ids with
  | nil => rfl
  | cons id rest ih =>
    rw [List.map_cons, String.join_cons, ih, List.filterMap_cons]
    rcases found : r.table.find? id with _ | job
    · simp [stopReport, found]
    · cases stopped : job.isStopped <;> simp [stopReport, found, stopped, Job.reports]

end Reaping

/-! ## Changes of unknown processes -/

namespace JobTable

/-- Two drains that are being applied differ in what is to be logged, if at all. -/
def SameSight (r r' : Reaping) : Prop :=
  ∃ events, r' = { r with events }

theorem SameSight.refl (r : Reaping) : SameSight r r :=
  ⟨r.events, rfl⟩

theorem SameSight.record {r r' : Reaping} (same : SameSight r r') (change : StatusChange) :
    SameSight (r.record change) (r'.record change) := by
  obtain ⟨events, rfl⟩ := same
  rcases known : r.table.record change with _ | ⟨id, table⟩
  · simp only [Reaping.record, known]
    exact ⟨_, rfl⟩
  · rcases retired : table.retire id with _ | ⟨report, smaller⟩
    · simp only [Reaping.record, known, retired]
      split
      · exact ⟨_, rfl⟩
      · exact ⟨_, rfl⟩
    · simp only [Reaping.record, known, retired]
      exact ⟨_, rfl⟩

/-- A change of a process without an entry is logged, and that is all. -/
theorem SameSight.record_unknown {r r' : Reaping} (same : SameSight r r') {change : StatusChange}
    (unknown : change.pid ∉ r.table.pids) : SameSight r (r'.record change) := by
  obtain ⟨events, rfl⟩ := same
  have absent : r.table.findByPid? change.pid = none :=
    findByPid?_eq_none_iff.mpr fun e he hpid => unknown (mem_pids.mpr ⟨e, he, hpid⟩)
  simp only [Reaping.record, JobTable.record, absent, Option.map_none]
  exact ⟨_, rfl⟩

/-- Further changes keep it so. -/
theorem SameSight.recordAll {r r' : Reaping} (same : SameSight r r') (changes : List StatusChange) :
    SameSight (changes.foldl Reaping.record r) (changes.foldl Reaping.record r') := by
  induction changes generalizing r r' with
  | nil => exact same
  | cons change rest ih => exact ih (same.record change)

/-- A poll without a report that implies no change, or without one on a process that has no entry
when it comes, leaves the same table and prints the same text. -/
theorem reap_unknown (t : JobTable) (before : List Notification) {n : Notification}
    (unknown : ∀ change, n.change? = some change → change.pid ∉ (t.reap before).table.pids)
    (after : List Notification) :
    (t.reap (before ++ n :: after)).table = (t.reap (before ++ after)).table ∧
      (t.reap (before ++ n :: after)).output = (t.reap (before ++ after)).output := by
  have same : SameSight (t.reap (before ++ after)) (t.reap (before ++ n :: after)) := by
    simp only [reap, List.filterMap_append, List.foldl_append] at unknown ⊢
    cases implied : n.change? with
    | none =>
      rw [List.filterMap_cons_none implied]
      exact .refl _
    | some change =>
      rw [List.filterMap_cons_some implied, List.foldl_cons]
      exact ((SameSight.refl _).record_unknown (unknown change implied)).recordAll _
  obtain ⟨events, same⟩ := same
  rw [same]
  exact ⟨rfl, rfl⟩

end JobTable

/-! ## One poll -/

namespace JobTable

variable {t : JobTable} {reports : List Notification} {id : Nat} {job : Job}

/-- What a poll with these reports prints. -/
def bulletin (t : JobTable) (reports : List Notification) : Bulletin where
  ended := t.ended (changesOf reports)
  stopped := (t.reap reports).stops

/-- **The text of a poll** is its bulletin. -/
theorem output_reap (t : JobTable) (reports : List Notification) :
    (t.reap reports).output = (t.bulletin reports).text := by
  have printed : (t.reap reports).printed = Job.reports (t.ended (changesOf reports)) :=
    (Reaping.printed_foldl (.start t) (changesOf reports)).trans String.empty_append
  rw [Reaping.output, printed, Reaping.join_stopReport, ← Job.reports_append]
  rfl

theorem table_reap_eq (t : JobTable) (reports : List Notification) :
    (t.reap reports).table = t.settleAll (changesOf reports) :=
  table_reap t reports

/-- **The stop reports of a poll** are on the jobs that are still there, have all their unfinished
stages suspended, and had a stage suspended by one of its changes. -/
theorem mem_stops_reap (apart : t.Apart) : (id, job) ∈ (t.reap reports).stops ↔
    (t.reap reports).table.find? id = some job ∧ job.isStopped = true ∧
      ∃ change ∈ changesOf reports, change.status = .suspended ∧ change.pid ∈ job.pids := by
  rw [Reaping.mem_stops]
  constructor
  · rintro ⟨listed, found, stopped⟩
    obtain ⟨e, he, rfl, rfl⟩ := find?_eq_some_iff.mp found
    refine ⟨found, stopped, ?_⟩
    rcases (Reaping.mem_stopped_foldl (r := .start t) apart he).mp listed with before | suspended
    · cases before
    · exact suspended
  · rintro ⟨found, stopped, suspended⟩
    obtain ⟨e, he, rfl, rfl⟩ := find?_eq_some_iff.mp found
    exact ⟨(Reaping.mem_stopped_foldl (r := .start t) apart he).mpr (Or.inr suspended), found,
      stopped⟩

theorem nodup_stops_reap (t : JobTable) (reports : List Notification) :
    ((t.reap reports).stops.map Prod.fst).Nodup :=
  Reaping.nodup_stops (Reaping.nodup_stopped_foldl List.nodup_nil _)

/-- The stop reports are on jobs that are not over. -/
theorem isOver_of_mem_stops (apart : t.Apart) (h : (id, job) ∈ (t.reap reports).stops) :
    job.isOver = false := by
  obtain ⟨found, -, change, hchange, -, hpid⟩ := (mem_stops_reap apart).mp h
  obtain ⟨e', he', rfl, rfl⟩ := find?_eq_some_iff.mp found
  rw [table_reap_eq] at he'
  obtain ⟨e, -, stays, rfl⟩ := (mem_settleAll apart).mp he'
  exact Job.isOver_after stays ⟨change, hchange, by rwa [Job.pids_after] at hpid⟩

/-- Of the reports of a poll, those on jobs that are over are the final ones. -/
theorem mem_ended_bulletin_iff (apart : t.Apart) {report : Nat × Job}
    (h : report ∈ (t.bulletin reports).reports) :
    report ∈ (t.bulletin reports).ended ↔ report.2.isOver = true := by
  constructor
  · intro ended
    obtain ⟨e, -, -, ends⟩ := (mem_ended apart).mp ended
    exact (Job.isOver_of_ending? ends).2
  · intro closed
    refine (List.mem_append.mp h).resolve_right fun stopped => ?_
    rw [isOver_of_mem_stops apart stopped] at closed
    cases closed

/-! ## Polls in a row -/

/-- Polls with these reports and nothing in between, each with the table it starts from. -/
def polls (t : JobTable) : List (List Notification) → List (JobTable × List Notification)
  | [] => []
  | reports :: rest => (t, reports) :: (t.reap reports).table.polls rest

/-- The table after such polls. -/
def afterPolls (t : JobTable) (rounds : List (List Notification)) : JobTable :=
  rounds.foldl (fun t reports => (t.reap reports).table) t

/-- What each of them prints. -/
def outputs (t : JobTable) (rounds : List (List Notification)) : List String :=
  (t.polls rounds).map fun (t, reports) => (t.reap reports).output

/-- The bulletins of these polls. -/
def bulletins (t : JobTable) (rounds : List (List Notification)) : List Bulletin :=
  (t.polls rounds).map fun (t, reports) => t.bulletin reports

/-- The jobs that these polls report as ended, in order. -/
def endedInPolls (t : JobTable) (rounds : List (List Notification)) : List (Nat × Job) :=
  (t.bulletins rounds).flatMap Bulletin.ended

theorem apart_of_mem_polls (apart : t.Apart) {rounds : List (List Notification)}
    {poll : JobTable × List Notification} (h : poll ∈ t.polls rounds) : poll.1.Apart := by
  induction rounds generalizing t with
  | nil => cases h
  | cons reports rest ih =>
    rcases List.mem_cons.mp h with rfl | h
    · exact apart
    · refine ih ?_ h
      rw [table_reap_eq]
      exact apart.settleAll (changesOf reports)

theorem outputs_eq (t : JobTable) (rounds : List (List Notification)) :
    t.outputs rounds = (t.bulletins rounds).map Bulletin.text := by
  simp only [outputs, bulletins, List.map_map]
  exact List.map_congr_left fun poll _ => output_reap poll.1 poll.2

/-- Polls in a row do to the table what all their changes do. -/
theorem afterPolls_eq (t : JobTable) (rounds : List (List Notification)) :
    t.afterPolls rounds = t.settleAll (changesOf rounds.flatten) := by
  induction rounds generalizing t with
  | nil => rfl
  | cons reports rest ih =>
    rw [List.flatten_cons, changesOf_append, settleAll_append, ← table_reap_eq t reports]
    exact ih _

/-- Polls in a row report as ended what all their changes end. -/
theorem endedInPolls_eq (t : JobTable) (rounds : List (List Notification)) :
    t.endedInPolls rounds = t.ended (changesOf rounds.flatten) := by
  induction rounds generalizing t with
  | nil => rfl
  | cons reports rest ih =>
    rw [List.flatten_cons, changesOf_append, ended_append, ← table_reap_eq t reports, ← ih]
    rfl

end JobTable

end JobControl
