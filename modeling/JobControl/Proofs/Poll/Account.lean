import JobControl.Machine.System
import JobControl.Proofs.Kernel.Foretold
import JobControl.Proofs.Poll.Bulletin
import JobControl.Shell.Session
import Mathlib.Order.Bounds.Basic
import Mathlib.Data.Nat.Find

/-!
# What one poll removes and prints

A poll takes the results that the system gives, up to the first one that says there is nothing more,
and applies the changes they imply.  When a job ends or stops is a place in that list of changes.  A
job ends at the first change to it that leaves all its stages ended (`JobTable.EndedAt`); it stops
at the first change that suspends a stage of it, if it is still there in the end and all its
unfinished stages are suspended then (`JobTable.StoppedAt`).  The poll removes the jobs that end and
no others.  It prints a report on each of them, and then one on each job that stops, both in the
order of these places (`Session.accounts_poll`).
-/

set_option autoImplicit false

namespace JobControl

/-! ## First moments -/

section

variable {P : Nat → Prop} {n : Nat}

theorem isLeast_zero_iff : IsLeast {m | P m} 0 ↔ P 0 :=
  ⟨fun h => h.1, fun h => ⟨h, fun m _ => Nat.zero_le m⟩⟩

theorem isLeast_succ_iff : IsLeast {m | P m} (n + 1) ↔ ¬P 0 ∧ IsLeast {m | P (m + 1)} n := by
  constructor
  · rintro ⟨here, least⟩
    refine ⟨fun now => ?_, here, fun m hm => ?_⟩
    · have := least now
      omega
    · have := least (show m + 1 ∈ {m | P m} from hm)
      omega
  · rintro ⟨not_yet, here, least⟩
    refine ⟨here, fun m hm => ?_⟩
    cases m with
    | zero => exact absurd hm not_yet
    | succ m =>
      have := least (show m ∈ {m | P (m + 1)} from hm)
      omega

theorem exists_isLeast_iff : (∃ n, IsLeast {m | P m} n) ↔ ∃ n, P n := by
  classical
  refine ⟨fun ⟨n, h⟩ => ⟨n, h.1⟩, fun h => ?_⟩
  exact ⟨Nat.find h, Nat.find_spec h, fun m hm => Nat.find_min' h hm⟩

end

/-- Each member of the list has its moment, and they stand in the order of their moments. -/
def InOrder {α : Type} (moment : Nat → α → Prop) (l : List α) : Prop :=
  ∃ moments : List Nat, moments.Pairwise (· < ·) ∧ List.Forall₂ moment moments l

namespace InOrder

variable {α β : Type} {moment : Nat → α → Prop} {l : List α} {a : α}

theorem nil : InOrder moment [] :=
  ⟨[], .nil, .nil⟩

theorem imp {moment' : Nat → α → Prop} (h : InOrder moment l)
    (same : ∀ n, ∀ a ∈ l, moment n a → moment' n a) : InOrder moment' l := by
  obtain ⟨moments, ascending, each⟩ := h
  refine ⟨moments, ascending, ?_⟩
  induction each with
  | nil => exact .nil
  | cons first _ ih =>
    obtain ⟨-, ascending⟩ := List.pairwise_cons.mp ascending
    exact .cons (same _ _ List.mem_cons_self first)
      (ih (fun n a ha => same n a (List.mem_cons_of_mem _ ha)) ascending)

/-- Moments may be counted from one later. -/
theorem later (h : InOrder (fun n => moment (n + 1)) l) : InOrder moment l := by
  obtain ⟨moments, ascending, each⟩ := h
  refine ⟨moments.map (· + 1), List.pairwise_map.mpr (ascending.imp ?_),
    List.forall₂_map_left_iff.mpr each⟩
  omega

/-- What has its moment at the beginning comes first. -/
theorem cons (first : moment 0 a) (h : InOrder (fun n => moment (n + 1)) l) :
    InOrder moment (a :: l) := by
  obtain ⟨moments, ascending, each⟩ := h
  refine ⟨0 :: moments.map (· + 1), List.pairwise_cons.mpr ⟨?_, ?_⟩,
    .cons first (List.forall₂_map_left_iff.mpr each)⟩
  · intro n hn
    obtain ⟨m, -, rfl⟩ := List.mem_map.mp hn
    omega
  · refine List.pairwise_map.mpr (ascending.imp ?_)
    omega

/-- A list that is made of some of the members keeps the order. -/
theorem filterMap {moment' : Nat → β → Prop} {f : α → Option β} (h : InOrder moment l)
    (same : ∀ n a b, moment n a → f a = some b → moment' n b) :
    InOrder moment' (l.filterMap f) := by
  obtain ⟨moments, ascending, each⟩ := h
  suffices ∃ kept, kept.Sublist moments ∧ List.Forall₂ moment' kept (l.filterMap f) by
    obtain ⟨kept, sublist, each⟩ := this
    exact ⟨kept, ascending.sublist sublist, each⟩
  induction each with
  | nil => exact ⟨[], .slnil, .nil⟩
  | @cons n a _ _ first _ ih =>
    obtain ⟨kept, sublist, each⟩ := ih (List.pairwise_cons.mp ascending).2
    rw [List.filterMap_cons]
    split
    case h_1 => exact ⟨kept, sublist.cons n, each⟩
    case h_2 b made => exact ⟨n :: kept, sublist.cons_cons n, .cons (same n a b first made) each⟩

end InOrder

/-! ## The moments of a job -/

namespace Job

variable {j j' : Job} {change : StatusChange} {rest changes : List StatusChange} {n : Nat}

/-- The change at this place is one of the job, and leaves all its stages ended. -/
def OverAt (j : Job) (changes : List StatusChange) (n : Nat) : Prop :=
  ∃ change, changes[n]? = some change ∧ change.pid ∈ j.pids ∧
    (j.after (changes.take (n + 1))).isOver = true

/-- The change at this place suspends a stage of the job. -/
def SuspendedAt (j : Job) (changes : List StatusChange) (n : Nat) : Prop :=
  ∃ change, changes[n]? = some change ∧ change.pid ∈ j.pids ∧ change.status = .suspended

theorem overAt_zero : j.OverAt (change :: rest) 0 ↔
    change.pid ∈ j.pids ∧ (j.apply change).isOver = true := by
  simp [OverAt, after]

theorem overAt_succ : j.OverAt (change :: rest) (n + 1) ↔ (j.apply change).OverAt rest n := by
  simp [OverAt, after, pids_apply]

theorem suspendedAt_zero : j.SuspendedAt (change :: rest) 0 ↔
    change.pid ∈ j.pids ∧ change.status = .suspended := by
  simp [SuspendedAt]

theorem suspendedAt_succ :
    j.SuspendedAt (change :: rest) (n + 1) ↔ (j.apply change).SuspendedAt rest n := by
  simp [SuspendedAt, pids_apply]

theorem suspendedAt_after (l : List StatusChange) :
    (j.after l).SuspendedAt changes n ↔ j.SuspendedAt changes n := by
  rw [SuspendedAt, SuspendedAt, pids_after]

theorem exists_suspendedAt_iff : (∃ n, j.SuspendedAt changes n) ↔
    ∃ change ∈ changes, change.status = .suspended ∧ change.pid ∈ j.pids := by
  constructor
  · rintro ⟨n, change, there, own, suspended⟩
    exact ⟨change, List.mem_of_getElem? there, suspended, own⟩
  · rintro ⟨change, hchange, suspended, own⟩
    obtain ⟨n, there⟩ := List.mem_iff_getElem?.mp hchange
    exact ⟨n, change, there, own, suspended⟩

/-- A job leaves at the first change that is one of it and leaves all its stages ended. -/
theorem ending?_eq_some_iff : j.ending? changes = some j' ↔
    ∃ n, IsLeast {m | j.OverAt changes m} n ∧ j' = j.after (changes.take (n + 1)) := by
  induction changes generalizing j with
  | nil => simp [ending?, OverAt, IsLeast]
  | cons change rest ih =>
    rw [ending?]
    split
    case isTrue now =>
      have first : IsLeast {m | j.OverAt (change :: rest) m} 0 :=
        isLeast_zero_iff.mpr (overAt_zero.mpr now)
      constructor
      · intro same
        exact ⟨0, first, (Option.some.inj same).symm⟩
      · rintro ⟨n, least, rfl⟩
        obtain rfl := least.unique first
        rfl
    case isFalse runs =>
      rw [ih]
      constructor
      · rintro ⟨n, least, rfl⟩
        refine ⟨n + 1, isLeast_succ_iff.mpr ⟨fun now => runs (overAt_zero.mp now), ?_⟩, rfl⟩
        simpa only [overAt_succ] using least
      · rintro ⟨n, least, rfl⟩
        cases n with
        | zero => exact absurd (overAt_zero.mp (isLeast_zero_iff.mp least)) runs
        | succ n =>
          obtain ⟨-, least⟩ := isLeast_succ_iff.mp least
          exact ⟨n, by simpa only [overAt_succ] using least, rfl⟩

theorem ending?_eq_none_iff : j.ending? changes = none ↔ ∀ n, ¬j.OverAt changes n := by
  constructor
  · intro stays n now
    obtain ⟨first, least⟩ := exists_isLeast_iff.mpr ⟨n, now⟩
    rw [ending?_eq_some_iff.mpr ⟨first, least, rfl⟩] at stays
    cases stays
  · intro never
    cases ends : j.ending? changes with
    | none => rfl
    | some j' =>
      obtain ⟨n, least, -⟩ := ending?_eq_some_iff.mp ends
      exact absurd least.1 (never n)

end Job

/-! ## The reports of a poll and their moments -/

namespace JobTable

variable {t : JobTable} {changes : List StatusChange}

/-- The report is the final one on a job that the change at this place ends. -/
def EndedAt (t : JobTable) (changes : List StatusChange) (n : Nat) (report : Nat × Job) : Prop :=
  ∃ e ∈ t.entries, e.id = report.1 ∧ IsLeast {m | e.job.OverAt changes m} n ∧
    report.2 = e.job.after (changes.take (n + 1))

/-- The report shows a job of the table with all unfinished stages suspended.  The change at this
place is the first that suspended one of its stages. -/
def StoppedAt (t : JobTable) (changes : List StatusChange) (n : Nat) (report : Nat × Job) : Prop :=
  t.find? report.1 = some report.2 ∧ report.2.isStopped = true ∧
    IsLeast {m | report.2.SuspendedAt changes m} n

theorem mem_ended_iff (apart : t.Apart) {report : Nat × Job} :
    report ∈ t.ended changes ↔ ∃ n, t.EndedAt changes n report := by
  rw [mem_ended apart]
  constructor
  · rintro ⟨e, he, hid, ends⟩
    obtain ⟨n, least, last⟩ := Job.ending?_eq_some_iff.mp ends
    exact ⟨n, e, he, hid, least, last⟩
  · rintro ⟨n, e, he, hid, least, last⟩
    exact ⟨e, he, hid, Job.ending?_eq_some_iff.mpr ⟨n, least, last⟩⟩

/-- **The final reports stand in the order in which the jobs ended.** -/
theorem inOrder_ended (apart : t.Apart) (changes : List StatusChange) :
    InOrder (t.EndedAt changes) (t.ended changes) := by
  induction changes generalizing t with
  | nil => exact .nil
  | cons change rest ih =>
    -- what ends later ends one place later, seen from here
    have later : InOrder (fun n => t.EndedAt (change :: rest) (n + 1))
        ((t.settle change).ended rest) := by
      refine (ih (apart.settle change)).imp fun n report _ => ?_
      rintro ⟨e', he', hid, least, last⟩
      obtain ⟨e, he, stays, rfl⟩ := (mem_settle apart).mp he'
      refine ⟨e, he, hid, isLeast_succ_iff.mpr ⟨fun now => ?_, ?_⟩, last⟩
      · exact stays (Job.overAt_zero.mp now)
      · simpa only [Job.overAt_succ] using least
    rcases endedBy_eq apart change with ⟨e, he, own, closed, eq⟩ | ⟨-, eq⟩
    · rw [ended, eq]
      exact later.cons
        ⟨e, he, rfl, isLeast_zero_iff.mpr (Job.overAt_zero.mpr ⟨own, closed⟩), rfl⟩
    · rw [ended, eq]
      exact later.later

end JobTable

namespace Reaping

variable {r : Reaping}

/-- The jobs that are to be looked at after the drain stand in the order in which a stage of them
was first suspended. -/
theorem inOrder_stopped (apart : r.table.Apart) (once : r.stopped.Nodup)
    (changes : List StatusChange) :
    ∃ new, (changes.foldl record r).stopped = r.stopped ++ new ∧
      InOrder (fun n id => ∃ e ∈ r.table.entries, e.id = id ∧
        IsLeast {m | e.job.SuspendedAt changes m} n) new := by
  induction changes generalizing r with
  | nil => exact ⟨[], (List.append_nil _).symm, .nil⟩
  | cons change rest ih =>
    have table : (r.record change).table = r.table.settle change := JobTable.table_record r change
    obtain ⟨new, listed, order⟩ :=
      ih (r := r.record change) (table ▸ apart.settle change) (nodup_stopped_record once)
    have distinct : ((r.record change).stopped ++ new).Nodup := by
      rw [← listed]
      exact nodup_stopped_foldl (nodup_stopped_record once) rest
    -- a job that is put on the list later has no stage suspended by this change
    have later : InOrder (fun n id => ∃ e ∈ r.table.entries, e.id = id ∧
        IsLeast {m | e.job.SuspendedAt (change :: rest) m} (n + 1)) new := by
      refine order.imp fun n id hid => ?_
      rintro ⟨e', he', rfl, least⟩
      rw [table] at he'
      obtain ⟨e, he, -, rfl⟩ := (JobTable.mem_settle apart).mp he'
      refine ⟨e, he, rfl, isLeast_succ_iff.mpr ⟨fun now => ?_, ?_⟩⟩
      · obtain ⟨own, suspended⟩ := Job.suspendedAt_zero.mp now
        have already : e.id ∈ (r.record change).stopped :=
          mem_stopped_record.mpr (Or.inr ⟨suspended, (apart.findByPid?_eq_iff he).mpr own⟩)
        exact (List.disjoint_of_nodup_append distinct) already hid
      · simpa only [Job.suspendedAt_succ] using least
    have before := stopped_record r change
    cases found : r.table.findByPid? change.pid with
    | none =>
      rw [found] at before
      exact ⟨new, by rw [List.foldl_cons, listed, before], later.later⟩
    | some id =>
      rw [found] at before
      dsimp only at before
      split at before
      case isTrue first =>
        obtain ⟨e, he, rfl, own⟩ := JobTable.findByPid?_eq_some found
        refine ⟨e.id :: new, ?_, later.cons ⟨e, he, rfl, isLeast_zero_iff.mpr ?_⟩⟩
        · rw [List.foldl_cons, listed, before, List.append_assoc]
          rfl
        · exact Job.suspendedAt_zero.mpr ⟨own, first.1⟩
      case isFalse => exact ⟨new, by rw [List.foldl_cons, listed, before], later.later⟩

end Reaping

namespace JobTable

variable {t : JobTable} {reports : List Notification}

theorem mem_stops_iff (apart : t.Apart) {report : Nat × Job} :
    report ∈ (t.reap reports).stops ↔
      ∃ n, (t.reap reports).table.StoppedAt (changesOf reports) n report := by
  rw [mem_stops_reap apart, ← Job.exists_suspendedAt_iff, ← exists_isLeast_iff]
  simp only [StoppedAt, exists_and_left]

/-- **The stop reports stand in the order in which the jobs first stopped.** -/
theorem inOrder_stops (apart : t.Apart) (reports : List Notification) :
    InOrder ((t.reap reports).table.StoppedAt (changesOf reports)) (t.reap reports).stops := by
  obtain ⟨new, listed, order⟩ :=
    Reaping.inOrder_stopped (r := .start t) apart List.nodup_nil (changesOf reports)
  have all : (t.reap reports).stopped = new := listed
  rw [Reaping.stops, all]
  refine order.filterMap ?_
  rintro n id report ⟨e, he, rfl, least⟩ made
  obtain ⟨job, found, shown⟩ := Option.bind_eq_some_iff.mp made
  obtain ⟨stopped, shown⟩ := Option.ite_none_right_eq_some.mp shown
  obtain rfl := Option.some.inj shown
  refine ⟨found, stopped, ?_⟩
  -- the job that is shown has the processes of the entry
  obtain ⟨e', he', same, rfl⟩ := find?_eq_some_iff.mp found
  rw [table_reap_eq] at he'
  obtain ⟨first, hfirst, -, rfl⟩ := (mem_settleAll apart).mp he'
  obtain rfl := eq_of_id_eq hfirst he same
  simpa only [Job.suspendedAt_after] using least

/-- **What a poll does to a table and what it prints**, given the changes of the poll: the table
after it, the final reports and the stop reports. -/
structure Account (t : JobTable) (changes : List StatusChange) (after : JobTable)
    (ended stopped : List (Nat × Job)) : Prop where
  /-- The jobs that no change ends stay, each changed by all changes. -/
  stays : ∀ e', e' ∈ after.entries ↔
    ∃ e ∈ t.entries, (∀ n, ¬e.job.OverAt changes n) ∧ e' = { e with job := e.job.after changes }
  capacity : after.capacity = t.capacity
  registered : after.registered = t.registered
  /-- The jobs with a final report are those that leave. -/
  removed : ∀ id, id ∈ ended.map Prod.fst ↔
    (∃ job, t.find? id = some job) ∧ after.find? id = none
  /-- Each job that a change ends has a final report, as that change left it. -/
  ended_iff : ∀ report, report ∈ ended ↔ ∃ n, t.EndedAt changes n report
  ended_once : (ended.map Prod.fst).Nodup
  ended_inOrder : InOrder (t.EndedAt changes) ended
  /-- Each job that has stopped in the end, after a change suspended a stage of it, has a stop
  report, as all changes left it. -/
  stopped_iff : ∀ report, report ∈ stopped ↔ ∃ n, after.StoppedAt changes n report
  stopped_once : (stopped.map Prod.fst).Nodup
  stopped_inOrder : InOrder (after.StoppedAt changes) stopped
  /-- A job without a change has the entry it had, and there is no report on it. -/
  unconcerned : ∀ e ∈ t.entries, (∀ change ∈ changes, change.pid ∉ e.job.pids) →
    e ∈ after.entries ∧ e.id ∉ (ended ++ stopped).map Prod.fst

theorem account_reap (apart : t.Apart) (reports : List Notification) :
    t.Account (changesOf reports) (t.reap reports).table (t.ended (changesOf reports))
      (t.reap reports).stops where
  stays e' := by
    rw [table_reap_eq, mem_settleAll apart]
    simp only [Job.ending?_eq_none_iff]
  capacity := by
    rw [table_reap_eq]
    exact (settleAll_frame t _).1
  registered := by
    rw [table_reap_eq]
    exact (settleAll_frame t _).2
  removed id := by
    rw [table_reap_eq]
    exact id_mem_ended_iff apart
  ended_iff _ := mem_ended_iff apart
  ended_once := nodup_ended apart _
  ended_inOrder := inOrder_ended apart _
  stopped_iff _ := mem_stops_iff apart
  stopped_once := nodup_stops_reap t reports
  stopped_inOrder := inOrder_stops apart reports
  unconcerned := by
    intro e he unconcerned
    have same : e.job.after (changesOf reports) = e.job := Job.after_eq_self unconcerned
    have never : e.job.ending? (changesOf reports) = none := by
      refine Job.ending?_eq_none_iff.mpr ?_
      rintro n ⟨change, there, own, -⟩
      exact unconcerned change (List.mem_of_getElem? there) own
    have stays : e ∈ (t.reap reports).table.entries := by
      rw [table_reap_eq, mem_settleAll apart]
      exact ⟨e, he, never, by rw [same]⟩
    refine ⟨stays, fun mentioned => ?_⟩
    rw [List.map_append, List.mem_append] at mentioned
    rcases mentioned with ended | stopped
    · have gone := ((id_mem_ended_iff apart).mp ended).2
      rw [← table_reap_eq, find?_of_mem stays] at gone
      cases gone
    · obtain ⟨⟨id, job⟩, hstop, rfl⟩ := List.mem_map.mp stopped
      obtain ⟨found, -, change, hchange, -, own⟩ := (mem_stops_reap apart).mp hstop
      rw [job_of_find? found stays rfl] at unconcerned
      exact unconcerned change hchange own

end JobTable

/-! ## A poll of a session -/

section

variable {κ : Type} [Kernel κ] {k k' : κ}

theorem drain_of_report {n : Notification} (answer : Kernel.collect k = (.ok n, k'))
    (reports : n ≠ .stillAlive) :
    drain k = (n :: (drain k').1, (drain k').2.1, (drain k').2.2) := by
  rw [drain]
  split <;> rename_i given <;> rw [answer] at given <;> cases given
  rw [dif_neg reports]

theorem drain_of_interruption (answer : Kernel.collect k = (.error .eintr, k')) :
    drain k = drain k' := by
  rw [drain]
  split <;> rename_i given <;> rw [answer] at given <;> cases given
  rw [dif_pos rfl]

theorem drain_of_end {last : WaitResult} (answer : Kernel.collect k = (last, k'))
    (ends : last = .ok .stillAlive ∨ last = .error .echild) : drain k = ([], none, k') := by
  rw [drain]
  rcases ends with rfl | rfl
  · split <;> rename_i given <;> rw [answer] at given <;> cases given
    rw [dif_pos rfl]
  · split <;> rename_i given <;> rw [answer] at given <;> cases given
    rw [dif_neg (by decide), if_pos rfl]

/-- **What a drain takes** if the system gives these answers: the reports among them. -/
theorem drain_of_gives {answers : List WaitResult} {last : WaitResult}
    (gives : Gives Kernel.collect k (answers ++ [last]) k')
    (goes_on : ∀ r ∈ answers, WaitResult.drainGoesOn r = true)
    (ends : last = .ok .stillAlive ∨ last = .error .echild) :
    drain k = (answers.filterMap Except.toOption, none, k') := by
  induction answers generalizing k with
  | nil =>
    obtain _ | ⟨answer, _ | _⟩ := gives
    exact drain_of_end answer ends
  | cons first rest ih =>
    obtain _ | ⟨answer, later⟩ := gives
    have behind := ih later fun r hr => goes_on r (List.mem_cons_of_mem first hr)
    have here := goes_on first List.mem_cons_self
    cases first with
    | ok n =>
      have reports : n ≠ .stillAlive := by
        rintro rfl
        cases here
      rw [drain_of_report answer reports, behind]
      rfl
    | error e =>
      obtain rfl : e = .eintr := eq_of_beq here
      rw [drain_of_interruption answer, behind]
      rfl

end

namespace Session

variable {κ : Type} [Kernel κ]

/-- **What a poll that takes these reports prints and does.**  Apart from the table it leaves the
shell as it was. -/
structure AccountsFor (s : Session κ) (reports : List Notification)
    (ended stopped : List (Nat × Job)) : Prop where
  output : s.poll.1 = Job.reports (ended ++ stopped)
  shell : s.poll.2.shell = { s.shell with jobs := s.poll.2.shell.jobs }
  table : s.shell.jobs.Account (changesOf reports) s.poll.2.shell.jobs ended stopped
  /-- Without a report on a process that has no entry when it comes, or a report that implies no
  change, the poll would do the same. -/
  unknown : ∀ before n after, reports = before ++ n :: after →
    (∀ change, n.change? = some change → change.pid ∉ (s.shell.jobs.reap before).table.pids) →
      s.poll.2.shell.jobs = (s.shell.jobs.reap (before ++ after)).table ∧
        s.poll.1 = (s.shell.jobs.reap (before ++ after)).output
  /-- A poll without a change does nothing. -/
  quiet : changesOf reports = [] → s.poll.2.shell = s.shell ∧ s.poll.1 = ""

/-- **A poll accounts for the changes that the system reports.**  Let no two stages of the table have
the same process, and let the system give a poll any answers that it goes on after, and then say that
no child has a report or that there is no child.  The poll removes the jobs that these changes end,
and no others.  It prints the final reports, in the order in which the jobs ended, and then a report
on each job that stays and has stopped, if one of the changes suspended a stage of it, in the order
of the first such changes. -/
theorem accounts_poll (s : Session κ) (distinct : s.shell.jobs.pids.Nodup)
    {answers : List WaitResult} {last : WaitResult} {kernel : κ}
    (gives : Gives Kernel.collect s.kernel (answers ++ [last]) kernel)
    (goes_on : ∀ r ∈ answers, WaitResult.drainGoesOn r = true)
    (ends : last = .ok .stillAlive ∨ last = .error .echild) :
    ∃ ended stopped, s.AccountsFor (answers.filterMap Except.toOption) ended stopped := by
  have drained := drain_of_gives gives goes_on ends
  generalize answers.filterMap Except.toOption = reports at drained
  have apart := JobTable.Apart.of_nodup distinct
  have output : s.poll.1 = (s.shell.jobs.reap reports).output := by
    rw [poll, drained]
  have table : s.poll.2.shell.jobs = (s.shell.jobs.reap reports).table := by
    rw [poll, drained]
  have text : s.poll.1 = (s.shell.jobs.bulletin reports).text :=
    output.trans (JobTable.output_reap s.shell.jobs reports)
  refine ⟨_, _, text, rfl, ?_, ?_, ?_⟩
  · rw [table]
    exact JobTable.account_reap apart reports
  · rintro before n after rfl unknown
    rw [output, table]
    exact s.shell.jobs.reap_unknown before unknown after
  · intro none
    have unchanged : s.poll.2.shell.jobs = s.shell.jobs := by
      rw [table, JobTable.table_reap_eq, none]
      rfl
    refine ⟨?_, ?_⟩
    · show { s.shell with jobs := s.poll.2.shell.jobs } = s.shell
      rw [unchanged]
    · rw [output, JobTable.reap, show reports.filterMap Notification.change? = [] from none]
      rfl

/-- Three jobs in the background, the first one of two stages. -/
def threeJobs : JobTable where
  capacity := 3
  entries := [
    ⟨1, 0, ⟨some 1, some 100, .background, "a | b",
      [.named "a" 100 .running, .named "b" 101 .running]⟩⟩,
    ⟨2, 1, ⟨some 2, some 200, .background, "c", [.named "c" 200 .running]⟩⟩,
    ⟨3, 2, ⟨some 3, some 300, .background, "d", [.named "d" 300 .running]⟩⟩]
  registered := 3
  ordered := by decide
  numbered := by decide

/-- The first job stops and goes on, loses a stage, and stops again.  The second one stops and is
killed; its process is reported on once more when it has left.  Process 999 has no entry. -/
def mixedAnswers : List WaitResult :=
  [.ok (.stopped 100 .tstp), .ok (.stopped 200 .stop), .error .eintr, .ok (.continued 100),
    .ok (.exited 101 0), .ok (.exited 999 1), .ok (.signaled 200 .kill false),
    .ok (.stopped 100 .stop), .ok (.stopped 200 .stop)]

/-- There is a final report on the second job, one stop report on the first and none on the third. -/
theorem accounts_poll_mixed :
    ∃ s : Session (Foretold Machine), s.shell.jobs = threeJobs ∧
      s.poll.1 = "[2]\t200\tterminated\tc\n[1]\t100\tsuspended\ta|\n\t101\tdone\tb\n" ∧
      ∃ ended stopped, s.AccountsFor (mixedAnswers.filterMap Except.toOption) ended stopped := by
  let s : Session (Foretold Machine) :=
    (start ⟨true, "$ ", 3, false⟩ ⟨"user", "/"⟩
      ⟨Machine.boot .bare FileTree.root .sink, mixedAnswers ++ [.error .echild]⟩).withJobs threeJobs
  have gives := Foretold.gives_collect s.kernel.system (mixedAnswers ++ [.error .echild]) []
  exact ⟨s, rfl, by decide +kernel,
    accounts_poll s (by decide) gives (by decide) (Or.inr rfl)⟩

end Session

end JobControl
