import JobControl.Proofs.Job.Table
import Mathlib.Data.List.Nodup

/-!
# What a list of changes does to a table

A poll applies its changes one after the other, and a job leaves in the middle of it when its last
stage ends.  If the jobs have no process in common, each job goes its own way: it is changed by all
changes of the list (`Job.after`), unless some change ends it (`Job.ending?`), and the table
afterwards holds the jobs that were not ended (`JobTable.mem_settleAll`).  `JobTable.ended` lists
the jobs that were, in the order in which they ended (`JobTable.mem_ended`).
-/

set_option autoImplicit false

namespace JobControl

/-! ## One job -/

namespace Job

/-- The job after a list of changes. -/
def after (j : Job) (changes : List StatusChange) : Job :=
  changes.foldl apply j

/-- The job as it is when the first of these changes ends it, if one does.  A change of another
process ends no job. -/
def ending? (j : Job) : List StatusChange → Option Job
  | [] => none
  | change :: rest =>
    if change.pid ∈ j.pids ∧ (j.apply change).isOver = true then some (j.apply change)
    else (j.apply change).ending? rest

variable {j j' : Job} {change : StatusChange} {changes : List StatusChange}

theorem pids_apply : (j.apply change).pids = j.pids :=
  (Advances.apply j change).pids_eq

theorem pids_after : (j.after changes).pids = j.pids := by
  induction changes generalizing j with
  | nil => rfl
  | cons change rest ih => exact (ih (j := j.apply change)).trans pids_apply

theorem after_append (j : Job) (changes more : List StatusChange) :
    j.after (changes ++ more) = (j.after changes).after more :=
  List.foldl_append

/-- Changes of other processes leave a job as it is. -/
theorem after_eq_self (h : ∀ change ∈ changes, change.pid ∉ j.pids) : j.after changes = j := by
  induction changes with
  | nil => rfl
  | cons change rest ih =>
    rw [after, List.foldl_cons, apply_eq_self (h change List.mem_cons_self)]
    exact ih fun later hlater => h later (List.mem_cons_of_mem change hlater)

/-- A job that leaves does so with a change of one of its processes, and it is over. -/
theorem isOver_of_ending? (h : j.ending? changes = some j') :
    (∃ change ∈ changes, change.pid ∈ j.pids) ∧ j'.isOver = true := by
  induction changes generalizing j with
  | nil => cases h
  | cons change rest ih =>
    simp only [ending?] at h
    split at h
    case isTrue ends =>
      cases h
      exact ⟨⟨change, List.mem_cons_self, ends.1⟩, ends.2⟩
    case isFalse =>
      obtain ⟨⟨later, hlater, hpid⟩, closed⟩ := ih h
      rw [pids_apply] at hpid
      exact ⟨⟨later, List.mem_cons_of_mem change hlater, hpid⟩, closed⟩

/-- A job that stays although some change was of one of its processes is not over. -/
theorem isOver_after (stays : j.ending? changes = none)
    (concerned : ∃ change ∈ changes, change.pid ∈ j.pids) : (j.after changes).isOver = false := by
  induction changes generalizing j with
  | nil => obtain ⟨_, h, -⟩ := concerned; cases h
  | cons change rest ih =>
    simp only [ending?] at stays
    split at stays
    case isTrue => cases stays
    case isFalse runs =>
      by_cases later : ∃ change ∈ rest, change.pid ∈ j.pids
      · exact ih stays (by rwa [pids_apply])
      · -- this is the last change of the job, and it did not end it
        have last : (j.apply change).after rest = j.apply change :=
          after_eq_self fun other hother hpid => later ⟨other, hother, by rwa [pids_apply] at hpid⟩
        have own : change.pid ∈ j.pids :=
          ((List.exists_mem_cons_iff _ _ _).mp concerned).resolve_right later
        exact (congrArg isOver last).trans (by simpa [own] using runs)

end Job

/-! ## One entry -/

/-- An entry after a change; none if the change ends its job. -/
def TableEntry.settle (change : StatusChange) (e : TableEntry) : Option TableEntry :=
  if change.pid ∈ e.job.pids ∧ (e.job.apply change).isOver = true then none
  else some { e with job := e.job.apply change }

/-- An entry after a list of changes; none if one of them ends its job. -/
def TableEntry.settleAll (changes : List StatusChange) (e : TableEntry) : Option TableEntry :=
  match e.job.ending? changes with
  | some _ => none
  | none => some { e with job := e.job.after changes }

namespace TableEntry

variable {e e' : TableEntry} {change : StatusChange} {changes : List StatusChange}

theorem settle_eq_some (h : change.pid ∉ e.job.pids) : e.settle change = some e := by
  simp only [settle, h, false_and, if_false, Job.apply_eq_self h]

theorem settleAll_cons (change : StatusChange) (rest : List StatusChange) (e : TableEntry) :
    e.settleAll (change :: rest) = (e.settle change).bind (settleAll rest) := by
  by_cases ends : change.pid ∈ e.job.pids ∧ (e.job.apply change).isOver = true
  · simp only [settleAll, settle, Job.ending?, if_pos ends, Option.bind_none]
  · simp only [settleAll, settle, Job.ending?, if_neg ends, Option.bind_some]
    rfl

theorem settleAll_eq_some_iff : e.settleAll changes = some e' ↔
    e.job.ending? changes = none ∧ e' = { e with job := e.job.after changes } := by
  unfold settleAll
  split
  case h_1 ended => simp [ended]
  case h_2 stays => simp [stays, eq_comm]

end TableEntry

/-! ## Tables -/

namespace JobTable

variable {t t' : JobTable} {e e' : TableEntry} {id : Nat} {job : Job} {change : StatusChange}
  {changes : List StatusChange}

theorem nodup_pids_iff : t.pids.Nodup ↔
    (∀ e ∈ t.entries, e.job.pids.Nodup) ∧
      t.entries.Pairwise fun e e' => e.job.pids.Disjoint e'.job.pids :=
  List.nodup_flatMap

/-- Jobs of which no two stages were launched as the same process have none in common. -/
theorem Apart.of_nodup (h : t.pids.Nodup) : t.Apart := by
  intro e he e' he' p hp hp'
  by_contra hne
  have : Std.Symm fun a b : TableEntry => a.job.pids.Disjoint b.job.pids :=
    ⟨fun _ _ disjoint _ hb ha => disjoint ha hb⟩
  have disjoint := (nodup_pids_iff.mp h).2.forall he he' fun same => hne (congrArg _ same)
  exact disjoint hp hp'

theorem entries_settle (apart : t.Apart) (change : StatusChange) :
    (t.settle change).entries = t.entries.filterMap (TableEntry.settle change) := by
  rcases settle_eq t change with ⟨unknown, same⟩ | ⟨own, hown, -, hpid, settled⟩
  · have kept : t.entries.filterMap (TableEntry.settle change) = t.entries.filterMap some :=
      List.filterMap_congr fun e he =>
        TableEntry.settle_eq_some (findByPid?_eq_none_iff.mp unknown e he)
    rw [same, kept, List.filterMap_some]
  -- the change is about the one entry `own` and leaves the others as they are
  have self : ∀ e ∈ t.entries, e.id = own.id → e = own :=
    fun e he hid => eq_of_id_eq he hown hid
  have other : ∀ e ∈ t.entries, e.id ≠ own.id → e.settle change = some e :=
    fun e he hne => TableEntry.settle_eq_some fun hp => hne (apart e he own hown _ hp hpid)
  rw [settled]
  split
  case isTrue closed =>
    simp only [erase, modify, ← List.filterMap_eq_filter, List.filterMap_map]
    refine List.filterMap_congr fun e he => ?_
    by_cases hid : e.id = own.id
    · obtain rfl := self e he hid
      simp [TableEntry.settle, hpid, closed, TableEntry.id_modify, Option.guard]
    · simp [other e he hid, TableEntry.modify, hid, Option.guard]
  case isFalse running =>
    simp only [modify, ← List.filterMap_eq_map]
    refine List.filterMap_congr fun e he => ?_
    by_cases hid : e.id = own.id
    · obtain rfl := self e he hid
      simp [TableEntry.settle, running, TableEntry.modify]
    · simp [other e he hid, TableEntry.modify, hid]

/-- The table after a list of changes. -/
def settleAll (t : JobTable) (changes : List StatusChange) : JobTable :=
  changes.foldl settle t

theorem settleAll_append (t : JobTable) (changes more : List StatusChange) :
    t.settleAll (changes ++ more) = (t.settleAll changes).settleAll more :=
  List.foldl_append

theorem Apart.settleAll (apart : t.Apart) (changes : List StatusChange) :
    (t.settleAll changes).Apart := by
  induction changes generalizing t with
  | nil => exact apart
  | cons change rest ih => exact ih (apart.settle change)

theorem entries_settleAll (apart : t.Apart) (changes : List StatusChange) :
    (t.settleAll changes).entries = t.entries.filterMap (TableEntry.settleAll changes) := by
  induction changes generalizing t with
  | nil =>
    have same : TableEntry.settleAll [] = some := rfl
    rw [same, List.filterMap_some]
    rfl
  | cons change rest ih =>
    have tail : (t.settleAll (change :: rest)).entries =
        (t.settle change).entries.filterMap (TableEntry.settleAll rest) :=
      ih (apart.settle change)
    rw [tail, entries_settle apart, List.filterMap_filterMap]
    exact List.filterMap_congr fun e _ => (e.settleAll_cons change rest).symm

/-- **The table after a list of changes** holds the jobs that none of them ended, each changed by
all of them. -/
theorem mem_settleAll (apart : t.Apart) : e' ∈ (t.settleAll changes).entries ↔
    ∃ e ∈ t.entries, e.job.ending? changes = none ∧
      e' = { e with job := e.job.after changes } := by
  simp only [entries_settleAll apart, List.mem_filterMap, TableEntry.settleAll_eq_some_iff]

theorem mem_settle (apart : t.Apart) : e' ∈ (t.settle change).entries ↔
    ∃ e ∈ t.entries, ¬(change.pid ∈ e.job.pids ∧ (e.job.apply change).isOver = true) ∧
      e' = { e with job := e.job.apply change } := by
  simp only [entries_settle apart, List.mem_filterMap, TableEntry.settle]
  refine exists_congr fun e => and_congr_right fun _ => ?_
  split
  case isTrue ends => exact ⟨fun h => (nomatch h), fun h => absurd ends h.1⟩
  case isFalse stays =>
    exact ⟨fun h => ⟨stays, (Option.some.inj h).symm⟩, fun h => congrArg some h.2.symm⟩

/-- A table has no registrations and no room more or less for a list of changes. -/
theorem settleAll_frame (t : JobTable) (changes : List StatusChange) :
    (t.settleAll changes).capacity = t.capacity ∧
      (t.settleAll changes).registered = t.registered := by
  have one : ∀ (t : JobTable) (change : StatusChange),
      (t.settle change).capacity = t.capacity ∧ (t.settle change).registered = t.registered := by
    intro t change
    rcases settle_eq t change with ⟨-, same⟩ | ⟨e, -, -, -, settled⟩
    · rw [same]
      exact ⟨rfl, rfl⟩
    · rw [settled]
      split <;> exact ⟨rfl, rfl⟩
  induction changes generalizing t with
  | nil => exact ⟨rfl, rfl⟩
  | cons change rest ih =>
    obtain ⟨capacity, registered⟩ := ih (t.settle change)
    exact ⟨capacity.trans (one t change).1, registered.trans (one t change).2⟩

/-! ## The jobs that end -/

/-- The job that a change ends, with its number; none if the change ends no job. -/
def endedBy (t : JobTable) (change : StatusChange) : List (Nat × Job) :=
  match t.record change with
  | none => []
  | some (id, t) =>
    match t.find? id with
    | some job => if job.isOver then [(id, job)] else []
    | none => []

/-- The jobs that a list of changes ends, with their numbers and as they are then, in the order in
which they end. -/
def ended (t : JobTable) : List StatusChange → List (Nat × Job)
  | [] => []
  | change :: rest => t.endedBy change ++ (t.settle change).ended rest

theorem ended_append (t : JobTable) (changes more : List StatusChange) :
    t.ended (changes ++ more) = t.ended changes ++ (t.settleAll changes).ended more := by
  induction changes generalizing t with
  | nil => rfl
  | cons change rest ih =>
    rw [List.cons_append, ended, ended, ih, List.append_assoc]
    rfl

/-- A change ends the job it is about if all stages of that have ended then. -/
theorem endedBy_eq (apart : t.Apart) (change : StatusChange) :
    (∃ e ∈ t.entries, change.pid ∈ e.job.pids ∧ (e.job.apply change).isOver = true ∧
      t.endedBy change = [(e.id, e.job.apply change)]) ∨
    ((∀ e ∈ t.entries, ¬(change.pid ∈ e.job.pids ∧ (e.job.apply change).isOver = true)) ∧
      t.endedBy change = []) := by
  cases found : t.findByPid? change.pid with
  | none =>
    refine Or.inr ⟨fun e he ends => findByPid?_eq_none_iff.mp found e he ends.1, ?_⟩
    simp only [endedBy, record, found, Option.map_none]
  | some id =>
    obtain ⟨e, he, rfl, hpid⟩ := findByPid?_eq_some found
    have there := find?_modify (f := fun job => job.apply change) (find?_of_mem he)
    cases closed : (e.job.apply change).isOver with
    | true =>
      refine Or.inl ⟨e, he, hpid, closed, ?_⟩
      simp only [endedBy, record, found, Option.map_some, there, closed, if_true]
    | false =>
      refine Or.inr ⟨fun e' he' ends => ?_, ?_⟩
      · obtain rfl := eq_of_id_eq he' he (apart e' he' e he _ ends.1 hpid)
        rw [closed] at ends
        cases ends.2
      · simp only [endedBy, record, found, Option.map_some, there, closed, Bool.false_eq_true,
          if_false]

theorem mem_endedBy (apart : t.Apart) : (id, job) ∈ t.endedBy change ↔
    ∃ e ∈ t.entries, e.id = id ∧
      (change.pid ∈ e.job.pids ∧ (e.job.apply change).isOver = true) ∧
        e.job.apply change = job := by
  rcases endedBy_eq apart change with ⟨own, hown, hpid, closed, eq⟩ | ⟨none, eq⟩
  · rw [eq, List.mem_singleton, Prod.mk.injEq]
    constructor
    · rintro ⟨rfl, rfl⟩
      exact ⟨own, hown, rfl, ⟨hpid, closed⟩, rfl⟩
    · rintro ⟨e, he, rfl, ends, rfl⟩
      obtain rfl := eq_of_id_eq he hown (apart e he own hown _ ends.1 hpid)
      exact ⟨rfl, rfl⟩
  · rw [eq]
    exact ⟨fun h => (nomatch h), fun ⟨e, he, _, ends, _⟩ => absurd ends (none e he)⟩

/-- **The jobs that a list of changes ends** are the jobs of the table that it ends. -/
theorem mem_ended (apart : t.Apart) : (id, job) ∈ t.ended changes ↔
    ∃ e ∈ t.entries, e.id = id ∧ e.job.ending? changes = some job := by
  induction changes generalizing t with
  | nil => simp [ended, Job.ending?]
  | cons change rest ih =>
    simp only [ended, List.mem_append, mem_endedBy apart, ih (apart.settle change),
      mem_settle apart]
    constructor
    · rintro (⟨e, he, rfl, ends, rfl⟩ | ⟨_, ⟨e, he, stays, rfl⟩, rfl, later⟩)
      · exact ⟨e, he, rfl, by rw [Job.ending?, if_pos ends]⟩
      · exact ⟨e, he, rfl, by rwa [Job.ending?, if_neg stays]⟩
    · rintro ⟨e, he, rfl, h⟩
      rw [Job.ending?] at h
      split at h
      case isTrue ends => exact Or.inl ⟨e, he, rfl, ends, Option.some.inj h⟩
      case isFalse stays => exact Or.inr ⟨_, ⟨e, he, stays, rfl⟩, rfl, h⟩

/-- The numbers of the jobs that end are those that are in use before and free after. -/
theorem id_mem_ended_iff (apart : t.Apart) : id ∈ (t.ended changes).map Prod.fst ↔
    (∃ job, t.find? id = some job) ∧ (t.settleAll changes).find? id = none := by
  constructor
  · intro h
    obtain ⟨⟨_, job⟩, hmem, rfl⟩ := List.mem_map.mp h
    obtain ⟨e, he, rfl, ends⟩ := (mem_ended apart).mp hmem
    refine ⟨⟨e.job, find?_of_mem he⟩, find?_eq_none_iff.mpr fun e' he' hid => ?_⟩
    obtain ⟨e'', he'', stays, rfl⟩ := (mem_settleAll apart).mp he'
    obtain rfl := eq_of_id_eq he'' he hid
    rw [ends] at stays
    cases stays
  · rintro ⟨⟨job, found⟩, left⟩
    obtain ⟨e, he, rfl, rfl⟩ := find?_eq_some_iff.mp found
    cases ends : e.job.ending? changes with
    | some last => exact List.mem_map.mpr ⟨_, (mem_ended apart).mpr ⟨e, he, rfl, ends⟩, rfl⟩
    | none =>
      have stays := (mem_settleAll apart).mpr ⟨e, he, ends, rfl⟩
      exact (find?_eq_none_iff.mp left _ stays rfl).elim

theorem nodup_ended (apart : t.Apart) (changes : List StatusChange) :
    ((t.ended changes).map Prod.fst).Nodup := by
  induction changes generalizing t with
  | nil => exact List.nodup_nil
  | cons change rest ih =>
    rw [ended, List.map_append]
    have later := ih (apart.settle change)
    rcases endedBy_eq apart change with ⟨e, he, hpid, closed, eq⟩ | ⟨-, eq⟩
    · rw [eq]
      refine List.nodup_cons.mpr ⟨fun again => ?_, later⟩
      -- the job has left, so it is not among those that can end later
      obtain ⟨⟨id, job⟩, hmem, rfl⟩ := List.mem_map.mp again
      obtain ⟨e', he', hid, -⟩ := (mem_ended (apart.settle change)).mp hmem
      obtain ⟨e'', he'', stays, rfl⟩ := (mem_settle apart).mp he'
      obtain rfl := eq_of_id_eq he'' he hid
      exact stays ⟨hpid, closed⟩
    · rw [eq]
      exact later

end JobTable

end JobControl
