import JobControl.Job.Report
import JobControl.Proofs.Job.Owner
import Mathlib.Data.List.Perm.Subperm

/-!
# Requests to a job table

All that is ever done to a job table is one of six requests: a job is registered, removed, retired
once it is over, changed by a report, changed in place, or all jobs leave at once (`TableRequest`).

A table keeps its entries in a list and searches that list.  `JobMap` answers the same requests
without a list: it is a function from numbers to jobs, and it goes through the numbers from 1 to the
capacity, one after the other, for the first that is free or the first whose job has a process.  A
table is one way to keep such a map (`JobTable.serve_toMap`), so whatever it is asked, it gives the
replies of the map and holds the same jobs (`JobTable.serves_as_map`).

The numbers are those the entries leave free from below.  That a number up to the capacity is left
as long as fewer jobs than that are tracked is counted here (`JobTable.lowestFree_le_iff`).
-/

set_option autoImplicit false

namespace JobControl

/-- What can be asked of a job table. -/
inductive TableRequest
  | register (job : Job)
  | remove (id : Nat)
  | retire (id : Nat)
  | record (change : StatusChange)
  | update (id : Nat) (f : Job → Job)
  | clear

/-- What a job table replies. -/
inductive TableReply
  | registered (id : Nat)
  | full (full : TableFull)
  | removed (job : Option Job)
  | retired (report : Option String)
  | recorded (id : Option Nat)
  | updated
  | cleared (jobs : List Job)
deriving DecidableEq, Repr

/-- Serves requests one after the other; gives the replies in order. -/
def TableRequest.serveAll {α : Type} (serve : α → TableRequest → TableReply × α) (state : α) :
    List TableRequest → List TableReply × α
  | [] => ([], state)
  | request :: rest =>
    let (reply, state) := serve state request
    let (replies, state) := serveAll serve state rest
    (reply :: replies, state)

/-- Serves one request. -/
def JobTable.serve (t : JobTable) : TableRequest → TableReply × JobTable
  | .register job =>
    match t.register job with
    | .ok (id, t) => (.registered id, t)
    | .error full => (.full full, t)
  | .remove id => (.removed (t.find? id), t.erase id)
  | .retire id =>
    match t.retire id with
    | some (report, t) => (.retired (some report), t)
    | none => (.retired none, t)
  | .record change =>
    match t.record change with
    | some (id, t) => (.recorded (some id), t)
    | none => (.recorded none, t)
  | .update id f => (.updated, t.modify id f)
  | .clear => (.cleared (t.toList.map Prod.snd), t.clear)

/-! ## Maps from numbers to jobs -/

/-- Jobs under numbers from 1 to a capacity. -/
structure JobMap where
  capacity : Nat
  job? : Nat → Option Job

namespace JobMap

/-- No job under any number. -/
def empty (capacity : Nat) : JobMap :=
  ⟨capacity, fun _ => none⟩

/-- The numbers there are, in order. -/
def numbers (m : JobMap) : List Nat :=
  List.range' 1 m.capacity

/-- Another job, or none, under one number. -/
def put (m : JobMap) (id : Nat) (job : Option Job) : JobMap :=
  { m with job? := fun n => if n = id then job else m.job? n }

/-- The jobs with their numbers, in order of the numbers. -/
def toList (m : JobMap) : List (Nat × Job) :=
  m.numbers.filterMap fun id => (m.job? id).map (id, ·)

/-- Serves one request. -/
def serve (m : JobMap) : TableRequest → TableReply × JobMap
  | .register job =>
    match m.numbers.find? fun id => (m.job? id).isNone with
    | some id => (.registered id, m.put id (some { job with id := some id }))
    | none => (.full ⟨m.capacity, job⟩, m)
  | .remove id => (.removed (m.job? id), m.put id none)
  | .retire id =>
    match (m.job? id).filter Job.isOver with
    | some job => (.retired (some (job.report id)), m.put id none)
    | none => (.retired none, m)
  | .record change =>
    match m.numbers.find? fun id => (m.job? id).any (·.containsPid change.pid) with
    | some id => (.recorded (some id), m.put id ((m.job? id).map (·.apply change)))
    | none => (.recorded none, m)
  | .update id f => (.updated, m.put id ((m.job? id).map f))
  | .clear => (.cleared (m.toList.map Prod.snd), empty m.capacity)

theorem capacity_serve (m : JobMap) (request : TableRequest) :
    (m.serve request).2.capacity = m.capacity := by
  cases request with
  | register job => simp only [serve]; split <;> rfl
  | remove id => rfl
  | retire id => simp only [serve]; split <;> rfl
  | record change => simp only [serve]; split <;> rfl
  | update id f => rfl
  | clear => rfl

theorem capacity_serveAll (m : JobMap) (requests : List TableRequest) :
    (TableRequest.serveAll serve m requests).2.capacity = m.capacity := by
  induction requests generalizing m with
  | nil => rfl
  | cons request rest ih => exact (ih (m.serve request).2).trans (m.capacity_serve request)

end JobMap

namespace JobTable

variable {t t' : JobTable} {id n : Nat} {job : Job} {es : List TableEntry}

/-! ## Counting the numbers in use -/

/-- Every number below the lowest free one is in use. -/
theorem exists_of_lt_lowestFree (ordered : es.Pairwise fun e f => e.id < f.id)
    (from_n : ∀ e ∈ es, n ≤ e.id) {i : Nat} (low : n ≤ i) (used : i < lowestFree n es) :
    ∃ e ∈ es, e.id = i := by
  induction es generalizing n with
  | nil =>
    simp only [lowestFree] at used
    omega
  | cons e rest ih =>
    obtain ⟨first, ordered⟩ := List.pairwise_cons.mp ordered
    simp only [lowestFree] at used
    split at used
    case isTrue here =>
      by_cases same : i = n
      · exact ⟨e, List.mem_cons_self, by omega⟩
      · have above : ∀ f ∈ rest, n + 1 ≤ f.id := fun f hf => by
          have := first f hf
          omega
        obtain ⟨f, hf, hid⟩ := ih ordered above (by omega) used
        exact ⟨f, List.mem_cons_of_mem e hf, hid⟩
    case isFalse => omega

theorem exists_of_lt_lowestFree_entries (low : 1 ≤ n) (used : n < lowestFree 1 t.entries) :
    ∃ job, t.find? n = some job := by
  have from_one : ∀ e ∈ t.entries, 1 ≤ e.id := fun e he => (t.numbered e he).1
  obtain ⟨e, he, rfl⟩ := exists_of_lt_lowestFree t.ordered from_one low used
  exact ⟨e.job, find?_of_mem he⟩

theorem find?_lowestFree (t : JobTable) : t.find? (lowestFree 1 t.entries) = none :=
  find?_eq_none_iff.mpr (lowestFree_ne t.ordered fun e he => (t.numbered e he).1)

/-- The numbers in use. -/
def ids (t : JobTable) : List Nat :=
  t.entries.map TableEntry.id

theorem nodup_ids (t : JobTable) : t.ids.Nodup :=
  List.pairwise_map.mpr (t.ordered.imp Nat.ne_of_lt)

theorem mem_ids : n ∈ t.ids ↔ ∃ e ∈ t.entries, e.id = n :=
  List.mem_map

theorem ids_subset (t : JobTable) : t.ids ⊆ List.range' 1 t.capacity := by
  intro n hn
  obtain ⟨e, he, rfl⟩ := mem_ids.mp hn
  have bounds := t.numbered e he
  exact List.mem_range'_1.mpr (by omega)

theorem length_ids (t : JobTable) : t.ids.length = t.size :=
  List.length_map _

theorem size_le (t : JobTable) : t.size ≤ t.capacity := by
  have few := (List.subperm_of_subset t.nodup_ids t.ids_subset).length_le
  rwa [length_ids, List.length_range'] at few

/-- **There is a free number exactly as long as fewer jobs are tracked than there are numbers.** -/
theorem lowestFree_le_iff (t : JobTable) : lowestFree 1 t.entries ≤ t.capacity ↔
    t.size < t.capacity := by
  constructor
  · intro room
    -- the free number and those in use are different numbers up to the capacity
    have free : lowestFree 1 t.entries ∉ t.ids := fun used => by
      obtain ⟨e, he, hid⟩ := mem_ids.mp used
      exact find?_eq_none_iff.mp t.find?_lowestFree e he hid
    have within : lowestFree 1 t.entries :: t.ids ⊆ List.range' 1 t.capacity := by
      have := le_lowestFree 1 t.entries
      exact List.cons_subset.mpr ⟨List.mem_range'_1.mpr (by omega), t.ids_subset⟩
    have few :=
      (List.subperm_of_subset (List.nodup_cons.mpr ⟨free, t.nodup_ids⟩) within).length_le
    rw [List.length_cons, length_ids, List.length_range'] at few
    omega
  · intro room
    by_contra none_free
    -- all numbers up to the capacity are in use
    have all : List.range' 1 t.capacity ⊆ t.ids := by
      intro i hi
      have bounds := List.mem_range'_1.mp hi
      have from_one : ∀ e ∈ t.entries, 1 ≤ e.id := fun e he => (t.numbered e he).1
      exact mem_ids.mpr (exists_of_lt_lowestFree t.ordered from_one bounds.1 (by omega))
    have many := (List.subperm_of_subset List.nodup_range' all).length_le
    rw [List.length_range', length_ids] at many
    omega

/-! ## Looking up after a change -/

theorem find?_erase (t : JobTable) (id n : Nat) :
    (t.erase id).find? n = if n = id then none else t.find? n := by
  ext job
  simp only [find?_eq_some_iff, mem_erase]
  split
  case isTrue same =>
    subst same
    constructor
    · rintro ⟨e, ⟨-, other⟩, hid, -⟩
      exact absurd hid other
    · intro h
      cases h
  case isFalse other =>
    rw [find?_eq_some_iff]
    constructor
    · rintro ⟨e, ⟨he, -⟩, hid, hjob⟩
      exact ⟨e, he, hid, hjob⟩
    · rintro ⟨e, he, rfl, hjob⟩
      exact ⟨e, ⟨he, other⟩, rfl, hjob⟩

theorem find?_modify_eq (t : JobTable) (id : Nat) (f : Job → Job) (n : Nat) :
    (t.modify id f).find? n = if n = id then (t.find? id).map f else t.find? n := by
  by_cases same : n = id
  · subst same
    rw [if_pos rfl]
    cases found : t.find? n with
    | some job => exact find?_modify found
    | none =>
      refine find?_eq_none_iff.mpr fun e he => ?_
      obtain ⟨e', he', rfl⟩ := mem_modify.mp he
      rw [TableEntry.id_modify]
      exact find?_eq_none_iff.mp found e' he'
  · rw [if_neg same]
    ext job
    simp only [find?_eq_some_iff]
    constructor
    · rintro ⟨e, he, rfl, rfl⟩
      rcases cases_of_mem_modify he with ⟨he, -⟩ | ⟨e', -, hid, rfl⟩
      · exact ⟨e, he, rfl, rfl⟩
      · exact absurd hid same
    · rintro ⟨e, he, rfl, rfl⟩
      exact ⟨e, mem_modify_of_ne he same, rfl, rfl⟩

theorem find?_register (registered : t.register job = .ok (id, t')) (n : Nat) :
    t'.find? n = if n = id then some { job with id := some id } else t.find? n := by
  split
  case isTrue same =>
    subst same
    exact find?_of_register registered
  case isFalse other =>
    ext found
    simp only [find?_eq_some_iff, mem_of_register registered]
    constructor
    · rintro ⟨e, rfl | he, hid, hjob⟩
      · exact absurd hid.symm other
      · exact ⟨e, he, hid, hjob⟩
    · rintro ⟨e, he, hid, hjob⟩
      exact ⟨e, Or.inr he, hid, hjob⟩

theorem find?_clear (t : JobTable) (n : Nat) : t.clear.find? n = none :=
  rfl

/-- A registration finds a number exactly as long as there is one. -/
theorem register_eq_ok_of_lt (room : t.size < t.capacity) (job : Job) :
    ∃ t', t.register job = .ok (lowestFree 1 t.entries, t') := by
  have free := t.lowestFree_le_iff.mpr room
  simp only [register, dif_neg (Nat.not_lt.mpr free)]
  exact ⟨_, rfl⟩

theorem register_eq_error_of_le (full : t.capacity ≤ t.size) (job : Job) :
    t.register job = .error ⟨t.capacity, job⟩ := by
  have none_free : t.capacity < lowestFree 1 t.entries := by
    have := t.lowestFree_le_iff
    omega
  simp only [register, dif_pos none_free]

/-! ## A table keeps a map -/

/-- The map that a table keeps. -/
def toMap (t : JobTable) : JobMap :=
  ⟨t.capacity, t.find?⟩

theorem find?_of_not_mem_numbers (h : n ∉ t.toMap.numbers) : t.find? n = none := by
  refine find?_eq_none_iff.mpr fun e he hid => h ?_
  exact t.ids_subset (mem_ids.mpr ⟨e, he, hid⟩)

theorem pairwise_toList (t : JobTable) : t.toList.Pairwise fun a b => a.1 < b.1 :=
  List.pairwise_map.mpr t.ordered

theorem mem_toList : (id, job) ∈ t.toList ↔ t.find? id = some job := by
  simp only [toList, List.mem_map, Prod.mk.injEq, find?_eq_some_iff]

/-- A table lists its jobs as its map does. -/
theorem toList_toMap (t : JobTable) : t.toMap.toList = t.toList := by
  -- both lists name the jobs in strictly ascending order, so it is enough that they name the same
  have ascending : t.toMap.toList.Pairwise fun a b => a.1 < b.1 := by
    refine List.Pairwise.filterMap _ (fun a b lower r hr r' hr' => ?_) (List.pairwise_lt_range' 1)
    obtain ⟨job, -, rfl⟩ := Option.map_eq_some_iff.mp hr
    obtain ⟨job', -, rfl⟩ := Option.map_eq_some_iff.mp hr'
    exact lower
  have distinct : ∀ l : List (Nat × Job), (l.Pairwise fun a b => a.1 < b.1) → l.Nodup :=
    fun l h => h.imp fun lower same => by simp [same] at lower
  have same : t.toMap.toList.Perm t.toList := by
    refine (List.perm_ext_iff_of_nodup (distinct _ ascending) (distinct _ t.pairwise_toList)).mpr ?_
    rintro ⟨id, job⟩
    rw [mem_toList]
    simp only [JobMap.toList, List.mem_filterMap, Option.map_eq_some_iff, Prod.mk.injEq]
    constructor
    · rintro ⟨_, -, _, found, rfl, rfl⟩
      exact found
    · intro found
      refine ⟨id, ?_, job, found, rfl, rfl⟩
      by_contra outside
      rw [find?_of_not_mem_numbers outside] at found
      cases found
  refine same.eq_of_pairwise (fun a b _ _ lower higher => ?_) ascending t.pairwise_toList
  omega

theorem toMap_register (registered : t.register job = .ok (id, t')) :
    t'.toMap = t.toMap.put id (some { job with id := some id }) := by
  have capacity := (register_eq_ok registered).2.1
  simp only [toMap, JobMap.put, JobMap.mk.injEq, capacity, true_and]
  exact funext (find?_register registered)

theorem toMap_erase (t : JobTable) (id : Nat) : (t.erase id).toMap = t.toMap.put id none :=
  congrArg (JobMap.mk t.capacity) (funext (t.find?_erase id))

theorem toMap_modify (t : JobTable) (id : Nat) (f : Job → Job) :
    (t.modify id f).toMap = t.toMap.put id ((t.find? id).map f) :=
  congrArg (JobMap.mk t.capacity) (funext (t.find?_modify_eq id f))

/-- The first free number from below is the first one that the map has no job under. -/
theorem find?_numbers_isNone (t : JobTable) :
    t.toMap.numbers.find? (fun id => (t.find? id).isNone) =
      if t.size < t.capacity then some (lowestFree 1 t.entries) else none := by
  have positive := le_lowestFree 1 t.entries
  have counted := t.lowestFree_le_iff
  split
  case isTrue room =>
    refine List.find?_range'_eq_some.mpr ⟨by rw [find?_lowestFree]; rfl, ?_, fun n low used => ?_⟩
    · exact List.mem_range'_1.mpr (by simp only [toMap]; omega)
    · obtain ⟨job, found⟩ := exists_of_lt_lowestFree_entries low used
      simp [found]
  case isFalse full =>
    refine List.find?_range'_eq_none.mpr fun n low high => ?_
    have used : n < lowestFree 1 t.entries := by
      simp only [toMap] at high
      omega
    obtain ⟨job, found⟩ := exists_of_lt_lowestFree_entries low used
    simp [found]

/-- The first job with a process is the first that the map has with it. -/
theorem find?_numbers_containsPid (t : JobTable) (pid : Pid) :
    t.toMap.numbers.find? (fun id => (t.find? id).any (·.containsPid pid)) =
      t.findByPid? pid := by
  have owner : ∀ n, (t.find? n).any (·.containsPid pid) = true ↔
      ∃ e ∈ t.entries, e.id = n ∧ pid ∈ e.job.pids := by
    intro n
    rw [Option.any_eq_true]
    constructor
    · rintro ⟨job, found, own⟩
      obtain ⟨e, he, hid, rfl⟩ := find?_eq_some_iff.mp found
      exact ⟨e, he, hid, Job.containsPid_iff.mp own⟩
    · rintro ⟨e, he, rfl, own⟩
      exact ⟨e.job, find?_of_mem he, Job.containsPid_iff.mpr own⟩
  ext id
  rw [findByPid?_eq_some_iff]
  constructor
  · intro first
    obtain ⟨own, -, none⟩ := List.find?_range'_eq_some.mp first
    obtain ⟨e, he, rfl, hpid⟩ := (owner id).mp own
    refine ⟨e, he, rfl, hpid, fun e' he' lower other => ?_⟩
    have before := none e'.id (t.numbered e' he').1 lower
    rw [(owner e'.id).mpr ⟨e', he', rfl, other⟩] at before
    cases before
  · rintro ⟨e, he, rfl, hpid, first⟩
    refine List.find?_range'_eq_some.mpr ⟨(owner e.id).mpr ⟨e, he, rfl, hpid⟩, ?_, fun n _ lower => ?_⟩
    · exact t.ids_subset (mem_ids.mpr ⟨e, he, rfl⟩)
    · rw [Bool.not_eq_true', Bool.eq_false_iff]
      intro own
      obtain ⟨e', he', rfl, other⟩ := (owner n).mp own
      exact first e' he' lower other

/-- **A table serves a request as the map that it keeps.** -/
theorem serve_toMap (t : JobTable) (request : TableRequest) :
    t.toMap.serve request = ((t.serve request).1, (t.serve request).2.toMap) := by
  have lookup : ∀ id, t.toMap.job? id = t.find? id := fun _ => rfl
  cases request with
  | register job =>
    simp only [JobMap.serve, serve, lookup, find?_numbers_isNone]
    by_cases room : t.size < t.capacity
    · obtain ⟨t', registered⟩ := register_eq_ok_of_lt room job
      simp only [if_pos room, registered]
      rw [toMap_register registered]
    · simp only [if_neg room, register_eq_error_of_le (Nat.not_lt.mp room)]
      rfl
  | remove id =>
    simp only [JobMap.serve, serve, lookup, toMap_erase]
  | retire id =>
    simp only [JobMap.serve, serve, lookup, retire]
    cases found : t.find? id with
    | none => rfl
    | some job =>
      simp only [Option.filter_some, ← Job.isOver_eq]
      cases closed : job.isOver with
      | true => simp only [if_true, toMap_erase]
      | false => simp only [Bool.false_eq_true, if_false]
  | record change =>
    simp only [JobMap.serve, serve, lookup, find?_numbers_containsPid, record]
    cases t.findByPid? change.pid with
    | none => rfl
    | some id => simp only [Option.map_some, toMap_modify]
  | update id f =>
    simp only [JobMap.serve, serve, lookup, toMap_modify]
  | clear =>
    simp only [JobMap.serve, serve, toList_toMap]
    rfl

/-- The same for requests one after the other. -/
theorem serveAll_toMap (t : JobTable) (requests : List TableRequest) :
    TableRequest.serveAll JobMap.serve t.toMap requests =
      ((TableRequest.serveAll serve t requests).1,
        (TableRequest.serveAll serve t requests).2.toMap) := by
  induction requests generalizing t with
  | nil => rfl
  | cons request rest ih => simp only [TableRequest.serveAll, serve_toMap, ih]

/-! ## What that means for the numbers -/

/-- How a table deals with its numbers. -/
structure Numbering (t : JobTable) : Prop where
  /-- A job is registered exactly if fewer jobs are tracked than there are numbers. -/
  registers : ∀ job, (∃ id t', t.serve (.register job) = (.registered id, t')) ↔ t.size < t.capacity
  /-- It gets the lowest number that is free, and the other numbers are left alone. -/
  lowest : ∀ job id t', t.serve (.register job) = (.registered id, t') →
    1 ≤ id ∧ id ≤ t.capacity ∧ t.find? id = none ∧
      (∀ n, 1 ≤ n → n < id → ∃ other, t.find? n = some other) ∧
      t'.find? id = some { job with id := some id } ∧ ∀ n, n ≠ id → t'.find? n = t.find? n
  /-- A job that finds no number is handed back with the capacity, and nothing changes. -/
  full : ∀ job, ¬t.size < t.capacity →
    t.size = t.capacity ∧ t.serve (.register job) = (.full ⟨t.capacity, job⟩, t)
  /-- A job that is removed leaves its number free, and the other numbers are left alone. -/
  removes : ∀ id job, t.find? id = some job → ∃ t', t.serve (.remove id) = (.removed (some job), t') ∧
    t'.find? id = none ∧ ∀ n, n ≠ id → t'.find? n = t.find? n
  /-- Under 0 and beyond the capacity there is no job. -/
  outside : ∀ id, id = 0 ∨ t.capacity < id → t.find? id = none
  /-- Where no job is, none is removed, and nothing changes. -/
  absent : ∀ id, t.find? id = none → t.serve (.remove id) = (.removed none, t)
  /-- All jobs leave in order of their numbers. -/
  clears : ∃ t', t.serve .clear = (.cleared (t.toList.map Prod.snd), t') ∧
    t'.capacity = t.capacity ∧ t'.size = 0 ∧ ∀ n, t'.find? n = none
  /-- The jobs are listed once each, in order of their numbers. -/
  listed : t.size = t.toList.length ∧ (t.toList.Pairwise fun a b => a.1 < b.1) ∧
    ∀ id job, (id, job) ∈ t.toList ↔ t.find? id = some job

/-- Every table deals so with its numbers. -/
theorem numbering (t : JobTable) : t.Numbering := by
  refine ⟨fun job => ?_, fun job id t' reply => ?_, fun job full => ?_, fun id job found => ?_,
    fun id outside => ?_, fun id none => ?_, ?_, ?_⟩
  · constructor
    · rintro ⟨id, t', reply⟩
      by_contra full
      simp only [serve, register_eq_error_of_le (Nat.not_lt.mp full)] at reply
      cases reply
    · intro room
      obtain ⟨t', registered⟩ := register_eq_ok_of_lt room job
      exact ⟨lowestFree 1 t.entries, t', by simp only [serve, registered]⟩
  · have room : t.size < t.capacity := by
      by_contra full
      simp only [serve, register_eq_error_of_le (Nat.not_lt.mp full)] at reply
      cases reply
    obtain ⟨u, registered⟩ := register_eq_ok_of_lt room job
    simp only [serve, registered] at reply
    cases reply
    refine ⟨le_lowestFree 1 t.entries, t.lowestFree_le_iff.mpr room, t.find?_lowestFree,
      fun n low used => exists_of_lt_lowestFree_entries low used, ?_, fun n other => ?_⟩
    · exact find?_of_register registered
    · rw [find?_register registered, if_neg other]
  · refine ⟨Nat.le_antisymm t.size_le (Nat.not_lt.mp full), ?_⟩
    simp only [serve, register_eq_error_of_le (Nat.not_lt.mp full)]
  · refine ⟨t.erase id, by simp only [serve, found], ?_, fun n other => ?_⟩
    · rw [find?_erase, if_pos rfl]
    · rw [find?_erase, if_neg other]
  · refine find?_of_not_mem_numbers fun inside => ?_
    have bounds := List.mem_range'_1.mp inside
    simp only [toMap] at bounds
    omega
  · simp only [serve, none, erase_eq_self none]
  · exact ⟨t.clear, rfl, rfl, rfl, t.find?_clear⟩
  · exact ⟨(List.length_map _).symm, t.pairwise_toList, fun _ _ => mem_toList⟩

/-- **A table is the map from numbers to jobs that its history defines.**  Whatever requests a table
without jobs serves, it gives the replies of the map, keeps the jobs of the map under the same
numbers, and lists them as the map does; and it goes on to deal with its numbers as it should. -/
theorem serves_as_map (capacity : Nat) (requests : List TableRequest) :
    (TableRequest.serveAll serve (.empty capacity) requests).1 =
      (TableRequest.serveAll JobMap.serve (.empty capacity) requests).1 ∧
    (TableRequest.serveAll serve (.empty capacity) requests).2.capacity = capacity ∧
    (∀ id, (TableRequest.serveAll serve (.empty capacity) requests).2.find? id =
      (TableRequest.serveAll JobMap.serve (.empty capacity) requests).2.job? id) ∧
    (TableRequest.serveAll serve (.empty capacity) requests).2.toList =
      (TableRequest.serveAll JobMap.serve (.empty capacity) requests).2.toList ∧
    (TableRequest.serveAll serve (.empty capacity) requests).2.Numbering := by
  obtain ⟨replies, t, served⟩ : ∃ replies t,
      TableRequest.serveAll serve (.empty capacity) requests = (replies, t) := ⟨_, _, rfl⟩
  have start : (JobTable.empty capacity).toMap = .empty capacity := rfl
  have same := serveAll_toMap (.empty capacity) requests
  rw [start, served] at same
  have capacity_same := JobMap.capacity_serveAll (.empty capacity) requests
  rw [same] at capacity_same
  rw [same, served]
  exact ⟨rfl, capacity_same, fun _ => rfl, t.toList_toMap.symm, t.numbering⟩

end JobTable

end JobControl
