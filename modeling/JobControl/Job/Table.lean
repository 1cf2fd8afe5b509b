import JobControl.Job.Basic

/-!
# The job table

Jobs in the table are numbered from 1 to the capacity.  A new job takes the lowest free number, so a
number is given out again once its job has left.  The entries are kept in order of their numbers;
each also carries the count of registrations before it, which tells which job is the most recent.

A table carries the order and the range of its numbers as facts of its own.
`JobTable.lowestFree_ne` says that the number given to a new job is free.
-/

set_option autoImplicit false

namespace JobControl

/-- One tracked job, with its number and its place in the order of registration. -/
structure TableEntry where
  id : Nat
  order : Nat
  job : Job
deriving DecidableEq, Repr

namespace TableEntry

/-- Changes the job of an entry if the entry has a given number. -/
def modify (id : Nat) (f : Job → Job) (e : TableEntry) : TableEntry :=
  if e.id = id then { e with job := f e.job } else e

/-- Changing its job leaves an entry's number. -/
theorem id_modify (id : Nat) (f : Job → Job) (e : TableEntry) :
    (e.modify id f).id = e.id := by
  unfold modify
  split <;> rfl

end TableEntry

/-- The tracked jobs, in order of their numbers, with the number of registrations so far. -/
structure JobTable where
  capacity : Nat
  entries : List TableEntry
  registered : Nat
  ordered : entries.Pairwise fun e f => e.id < f.id
  numbered : ∀ e ∈ entries, 1 ≤ e.id ∧ e.id ≤ capacity
deriving Repr

/-- A job that found no free number; it is handed back. -/
structure TableFull where
  capacity : Nat
  job : Job
deriving DecidableEq, Repr

namespace TableFull

/-- The diagnostic text. -/
def message (full : TableFull) : String :=
  "job table full (" ++ toString full.capacity ++ " jobs), `" ++ full.job.command ++
    "` runs untracked"

end TableFull

namespace JobTable

/-- The capacity used when none is asked for. -/
def defaultCapacity : Nat := 16

/-- A table without jobs. -/
def empty (capacity : Nat) : JobTable :=
  ⟨capacity, [], 0, .nil, by simp⟩

/-- The number of tracked jobs. -/
def size (t : JobTable) : Nat :=
  t.entries.length

/-- The lowest number from `n` on that the entries leave free. -/
def lowestFree (n : Nat) : List TableEntry → Nat
  | [] => n
  | e :: rest => if e.id = n then lowestFree (n + 1) rest else n

/-- Puts an entry in its place. -/
def insertEntry (new : TableEntry) : List TableEntry → List TableEntry
  | [] => [new]
  | e :: rest => if new.id < e.id then new :: e :: rest else e :: insertEntry new rest

/-- A lowest free number is searched upwards. -/
theorem le_lowestFree (n : Nat) (es : List TableEntry) : n ≤ lowestFree n es := by
  induction es generalizing n with
  | nil => exact Nat.le_refl n
  | cons e rest ih =>
    simp only [lowestFree]
    split
    · exact Nat.le_of_succ_le (ih (n + 1))
    · exact Nat.le_refl n

/-- The lowest free number is free. -/
theorem lowestFree_ne {n : Nat} {es : List TableEntry} (ordered : es.Pairwise fun e f => e.id < f.id)
    (from_n : ∀ e ∈ es, n ≤ e.id) : ∀ e ∈ es, e.id ≠ lowestFree n es := by
  induction es generalizing n with
  | nil => intro e he; cases he
  | cons e rest ih =>
    obtain ⟨first, ordered⟩ := List.pairwise_cons.mp ordered
    have hn : n ≤ e.id := from_n e List.mem_cons_self
    intro f hf
    simp only [lowestFree]
    split
    case isTrue h =>
      have later := le_lowestFree (n + 1) rest
      rcases List.mem_cons.mp hf with rfl | hf
      · omega
      · exact ih ordered (fun g hg => by have := first g hg; omega) f hf
    case isFalse h =>
      rcases List.mem_cons.mp hf with rfl | hf
      · exact h
      · have := first f hf
        omega

/-- Putting an entry in its place adds that entry and no other. -/
theorem mem_insertEntry {new e : TableEntry} {es : List TableEntry} :
    e ∈ insertEntry new es ↔ e = new ∨ e ∈ es := by
  induction es with
  | nil => simp [insertEntry]
  | cons f rest ih =>
    simp only [insertEntry]
    split
    · simp
    · simp only [List.mem_cons, ih]
      exact or_left_comm

/-- Its place is the one in the order of the numbers. -/
theorem pairwise_insertEntry {new : TableEntry} {es : List TableEntry}
    (ordered : es.Pairwise fun e f => e.id < f.id) (fresh : ∀ e ∈ es, e.id ≠ new.id) :
    (insertEntry new es).Pairwise fun e f => e.id < f.id := by
  induction es with
  | nil => exact List.pairwise_singleton ..
  | cons e rest ih =>
    obtain ⟨first, tail⟩ := List.pairwise_cons.mp ordered
    simp only [insertEntry]
    split
    case isTrue h =>
      refine List.pairwise_cons.mpr ⟨?_, ordered⟩
      intro f hf
      rcases List.mem_cons.mp hf with rfl | hf
      · exact h
      · exact Nat.lt_trans h (first f hf)
    case isFalse h =>
      refine List.pairwise_cons.mpr ⟨?_, ih tail fun f hf => fresh f (List.mem_cons_of_mem e hf)⟩
      intro f hf
      rcases mem_insertEntry.mp hf with rfl | hf
      · have := fresh e List.mem_cons_self
        omega
      · exact first f hf

/-- Tracks a job under the lowest free number. -/
def register (t : JobTable) (job : Job) : Except TableFull (Nat × JobTable) :=
  let id := lowestFree 1 t.entries
  if h : t.capacity < id then .error ⟨t.capacity, job⟩
  else
    .ok (id,
      { t with
        entries := insertEntry ⟨id, t.registered, { job with id := some id }⟩ t.entries
        registered := t.registered + 1
        ordered :=
          pairwise_insertEntry t.ordered (lowestFree_ne t.ordered fun e he => (t.numbered e he).1)
        numbered := by
          intro e he
          rcases mem_insertEntry.mp he with rfl | he
          · exact ⟨le_lowestFree 1 t.entries, Nat.not_lt.mp h⟩
          · exact t.numbered e he })

/-- The job with a number. -/
def find? (t : JobTable) (id : Nat) : Option Job :=
  (t.entries.find? fun e => e.id == id).map TableEntry.job

/-- Changes the job with a number. -/
def modify (t : JobTable) (id : Nat) (f : Job → Job) : JobTable :=
  { t with
    entries := t.entries.map (TableEntry.modify id f)
    ordered := by
      rw [List.pairwise_map]
      exact t.ordered.imp fun h => by simpa only [TableEntry.id_modify] using h
    numbered := by
      intro e he
      obtain ⟨f, hf, rfl⟩ := List.mem_map.mp he
      simpa only [TableEntry.id_modify] using t.numbered f hf }

/-- Releases a number. -/
def erase (t : JobTable) (id : Nat) : JobTable :=
  { t with
    entries := t.entries.filter fun e => e.id != id
    ordered := t.ordered.filter _
    numbered := fun e he => t.numbered e (List.mem_filter.mp he).1 }

/-- The jobs with their numbers, in order of the numbers. -/
def toList (t : JobTable) : List (Nat × Job) :=
  t.entries.map fun e => (e.id, e.job)

/-- The number of the first job with a stage launched as this process. -/
def findByPid? (t : JobTable) (pid : Pid) : Option Nat :=
  (t.entries.find? fun e => e.job.containsPid pid).map TableEntry.id

/-- Records a report; gives the number of the job it was about. -/
def record (t : JobTable) (change : StatusChange) : Option (Nat × JobTable) :=
  (t.findByPid? change.pid).map fun id => (id, t.modify id fun job => job.apply change)

/-- The entry registered last. -/
def newest : List TableEntry → Option TableEntry
  | [] => none
  | e :: rest =>
    match newest rest with
    | none => some e
    | some f => if f.order < e.order then some e else some f

/-- The number of the most recently registered job of a class. -/
def mostRecent? (t : JobTable) (p : Job → Bool) : Option Nat :=
  (newest (t.entries.filter fun e => p e.job)).map TableEntry.id

/-- The most recently registered job in the background. -/
def mostRecentBackground? (t : JobTable) : Option Nat :=
  t.mostRecent? fun job => job.mode == .background

/-- The most recently registered job with a suspended stage. -/
def mostRecentSuspended? (t : JobTable) : Option Nat :=
  t.mostRecent? Job.isSuspended

/-- The table without its jobs. -/
def clear (t : JobTable) : JobTable :=
  { t with entries := [], ordered := .nil, numbered := by simp }

end JobTable

end JobControl
