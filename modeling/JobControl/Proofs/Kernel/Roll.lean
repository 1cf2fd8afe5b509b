import JobControl.Notification
import Mathlib.Data.List.Basic

/-!
# The roll of a shell's children

Two things about the children of a shell can be compared with its table: which of them have not been
reaped yet, each with its group, and what has happened so far.  A `Roll` holds both.  It changes
when a child is started, when a report is taken, and when a group is continued; `Roll.statusOf`
replays the history of one process.
-/

set_option autoImplicit false

namespace JobControl

/-- What happens between a shell and its children. -/
inductive Happening
  /-- A process was started in a group. -/
  | started (pid group : Pid)
  /-- A report was taken. -/
  | reported (change : StatusChange)
  /-- A group was sent `SIGCONT`. -/
  | resumed (group : Pid)
deriving DecidableEq, Repr

/-- The status of a process of a group after one more happening. -/
def Happening.statusAfter (pid group : Pid) (status : Status) : Happening → Status
  | started p _ => if p = pid then .running else status
  | reported change => if change.pid = pid then change.status else status
  | resumed g => if g = group ∧ status.isFinished = false then .continued else status

/-- It starts none of these processes. -/
def Happening.spares (pids : List Pid) : Happening → Bool
  | started pid _ => !pids.contains pid
  | reported _ => true
  | resumed _ => true

/-- The children that have not been reaped, with their groups, and what has happened so far. -/
structure Roll where
  children : List (Pid × Pid)
  history : List Happening
deriving DecidableEq, Repr

namespace Roll

variable {r : Roll} {pid group p g : Pid} {change : StatusChange}

/-- A child is started in a group. -/
def start (r : Roll) (pid group : Pid) : Roll :=
  ⟨r.children ++ [(pid, group)], r.history ++ [.started pid group]⟩

/-- A report is taken.  A child that has ended is reaped by it. -/
def report (r : Roll) (change : StatusChange) : Roll :=
  ⟨if change.status.isFinished then r.children.filter (·.1 != change.pid) else r.children,
    r.history ++ [.reported change]⟩

/-- Several reports are taken. -/
def reportAll (r : Roll) (changes : List StatusChange) : Roll :=
  changes.foldl report r

/-- A group is sent `SIGCONT`. -/
def resume (r : Roll) (group : Pid) : Roll :=
  ⟨r.children, r.history ++ [.resumed group]⟩

/-- The status of a process of a group, replayed from the history. -/
def statusOf (r : Roll) (pid group : Pid) : Status :=
  r.history.foldl (Happening.statusAfter pid group) .running

theorem statusOf_start (r : Roll) (p g pid group : Pid) :
    (r.start p g).statusOf pid group = if p = pid then .running else r.statusOf pid group := by
  rw [statusOf, start, List.foldl_append]
  rfl

theorem statusOf_report (r : Roll) (change : StatusChange) (pid group : Pid) :
    (r.report change).statusOf pid group =
      if change.pid = pid then change.status else r.statusOf pid group := by
  rw [statusOf, report, List.foldl_append]
  rfl

theorem statusOf_resume (r : Roll) (g pid group : Pid) :
    (r.resume g).statusOf pid group =
      if g = group ∧ (r.statusOf pid group).isFinished = false then .continued
      else r.statusOf pid group := by
  rw [statusOf, resume, List.foldl_append]
  rfl

theorem mem_start : (p, g) ∈ (r.start pid group).children ↔
    (p, g) ∈ r.children ∨ p = pid ∧ g = group := by
  simp only [start, List.mem_append, List.mem_singleton, Prod.mk.injEq]

theorem mem_report : (p, g) ∈ (r.report change).children ↔
    (p, g) ∈ r.children ∧ (change.status.isFinished = true → p ≠ change.pid) := by
  simp only [report]
  split
  case isTrue h => simp [h]
  case isFalse h => simp [h]

/-- Several children are started in one group. -/
def startAll (r : Roll) (pids : List Pid) (group : Pid) : Roll :=
  pids.foldl (fun r pid => r.start pid group) r

theorem statusOf_startAll (r : Roll) (pids : List Pid) (g pid group : Pid) :
    (r.startAll pids g).statusOf pid group =
      if pid ∈ pids then .running else r.statusOf pid group := by
  induction pids generalizing r with
  | nil => rfl
  | cons p rest ih =>
    have tail := ih (r.start p g)
    rw [statusOf_start] at tail
    rw [startAll, List.foldl_cons, ← startAll, tail]
    by_cases hp : pid = p
    · simp [hp]
    · simp [hp, Ne.symm hp]

theorem mem_startAll {pids : List Pid} :
    (p, g) ∈ (r.startAll pids group).children ↔ (p, g) ∈ r.children ∨ p ∈ pids ∧ g = group := by
  induction pids generalizing r with
  | nil => simp [startAll]
  | cons q rest ih =>
    rw [startAll, List.foldl_cons, ← startAll, ih, mem_start, List.mem_cons]
    constructor
    · rintro ((h | ⟨h, hg⟩) | ⟨h, hg⟩)
      · exact Or.inl h
      · exact Or.inr ⟨Or.inl h, hg⟩
      · exact Or.inr ⟨Or.inr h, hg⟩
    · rintro (h | ⟨h | h, hg⟩)
      · exact Or.inl (Or.inl h)
      · exact Or.inl (Or.inr ⟨h, hg⟩)
      · exact Or.inr ⟨h, hg⟩

theorem history_startAll (r : Roll) (pids : List Pid) (group : Pid) :
    (r.startAll pids group).history = r.history ++ pids.map (Happening.started · group) := by
  induction pids generalizing r with
  | nil => exact (List.append_nil _).symm
  | cons p rest ih =>
    rw [startAll, List.foldl_cons, ← startAll, ih]
    simp [start]

theorem startAll_append (r : Roll) (pids : List Pid) (pid group : Pid) :
    r.startAll (pids ++ [pid]) group = (r.startAll pids group).start pid group := by
  simp only [startAll, List.foldl_append, List.foldl_cons, List.foldl_nil]

/-- Nothing but reports has been noted since a history. -/
def ReportedSince (history : List Happening) (r : Roll) : Prop :=
  ∃ changes : List StatusChange, r.history = history ++ changes.map .reported

theorem reportedSince_self (r : Roll) : r.ReportedSince r.history :=
  ⟨[], (List.append_nil _).symm⟩

theorem ReportedSince.report {history : List Happening} (h : r.ReportedSince history)
    (change : StatusChange) : (r.report change).ReportedSince history := by
  obtain ⟨changes, eq⟩ := h
  refine ⟨changes ++ [change], ?_⟩
  simp only [Roll.report, eq, List.map_append, List.append_assoc, List.map_cons, List.map_nil]

/-- A report was taken that implies this change of a child of this group, and the roll notes it. -/
structure Takes (r : Roll) (n : Notification) (group : Pid) (change : StatusChange) (r' : Roll) :
    Prop where
  implied : n.change? = some change
  present : (change.pid, group) ∈ r.children
  after : r' = r.report change

end Roll

end JobControl
