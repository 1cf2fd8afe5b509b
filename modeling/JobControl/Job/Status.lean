/-!
# Status of a pipeline stage

A launched stage runs, is suspended or has been continued, until it ends: by itself (`done`) or by
a signal (`terminated`).
-/

set_option autoImplicit false

namespace JobControl

/-- A process id; process groups have the id of their founder. -/
abbrev Pid := Int

/-- The last known state of a stage. -/
inductive Status
  | running
  | suspended
  | continued
  | terminated
  | done
deriving DecidableEq, Repr, Inhabited

namespace Status

/-- The word used in status lines. -/
def word : Status → String
  | running => "running"
  | suspended => "suspended"
  | continued => "continued"
  | terminated => "terminated"
  | done => "done"

/-- The stage has ended: no further report on it will arrive. -/
def isFinished : Status → Bool
  | terminated => true
  | done => true
  | _ => false

end Status

/-- A report that a process has reached a status. -/
structure StatusChange where
  pid : Pid
  status : Status
deriving DecidableEq, Repr

end JobControl
