import JobControl.Errno
import JobControl.Job.Status
import JobControl.Signal.Basic

/-!
# Reports from the system

What a wait for children delivers.  Four kinds of report imply a status of the process they name;
the others say nothing about it.
-/

set_option autoImplicit false

namespace JobControl

/-- The result of asking for a change of a child. -/
inductive Notification
  | exited (pid : Pid) (code : Int)
  | signaled (pid : Pid) (signal : Signal) (core : Bool)
  | stopped (pid : Pid) (signal : Signal)
  | continued (pid : Pid)
  | traceEvent (pid : Pid) (signal : Signal) (event : Int)
  | traceCall (pid : Pid)
  | stillAlive
deriving DecidableEq, Repr

namespace Notification

/-- The status change that a report implies. -/
def change? : Notification → Option StatusChange
  | exited pid _ => some ⟨pid, .done⟩
  | signaled pid _ _ => some ⟨pid, .terminated⟩
  | stopped pid _ => some ⟨pid, .suspended⟩
  | continued pid => some ⟨pid, .continued⟩
  | _ => none

end Notification

/-- A report, or the reason why there is none. -/
abbrev WaitResult := Except Errno Notification

namespace WaitResult

/-- A blocking wait goes on after a report and after an interruption. -/
def goesOn : WaitResult → Bool
  | .ok _ => true
  | .error e => e == .eintr

/-- A drain of the pending reports goes on after a report and after an interruption, and ends when
no report is pending. -/
def drainGoesOn : WaitResult → Bool
  | .ok .stillAlive => false
  | .ok _ => true
  | .error e => e == .eintr

end WaitResult

end JobControl
