import JobControl.Errno
import JobControl.Job.Status
import JobControl.Signal.Basic

/-!
# What a process still has to do

The rest of a running program, as a tree of the system services it will use.  A step that gives
something back carries a function from it to what follows.  Two services repeat by themselves: `relay`
copies one descriptor to another until the input ends, and `gather` reads a descriptor to its end.
-/

set_option autoImplicit false

namespace JobControl

/-- How copying ended. -/
inductive RelayEnd
  | finished
  | unreadable (cause : Errno)
  | unwritable (cause : Errno)
deriving DecidableEq, Repr

/-- What a process still has to do. -/
inductive Activity
  /-- Ends with a code. -/
  | exit (code : Nat)
  /-- Writes bytes to a descriptor. -/
  | write (target : Nat) (data : ByteArray) (next : Option Errno → Activity)
  /-- Copies bytes as they come, each replaced or dropped on the way. -/
  | relay (source target : Nat) (change : UInt8 → Option UInt8) (next : RelayEnd → Activity)
  /-- Reads to the end of the input. -/
  | gather (source : Nat) (sofar : ByteArray) (next : Except Errno ByteArray → Activity)
  /-- Opens a file for reading. -/
  | openRead (path : String) (next : Except Errno Nat → Activity)
  /-- Opens a file for writing, at its end or emptied. -/
  | openWrite (path : String) (append : Bool) (next : Except Errno Nat → Activity)
  /-- Asks for the size of a regular file behind a descriptor. -/
  | size (source : Nat) (next : Option Nat → Activity)
  /-- Asks whether copying one descriptor to another would copy a file onto its own end. -/
  | feedsItself (source target : Nat) (next : Bool → Activity)
  /-- Closes a descriptor. -/
  | close (d : Nat) (next : Activity)
  /-- Sleeps for some milliseconds. -/
  | sleep (duration : Nat) (next : Activity)
  /-- Sleeps until the clock shows a time. -/
  | sleepUntil (time : Nat) (next : Activity)
  /-- Sends a signal to a process; tells whether the process exists. -/
  | send (target : Int) (signal : Signal) (next : Bool → Activity)
  /-- Asks for the working directory. -/
  | directory (next : Except Errno String → Activity)
  /-- Waits to be in the foreground; tells the group it is in then, if there is a terminal. -/
  | comeForward (next : Option Pid → Activity)
  /-- Moves into a group and puts this group in the foreground. -/
  | lead (group : Pid) (next : Activity)
  /-- Replaces the program by another one. -/
  | start (words : List String)

namespace Activity

/-- Writes text and goes on whatever comes of it. -/
def say (target : Nat) (text : String) (next : Activity) : Activity :=
  .write target text.toUTF8 fun _ => next

end Activity

end JobControl
