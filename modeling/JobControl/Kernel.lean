import JobControl.Event.Basic
import JobControl.Notification
import JobControl.Signal.Disposition

/-!
# The system under the shell

`Kernel κ` lists what the shell asks of the system it runs on, as functions on the system's state
`κ`.  The shell is written for every instance, so a statement about it can quantify over all answers
a system may give: an instance may refuse any open, pipe, fork or signal, and may deliver reports on
children in any order.

One law is asked of an instance.  `reportsLeft` bounds the results that waiting may still deliver;
each result after which a wait goes on lowers it, so every wait ends.
-/

set_option autoImplicit false

namespace JobControl

/-- A file descriptor. -/
abbrev Descriptor := Nat

/-- What a new child does before its program starts: it joins a process group (or founds its own),
takes the terminal for that group if asked to, restores the default dispositions, installs
descriptors as its standard input and output, and starts the program with these words. -/
structure ChildPlan where
  group : Option Pid
  takesTerminal : Bool
  input : Option Descriptor
  output : Option Descriptor
  words : List String
deriving DecidableEq, Repr

/-- The services of the system the shell runs on. -/
class Kernel (κ : Type) where
  /-- Opens a file for reading. -/
  openInput : String → κ → Except PathError Descriptor × κ
  /-- Opens a file for writing and creates it if needed. -/
  openOutput : Output → κ → Except PathError Descriptor × κ
  /-- Makes a pipe: the end to read from and the end to write to. -/
  openPipe : κ → Except Errno (Descriptor × Descriptor) × κ
  /-- Closes a descriptor of the shell. -/
  close : Descriptor → κ → κ
  /-- Starts a child. -/
  fork : ChildPlan → κ → Except Errno Pid × κ
  /-- Puts a child into a process group. -/
  joinGroup : Pid → Pid → κ → Except Errno Unit × κ
  /-- Sends a signal to every process of a group. -/
  signalGroup : Pid → Signal → κ → Except Errno Unit × κ
  /-- Sleeps until a child of the group has a report, and takes it. -/
  awaitGroup : Pid → κ → WaitResult × κ
  /-- Takes a pending report of any child without sleeping. -/
  collect : κ → WaitResult × κ
  /-- Changes the working directory. -/
  changeDirectory : String → κ → Except PathError Unit × κ
  /-- The working directory. -/
  workingDirectory : κ → Except PathError String
  /-- The shell's process group. -/
  ownGroup : κ → Pid
  /-- Moves the shell into a process group of its own. -/
  foundGroup : κ → Except Errno Unit × κ
  /-- Stops the shell, by a terminal signal to its own group, until that group is the terminal's
  foreground group. -/
  comeToForeground : κ → Except Errno Unit × κ
  /-- Makes a group the terminal's foreground group. -/
  setForeground : Pid → κ → Except Errno Unit × κ
  /-- Sets one of the shell's dispositions and gives the one it had. -/
  setDisposition : Signal → Disposition → κ → Disposition × κ
  /-- Writes to the shell's standard output. -/
  writeOutput : String → κ → κ
  /-- Writes to the shell's standard error. -/
  writeError : String → κ → κ
  /-- Logs an event. -/
  log : Event → κ → κ
  /-- A bound on the results that waiting may still deliver. -/
  reportsLeft : κ → Nat
  reportsLeft_awaitGroup : ∀ (group : Pid) (k : κ),
    (awaitGroup group k).1.goesOn = true → reportsLeft (awaitGroup group k).2 < reportsLeft k
  reportsLeft_collect : ∀ k : κ,
    (collect k).1.drainGoesOn = true → reportsLeft (collect k).2 < reportsLeft k

end JobControl
