import JobControl.Errno
import JobControl.Job.Basic
import JobControl.Signal.Basic
import JobControl.Text.Quoted

/-!
# What the shell logs

Each noteworthy step of the shell is an event.  An event has a level, the part of the shell it comes
from, a message and fields; `Event.line` is the log line made of them, without its time.
-/

set_option autoImplicit false

namespace JobControl

/-- How important an event is. -/
inductive Level
  | error
  | warn
  | info
  | debug
  | trace
deriving DecidableEq, Repr

namespace Level

/-- The name at the beginning of a log line. -/
def name : Level → String
  | error => "ERROR"
  | warn => "WARN"
  | info => "INFO"
  | debug => "DEBUG"
  | trace => "TRACE"

/-- A more detailed level has a higher rank. -/
def rank : Level → Nat
  | error => 1
  | warn => 2
  | info => 3
  | debug => 4
  | trace => 5

end Level

/-- A step of the shell worth logging. -/
inductive Event
  | jobControlUnavailable (cause : Errno)
  | shellStarted (user home : String) (jobControl : Bool)
  | builtinRun (program : String)
  | tableFull (capacity : Nat)
  | untrackedStopped (command : String)
  | waitFailed (id : Nat) (cause : Errno)
  | hangingUp (group : Pid) (command : String)
  | jobRegistered (id : Nat) (command : String)
  | jobRemoved (id : Nat) (command : String)
  | inputIgnored (stage : Nat) (program : String)
  | outputIgnored (stage : Nat) (program : String)
  | outputFailed (path : String) (cause : PathError)
  | groupNotJoined (pid : Pid) (cause : Errno)
  | stageStarted (pid group : Pid) (program : String) (mode : JobMode)
  | foregroundChanged (change : StatusChange)
  | stageChanged (id : Nat) (change : StatusChange)
  | untrackedChanged (change : StatusChange)
  | collectFailed (cause : Errno)
  | groupKept
  | terminalAttached (group : Pid)
  | terminalHandedOver (group : Pid)
  | handOverFailed (group : Pid) (cause : Errno)
  | signalIgnored (signal : Signal)
  | inputUnreadable
deriving Repr

namespace Event

/-- The level of an event. -/
def level : Event → Level
  | inputUnreadable => .error
  | jobControlUnavailable _ | tableFull _ | untrackedStopped _ | waitFailed _ _ | inputIgnored _ _
  | outputIgnored _ _ | outputFailed _ _ | collectFailed _ | handOverFailed _ _ => .warn
  | shellStarted _ _ _ => .info
  | _ => .debug

/-- The part of the shell an event comes from. -/
def target : Event → String
  | jobControlUnavailable _ | shellStarted _ _ _ | builtinRun _ | tableFull _ | untrackedStopped _
  | waitFailed _ _ | hangingUp _ _ => "ish::ish"
  | jobRegistered _ _ | jobRemoved _ _ => "ish::job"
  | inputIgnored _ _ | outputIgnored _ _ | outputFailed _ _ | groupNotJoined _ _
  | stageStarted _ _ _ _ => "ish::launch"
  | foregroundChanged _ | stageChanged _ _ | untrackedChanged _ | collectFailed _ => "ish::status"
  | groupKept | terminalAttached _ | terminalHandedOver _ | handOverFailed _ _ => "ish::terminal"
  | signalIgnored _ => "ish::signal"
  | inputUnreadable => "ish::cli"

/-- The message of an event. -/
def message : Event → String
  | jobControlUnavailable _ => "job control unavailable"
  | shellStarted _ _ _ => "shell started"
  | builtinRun _ => "builtin"
  | tableFull _ => "job table full"
  | untrackedStopped _ => "untracked job stopped"
  | waitFailed _ _ => "foreground wait failed"
  | hangingUp _ _ => "hanging up"
  | jobRegistered _ _ => "registered job"
  | jobRemoved _ _ => "removed job"
  | inputIgnored _ _ => "input redirection ignored inside a pipeline"
  | outputIgnored _ _ => "output redirection ignored inside a pipeline"
  | outputFailed _ _ => "output redirection failed"
  | groupNotJoined _ _ => "setpgid from parent"
  | stageStarted _ _ _ _ => "started stage"
  | foregroundChanged _ => "foreground stage changed"
  | stageChanged _ _ => "stage changed"
  | untrackedChanged _ => "untracked child"
  | collectFailed _ => "reaping failed, retrying at the next poll"
  | groupKept => "shell keeps its process group"
  | terminalAttached _ => "terminal attached"
  | terminalHandedOver _ => "terminal handed over"
  | handOverFailed _ _ => "tcsetpgrp failed"
  | signalIgnored _ => "ignoring"
  | inputUnreadable => "reading input failed"

/-- The fields of an event, in the order they are written. -/
def fields : Event → List (String × String)
  | jobControlUnavailable cause => [("error", cause.message)]
  | shellStarted user home jobControl =>
    [("user", user), ("home", home), ("job_control", toString jobControl)]
  | builtinRun program => [("program", program)]
  | tableFull capacity => [("capacity", toString capacity)]
  | untrackedStopped command => [("command", command)]
  | waitFailed id cause => [("id", toString id), ("error", "waitpid: " ++ cause.message)]
  | hangingUp group command => [("pgid", toString group), ("command", command)]
  | jobRegistered id command => [("id", toString id), ("command", command)]
  | jobRemoved id command => [("id", toString id), ("command", command)]
  | inputIgnored stage program => [("stage", toString stage), ("program", program)]
  | outputIgnored stage program => [("stage", toString stage), ("program", program)]
  | outputFailed path cause => [("path", Text.quoted path), ("error", cause.message)]
  | groupNotJoined pid cause => [("pid", toString pid), ("error", cause.message)]
  | stageStarted pid group program mode =>
    [("pid", toString pid), ("pgid", toString group), ("program", program), ("mode", mode.name)]
  | foregroundChanged change => [("pid", toString change.pid), ("status", change.status.word)]
  | stageChanged id change =>
    [("id", toString id), ("pid", toString change.pid), ("status", change.status.word)]
  | untrackedChanged change => [("pid", toString change.pid), ("status", change.status.word)]
  | collectFailed cause => [("error", cause.message)]
  | groupKept => []
  | terminalAttached group => [("pgid", toString group)]
  | terminalHandedOver group => [("pgid", toString group)]
  | handOverFailed group cause => [("pgid", toString group), ("error", cause.message)]
  | signalIgnored signal => [("signal", signal.fullName)]
  | inputUnreadable => [("error", "stream did not contain valid UTF-8")]

/-- The log line of an event, without its time. -/
def line (e : Event) : String :=
  e.level.name ++ " " ++ e.target ++ ": " ++ e.message ++
    String.join (e.fields.map fun (key, value) => " " ++ key ++ "=" ++ value)

end Event

end JobControl
