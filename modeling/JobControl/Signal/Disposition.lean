import JobControl.Signal.Basic

/-!
# What a process does with a signal

A process has one disposition per signal.  The interactive shell ignores the signals a terminal
sends, a child gets the defaults back before its program starts, and a *guard* ignores `SIGTTOU` for
as long as it is alive and then puts back what it found.
-/

set_option autoImplicit false

namespace JobControl

/-- What happens when a signal arrives.  Handlers are told apart by the routine they run. -/
inductive Disposition
  | default
  | ignore
  | handler {routine : Nat}
deriving DecidableEq, Repr, Inhabited

/-- The disposition of every signal in one process. -/
structure Dispositions where
  of : Signal → Disposition

namespace Dispositions

/-- Every signal has its default effect. -/
def allDefault : Dispositions :=
  ⟨fun _ => .default⟩

/-- Changes one signal. -/
def set (d : Dispositions) (s : Signal) (value : Disposition) : Dispositions :=
  ⟨fun t => if t = s then value else d.of t⟩

/-- Changes several signals to one value. -/
def setAll (d : Dispositions) (signals : List Signal) (value : Disposition) : Dispositions :=
  signals.foldl (fun d s => d.set s value) d

/-- The signals an interactive shell ignores, so that only the foreground job reacts to the
terminal. -/
def shellIgnored : List Signal :=
  [.int, .quit, .tstp, .ttin]

/-- The signals whose default every child gets back before its program starts. -/
def childDefaults : List Signal :=
  [.int, .quit, .tstp, .ttin, .ttou, .chld]

/-- The dispositions of an interactive shell. -/
def ignoreJobControl (d : Dispositions) : Dispositions :=
  d.setAll shellIgnored .ignore

/-- The dispositions of a child about to start its program. -/
def restoreChildDefaults (d : Dispositions) : Dispositions :=
  d.setAll childDefaults .default

end Dispositions

/-- A guard that keeps `SIGTTOU` ignored; it remembers the disposition it found. -/
structure TtouGuard where
  previous : Disposition
deriving DecidableEq, Repr

namespace TtouGuard

/-- Creates a guard. -/
def acquire (d : Dispositions) : TtouGuard × Dispositions :=
  (⟨d.of .ttou⟩, d.set .ttou .ignore)

/-- Drops a guard. -/
def release (g : TtouGuard) (d : Dispositions) : Dispositions :=
  d.set .ttou g.previous

end TtouGuard

end JobControl
