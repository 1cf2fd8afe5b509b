import JobControl.Machine.Basic

/-!
# Signals to children

Every signal but `SIGPIPE`, which the shell hands down as ignored, has its default effect on a child:
it stops the child, continues it, ends it or does nothing.  A stopped child takes in only `SIGKILL`
and `SIGCONT`; what else is sent to it waits until it is continued and is then delivered in order of
the numbers.  `SIGCONT` cancels stops that are waiting.
-/

set_option autoImplicit false

namespace JobControl

/-- The default effect of a signal on a child. -/
inductive SignalEffect
  | none
  | stop
  | resume
  | kill
deriving DecidableEq, Repr

namespace Signal

/-- The signals that do nothing to a child: the probe, those that are ignored by default, and the one
the shell hands down as ignored. -/
def harmless : List Signal :=
  [⟨0⟩, .pipe, .chld, .urg, .winch]

/-- The signals that stop a child. -/
def stopping : List Signal :=
  [.stop, .tstp, .ttin, .ttou]

/-- What a signal does to a child. -/
def effect (s : Signal) : SignalEffect :=
  if s = .cont then .resume
  else if s ∈ stopping then .stop
  else if s ∈ harmless then .none
  else .kill

end Signal

namespace Child

/-- The child ends; it holds no descriptors any more and nobody has read its report. -/
def finish (c : Child) (how : Ending) : Child :=
  { c with phase := .ended how, descriptors := ⟨[]⟩, pending := [], unread := true }

/-- A running child takes in signals that were waiting; the first one that ends it is the last. -/
def takePending (c : Child) : Child :=
  match c.pending with
  | [] => c
  | first :: rest =>
    c.finish (.killed (rest.foldl (fun s t => if t.number < s.number then t else s) first))

/-- A child takes in a signal. -/
def deliver (c : Child) (s : Signal) : Child :=
  match c.phase, s.effect with
  | .ended _, _ => c
  | .running, .kill => c.finish (.killed s)
  | .running, .stop => { c with phase := .stopped s, unread := true }
  | .running, _ => c
  | .stopped _, .resume => { c with phase := .running, unread := true }.takePending
  | .stopped _, .kill =>
    if s = .kill then c.finish (.killed s) else { c with pending := c.pending ++ [s] }
  | .stopped _, _ => c

/-- The report on the present state. -/
def report (c : Child) : WaitResult :=
  match c.phase with
  | .running => .ok (.continued c.pid)
  | .stopped s => .ok (.stopped c.pid s)
  | .ended (.exited code) => .ok (.exited c.pid code)
  | .ended (.killed s) =>
    if s.isStandard then .ok (.signaled c.pid s false) else .error .einval

end Child

namespace Machine

/-- Sends a signal to one child; tells whether it exists. -/
def signalChild (m : Machine) (pid : Pid) (s : Signal) : Bool × Machine :=
  ((m.child? pid).isSome, m.modifyChild pid fun c => c.deliver s)

/-- Sends a signal to every child of a group. -/
def signalChildren (m : Machine) (group : Pid) (s : Signal) : Except Errno Unit × Machine :=
  if m.hasGroup group then
    (.ok (), { m with children := m.children.map fun c =>
      if c.group == group then c.deliver s else c })
  else (.error .esrch, m)

/-- Reads the report of a child: it is no longer unread, and an ended child is forgotten. -/
def readReport (m : Machine) (c : Child) : WaitResult × Machine :=
  (c.report,
    if c.isEnded then m.dropChild c.pid
    else m.modifyChild c.pid fun c => { c with unread := false })

end Machine

end JobControl
