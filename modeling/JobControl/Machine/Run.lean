import JobControl.Machine.Program
import JobControl.Machine.Transfer

/-!
# How children run

The first child in the order of forking that can take a step takes it, and so on until none can.  Then
the clock moves on to the next time a sleeper waits for.  Children run only while the shell sleeps.
-/

set_option autoImplicit false

namespace JobControl.Machine

/-- A child takes one step, if it can. -/
def stepChild? (m : Machine) (c : Child) : Option Machine :=
  match c.activity with
  | .exit code => some (m.modifyChild c.pid fun c => c.finish (.exited code))
  | .write target data next =>
    if data.size = 0 then some (m.setActivity c.pid (next none))
    else
      match m.write c target data with
      | (.took count, m) =>
        some (m.setActivity c.pid
          (if data.size ≤ count then next none
           else .write target (data.extract count data.size) next))
      | (.failed e, m) => some (m.setActivity c.pid (next (some e)))
      | (.blocked, _) => none
  | .relay source target change next =>
    match m.read c source with
    | (.bytes data, m) =>
      some (m.setActivity c.pid
        (.write target ⟨(data.toList.filterMap change).toArray⟩ fun failure =>
          match failure with
          | none => .relay source target change next
          | some e => next (.unwritable e)))
    | (.atEnd, m) => some (m.setActivity c.pid (next .finished))
    | (.failed e, m) => some (m.setActivity c.pid (next (.unreadable e)))
    | (.blocked, after) => afterBlocked after
  | .gather source sofar next =>
    match m.read c source with
    | (.bytes data, m) => some (m.setActivity c.pid (.gather source (sofar ++ data) next))
    | (.atEnd, m) => some (m.setActivity c.pid (next (.ok sofar)))
    | (.failed e, m) => some (m.setActivity c.pid (next (.error e)))
    | (.blocked, after) => afterBlocked after
  | .openRead path next =>
    match m.sourceOf c.directory path with
    | .error e => some (m.setActivity c.pid (next (.error e)))
    | .ok channel => some (opened m channel next)
  | .openWrite path append next =>
    match m.targetOf c.directory path append with
    | .error e => some (m.setActivity c.pid (next (.error e)))
    | .ok (channel, m) => some (opened m channel next)
  | .size source next => some (m.setActivity c.pid (next (m.sizeOf? c source)))
  | .feedsItself source target next =>
    some (m.setActivity c.pid (next (m.feedsItself c source target)))
  | .close d next =>
    some (m.modifyChild c.pid fun c =>
      { c with descriptors := c.descriptors.close d, activity := next })
  | .sleep duration next => some (m.setActivity c.pid (.sleepUntil (m.clock + duration) next))
  | .sleepUntil time next => if m.clock < time then none else some (m.setActivity c.pid next)
  | .send target signal next =>
    let (found, _) := m.signalChild target signal
    some ((m.setActivity c.pid (next found)).signalChild target signal).2
  | .directory next => some (m.setActivity c.pid (next (m.files.pathOf c.directory)))
  | .comeForward next =>
    match m.console with
    | none => some (m.setActivity c.pid (next none))
    | some console =>
      if console.foreground = c.group then some (m.setActivity c.pid (next (some c.group)))
      else afterBlocked (m.signalChildren c.group .ttin).2
  | .lead group next =>
    let m := m.modifyChild c.pid fun c => { c with group, activity := next }
    some { m with console := m.console.map fun t => { t with foreground := group } }
  | .start words => some (m.modifyChild c.pid fun c => m.startProgram c words)
where
  /-- What has to wait is a step only if it stopped the child. -/
  afterBlocked (after : Machine) : Option Machine :=
    match after.child? c.pid with
    | some c => if c.isRunning then none else some after
    | none => none
  /-- The child gets a descriptor for a channel. -/
  opened (m : Machine) (channel : Channel) (next : Except Errno Nat → Activity) : Machine :=
    let (file, m) := m.addOpenFile channel
    let (d, descriptors) := c.descriptors.openLowest file false
    m.modifyChild c.pid fun c => { c with descriptors, activity := next (.ok d) }

/-- The first child that can take a step takes it. -/
def step? (m : Machine) : Option Machine :=
  (m.children.filter Child.isRunning).findSome? m.stepChild?

/-- Runs the children for at most so many steps. -/
def runFor : Nat → Machine → Machine
  | 0, m => m
  | n + 1, m =>
    match m.step? with
    | some m => runFor n m
    | none => m

/-- How many steps the children take at most before the shell goes on. -/
def stepLimit : Nat := 20000

/-- Runs the children until none can take a step. -/
def settle (m : Machine) : Machine :=
  runFor stepLimit m

/-- The time a child waits for. -/
def wakeTime? (c : Child) : Option Nat :=
  match c.activity with
  | .sleepUntil time _ => if c.isRunning then some time else none
  | _ => none

/-- The next time some child waits for. -/
def nextWake? (m : Machine) : Option Nat :=
  (m.children.filterMap wakeTime?).min?

/-- Moves the clock to the next time some child waits for, and runs the children. -/
def wakeNext? (m : Machine) : Option Machine :=
  m.nextWake?.map fun time => settle { m with clock := max m.clock time }

/-- Sleeps until a condition holds or nothing can happen any more; `n` bounds how often the clock
moves. -/
def sleepUntil (ready : Machine → Bool) : Nat → Machine → Machine
  | 0, m => m
  | n + 1, m =>
    if ready m then m
    else
      match m.wakeNext? with
      | some m => sleepUntil ready n m
      | none => m

/-- How often the clock moves at most during one sleep. -/
def wakeLimit : Nat := 1000

/-- Lets some milliseconds pass. -/
def pass (m : Machine) (duration : Nat) : Machine :=
  let m := m.settle
  let deadline := m.clock + duration
  let nobodyBefore (m : Machine) : Bool := deadline < m.nextWake?.getD (deadline + 1)
  let m := sleepUntil nobodyBefore wakeLimit m
  settle { m with clock := max m.clock deadline }

end JobControl.Machine
