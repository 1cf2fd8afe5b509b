import JobControl.Machine.Run

/-!
# At the machine

What somebody does to a machine from outside the shell: typing at its terminal, waiting for a child to
change, and taking a child's report behind the shell's back.
-/

set_option autoImplicit false

namespace JobControl

/-- A change of a child that can be waited for. -/
inductive ChildChange
  | exited
  | stopped
  | continued
deriving DecidableEq, Repr

namespace Child

/-- The child's unread report is about such a change. -/
def hasPending (c : Child) (change : ChildChange) : Bool :=
  c.unread &&
    match c.phase, change with
    | .running, .continued => true
    | .stopped _, .stopped => true
    | .ended _, .exited => true
    | _, _ => false

end Child

namespace Machine

/-! ## Typing -/

/-- The signals that control characters send. -/
def typedSignal? (b : UInt8) : Option Signal :=
  if b = 3 then some .int
  else if b = 26 then some .tstp
  else if b = 28 then some .quit
  else none

/-- One byte is typed.  A newline or an end-of-file character hands the line over to readers, the
erase character takes back a byte and the kill character the whole line; a character that sends a
signal sends it to the foreground group and throws away what was typed. -/
def typeByte (m : Machine) (b : UInt8) : Machine :=
  match m.console with
  | none => m
  | some t =>
    match typedSignal? b with
    | some s =>
      let m := { m with console := some { t with line := [], ready := [] } }
      (m.signalChildren t.foreground s).2
    | none =>
      let t :=
        if b = 10 ∨ b = 13 then
          { t with line := [], ready := t.ready ++ [(10 :: t.line).reverse] }
        else if b = 4 then { t with line := [], ready := t.ready ++ [t.line.reverse] }
        else if b = 127 then { t with line := t.line.drop 1 }
        else if b = 21 then { t with line := [] }
        else { t with line := b :: t.line }
      { m with console := some t }

/-- Text is typed. -/
def typeText (m : Machine) (text : String) : Machine :=
  text.toUTF8.toList.foldl typeByte m

/-! ## Waiting -/

/-- Lets the machine run until a child has an unread change, and tells whether it has one. -/
def awaitChange (m : Machine) (pid : Pid) (change : ChildChange) : Bool × Machine :=
  let has (m : Machine) : Bool := (m.child? pid).any fun c => c.hasPending change
  let m := sleepUntil has wakeLimit m.settle
  (has m, m)

/-- Waits for the end of a child and takes its report; gives how it ended. -/
def steal (m : Machine) (pid : Pid) : Option Ending × Machine :=
  let (_, m) := m.awaitChange pid .exited
  match m.child? pid with
  | some c =>
    match c.phase with
    | .ended how => (some how, m.dropChild pid)
    | _ => (none, m)
  | none => (none, m)

/-- Lets the machine run until a file is long enough; gives its bytes if it can be read. -/
def awaitFile (m : Machine) (directory : NodeId) (path : String) (least : Nat) :
    Option ByteArray × Machine :=
  let bytes? (m : Machine) : Option ByteArray :=
    match m.files.find directory path with
    | .ok node =>
      match m.files.nodes[node]? with
      | some (.file content _) => some content
      | some .sink => some .empty
      | _ => none
    | .error _ => none
  let long (m : Machine) : Bool :=
    match bytes? m with
    | some data => least ≤ data.size
    | none => least = 0
  let m := sleepUntil long wakeLimit m.settle
  (bytes? m, m)

end Machine

end JobControl
