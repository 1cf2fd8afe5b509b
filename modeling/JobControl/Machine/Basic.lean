import JobControl.Event.Basic
import JobControl.Machine.Activity
import JobControl.Machine.Descriptors
import JobControl.Machine.FileTree
import JobControl.Notification
import JobControl.Signal.Disposition

/-!
# The machine

A small system with one processor for the shell to run on: a file tree, open files and pipes, the
shell itself, its children in the order they were forked, a terminal or none, and a clock that moves
only when nobody can do anything else.

A child is running, stopped or ended.  Its report is *unread* from each change of that state until
somebody waits for it; a newer change replaces an older one, and the report always tells the present
state.  An ended child stays until its report is read.
-/

set_option autoImplicit false

namespace JobControl

/-- What an open file leads to. -/
inductive Channel
  | file (node : NodeId) (append : Bool)
  | directory
  | text (content : ByteArray)
  | sink
  | pipeOutlet (pipe : Nat)
  | pipeInlet (pipe : Nat)
  | terminal
  | output
  | errors

/-- An open file: where it leads and how far it has been read or written. -/
structure OpenFile where
  channel : Channel
  offset : Nat

/-- How a child ended. -/
inductive Ending
  | exited (code : Nat)
  | killed (signal : Signal)
deriving DecidableEq, Repr

/-- The state of a child. -/
inductive Phase
  | running
  | stopped (signal : Signal)
  | ended (how : Ending)
deriving DecidableEq, Repr

/-- A child of the shell. -/
structure Child where
  pid : Pid
  group : Pid
  name : String
  descriptors : DescriptorTable
  directory : NodeId
  activity : Activity
  phase : Phase
  pending : List Signal
  unread : Bool

namespace Child

/-- The child has ended. -/
def isEnded (c : Child) : Bool :=
  match c.phase with
  | .ended _ => true
  | _ => false

/-- The child is neither stopped nor ended. -/
def isRunning (c : Child) : Bool :=
  c.phase == .running

end Child

/-- The controlling terminal: its foreground group, the line being typed, newest byte first, and the
lines that can be read. -/
structure Console where
  foreground : Pid
  line : List UInt8
  ready : List (List UInt8)
deriving DecidableEq, Repr

/-- What arrives on standard error. -/
inductive Diagnostic
  | text (data : ByteArray)
  | event (e : Event)

/-- The state of the machine. -/
structure Machine where
  files : FileTree
  directory : NodeId
  descriptors : DescriptorTable
  /-- How many more descriptors the shell may open, if that is limited. -/
  spare : Option Nat
  openFiles : Array OpenFile
  pipes : Array ByteArray
  children : List Child
  nextPid : Pid
  group : Pid
  /-- The shell leads its terminal session, and so cannot leave its group. -/
  leadsSession : Bool
  console : Option Console
  dispositions : Dispositions
  /-- Milliseconds. -/
  clock : Nat
  output : ByteArray
  diagnostics : Array Diagnostic
  /-- How often the shell stopped itself to wait for the foreground. -/
  stops : Nat
  /-- How many more reports the machine delivers. -/
  horizon : Nat

namespace Machine

/-- The process id of the shell. -/
def shellPid : Pid := 900

/-- The id of the first process, which no shell may touch. -/
def initialPid : Pid := 1

/-- A machine that has only a file tree and a standard input. -/
def boot (files : FileTree) (directory : NodeId) (input : Channel) : Machine where
  files := files
  directory := directory
  descriptors := ⟨[(0, ⟨0, false⟩), (1, ⟨1, false⟩), (2, ⟨2, false⟩)]⟩
  spare := none
  openFiles := #[⟨input, 0⟩, ⟨.output, 0⟩, ⟨.errors, 0⟩]
  pipes := #[]
  children := []
  nextPid := 100001
  group := shellPid
  leadsSession := false
  console := none
  dispositions := Dispositions.allDefault.set .pipe .ignore
  clock := 0
  output := .empty
  diagnostics := #[]
  stops := 0
  horizon := 1000000

/-! ## Children -/

/-- The child with a process id. -/
def child? (m : Machine) (pid : Pid) : Option Child :=
  m.children.find? fun c => c.pid == pid

/-- Changes one child. -/
def modifyChild (m : Machine) (pid : Pid) (f : Child → Child) : Machine :=
  { m with children := m.children.map fun c => if c.pid == pid then f c else c }

/-- Forgets a child. -/
def dropChild (m : Machine) (pid : Pid) : Machine :=
  { m with children := m.children.filter fun c => c.pid != pid }

/-- Sets what a child still has to do. -/
def setActivity (m : Machine) (pid : Pid) (activity : Activity) : Machine :=
  m.modifyChild pid fun c => { c with activity }

/-- Some child, ended or not, is in the group. -/
def hasGroup (m : Machine) (group : Pid) : Bool :=
  m.children.any fun c => c.group == group

/-! ## Output -/

/-- Adds bytes to standard output. -/
def print (m : Machine) (data : ByteArray) : Machine :=
  { m with output := m.output ++ data }

/-- Adds bytes to standard error. -/
def complain (m : Machine) (data : ByteArray) : Machine :=
  { m with diagnostics := m.diagnostics.push (.text data) }

/-! ## Open files -/

/-- Adds an open file. -/
def addOpenFile (m : Machine) (channel : Channel) : Nat × Machine :=
  (m.openFiles.size, { m with openFiles := m.openFiles.push ⟨channel, 0⟩ })

/-- Moves the position of an open file. -/
def setOffset (m : Machine) (file offset : Nat) : Machine :=
  { m with openFiles := m.openFiles.modify file fun f => { f with offset } }

/-- The open files that the shell or a child that has not ended holds. -/
def heldFiles (m : Machine) : List Nat :=
  (m.descriptors :: (m.children.filter fun c => !c.isEnded).map Child.descriptors).flatMap
    fun table => table.slots.map fun (_, slot) => slot.file

/-- Somebody holds an open file of a class. -/
def holds (m : Machine) (p : Channel → Bool) : Bool :=
  m.heldFiles.any fun file =>
    match m.openFiles[file]? with
    | some f => p f.channel
    | none => false

/-- Somebody may still write to the pipe. -/
def hasWriter (m : Machine) (pipe : Nat) : Bool :=
  m.holds fun channel =>
    match channel with
    | .pipeInlet p => p == pipe
    | _ => false

/-- Somebody may still read from the pipe. -/
def hasReader (m : Machine) (pipe : Nat) : Bool :=
  m.holds fun channel =>
    match channel with
    | .pipeOutlet p => p == pipe
    | _ => false

/-- The status file of a child, as the tree of processes shows it: process id, name, state, parent,
group, session, terminal, and the terminal's foreground group. -/
def processText? (m : Machine) (path : String) : Option ByteArray :=
  m.children.findSome? fun c =>
    if path == "/proc/" ++ toString c.pid ++ "/stat" then
      let foreground : Pid := (m.console.map Console.foreground).getD (-1)
      let terminal : Nat := if m.console.isSome then 34816 else 0
      some (toString c.pid ++ " (" ++ c.name ++ ") S " ++ toString shellPid ++ " " ++
        toString c.group ++ " " ++ toString shellPid ++ " " ++ toString terminal ++ " " ++
        toString foreground ++ " 0\n").toUTF8
    else none

/-- What a path opened for reading leads to. -/
def sourceOf (m : Machine) (directory : NodeId) (path : String) : Except Errno Channel :=
  match m.processText? path with
  | some text => .ok (.text text)
  | none =>
    match m.files.find directory path with
    | .error e => .error e
    | .ok node =>
      match m.files.nodes[node]? with
      | some (.directory _ _) => .ok .directory
      | some .sink => .ok .sink
      | _ => .ok (.file node false)

/-- What a path opened for writing leads to; the file is made if it is missing and emptied unless it
is to be appended to. -/
def targetOf (m : Machine) (directory : NodeId) (path : String) (append : Bool) :
    Except Errno (Channel × Machine) :=
  match m.files.create directory path with
  | .error e => .error e
  | .ok (node, files) =>
    match files.nodes[node]? with
    | some .sink => .ok (.sink, { m with files })
    | _ =>
      let files := if append then files else files.setContent node .empty
      .ok (.file node append, { m with files })

end Machine

end JobControl
