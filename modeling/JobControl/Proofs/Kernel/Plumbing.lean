import JobControl.Machine.Descriptors
import JobControl.Proofs.Loops

/-!
# The books on descriptors

`Plumbing κ` keeps the books on the descriptors of a shell and of its children.  A descriptor is the
lowest free number, and stands for an open file (`Endpoint`).  A child gets a copy of the table with
what its plan installs, and the start of its program closes what is marked for it, as on the machine
(`Machine.fork`, `Machine.startProgram`).  Which opens, pipes and children are refused is up to the
system `κ`.
-/

set_option autoImplicit false

namespace JobControl

/-! ## The books -/

/-- What a descriptor stands for: something from before the launch, a file, or an end of a pipe. -/
inductive Endpoint
  | earlier (number : Nat)
  | input (path : String)
  | output (file : Output)
  | outlet (pipe : Nat)
  | inlet (pipe : Nat)
deriving DecidableEq, Repr

/-- The program of a child, with the descriptors it was started with. -/
structure Plumbing.Child where
  words : List String
  table : DescriptorTable
deriving DecidableEq, Repr

/-- The descriptors of the shell, the open files by number, the number of pipes, the files that were
asked for with whether they were opened, and the children. -/
structure Plumbing (κ : Type) where
  system : κ
  table : DescriptorTable
  files : List Endpoint
  pipes : Nat
  asked : List (Endpoint × Bool)
  children : List Plumbing.Child

namespace Plumbing

variable {κ α : Type} {p q r : Plumbing κ}

/-- What the descriptors of a table stand for. -/
def view (p : Plumbing κ) (t : DescriptorTable) (d : Nat) : Option Endpoint :=
  (t.file? d).bind fun number => p.files[number]?

def file (p : Plumbing κ) (held : Option (Nat × Nat)) : Option Endpoint :=
  held.bind fun h => p.files[h.2]?

/-- The open files of a table are in the books. -/
def Known (p : Plumbing κ) (t : DescriptorTable) : Prop :=
  ∀ d number, t.file? d = some number → number < p.files.length

theorem Known.mono {t : DescriptorTable} (known : p.Known t) (more : p.files <+: q.files) :
    q.Known t :=
  fun d number opened => Nat.lt_of_lt_of_le (known d number opened) more.length_le

/-- What is in the books stays there. -/
theorem view_of_grown {t : DescriptorTable} (known : p.Known t) (more : p.files <+: q.files) :
    q.view t = p.view t := by
  obtain ⟨files, more⟩ := more
  funext d
  unfold view
  cases opened : t.file? d with
  | none => rfl
  | some number =>
    have := known d number opened
    simp [← more, List.getElem?_append_left this]

/-- The books are the same but for the shell's own descriptors. -/
structure Keeps (p q : Plumbing κ) : Prop where
  files : q.files = p.files
  pipes : q.pipes = p.pipes
  asked : q.asked = p.asked
  children : q.children = p.children

theorem Keeps.trans (h : p.Keeps q) (h' : q.Keeps r) : p.Keeps r :=
  ⟨h'.files.trans h.files, h'.pipes.trans h.pipes, h'.asked.trans h.asked,
    h'.children.trans h.children⟩

/-! ## The system with its books -/

def pass (call : κ → α × κ) (p : Plumbing κ) : α × Plumbing κ :=
  ((call p.system).1, { p with system := (call p.system).2 })

/-- Gives an open file the lowest free descriptor. -/
def openLowest (file : Endpoint) (p : Plumbing κ) : Descriptor × Plumbing κ :=
  let (d, table) := p.table.openLowest p.files.length true
  (d, { p with table, files := p.files ++ [file] })

/-- Opens a file, unless the system refuses. -/
def request {ε : Type} (call : κ → Except ε α × κ) (file : Endpoint) (p : Plumbing κ) :
    Except ε Descriptor × Plumbing κ :=
  match call p.system with
  | (.ok _, system) =>
    let (d, p) := openLowest file { p with system, asked := p.asked ++ [(file, true)] }
    (.ok d, p)
  | (.error e, system) => (.error e, { p with system, asked := p.asked ++ [(file, false)] })

/-- The child that a plan makes, once its program has started. -/
def child (p : Plumbing κ) (plan : ChildPlan) : Child :=
  ⟨plan.words, ((p.table.install plan.input 0).install plan.output 1).start⟩

variable [Kernel κ]

/-- Makes a pipe, unless the system refuses. -/
def makePipe (p : Plumbing κ) : Except Errno (Descriptor × Descriptor) × Plumbing κ :=
  match Kernel.openPipe p.system with
  | (.ok _, system) =>
    let (readEnd, q) := openLowest (.outlet p.pipes) { p with system, pipes := p.pipes + 1 }
    let (writeEnd, q) := openLowest (.inlet p.pipes) q
    (.ok (readEnd, writeEnd), q)
  | (.error e, system) => (.error e, { p with system })

/-- Makes a child, unless the system refuses. -/
def makeChild (plan : ChildPlan) (p : Plumbing κ) : Except Errno Pid × Plumbing κ :=
  match Kernel.fork plan p.system with
  | (.ok pid, system) => (.ok pid, { p with system, children := p.children ++ [p.child plan] })
  | (.error e, system) => (.error e, { p with system })

instance : Kernel (Plumbing κ) where
  openInput path := request (Kernel.openInput path) (.input path)
  openOutput file := request (Kernel.openOutput file) (.output file)
  openPipe := makePipe
  close d p := { p with table := p.table.close d }
  fork := makeChild
  joinGroup pid group := pass (Kernel.joinGroup pid group)
  signalGroup group signal := pass (Kernel.signalGroup group signal)
  awaitGroup group := pass (Kernel.awaitGroup group)
  collect := pass Kernel.collect
  changeDirectory path := pass (Kernel.changeDirectory path)
  workingDirectory p := Kernel.workingDirectory p.system
  ownGroup p := Kernel.ownGroup p.system
  foundGroup := pass Kernel.foundGroup
  comeToForeground := pass Kernel.comeToForeground
  setForeground group := pass (Kernel.setForeground group)
  setDisposition signal disposition := pass (Kernel.setDisposition signal disposition)
  writeOutput text p := { p with system := Kernel.writeOutput text p.system }
  writeError text p := { p with system := Kernel.writeError text p.system }
  log e p := { p with system := Kernel.log e p.system }
  reportsLeft p := Kernel.reportsLeft p.system
  reportsLeft_awaitGroup group p := Kernel.reportsLeft_awaitGroup group p.system
  reportsLeft_collect p := Kernel.reportsLeft_collect p.system

theorem keeps_closeOptional (d : Option Descriptor) (p : Plumbing κ) :
    p.Keeps (closeOptional d p) := by
  cases d <;> exact ⟨rfl, rfl, rfl, rfl⟩

theorem keeps_log (e : Event) (p : Plumbing κ) : p.Keeps (Kernel.log e p) :=
  ⟨rfl, rfl, rfl, rfl⟩

theorem keeps_regroup (pid group : Pid) (p : Plumbing κ) :
    p.Keeps (regroup pid group p) ∧ (regroup pid group p).table = p.table := by
  simp only [regroup, Kernel.joinGroup, pass]
  cases (Kernel.joinGroup pid group p.system).1 <;> exact ⟨⟨rfl, rfl, rfl, rfl⟩, rfl⟩

theorem keeps_logAll (events : List Event) (p : Plumbing κ) :
    p.Keeps (Terminal.logAll events p) ∧ (Terminal.logAll events p).table = p.table := by
  apply Terminal.logAll_inv (P := fun q => p.Keeps q ∧ q.table = p.table)
  · exact fun e q h => ⟨h.1.trans (keeps_log e q), h.2⟩
  · exact ⟨⟨rfl, rfl, rfl, rfl⟩, rfl⟩

theorem fork_ok {plan : ChildPlan} {pid : Pid} (h : Kernel.fork plan p = (.ok pid, q)) :
    ∃ system, q = { p with system, children := p.children ++ [p.child plan] } := by
  simp only [Kernel.fork, makeChild] at h
  split at h
  · cases h
    exact ⟨_, rfl⟩
  · cases h

theorem fork_error {plan : ChildPlan} {e : Errno} (h : Kernel.fork plan p = (.error e, q)) :
    ∃ system, q = { p with system } := by
  simp only [Kernel.fork, makeChild] at h
  split at h
  · cases h
  · cases h
    exact ⟨_, rfl⟩

end Plumbing

end JobControl
