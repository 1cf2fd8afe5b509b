import JobControl.Kernel
import JobControl.Machine.Run

/-!
# The machine as the shell's system

The machine answers everything the shell asks.  A blocking wait lets the children run until one of the
group has an unread report; among several the one forked first is taken.  Nothing else lets the
children run.
-/

set_option autoImplicit false

namespace JobControl.Machine

/-! ## Descriptors of the shell -/

/-- Takes some of the descriptors the shell may still open. -/
def reserve (m : Machine) (count : Nat) : Option Machine :=
  match m.spare with
  | none => some m
  | some left => if left < count then none else some { m with spare := some (left - count) }

/-- Gives the shell a descriptor that closes when a program starts. -/
def openForShell (m : Machine) (channel : Channel) : Descriptor × Machine :=
  let (file, m) := m.addOpenFile channel
  let (d, descriptors) := m.descriptors.openLowest file true
  (d, { m with descriptors })

/-- The checks on a path that come before a descriptor is set aside. -/
def checkPath (path : String) : Except PathError Unit :=
  if path.toList.contains '\x00' then .error .interiorNul
  else if path = "" then .error (.refused .enoent)
  else if FileTree.maxPath ≤ path.utf8ByteSize then .error (.refused .enametoolong)
  else .ok ()

/-- Opens a file for the shell. -/
def openPath (m : Machine) (path : String) (use : Machine → Except Errno (Channel × Machine)) :
    Except PathError Descriptor × Machine :=
  match checkPath path with
  | .error e => (.error e, m)
  | .ok () =>
    match m.reserve 1 with
    | none => (.error (.refused .emfile), m)
    | some reserved =>
      match use reserved with
      | .error e => (.error (.refused e), m)
      | .ok (channel, m) =>
        let (d, m) := m.openForShell channel
        (.ok d, m)

/-- Opens a file for reading. -/
def openInput (path : String) (m : Machine) : Except PathError Descriptor × Machine :=
  m.openPath path fun m => (m.sourceOf m.directory path).map fun channel => (channel, m)

/-- Opens a file for writing. -/
def openOutput (file : Output) (m : Machine) : Except PathError Descriptor × Machine :=
  m.openPath file.path fun m => m.targetOf m.directory file.path (file.mode == .append)

/-- Makes a pipe. -/
def openPipe (m : Machine) : Except Errno (Descriptor × Descriptor) × Machine :=
  match m.reserve 2 with
  | none => (.error .emfile, m)
  | some m =>
    let pipe := m.pipes.size
    let m := { m with pipes := m.pipes.push .empty }
    let (outlet, m) := m.openForShell (.pipeOutlet pipe)
    let (inlet, m) := m.openForShell (.pipeInlet pipe)
    (.ok (outlet, inlet), m)

/-- Closes a descriptor of the shell. -/
def closeDescriptor (d : Descriptor) (m : Machine) : Machine :=
  if (m.descriptors.file? d).isSome then
    { m with descriptors := m.descriptors.close d, spare := m.spare.map (· + 1) }
  else m

/-! ## Children -/

/-- Starts a child. -/
def fork (plan : ChildPlan) (m : Machine) : Except Errno Pid × Machine :=
  let pid := m.nextPid
  let group := plan.group.getD pid
  let child : Child :=
    { pid, group
      name := ""
      descriptors := (m.descriptors.install plan.input 0).install plan.output 1
      directory := m.directory
      activity := .start plan.words
      phase := .running
      pending := []
      unread := false }
  let console :=
    if plan.takesTerminal then m.console.map fun t => { t with foreground := group }
    else m.console
  (.ok pid, { m with children := m.children ++ [child], nextPid := pid + 1, console })

/-- Takes the first unread report among some children. -/
def takeReport? (p : Child → Bool) (m : Machine) : Option (WaitResult × Machine) :=
  (m.children.find? fun c => p c && c.unread).map m.readReport

/-- Sleeps until a child of the group has a report, and takes it. -/
def awaitGroup (group : Pid) (m : Machine) : WaitResult × Machine :=
  match m.horizon with
  | 0 => (.error .edeadlk, m)
  | left + 1 =>
    let inGroup (c : Child) : Bool := c.group == group
    let pending (m : Machine) : Bool :=
      !m.children.any inGroup || m.children.any fun c => inGroup c && c.unread
    let m := sleepUntil pending wakeLimit m.settle
    if !m.children.any inGroup then (.error .echild, m)
    else
      match m.takeReport? inGroup with
      | some (result, m) => (result, { m with horizon := left })
      | none => (.error .edeadlk, m)

/-- Takes a pending report of any child without sleeping. -/
def collect (m : Machine) : WaitResult × Machine :=
  match m.horizon with
  | 0 => (.ok .stillAlive, m)
  | left + 1 =>
    if m.children.isEmpty then (.error .echild, m)
    else
      match m.takeReport? fun _ => true with
      | some (result, m) => (result, { m with horizon := left })
      | none => (.ok .stillAlive, m)

/-- A wait that goes on has lowered the horizon. -/
theorem horizon_awaitGroup (group : Pid) (m : Machine)
    (h : (awaitGroup group m).1.goesOn = true) : (awaitGroup group m).2.horizon < m.horizon := by
  unfold awaitGroup at h ⊢
  split at h
  · simp [WaitResult.goesOn, Errno.edeadlk, Errno.eintr] at h
  next left hleft =>
    simp only at h ⊢
    split at h
    · simp [WaitResult.goesOn, Errno.echild, Errno.eintr] at h
    next hgroup =>
      rw [if_neg hgroup]
      split at h
      · rw [hleft]; exact Nat.lt_succ_self left
      · simp [WaitResult.goesOn, Errno.edeadlk, Errno.eintr] at h

/-- A drain that goes on has lowered the horizon. -/
theorem horizon_collect (m : Machine) (h : (collect m).1.drainGoesOn = true) :
    (collect m).2.horizon < m.horizon := by
  unfold collect at h ⊢
  split at h
  · simp [WaitResult.drainGoesOn] at h
  next left hleft =>
    split at h
    · simp [WaitResult.drainGoesOn, Errno.echild, Errno.eintr] at h
    next hempty =>
      rw [if_neg hempty]
      split at h
      · rw [hleft]; exact Nat.lt_succ_self left
      · simp [WaitResult.drainGoesOn] at h

/-! ## Working directory -/

/-- Changes the shell's working directory. -/
def changeDirectory (path : String) (m : Machine) : Except PathError Unit × Machine :=
  if path.toList.contains '\x00' then (.error .interiorNul, m)
  else
    match m.files.findDirectory m.directory path with
    | .ok directory => (.ok (), { m with directory })
    | .error e => (.error (.refused e), m)

/-- The shell's working directory. -/
def workingDirectory (m : Machine) : Except PathError String :=
  match m.files.pathOf m.directory with
  | .ok path => .ok path
  | .error e => .error (.refused e)

/-! ## Groups and the terminal -/

/-- Moves the shell into a group of its own. -/
def foundGroup (m : Machine) : Except Errno Unit × Machine :=
  if m.leadsSession then (.error .eperm, m) else (.ok (), { m with group := shellPid })

/-- Stops the shell until its group is the foreground group. -/
def comeToForeground (m : Machine) : Except Errno Unit × Machine :=
  match m.console with
  | none => (.error .enotty, m)
  | some console =>
    if console.foreground = m.group then (.ok (), m)
    else
      (.ok (), { m with
        stops := m.stops + 1
        console := some { console with foreground := m.group } })

/-- Makes a group the foreground group. -/
def setForeground (group : Pid) (m : Machine) : Except Errno Unit × Machine :=
  match m.console with
  | none => (.error .enotty, m)
  | some console =>
    if group < 0 then (.error .einval, m)
    else if group = initialPid then (.error .eperm, m)
    else if group = m.group ∨ m.hasGroup group then
      (.ok (), { m with console := some { console with foreground := group } })
    else (.error .esrch, m)

/-- Sets one of the shell's dispositions and gives the one it had. -/
def setDisposition (s : Signal) (value : Disposition) (m : Machine) : Disposition × Machine :=
  (m.dispositions.of s, { m with dispositions := m.dispositions.set s value })

instance : Kernel Machine where
  openInput := openInput
  openOutput := openOutput
  openPipe := openPipe
  close := closeDescriptor
  fork := fork
  joinGroup _ _ m := (.ok (), m)
  signalGroup group s m := m.signalChildren group s
  awaitGroup := awaitGroup
  collect := collect
  changeDirectory := changeDirectory
  workingDirectory := workingDirectory
  ownGroup m := m.group
  foundGroup := foundGroup
  comeToForeground := comeToForeground
  setForeground := setForeground
  setDisposition := setDisposition
  writeOutput text m := m.print text.toUTF8
  writeError text m := m.complain text.toUTF8
  log e m := { m with diagnostics := m.diagnostics.push (.event e) }
  reportsLeft := horizon
  reportsLeft_awaitGroup := horizon_awaitGroup
  reportsLeft_collect := horizon_collect

end JobControl.Machine
