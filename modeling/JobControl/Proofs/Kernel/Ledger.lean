import JobControl.Proofs.Loops

/-!
# A ledger of what the shell does

`Ledger κ` is any system `κ` with a record beside it of the calls that change something for good:
the children that were started, the directories that were entered and the groups that were given the
terminal.  It passes every call on and every answer back, so whatever is shown for the ledger holds
for the system below, with the record as a witness of what the shell has done to it.
-/

set_option autoImplicit false

namespace JobControl

/-- A system, with the children that were started on it, the directories that were entered and the
groups that were given the terminal, each in order. -/
structure Ledger (κ : Type) where
  system : κ
  started : List Pid
  entered : List String
  foreground : List Pid

namespace Ledger

variable {κ α : Type}

/-- Passes a call on and records nothing. -/
def pass (call : κ → α × κ) (l : Ledger κ) : α × Ledger κ :=
  ((call l.system).1, { l with system := (call l.system).2 })

/-- Passes a call on and records it if it succeeds. -/
def enter {ε : Type} (call : κ → Except ε α × κ) (record : α → Ledger κ → Ledger κ)
    (l : Ledger κ) : Except ε α × Ledger κ :=
  match call l.system with
  | (.ok a, system) => (.ok a, record a { l with system })
  | (.error e, system) => (.error e, { l with system })

variable [Kernel κ]

instance : Kernel (Ledger κ) where
  openInput path := pass (Kernel.openInput path)
  openOutput file := pass (Kernel.openOutput file)
  openPipe := pass Kernel.openPipe
  close d l := { l with system := Kernel.close d l.system }
  fork plan := enter (Kernel.fork plan) fun pid l => { l with started := l.started ++ [pid] }
  joinGroup pid group := pass (Kernel.joinGroup pid group)
  signalGroup group signal := pass (Kernel.signalGroup group signal)
  awaitGroup group := pass (Kernel.awaitGroup group)
  collect := pass Kernel.collect
  changeDirectory path :=
    enter (Kernel.changeDirectory path) fun _ l => { l with entered := l.entered ++ [path] }
  workingDirectory l := Kernel.workingDirectory l.system
  ownGroup l := Kernel.ownGroup l.system
  foundGroup := pass Kernel.foundGroup
  comeToForeground := pass Kernel.comeToForeground
  setForeground group :=
    enter (Kernel.setForeground group) fun _ l => { l with foreground := l.foreground ++ [group] }
  setDisposition signal disposition := pass (Kernel.setDisposition signal disposition)
  writeOutput text l := { l with system := Kernel.writeOutput text l.system }
  writeError text l := { l with system := Kernel.writeError text l.system }
  log e l := { l with system := Kernel.log e l.system }
  reportsLeft l := Kernel.reportsLeft l.system
  reportsLeft_awaitGroup group l := Kernel.reportsLeft_awaitGroup group l.system
  reportsLeft_collect l := Kernel.reportsLeft_collect l.system

/-- The two ledgers have the same record. -/
structure SameRecord (l l' : Ledger κ) : Prop where
  started : l'.started = l.started
  entered : l'.entered = l.entered
  foreground : l'.foreground = l.foreground

namespace SameRecord

variable {l l' l'' : Ledger κ}

omit [Kernel κ] in
theorem refl (l : Ledger κ) : l.SameRecord l :=
  ⟨rfl, rfl, rfl⟩

omit [Kernel κ] in
theorem trans (h : l.SameRecord l') (h' : l'.SameRecord l'') : l.SameRecord l'' :=
  ⟨h'.started.trans h.started, h'.entered.trans h.entered, h'.foreground.trans h.foreground⟩

omit [Kernel κ] in
/-- A call that is passed on leaves the record. -/
theorem of_pass {call : κ → α × κ} {a : α} (h : pass call l = (a, l')) : l.SameRecord l' := by
  cases h
  exact ⟨rfl, rfl, rfl⟩

omit [Kernel κ] in
/-- A call that is refused leaves the record. -/
theorem of_error {ε : Type} {call : κ → Except ε α × κ} {record : α → Ledger κ → Ledger κ} {e : ε}
    (h : enter call record l = (.error e, l')) : l.SameRecord l' := by
  unfold enter at h
  split at h
  · cases h
  · cases h
    exact ⟨rfl, rfl, rfl⟩

theorem quiet (l : Ledger κ) : Quiet l.SameRecord where
  openInput := fun _ _ h => h.trans (of_pass rfl)
  openOutput := fun _ _ h => h.trans (of_pass rfl)
  openPipe := fun _ h => h.trans (of_pass rfl)
  close := fun _ _ h => h.trans ⟨rfl, rfl, rfl⟩
  joinGroup := fun _ _ _ h => h.trans (of_pass rfl)
  writeError := fun _ _ h => h.trans ⟨rfl, rfl, rfl⟩
  log := fun _ _ h => h.trans ⟨rfl, rfl, rfl⟩

end SameRecord

/-! ## The loops -/

/-- As long as a launch was given no process, it has left the record. -/
theorem launchInvariant (l : Ledger κ) (group : Option Pid) (takesTerminal : Bool) :
    LaunchInvariant group takesTerminal fun pids l' => pids = [] → l.SameRecord l' where
  quiet := by
    intro pids
    by_cases none : pids = []
    · simpa only [none, forall_const] using SameRecord.quiet l
    · simpa only [none, false_implies] using Quiet.const True
  started := by
    intro pids plan k pid k' _ _ _ _ none
    exact absurd none (by simp)
  refused := by
    intro pids plan k e k' same refused none
    exact (same none).trans (.of_error refused)

theorem waitInvariant (started : List Pid) (group : Pid) :
    WaitInvariant group fun _ (l : Ledger κ) => l.started = started where
  report := fun _ _ _ _ _ h answer => (SameRecord.of_pass answer).started.trans h
  failed := fun _ _ _ _ _ h answer => (SameRecord.of_pass answer).started.trans h

theorem terminalQuiet (started : List Pid) :
    TerminalQuiet fun l : Ledger κ => l.started = started where
  setDisposition := fun _ _ _ h => h
  setForeground := by
    intro group l h
    simp only [Kernel.setForeground, enter]
    split <;> exact h
  log := fun _ _ h => h

end Ledger

end JobControl
