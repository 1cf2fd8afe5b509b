import JobControl.Kernel

/-!
# Answers that are known beforehand

`Gives ask k answers k'` says which answers a system gives when it is asked for reports again and
again.  `Foretold κ` is any system `κ` with a list of results, which it hands out in order to those
who ask for reports (`Foretold.gives_take`).  It passes every other call on.  So a statement about
all systems and the answers they give is one about every list of answers.
-/

set_option autoImplicit false

namespace JobControl

/-- Asked as many times, a system gives these answers, in order. -/
inductive Gives {κ α : Type} (ask : κ → α × κ) : κ → List α → κ → Prop
  | nil (k : κ) : Gives ask k [] k
  | cons {k k' k'' : κ} {a : α} {rest : List α} (answer : ask k = (a, k'))
      (later : Gives ask k' rest k'') : Gives ask k (a :: rest) k''

/-- A system, with the results that it will give to those who ask for reports. -/
structure Foretold (κ : Type) where
  system : κ
  results : List WaitResult

namespace Foretold

variable {κ α : Type}

/-- Passes a call on. -/
def pass (call : κ → α × κ) (f : Foretold κ) : α × Foretold κ :=
  ((call f.system).1, { f with system := (call f.system).2 })

/-- Hands out the next result; the one given here if none is left. -/
def take (otherwise : WaitResult) (f : Foretold κ) : WaitResult × Foretold κ :=
  match f.results with
  | [] => (otherwise, f)
  | result :: rest => (result, { f with results := rest })

theorem gives_take (otherwise : WaitResult) (system : κ) (answers rest : List WaitResult) :
    Gives (take otherwise) ⟨system, answers ++ rest⟩ answers ⟨system, rest⟩ := by
  induction answers with
  | nil => exact .nil _
  | cons first others ih => exact .cons rfl ih

theorem length_take {otherwise : WaitResult} {f : Foretold κ}
    (given : (take otherwise f).1 ≠ otherwise) :
    (take otherwise f).2.results.length < f.results.length := by
  unfold take at given ⊢
  split at given
  case h_1 => exact absurd rfl given
  case h_2 result rest left =>
    rw [left]
    exact Nat.lt_succ_self rest.length

variable [Kernel κ]

/-- Once all results are handed out, there is no child left to wait for, and none has anything to
report. -/
instance : Kernel (Foretold κ) where
  openInput path := pass (Kernel.openInput path)
  openOutput file := pass (Kernel.openOutput file)
  openPipe := pass Kernel.openPipe
  close d f := { f with system := Kernel.close d f.system }
  fork plan := pass (Kernel.fork plan)
  joinGroup pid group := pass (Kernel.joinGroup pid group)
  signalGroup group signal := pass (Kernel.signalGroup group signal)
  awaitGroup _ := take (.error .echild)
  collect := take (.ok .stillAlive)
  changeDirectory path := pass (Kernel.changeDirectory path)
  workingDirectory f := Kernel.workingDirectory f.system
  ownGroup f := Kernel.ownGroup f.system
  foundGroup := pass Kernel.foundGroup
  comeToForeground := pass Kernel.comeToForeground
  setForeground group := pass (Kernel.setForeground group)
  setDisposition signal disposition := pass (Kernel.setDisposition signal disposition)
  writeOutput text f := { f with system := Kernel.writeOutput text f.system }
  writeError text f := { f with system := Kernel.writeError text f.system }
  log e f := { f with system := Kernel.log e f.system }
  reportsLeft f := f.results.length
  reportsLeft_awaitGroup _ f goes_on := length_take fun same => by
    rw [same] at goes_on
    cases goes_on
  reportsLeft_collect f goes_on := length_take fun same => by
    rw [same] at goes_on
    cases goes_on

theorem gives_collect (system : κ) (answers rest : List WaitResult) :
    Gives Kernel.collect (Foretold.mk system (answers ++ rest)) answers ⟨system, rest⟩ :=
  gives_take _ system answers rest

end Foretold

end JobControl
