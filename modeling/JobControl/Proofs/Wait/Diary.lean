import JobControl.Proofs.Wait.Vigil

/-!
# Where a wait asks

`Diary κ` is any system `κ` with a diary beside it: whenever it is asked to wait for a report of a
group, the system is noted as it is then.  It passes every call on and every answer back.  So a wait
goes on it as it goes on the system alone, and what it has noted in the end are the moments at which
the wait asked.  They are those that `Watch.vigil` lists (`Watch.run_diary`, `Session.noted_eq`).
-/

set_option autoImplicit false

namespace JobControl

/-- A system, and how it was whenever it was asked to wait for a report of a group. -/
structure Diary (κ : Type) where
  system : κ
  noted : List κ

namespace Diary

variable {κ α : Type}

/-- Passes a call on. -/
def pass (call : κ → α × κ) (d : Diary κ) : α × Diary κ :=
  ((call d.system).1, { d with system := (call d.system).2 })

variable [Kernel κ]

instance : Kernel (Diary κ) where
  openInput path := pass (Kernel.openInput path)
  openOutput file := pass (Kernel.openOutput file)
  openPipe := pass Kernel.openPipe
  close descriptor d := { d with system := Kernel.close descriptor d.system }
  fork plan := pass (Kernel.fork plan)
  joinGroup pid group := pass (Kernel.joinGroup pid group)
  signalGroup group signal := pass (Kernel.signalGroup group signal)
  awaitGroup group d := pass (Kernel.awaitGroup group) { d with noted := d.noted ++ [d.system] }
  collect := pass Kernel.collect
  changeDirectory path := pass (Kernel.changeDirectory path)
  workingDirectory d := Kernel.workingDirectory d.system
  ownGroup d := Kernel.ownGroup d.system
  foundGroup := pass Kernel.foundGroup
  comeToForeground := pass Kernel.comeToForeground
  setForeground group := pass (Kernel.setForeground group)
  setDisposition signal disposition := pass (Kernel.setDisposition signal disposition)
  writeOutput text d := { d with system := Kernel.writeOutput text d.system }
  writeError text d := { d with system := Kernel.writeError text d.system }
  log e d := { d with system := Kernel.log e d.system }
  reportsLeft d := Kernel.reportsLeft d.system
  reportsLeft_awaitGroup group d := Kernel.reportsLeft_awaitGroup group d.system
  reportsLeft_collect d := Kernel.reportsLeft_collect d.system

theorem awaitGroup_eq {group : Pid} {k k' : κ} {result : WaitResult}
    (answer : Kernel.awaitGroup group k = (result, k')) (noted : List κ) :
    Kernel.awaitGroup group (Diary.mk k noted) = (result, ⟨k', noted ++ [k]⟩) := by
  simp only [Kernel.awaitGroup, pass, answer]

/-- Nothing but a wait is noted. -/
theorem terminalQuiet (moments : List κ) :
    TerminalQuiet fun d : Diary κ => d.noted = moments where
  setDisposition := fun _ _ _ h => h
  setForeground := fun _ _ h => h
  log := fun _ _ h => h

/-- The terminal is handed over as on the system alone. -/
theorem giveTo_eq (t : Terminal) (group : Pid) (k : κ) (noted : List κ) :
    t.giveTo group (Diary.mk k noted) = ⟨t.giveTo group k, noted⟩ := by
  have handed : Terminal.handOver group (Diary.mk k noted) =
      ((Terminal.handOver group k).1, ⟨(Terminal.handOver group k).2, noted⟩) := rfl
  unfold Terminal.giveTo
  rw [handed]
  split
  · rcases Terminal.handOver group k with ⟨e | ⟨⟩, k'⟩ <;> rfl
  · rfl

end Diary

variable {κ : Type} [Kernel κ]

/-- **A watch asks at the moments of its vigil**: with a diary it goes as without it, and they are
noted in order. -/
theorem Watch.run_diary (group : Pid) (w : Watch) (k : κ) (noted : List κ) :
    run group w (Diary.mk k noted) = ((run group w k).1, (run group w k).2.1,
      ⟨(run group w k).2.2, noted ++ (vigil group w k).map Prod.snd⟩) := by
  fun_induction Watch.run group w k generalizing noted with
  | case1 w k idle => rw [run_of_idle idle, vigil_of_idle idle, List.map_nil, List.append_nil]
  | case2 w k busy n k' answer _ ih =>
    rw [run_of_report busy (Diary.awaitGroup_eq answer noted), ih, vigil_of_report busy answer,
      List.map_cons, List.append_assoc]
    rfl
  | case3 w k busy k' answer _ ih =>
    rw [run_of_interruption busy (Diary.awaitGroup_eq answer noted), ih,
      vigil_of_interruption busy answer, List.map_cons, List.append_assoc]
    rfl
  | case4 w k busy k' answer other =>
    rw [run_of_childless busy (Diary.awaitGroup_eq answer noted),
      vigil_of_failure busy answer other, List.map_singleton]
  | case5 w k busy e k' answer other children =>
    rw [run_of_failure busy (Diary.awaitGroup_eq answer noted) other children,
      vigil_of_failure busy answer other, List.map_singleton]

/-- A job that runs in the foreground is waited for from the handover of the terminal on. -/
theorem Terminal.noted_runForeground (t : Terminal) {job : Job} {group : Pid}
    (hgroup : job.group = some group) (k : κ) :
    (t.runForeground job (Diary.mk k [])).2.noted =
      (Watch.vigil group (.start job) (t.giveTo group k)).map Prod.snd := by
  have wait := Job.wait_eq hgroup (Watch.run_diary group (.start job) (t.giveTo group k) [])
  simp only [Terminal.runForeground, hgroup, Diary.giveTo_eq, wait, List.nil_append]
  -- What follows the wait, the log and taking the terminal back, is not noted.
  have quiet := Diary.terminalQuiet ((Watch.vigil group (.start job) (t.giveTo group k)).map Prod.snd)
  exact quiet.giveTo t t.group (logAll_inv quiet.log _ rfl)

namespace Session

/-- The moments at which the shell asks for a report of a group when it waits for a tracked job: what
is noted if it does so on the same system with a blank diary. -/
def noted (s : Session κ) (id : Nat) : List κ :=
  (Session.waitForeground ⟨s.shell, Diary.mk s.kernel []⟩ id).2.kernel.noted

/-- What is noted is left when a wait is concluded. -/
theorem noted_concludeWait (s : Session (Diary κ)) (id : Nat) (waited : Waited) :
    (s.concludeWait id waited).2.kernel.noted = s.kernel.noted := by
  unfold concludeWait
  split
  · unfold removeJob
    split <;> rfl
  · rfl
  · rfl

/-- **The shell waits for a tracked job at the moments of its vigil.** -/
theorem noted_eq {s : Session κ} {id : Nat} {job : Job} {group : Pid}
    (found : s.shell.jobs.find? id = some job) (hgroup : job.group = some group) :
    s.noted id = (s.vigil id).map Prod.snd := by
  have foreground : { job with mode := .foreground }.group = some group := hgroup
  rw [vigil_eq found hgroup]
  simp only [noted, waitForeground, found, noted_concludeWait]
  exact s.shell.terminal.noted_runForeground foreground s.kernel

end Session

end JobControl
