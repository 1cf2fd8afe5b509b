import JobControl.Proofs.Session.Coherence
import JobControl.Proofs.Session.Course

/-!
# What an operation keeps, whatever it is

An operation asks the system for one thing after the other, so it keeps whatever every call keeps
(`CallInvariant.perform`).  Nothing about the table enters into that.

Of the table the same can be said about its processes: an operation records no process but those it
starts, and these were children of nobody before (`mem_pids_perform`).
-/

set_option autoImplicit false

namespace JobControl

/-! ## The system -/

namespace CallInvariant

variable {κ : Type} [Kernel κ] {P : κ → Prop} {s : Session κ}

/-- **An operation keeps what every call keeps.** -/
theorem perform (calls : CallInvariant P) (operation : Operation) (h : P s.kernel) :
    P (s.perform operation).kernel :=
  (calls.operation s.shell.terminal).perform operation (fun _ _ _ _ _ => trivial)
    (fun _ _ kept => drain_of_calls calls.collect kept) h

end CallInvariant

/-! ## The processes of the table -/

namespace Session

section

variable {κ : Type} [Kernel κ] {s : Session κ} {id : Nat} {job : Job}

/-- Running a job in the foreground leaves its processes. -/
theorem pids_runForeground (t : Terminal) (job : Job) (k : κ) :
    (t.runForeground job k).1.job.pids = job.pids := by
  cases hgroup : job.group with
  | none => simp only [Terminal.runForeground, hgroup]
  | some group =>
    obtain ⟨w, result, k', run, later, -⟩ :=
      t.runForeground_inv job hgroup (waitInvariant_advances group job) (fun _ => .const _) k
        (.refl job)
    rw [run]
    exact later.pids_eq

theorem pids_waitForeground (s : Session κ) (id : Nat) :
    (s.waitForeground id).2.shell.jobs.pids ⊆ s.shell.jobs.pids := by
  unfold waitForeground
  split
  case h_1 => exact List.Subset.refl _
  case h_2 job found =>
    have same := pids_runForeground s.shell.terminal { job with mode := .foreground } s.kernel
    rcases run : s.shell.terminal.runForeground { job with mode := .foreground } s.kernel with
      ⟨waited, kernel⟩
    rw [run] at same
    have left : (s.shell.jobs.modify id fun _ => { waited.job with mode := .background }).pids ⊆
        s.shell.jobs.pids := by
      refine JobTable.pids_modify fun e he hid => ?_
      rw [JobTable.job_of_find? found he hid]
      exact same
    simp only [concludeWait]
    split
    · rw [shell_removeJob]
      exact JobTable.pids_erase _ id
    · exact left
    · exact left

theorem pids_fg (s : Session κ) : s.fg.2.shell.jobs.pids ⊆ s.shell.jobs.pids := by
  cases s.fg_cases with
  | missing recent fg => rw [fg]; exact List.Subset.refl _
  | groupless e he group fg => rw [fg]; exact List.Subset.refl _
  | refused e he pgid group cause kernel answer fg => rw [fg]; exact List.Subset.refl _
  | resumed e he pgid group kernel answer after marked fg =>
    have before : after.shell.jobs.pids ⊆ s.shell.jobs.pids := by
      rw [marked]
      exact JobTable.pids_modify fun e' _ _ => (Job.Advances.markContinued e'.job).pids_eq
    rw [fg]
    exact List.Subset.trans (pids_waitForeground after e.id) before

theorem pids_bg (s : Session κ) : s.bg.2.shell.jobs.pids ⊆ s.shell.jobs.pids := by
  cases s.bg_cases with
  | missing bg => rw [bg]; exact List.Subset.refl _
  | groupless e he group bg => rw [bg]; exact List.Subset.refl _
  | refused e he pgid group cause kernel answer bg => rw [bg]; exact List.Subset.refl _
  | resumed e he pgid group kernel answer bg =>
    rw [bg]
    exact JobTable.pids_modify fun e' _ _ => (Job.Advances.markContinued e'.job).pids_eq

theorem pids_runStage (s : Session κ) (stage : Stage) :
    (s.runStage stage).2.shell.jobs.pids ⊆ s.shell.jobs.pids := by
  unfold runStage
  split
  · exact List.Subset.refl _
  · rw [jobs_cd]
    exact List.Subset.refl _
  · exact pids_fg s
  · exact pids_bg s
  · exact List.Subset.refl _

end

section

variable {σ : Type} [Kernel σ] {s : Session (Host σ)} {id : Nat} {job : Job} {pid : Pid}

/-- A launch brings processes into the table that were children of nobody. -/
theorem mem_pids_launchTracked (found : s.shell.jobs.find? id = some job) (fresh : job.Fresh)
    (hpid : pid ∈ (s.launchTracked id).2.shell.jobs.pids) :
    pid ∈ s.shell.jobs.pids ∨ ∀ g, (pid, g) ∉ s.kernel.roll.children := by
  rcases launchTracked_rule found fresh (Host.launchInvariant_roll s.kernel.roll _)
      (Host.launching_nil s.kernel) with
    ⟨e, kernel, changed, -, launch⟩ |
    ⟨l, pids, launched, kernel, after, shape, -, ⟨-, -, unused⟩, hl, ha, launch⟩
  · rw [launch, shell_removeJob, shell_modifyJob] at hpid
    obtain ⟨e, he, hpid⟩ := JobTable.mem_pids.mp hpid
    obtain ⟨he, hne⟩ := JobTable.mem_erase.mp he
    rcases JobTable.cases_of_mem_modify he with ⟨he, -⟩ | ⟨e', -, hid, rfl⟩
    · exact Or.inl (JobTable.mem_pids.mpr ⟨e, he, hpid⟩)
    · exact absurd hid hne
  · have own : launched.pids = pids := by
      rw [hl]
      exact fresh.pids_launched shape
    have placed : pid ∈ after.shell.jobs.pids := by
      rw [launch] at hpid
      split at hpid
      · exact hpid
      · exact pids_waitForeground after id hpid
    rw [ha] at placed
    refine (JobTable.mem_pids_modify placed).imp_right fun new => ?_
    rw [own] at new
    exact unused pid new

theorem mem_pids_run {line : String} (hpid : pid ∈ (s.run line).2.shell.jobs.pids) :
    pid ∈ s.shell.jobs.pids ∨ ∀ g, (pid, g) ∉ s.kernel.roll.children := by
  cases s.run_cases line with
  | faulty fault parsed run => rw [run] at hpid; exact Or.inl hpid
  | blank parsed run => rw [run] at hpid; exact Or.inl hpid
  | tracked job parsed fresh external id jobs registered run =>
    rw [run] at hpid
    refine (mem_pids_launchTracked (JobTable.find?_of_register registered)
      (fresh.withId (some id)) hpid).imp_left fun old => ?_
    exact JobTable.pids_register fresh.pids_eq_nil registered old
  | untracked job parsed fresh external full run =>
    rw [run] at hpid
    simp only [shell_launchUntracked fresh] at hpid
    exact Or.inl hpid
  | builtin job parsed fresh stage rest stages builtin run =>
    have first := pids_runStage (s.log (.builtinRun stage.program)) stage
    rw [run] at hpid
    refine Or.inl (first ?_)
    cases s.runBuiltin_cases stages with
    | failed e after answer run => rw [answer]; rwa [run] at hpid
    | done text after answer last run => rw [answer]; rwa [run] at hpid
    | piped text after answer more run =>
      rw [run] at hpid
      simp only [shell_launchUntracked (fresh.tail stages more)] at hpid
      rwa [answer]

/-- **An operation records no process but those it starts**, and these were children of nobody. -/
theorem mem_pids_perform {operation : Operation}
    (hpid : pid ∈ (s.perform operation).shell.jobs.pids) :
    pid ∈ s.shell.jobs.pids ∨ ∀ g, (pid, g) ∉ s.kernel.roll.children := by
  cases operation with
  | run line => exact mem_pids_run hpid
  | poll => exact Or.inl (JobTable.pids_reap s.shell.jobs (drain s.kernel).1 hpid)
  | fg => exact Or.inl (pids_fg s hpid)
  | bg => exact Or.inl (pids_bg s hpid)
  | cd arguments =>
    simp only [perform, jobs_cd] at hpid
    exact Or.inl hpid
  | exit => exact Or.inl hpid
  | listJobs => exact Or.inl hpid

end

end Session

end JobControl
