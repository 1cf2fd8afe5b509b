import JobControl.Proofs.Session.Operations
import JobControl.Proofs.Session.Steps

/-!
# The course of an operation

An operation works on a job in two halves.  First the job is made ready: it is launched, or its
group is continued.  Then it is run in the foreground, unless it is to stay in the background.  Of
the system two things can be said: one that holds while no job is ready (`P`), and one that holds
while a certain job is (`Q`).  If making a job ready leads from the one to the other, and running it
leads back, then every operation keeps the first (`OperationInvariant.perform`).

`WorkInvariant` is the part of that without the signals and changes of the directory, which are
enough for lines that launch a job.  Between the halves nothing happens to the table but that the job
is put there.  Of the shell's own state an operation changes the table, the recorded directory and
the wish to exit, and leaves the rest (`Shell.Standing`), the hold on the terminal for one
(`terminal_perform`).
-/

set_option autoImplicit false

namespace JobControl

variable {κ : Type} [Kernel κ]

/-- What the launch and the foreground run of a job do to a property of the system without a job
that is ready and one with such a job.  A launch leaves no job ready if nothing was started or the
job is to stay in the background. -/
structure WorkInvariant (t : Terminal) (P : κ → Prop) (Q : Job → κ → Prop) : Prop where
  log : ∀ e k, P k → P (Kernel.log e k)
  launch : ∀ (job : Job) k failure launched k', job.Fresh → P k →
    job.launch t k = (failure, launched, k') →
      if failure.isSome ∧ launched.group = none ∨ launched.mode = .background then P k'
      else Q launched k'
  foreground : ∀ (job : Job) mode k, Q job k → P (t.runForeground { job with mode } k).2

/-- The same with all that an operation asks for, except that it collects reports: a job is also
ready once its group was continued.  The groups that may be continued are those of a class `R`. -/
structure OperationInvariant (t : Terminal) (R : Pid → Prop) (P : κ → Prop) (Q : Job → κ → Prop) :
    Prop extends WorkInvariant t P Q where
  changeDirectory : ∀ path k, P k → P (Kernel.changeDirectory path k).2
  refused : ∀ group k e k', R group → P k → Kernel.signalGroup group .cont k = (.error e, k') → P k'
  resumed : ∀ group k k', R group → P k → Kernel.signalGroup group .cont k = (.ok (), k') →
    P k' ∧ ∀ job : Job, job.group = some group → Q job k'

/-- What the calls of a launch and of a foreground run keep is kept with a job that is ready and
without. -/
theorem WorkInvariant.of_calls {P : κ → Prop} (quiet : Quiet P) (terminal : TerminalQuiet P)
    (fork : ∀ plan k, P k → P (Kernel.fork plan k).2)
    (await : ∀ group k, P k → P (Kernel.awaitGroup group k).2) (t : Terminal) :
    WorkInvariant t P fun _ => P where
  log := quiet.log
  launch := by
    intro job k failure launched k' _ h answer
    have kept := (LaunchInvariant.of_calls quiet fork job.group _).launch (t := t) h
    rw [answer] at kept
    split
    · exact kept
    · exact kept
  foreground := fun _ _ _ h =>
    WaitInvariant.runForeground t _ (fun group _ => .of_calls (await group)) terminal h

/-- A system that every call leaves as it should be is so with a job that is ready and without. -/
theorem CallInvariant.operation {P : κ → Prop} (calls : CallInvariant P) (t : Terminal) :
    OperationInvariant t (fun _ => True) P fun _ => P where
  toWorkInvariant := .of_calls calls.toQuiet calls.toTerminalQuiet calls.fork calls.await t
  changeDirectory := calls.changeDirectory
  refused := by
    intro group k e k' _ h answer
    have kept := calls.resume group k h
    rwa [answer] at kept
  resumed := by
    intro group k k' _ h answer
    have kept := calls.resume group k h
    rw [answer] at kept
    exact ⟨kept, fun _ _ => kept⟩

/-! ## Which job is resumed -/

namespace Session

/-- The job that a built-in resumes. -/
def resumes? (s : Session κ) (stage : Stage) : Option Nat :=
  match stage.kind with
  | .fg => s.shell.jobs.mostRecentBackground?
  | .bg => s.shell.jobs.mostRecentSuspended?
  | _ => none

/-- The job that an operation resumes. -/
def resumedBy? (s : Session κ) : Operation → Option Nat
  | .fg => s.shell.jobs.mostRecentBackground?
  | .bg => s.shell.jobs.mostRecentSuspended?
  | .run line => (leadingBuiltin? line).bind s.resumes?
  | _ => none

/-- The group of the job that is resumed, if there is one, is of a certain class. -/
def ResumesIn (s : Session κ) (resumed : Option Nat) (R : Pid → Prop) : Prop :=
  ∀ e ∈ s.shell.jobs.entries, resumed = some e.id → ∀ group, e.job.group = some group → R group

end Session

/-! ## Jobs that are launched or waited for -/

namespace WorkInvariant

variable {P : κ → Prop} {Q : Job → κ → Prop} {s : Session κ} {id : Nat} {job : Job}

/-- Concluding a wait asks the system for nothing but to log. -/
theorem concludeWait (work : WorkInvariant s.shell.terminal P Q) (waited : Waited)
    (h : P s.kernel) : P (s.concludeWait id waited).2.kernel := by
  unfold Session.concludeWait
  split
  · exact Session.removeJob_inv work.log id h
  · exact h
  · exact work.log _ _ h

theorem waitForeground (work : WorkInvariant s.shell.terminal P Q)
    (found : s.shell.jobs.find? id = some job) (h : Q job s.kernel) :
    P (s.waitForeground id).2.kernel := by
  have kept := work.foreground job .foreground s.kernel h
  rcases run : s.shell.terminal.runForeground { job with mode := .foreground } s.kernel with
    ⟨waited, kernel⟩
  rw [run] at kept
  simp only [Session.waitForeground, found, run]
  exact WorkInvariant.concludeWait (s := { s with kernel }) work waited kept

theorem launchTracked (work : WorkInvariant s.shell.terminal P Q)
    (found : s.shell.jobs.find? id = some job) (fresh : job.Fresh) (h : P s.kernel) :
    P (s.launchTracked id).2.kernel := by
  rcases launch : job.launch s.shell.terminal s.kernel with ⟨failure, launched, kernel⟩
  have ready := work.launch job s.kernel failure launched kernel fresh h launch
  have placed : ({ s with kernel }.modifyJob id fun _ => launched).shell.jobs.find? id =
      some launched := JobTable.find?_modify found
  simp only [Session.launchTracked, found, launch]
  split
  case h_1 e none =>
    rw [if_pos (Or.inl ⟨rfl, none⟩)] at ready
    exact Session.removeJob_inv work.log id ready
  case h_2 started =>
    split
    case isTrue background =>
      rwa [if_pos (Or.inr background)] at ready
    case isFalse foreground =>
      rw [if_neg] at ready
      · exact waitForeground (s := { s with kernel }.modifyJob id fun _ => launched) work placed
          ready
      · rintro (⟨failed, none⟩ | background)
        · obtain ⟨e, he⟩ := Option.isSome_iff_exists.mp failed
          exact started e he none
        · exact foreground background

theorem waitUntracked (work : WorkInvariant s.shell.terminal P Q) (h : Q job s.kernel) :
    P (s.waitUntracked job).2.kernel := by
  have kept : P (s.shell.terminal.runForeground job s.kernel).2 :=
    work.foreground job job.mode s.kernel h
  simp only [Session.waitUntracked]
  split
  · exact kept
  · exact work.log _ _ kept
  · exact kept

theorem launchUntracked (work : WorkInvariant s.shell.terminal P Q) (fresh : job.Fresh)
    (h : P s.kernel) : P (s.launchUntracked job).2.kernel := by
  rcases launch : job.launch s.shell.terminal s.kernel with ⟨failure, launched, kernel⟩
  have ready := work.launch job s.kernel failure launched kernel fresh h launch
  simp only [Session.launchUntracked, launch]
  split
  case h_1 e none => rwa [if_pos (Or.inl ⟨rfl, none⟩)] at ready
  case h_2 started =>
    split
    case isTrue background => rwa [if_pos (Or.inr background)] at ready
    case isFalse foreground =>
      rw [if_neg] at ready
      · exact waitUntracked (s := { s with kernel }) work ready
      · rintro (⟨failed, none⟩ | background)
        · obtain ⟨e, he⟩ := Option.isSome_iff_exists.mp failed
          exact started e he none
        · exact foreground background

end WorkInvariant

/-! ## What stands -/

/-- A part of the shell that neither the table nor the recorded directory enters. -/
structure Shell.Standing {α : Type} (part : Shell → α) : Prop where
  jobs : ∀ shell jobs, part { shell with jobs } = part shell
  directory : ∀ shell directory, part { shell with directory } = part shell

namespace Shell.Standing

variable {α : Type} {part : Shell → α} {s : Session κ} {job : Job} {stage : Stage}
  {rest : List Stage}

theorem waitForeground (standing : Standing part) (s : Session κ) (id : Nat) :
    part (s.waitForeground id).2.shell = part s.shell := by
  unfold Session.waitForeground
  split
  · rfl
  · simp only [Session.concludeWait]
    split
    · rw [Session.shell_removeJob]
      exact standing.jobs _ _
    · exact standing.jobs _ _
    · exact standing.jobs _ _

theorem launchTracked (standing : Standing part) (s : Session κ) (id : Nat) :
    part (s.launchTracked id).2.shell = part s.shell := by
  unfold Session.launchTracked
  split
  case h_1 => rfl
  case h_2 job _ =>
    rcases job.launch s.shell.terminal s.kernel with ⟨failure, launched, kernel⟩
    simp only
    split
    · rw [Session.shell_removeJob, standing.jobs]
      exact standing.jobs _ _
    · split
      · exact standing.jobs _ _
      · rw [standing.waitForeground]
        exact standing.jobs _ _

theorem cd (standing : Standing part) (s : Session κ) (arguments : List String) :
    part (s.cd arguments).2.shell = part s.shell := by
  cases arguments with
  | nil =>
    simp only [Session.cd, Session.goHome]
    split
    · rfl
    · exact standing.directory _ _
  | cons argument rest =>
    simp only [Session.cd]
    split
    · rfl
    · exact standing.directory _ _

theorem fg (standing : Standing part) (s : Session κ) : part s.fg.2.shell = part s.shell := by
  cases s.fg_cases with
  | missing recent fg => rw [fg]
  | groupless e he group fg => rw [fg]
  | refused e he pgid group cause kernel answer fg => rw [fg]
  | resumed e he pgid group kernel answer after marked fg =>
    rw [fg, standing.waitForeground, marked]
    exact standing.jobs _ _

theorem bg (standing : Standing part) (s : Session κ) : part s.bg.2.shell = part s.shell := by
  cases s.bg_cases with
  | missing bg => rw [bg]
  | groupless e he group bg => rw [bg]
  | refused e he pgid group cause kernel answer bg => rw [bg]
  | resumed e he pgid group kernel answer bg =>
    rw [bg]
    exact standing.jobs _ _

/-- A built-in leaves the part, unless it is `exit` and the part has to do with that. -/
theorem runStage (standing : Standing part)
    (stays : stage.kind = .exit → part s.exit.2.shell = part s.shell) :
    part (s.runStage stage).2.shell = part s.shell := by
  unfold Session.runStage
  split
  case h_1 kind => exact stays kind
  case h_2 => exact standing.cd s stage.arguments
  case h_3 => exact standing.fg s
  case h_4 => exact standing.bg s
  case h_5 => rfl

/-- So does a line that is led by one. -/
theorem runBuiltin (standing : Standing part) (fresh : job.Fresh) (stages : job.stages = stage :: rest)
    (stays : stage.kind = .exit → part s.exit.2.shell = part s.shell) :
    part (s.runBuiltin job).2.shell = part s.shell := by
  have left := standing.runStage (s := s.log (.builtinRun stage.program)) stays
  cases s.runBuiltin_cases stages with
  | failed e after answer run => rw [run]; rwa [answer] at left
  | done text after answer last run => rw [run]; rwa [answer] at left
  | piped text after answer more run =>
    rw [answer] at left
    rw [run, Session.shell_launchUntracked (fresh.tail stages more)]
    exact left

/-- A line leaves the part, unless it is led by `exit` and the part has to do with that. -/
theorem run (standing : Standing part) (s : Session κ) (line : String)
    (stays : (∃ stage, Session.leadingBuiltin? line = some stage ∧ stage.kind = .exit) →
      part s.exit.2.shell = part s.shell) : part (s.run line).2.shell = part s.shell := by
  cases s.run_cases line with
  | faulty fault parsed run => rw [run]
  | blank parsed run => rw [run]
  | tracked job parsed fresh external id jobs registered run =>
    rw [run, standing.launchTracked]
    exact standing.jobs _ _
  | untracked job parsed fresh external full run =>
    rw [run, Session.shell_launchUntracked fresh]
    rfl
  | builtin job parsed fresh stage rest stages builtin run =>
    have leads : Session.leadingBuiltin? line = some stage := by
      simp [Session.leadingBuiltin?, parsed, stages, builtin]
    rw [run]
    exact standing.runBuiltin fresh stages fun kind => stays ⟨stage, leads, kind⟩

end Shell.Standing

namespace Session

theorem standing_terminal : Shell.Standing Shell.terminal :=
  ⟨fun _ _ => rfl, fun _ _ => rfl⟩

/-- **The shell keeps its hold on the terminal** in every operation. -/
theorem terminal_perform (s : Session κ) (operation : Operation) :
    (s.perform operation).shell.terminal = s.shell.terminal := by
  cases operation with
  | run line => exact standing_terminal.run s line fun _ => rfl
  | poll => rfl
  | fg => exact standing_terminal.fg s
  | bg => exact standing_terminal.bg s
  | cd arguments => exact standing_terminal.cd s arguments
  | exit => rfl
  | listJobs => rfl

end Session

/-! ## The table -/

/-- A property of the table that every change of one job keeps. -/
structure JobTable.KeptAt (id : Nat) (P : JobTable → Prop) : Prop where
  modify : ∀ t f, P t → P (t.modify id f)
  erase : ∀ t, P t → P (t.erase id)

namespace Session

variable {P : JobTable → Prop} {s : Session κ} {id : Nat} {job : Job}

theorem jobs_concludeWait (kept : JobTable.KeptAt id P) (waited : Waited) (h : P s.shell.jobs) :
    P (s.concludeWait id waited).2.shell.jobs := by
  unfold concludeWait
  split
  · rw [shell_removeJob]
    exact kept.erase _ h
  · exact kept.modify _ _ h
  · exact kept.modify _ _ h

theorem jobs_waitForeground (kept : JobTable.KeptAt id P) (h : P s.shell.jobs) :
    P (s.waitForeground id).2.shell.jobs := by
  unfold waitForeground
  split
  · exact h
  · exact jobs_concludeWait (s := { s with kernel := _ }) kept _ h

/-- Launching and waiting for a job changes nothing in the table but the job. -/
theorem jobs_launchTracked (kept : JobTable.KeptAt id P) (h : P s.shell.jobs) :
    P (s.launchTracked id).2.shell.jobs := by
  unfold launchTracked
  split
  case h_1 => exact h
  case h_2 job _ =>
    rcases job.launch s.shell.terminal s.kernel with ⟨failure, launched, kernel⟩
    have changed : P ({ s with kernel }.modifyJob id fun _ => launched).shell.jobs :=
      kept.modify _ _ h
    simp only
    split
    · rw [shell_removeJob]
      exact kept.erase _ changed
    · split
      · exact changed
      · exact jobs_waitForeground kept changed

/-- Resuming a job changes nothing in the table but the job. -/
theorem jobs_fg (kept : ∀ id, s.shell.jobs.mostRecentBackground? = some id → JobTable.KeptAt id P)
    (h : P s.shell.jobs) : P s.fg.2.shell.jobs := by
  cases s.fg_cases with
  | missing recent fg => rw [fg]; exact h
  | groupless e he group fg => rw [fg]; exact h
  | refused e he pgid group cause kernel answer fg => rw [fg]; exact h
  | resumed e he pgid group kernel answer after marked fg recent =>
    have kept := kept e.id recent
    rw [fg, marked]
    exact jobs_waitForeground kept (kept.modify _ _ h)

theorem jobs_bg (kept : ∀ id, s.shell.jobs.mostRecentSuspended? = some id → JobTable.KeptAt id P)
    (h : P s.shell.jobs) : P s.bg.2.shell.jobs := by
  cases s.bg_cases with
  | missing bg => rw [bg]; exact h
  | groupless e he group bg => rw [bg]; exact h
  | refused e he pgid group cause kernel answer bg => rw [bg]; exact h
  | resumed e he pgid group kernel answer bg recent =>
    rw [bg]
    exact (kept e.id recent).modify _ _ h

theorem jobs_runStage {stage : Stage}
    (kept : ∀ id, s.resumes? stage = some id → JobTable.KeptAt id P) (h : P s.shell.jobs) :
    P (s.runStage stage).2.shell.jobs := by
  unfold runStage
  split
  case h_1 => exact h
  case h_2 =>
    rw [jobs_cd]
    exact h
  case h_3 kind => exact jobs_fg (fun id recent => kept id (by rw [resumes?, kind, recent])) h
  case h_4 kind => exact jobs_bg (fun id recent => kept id (by rw [resumes?, kind, recent])) h
  case h_5 => exact h

/-- A line that is led by a built-in changes nothing in the table but the job that is resumed. -/
theorem jobs_runBuiltin (fresh : job.Fresh) {stage : Stage} {rest : List Stage}
    (stages : job.stages = stage :: rest)
    (kept : ∀ id, s.resumes? stage = some id → JobTable.KeptAt id P) (h : P s.shell.jobs) :
    P (s.runBuiltin job).2.shell.jobs := by
  have first := jobs_runStage (s := s.log (.builtinRun stage.program)) kept h
  cases s.runBuiltin_cases stages with
  | failed e after answer run => rw [run]; rw [answer] at first; exact first
  | done text after answer last run => rw [run]; rw [answer] at first; exact first
  | piped text after answer more run =>
    rw [answer] at first
    simp only [run, shell_launchUntracked (fresh.tail stages more)]
    exact first

end Session

/-! ## Whole operations -/

namespace OperationInvariant

variable {R : Pid → Prop} {P : κ → Prop} {Q : Job → κ → Prop} {s : Session κ}

theorem fg (rule : OperationInvariant s.shell.terminal R P Q)
    (named : s.ResumesIn s.shell.jobs.mostRecentBackground? R) (h : P s.kernel) :
    P s.fg.2.kernel := by
  cases s.fg_cases with
  | missing recent fg => rw [fg]; exact h
  | groupless e he group fg => rw [fg]; exact h
  | refused e he pgid group cause kernel answer fg recent =>
    rw [fg]
    exact rule.refused pgid s.kernel cause kernel (named e he recent pgid group) h answer
  | resumed e he pgid group kernel answer after marked fg recent =>
    have meant := named e he recent pgid group
    have ready := (rule.resumed pgid s.kernel kernel meant h answer).2 e.job.markContinued group
    have placed : after.shell.jobs.find? e.id = some e.job.markContinued := by
      rw [marked]
      exact JobTable.find?_modify (JobTable.find?_of_mem he)
    rw [fg]
    rw [marked] at placed ⊢
    exact WorkInvariant.waitForeground rule.toWorkInvariant placed ready

theorem bg (rule : OperationInvariant s.shell.terminal R P Q)
    (named : s.ResumesIn s.shell.jobs.mostRecentSuspended? R) (h : P s.kernel) :
    P s.bg.2.kernel := by
  cases s.bg_cases with
  | missing bg => rw [bg]; exact h
  | groupless e he group bg => rw [bg]; exact h
  | refused e he pgid group cause kernel answer bg recent =>
    rw [bg]
    exact rule.refused pgid s.kernel cause kernel (named e he recent pgid group) h answer
  | resumed e he pgid group kernel answer bg recent =>
    rw [bg]
    exact (rule.resumed pgid s.kernel kernel (named e he recent pgid group) h answer).1

theorem cd (rule : OperationInvariant s.shell.terminal R P Q) (arguments : List String)
    (h : P s.kernel) : P (s.cd arguments).2.kernel := by
  obtain ⟨path, asked⟩ := Session.kernel_cd s arguments
  rw [asked]
  exact rule.changeDirectory path s.kernel h

theorem runStage (rule : OperationInvariant s.shell.terminal R P Q) (stage : Stage)
    (named : s.ResumesIn (s.resumes? stage) R) (h : P s.kernel) :
    P (s.runStage stage).2.kernel := by
  unfold Session.runStage
  split
  case h_1 => exact h
  case h_2 => exact rule.cd stage.arguments h
  case h_3 kind => exact rule.fg (by rwa [Session.resumes?, kind] at named) h
  case h_4 kind => exact rule.bg (by rwa [Session.resumes?, kind] at named) h
  case h_5 => exact h

theorem run (rule : OperationInvariant s.shell.terminal R P Q) (line : String)
    (named : s.ResumesIn (s.resumedBy? (.run line)) R) (h : P s.kernel) :
    P (s.run line).2.kernel := by
  cases s.run_cases line with
  | faulty fault parsed run => rw [run]; exact h
  | blank parsed run => rw [run]; exact h
  | tracked job parsed fresh external id jobs registered run =>
    have found : ((s.withJobs jobs).log (.jobRegistered id job.command)).shell.jobs.find? id =
        some { job with id := some id } := JobTable.find?_of_register registered
    rw [run]
    exact WorkInvariant.launchTracked rule.toWorkInvariant found (fresh.withId (some id))
      (rule.log _ _ h)
  | untracked job parsed fresh external full run =>
    rw [run]
    exact WorkInvariant.launchUntracked (s := s.log (.tableFull full.capacity))
      rule.toWorkInvariant fresh (rule.log _ _ h)
  | builtin job parsed fresh stage rest stages builtin run =>
    have leads : Session.leadingBuiltin? line = some stage := by
      simp [Session.leadingBuiltin?, parsed, stages, builtin]
    have first := runStage (s := s.log (.builtinRun stage.program)) rule stage
      (by rwa [Session.resumedBy?, leads] at named) (rule.log _ _ h)
    have held : ((s.log (.builtinRun stage.program)).runStage stage).2.shell.terminal =
        s.shell.terminal := Session.standing_terminal.runStage fun _ => rfl
    rw [run]
    cases s.runBuiltin_cases stages with
    | failed e after answer run => rw [run]; rwa [answer] at first
    | done text after answer last run => rw [run]; rwa [answer] at first
    | piped text after answer more run =>
      rw [answer] at first held
      rw [run]
      have work : WorkInvariant after.shell.terminal P Q := held ▸ rule.toWorkInvariant
      exact work.launchUntracked (fresh.tail stages more) first

/-- **The rule for operations.**  Of collecting reports it has to be said what that keeps. -/
theorem perform (rule : OperationInvariant s.shell.terminal R P Q) (operation : Operation)
    (named : s.ResumesIn (s.resumedBy? operation) R)
    (collects : operation = .poll → ∀ k, P k → P (drain k).2.2) (h : P s.kernel) :
    P (s.perform operation).kernel := by
  cases operation with
  | run line => exact rule.run line named h
  | poll => exact Terminal.logAll_inv rule.log _ (collects rfl s.kernel h)
  | fg => exact rule.fg named h
  | bg => exact rule.bg named h
  | cd arguments => exact rule.cd arguments h
  | exit => exact h
  | listJobs => exact h

end OperationInvariant

end JobControl
