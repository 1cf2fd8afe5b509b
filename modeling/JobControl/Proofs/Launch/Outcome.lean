import JobControl.Machine.System
import JobControl.Proofs.Job.Tracked

/-!
# How a launch ends

`Transcript κ` is any system `κ` with a list beside it of the calls that decide how a launch goes on,
each with its answer.  The answers are those of `κ`, so nothing is said about which calls fail.

A launch makes these calls stage by stage (`startCalls`): a pipe unless the stage is the last one,
the child, and the group for the child.  It goes on to the end, or to the first of them that is
refused (`startStages_course`).  So a launch ends in one of five ways, each with its own transcript
(`Job.Outcome`, `launch_outcome`).
-/

set_option autoImplicit false

namespace JobControl

/-! ## Transcripts -/

/-- A call of a launch that may end it, or that puts a child into its group. -/
inductive LaunchCall
  | input (path : String) (refused : Option PathError)
  | pipe (refused : Option Errno)
  | fork (group : Option Pid) (answer : Except Errno Pid)
  | join (pid group : Pid)
deriving DecidableEq, Repr

/-- What is refused, if anything is. -/
def refusal {ε α : Type} : Except ε α → Option ε
  | .ok _ => none
  | .error e => some e

/-- A system with the calls that were made on it, in order. -/
structure Transcript (κ : Type) where
  system : κ
  calls : List LaunchCall

namespace Transcript

variable {κ α : Type}

def pass (call : κ → α × κ) (t : Transcript κ) : α × Transcript κ :=
  ((call t.system).1, { t with system := (call t.system).2 })

/-- Passes a call on and writes it down. -/
def note (call : κ → α × κ) (entry : α → LaunchCall) (t : Transcript κ) : α × Transcript κ :=
  ((call t.system).1, ⟨(call t.system).2, t.calls ++ [entry (call t.system).1]⟩)

variable [Kernel κ]

instance : Kernel (Transcript κ) where
  openInput path := note (Kernel.openInput path) fun answer => .input path (refusal answer)
  openOutput file := pass (Kernel.openOutput file)
  openPipe := note Kernel.openPipe fun answer => .pipe (refusal answer)
  close d t := { t with system := Kernel.close d t.system }
  fork plan := note (Kernel.fork plan) (.fork plan.group)
  joinGroup pid group := note (Kernel.joinGroup pid group) fun _ => .join pid group
  signalGroup group signal := pass (Kernel.signalGroup group signal)
  awaitGroup group := pass (Kernel.awaitGroup group)
  collect := pass Kernel.collect
  changeDirectory path := pass (Kernel.changeDirectory path)
  workingDirectory t := Kernel.workingDirectory t.system
  ownGroup t := Kernel.ownGroup t.system
  foundGroup := pass Kernel.foundGroup
  comeToForeground := pass Kernel.comeToForeground
  setForeground group := pass (Kernel.setForeground group)
  setDisposition signal disposition := pass (Kernel.setDisposition signal disposition)
  writeOutput text t := { t with system := Kernel.writeOutput text t.system }
  writeError text t := { t with system := Kernel.writeError text t.system }
  log e t := { t with system := Kernel.log e t.system }
  reportsLeft t := Kernel.reportsLeft t.system
  reportsLeft_awaitGroup group t := Kernel.reportsLeft_awaitGroup group t.system
  reportsLeft_collect t := Kernel.reportsLeft_collect t.system

end Transcript

/-! ## Before the stages -/

/-- What a launch comes to: it finds a NUL, it cannot open the input file of the first stage, or it
goes through its stages. -/
inductive Job.LaunchCases {κ : Type} [Kernel κ] (job : Job) (terminal : Terminal) (k : κ)
    (first : Stage) : Prop
  | nul (stage : Stage) (found : job.stages.find? Stage.hasNul = some stage)
      (launch : job.launch terminal k = (some (.nul stage.program), job, k))
  | input (e : LaunchError) (k' : κ) (none : job.stages.find? Stage.hasNul = none)
      (opened : openInput first (Terminal.logAll (ignoredRedirections 0 job.stages) k) =
        (.error e, k'))
      (launch : job.launch terminal k = (some e, job, k'))
  | started (input : Option Descriptor) (k' : κ) (none : job.stages.find? Stage.hasNul = none)
      (opened : openInput first (Terminal.logAll (ignoredRedirections 0 job.stages) k) =
        (.ok input, k'))
      (launch : job.launch terminal k =
        let started := startStages job.stageMode (job.mode == .foreground && terminal.enabled) 0
          job.group input job.stages k'
        (started.1.failure,
          { job with group := started.1.group, stages := started.1.stages }, started.2))

/-- **The rule for launching**, before the stages are started. -/
theorem Job.launch_cases {κ : Type} [Kernel κ] (job : Job) (terminal : Terminal) (k : κ)
    {first : Stage} {rest : List Stage} (stages : job.stages = first :: rest) :
    job.LaunchCases terminal k first := by
  cases found : job.stages.find? Stage.hasNul with
  | some stage =>
    refine .nul stage found ?_
    rw [stages] at found
    simp only [Job.launch, stages, found]
  | none =>
    rcases opened : openInput first (Terminal.logAll (ignoredRedirections 0 job.stages) k) with
      ⟨e | input, k'⟩
    · refine .input e k' found opened ?_
      rw [stages] at found opened
      simp only [Job.launch, stages, found, opened]
    · refine .started input k' found opened ?_
      rw [stages] at found opened
      simp only [Job.launch, stages, found, opened]

/-! ## Stages in order -/

/-- The call for the input file of a stage, if it names one. -/
def inputCalls (stage : Stage) : List LaunchCall :=
  match stage.input with
  | none => []
  | some path => [.input path none]

/-- The call for the pipe to the stages behind, if there are any. -/
def pipeCalls (rest : List Stage) : List LaunchCall :=
  if rest = [] then [] else [.pipe none]

theorem fork_not_mem_pipeCalls (planned : Option Pid) (answer : Except Errno Pid)
    (rest : List Stage) : .fork planned answer ∉ pipeCalls rest := by
  unfold pipeCalls
  split <;> simp

/-- The calls that start the first of these stages as these processes.  `group` is the group there
is before; without one the first process founds it. -/
def startCalls (group : Option Pid) : List Stage → List Pid → List LaunchCall
  | _ :: rest, pid :: pids =>
    pipeCalls rest ++
      [.fork group (.ok pid), .join pid (group.getD pid)] ++
      startCalls (some (group.getD pid)) rest pids
  | _, _ => []

/-- How far the stages from `index` on were started, with the failure that ended it and the calls
that were made: all of them as these processes, or up to the one whose pipe or whose child was
refused. -/
inductive Course (index : Nat) (group : Option Pid) (stages : List Stage) (pids : List Pid) :
    Option LaunchError → List LaunchCall → Prop
  | whole (all : pids.length = stages.length) :
      Course index group stages pids none (startCalls group stages pids)
  | pipe (e : Errno) (more : pids.length + 1 < stages.length) :
      Course index group stages pids (some (.pipe e))
        (startCalls group stages pids ++ [.pipe (some e)])
  | fork (e : Errno) (more : pids.length < stages.length) :
      Course index group stages pids (some (.fork (index + pids.length) e))
        (startCalls group stages pids ++
          (pipeCalls (stages.drop (pids.length + 1)) ++ [.fork (group.or pids.head?) (.error e)]))

namespace Course

variable {index : Nat} {group : Option Pid} {stages : List Stage} {pids : List Pid} {stage : Stage}
  {pid : Pid} {failure : Option LaunchError} {calls : List LaunchCall}

theorem fits (h : Course index group stages pids failure calls) : pids.length ≤ stages.length := by
  cases h with
  | whole all => exact Nat.le_of_eq all
  | pipe e more => omega
  | fork e more => omega

theorem starts (h : Course index group stages pids failure calls) :
    startCalls group stages pids ⊆ calls := by
  cases h with
  | whole all => exact List.Subset.refl _
  | pipe e more => exact List.subset_append_left _ _
  | fork e more => exact List.subset_append_left _ _

theorem fork_mem_iff (h : Course index group stages pids failure calls) {planned : Option Pid} :
    .fork planned (.ok pid) ∈ calls ↔ .fork planned (.ok pid) ∈ startCalls group stages pids := by
  refine ⟨fun found => ?_, fun found => h.starts found⟩
  cases h with
  | whole all => exact found
  | pipe e more => simpa using found
  | fork e more => simpa [fork_not_mem_pipeCalls] using found

theorem cons (h : Course (index + 1) (some (group.getD pid)) stages pids failure calls) :
    Course index group (stage :: stages) (pid :: pids) failure
      (pipeCalls stages ++ [.fork group (.ok pid), .join pid (group.getD pid)] ++ calls) := by
  have founder : (some (group.getD pid)).or pids.head? = group.or (some pid) := by
    cases group <;> rfl
  cases h with
  | whole all => exact .whole (by simp [all])
  | pipe e more =>
    rw [← List.append_assoc]
    exact .pipe e (by simpa using more)
  | fork e more =>
    have number : index + 1 + pids.length = index + (pid :: pids).length := by
      simp only [List.length_cons]
      omega
    rw [← List.append_assoc, number, founder]
    exact .fork e (by simpa using more)

end Course

namespace Transcript

variable {κ : Type} [Kernel κ] {t t' : Transcript κ}

@[simp] theorem calls_closeOptional (d : Option Descriptor) (t : Transcript κ) :
    (closeOptional d t).calls = t.calls := by
  cases d <;> rfl

@[simp] theorem calls_log (e : Event) (t : Transcript κ) : (Kernel.log e t).calls = t.calls := rfl

theorem calls_logAll (events : List Event) (t : Transcript κ) :
    (Terminal.logAll events t).calls = t.calls :=
  Terminal.logAll_inv (P := fun t' : Transcript κ => t'.calls = t.calls) (fun _ _ h => h) events rfl

@[simp] theorem calls_regroup (pid group : Pid) (t : Transcript κ) :
    (regroup pid group t).calls = t.calls ++ [.join pid group] := by
  simp only [regroup, Kernel.joinGroup, note]
  cases (Kernel.joinGroup pid group t.system).1 <;> rfl

theorem calls_openInput (stage : Stage) (t : Transcript κ) :
    match openInput stage t with
    | (.ok _, t') => t'.calls = t.calls ++ inputCalls stage
    | (.error e, t') => ∃ path cause, stage.input = some path ∧ e = .input path cause ∧
        t'.calls = t.calls ++ [.input path (some cause)] := by
  unfold openInput inputCalls
  cases stage.input with
  | none => exact (List.append_nil _).symm
  | some path =>
    simp only [Kernel.openInput, note]
    rcases (Kernel.openInput path t.system).1 with e | d
    · exact ⟨path, e, rfl, rfl, rfl⟩
    · rfl

theorem calls_openOutput (stage : Stage) (t : Transcript κ) :
    (openOutput stage t).2.calls = t.calls := by
  unfold openOutput
  cases stage.output with
  | none => rfl
  | some file =>
    simp only [Kernel.openOutput, pass]
    cases (Kernel.openOutput file t.system).1 <;> rfl

theorem calls_fork {plan : ChildPlan} {answer : Except Errno Pid}
    (h : Kernel.fork plan t = (answer, t')) : t'.calls = t.calls ++ [.fork plan.group answer] := by
  cases h
  rfl

theorem calls_connect (stage : Stage) (rest : List Stage) (t : Transcript κ) :
    match connect stage rest t with
    | (.ok _, t') => t'.calls = t.calls ++ pipeCalls rest
    | (.error e, t') => rest ≠ [] ∧ t'.calls = t.calls ++ [.pipe (some e)] := by
  cases rest with
  | nil =>
    simp only [connect, pipeCalls, if_true, List.append_nil]
    exact calls_openOutput stage t
  | cons next rest =>
    simp only [connect, Kernel.openPipe, note]
    rcases (Kernel.openPipe t.system).1 with e | ⟨readEnd, writeEnd⟩
    · exact ⟨List.cons_ne_nil next rest, rfl⟩
    · rfl

/-- **How stages are started**, whatever the system refuses. -/
theorem startStages_course (modes : Nat → JobMode) (takesTerminal : Bool) (stages : List Stage)
    (index : Nat) (group : Option Pid) (input : Option Descriptor) (t : Transcript κ) :
    ∃ pids failure calls, Course index group stages pids failure calls ∧
      (startStages modes takesTerminal index group input stages t).1 =
        ⟨failure, group.or pids.head?, Stage.assign stages pids⟩ ∧
      (startStages modes takesTerminal index group input stages t).2.calls = t.calls ++ calls := by
  -- each stage ends the course or comes before the course of the stages behind it
  induction stages generalizing index group input t with
  | nil => exact ⟨[], none, [], .whole rfl, by simp [startStages, Stage.assign], by simp [startStages]⟩
  | cons stage rest ih =>
    have connected := calls_connect stage rest t
    rcases hc : connect stage rest t with ⟨e | ⟨output, next⟩, t₁⟩
    · rw [hc] at connected
      obtain ⟨more, made⟩ := connected
      have behind : 0 < rest.length := List.length_pos_iff.mpr more
      refine ⟨[], _, _, .pipe e ?_, ?_, ?_⟩
      · simpa using behind
      · simp [startStages, hc, Stage.assign]
      · simp [startStages, hc, made, startCalls]
    · rw [hc] at connected
      simp only at connected
      rcases hf : Kernel.fork ⟨group, takesTerminal, input, output, stage.words⟩ t₁ with ⟨e | pid, t₂⟩
      · have made := calls_fork hf
        refine ⟨[], _, _, .fork e (by simp), ?_, ?_⟩
        · simp [startStages, hc, hf, Stage.assign]
        · simp [startStages, hc, hf, made, connected, startCalls]
      · have made := calls_fork hf
        obtain ⟨pids, failure, calls, course, left, later⟩ := ih (index + 1)
          (some (group.getD pid)) next (closeOptional output (closeOptional input (Kernel.log
            (.stageStarted pid (group.getD pid) stage.program (modes index))
            (regroup pid (group.getD pid) t₂))))
        refine ⟨pid :: pids, _, _, course.cons, ?_, ?_⟩
        · simp only [startStages, hc, hf, left]
          cases group <;> rfl
        · simp [startStages, hc, hf, later, made, connected]

end Transcript

/-! ## Children and their group -/

theorem joined_startCalls {stages : List Stage} {group : Option Pid} {pids : List Pid}
    {planned : Option Pid} {pid : Pid}
    (h : .fork planned (.ok pid) ∈ startCalls group stages pids) :
    ∃ founder, group.or pids.head? = some founder ∧
      .join pid founder ∈ startCalls group stages pids ∧
      (planned = some founder ∨ planned = none ∧ pid = founder) := by
  induction stages generalizing group pids with
  | nil => cases h
  | cons stage rest ih =>
    cases pids with
    | nil => cases h
    | cons first pids =>
      have founder : group.or (some first) = some (group.getD first) := by cases group <;> rfl
      refine ⟨group.getD first, founder, ?_⟩
      simp only [startCalls, List.mem_append, List.mem_cons, fork_not_mem_pipeCalls, false_or] at h
      rcases h with (h | h | h) | h
      · obtain ⟨rfl, same⟩ := LaunchCall.fork.inj h
        cases same
        refine ⟨by simp [startCalls], ?_⟩
        cases planned with
        | none => exact Or.inr ⟨rfl, rfl⟩
        | some group => exact Or.inl rfl
      · cases h
      · cases h
      · obtain ⟨_, same, joined, planned⟩ := ih h
        cases Option.some.inj same
        exact ⟨by simp [startCalls, joined], planned⟩

/-- However a launch ended, the job has a group if a child was started.  It is the process of the
first stage, and each child was planned to be in it and was put into it. -/
structure Job.Grouped (after : Job) (calls : List LaunchCall) : Prop where
  first : after.group = after.stages.head?.bind Stage.pid
  started : after.group.isSome = true ↔ ∃ planned pid, .fork planned (.ok pid) ∈ calls
  joined : ∀ planned pid, .fork planned (.ok pid) ∈ calls →
    ∃ group, after.group = some group ∧ .join pid group ∈ calls ∧
      (planned = some group ∨ planned = none ∧ pid = group)

/-! ## Outcomes -/

/-- A stage without its process and its status. -/
def Stage.unlaunched (s : Stage) : Stage :=
  { s with pid := none, status := .running }

/-- The job after its first stages were started as these processes, in this order.  They run; the
other stages have no process and count as terminated; and the rest of the job is as it was. -/
structure Job.LaunchedAs (job : Job) (pids : List Pid) (after : Job) : Prop where
  group : after.group = pids.head?
  processes : after.stages.map Stage.pid =
    pids.map some ++ List.replicate (job.stages.length - pids.length) none
  statuses : after.stages.map Stage.status = List.replicate pids.length .running ++
    List.replicate (job.stages.length - pids.length) .terminated
  unchanged : job = { after with group := none, stages := after.stages.map Stage.unlaunched }

/-- How the launch of a job can end, with the failure and the calls that were made.  A stage with a
NUL or the input file of the first stage leaves the job as it was, without a child.  Otherwise the
stages are started as far as the system goes along. -/
inductive Job.Outcome (job after : Job) : Option LaunchError → List LaunchCall → Prop
  | nul (stage : Stage) (first : job.stages.find? Stage.hasNul = some stage) (same : after = job) :
      Outcome job after (some (.nul stage.program)) []
  | input (first : Stage) (path : String) (e : PathError)
      (clean : ∀ s ∈ job.stages, s.hasNul = false) (leads : job.stages.head? = some first)
      (named : first.input = some path) (same : after = job) :
      Outcome job after (some (.input path e)) [.input path (some e)]
  | started (first : Stage) (pids : List Pid) (failure : Option LaunchError)
      (calls : List LaunchCall) (clean : ∀ s ∈ job.stages, s.hasNul = false)
      (leads : job.stages.head? = some first)
      (course : Course 0 none job.stages pids failure calls) (launched : job.LaunchedAs pids after) :
      Outcome job after failure (inputCalls first ++ calls)

namespace Stage

variable {stages : List Stage} {pids : List Pid}

theorem map_status_assign (fits : pids.length ≤ stages.length) :
    (assign stages pids).map status = List.replicate pids.length .running ++
      List.replicate (stages.length - pids.length) .terminated := by
  induction stages generalizing pids with
  | nil =>
    obtain rfl : pids = [] := List.eq_nil_of_length_eq_zero (Nat.le_zero.mp fits)
    rfl
  | cons s rest ih =>
    cases pids with
    | nil => simp [assign, Function.comp_def, abandon, List.replicate_succ]
    | cons pid pids =>
      have tail : (assign rest pids).map status = List.replicate pids.length .running ++
          List.replicate (rest.length - pids.length) .terminated :=
        ih (Nat.le_of_succ_le_succ fits)
      simp [assign, startedAs, tail, List.replicate_succ]

theorem map_unlaunched_assign (fits : pids.length ≤ stages.length)
    (fresh : ∀ s ∈ stages, s.unlaunched = s) : (assign stages pids).map unlaunched = stages := by
  induction stages generalizing pids with
  | nil =>
    obtain rfl : pids = [] := List.eq_nil_of_length_eq_zero (Nat.le_zero.mp fits)
    rfl
  | cons s rest ih =>
    cases pids with
    | nil =>
      rw [assign, List.map_map]
      exact (List.map_congr_left fresh).trans (List.map_id _)
    | cons pid pids =>
      have tail := ih (Nat.le_of_succ_le_succ fits) fun t ht => fresh t (List.mem_cons_of_mem s ht)
      have head : (s.startedAs pid).unlaunched = s := fresh s List.mem_cons_self
      rw [assign, List.map_cons, tail, head]

end Stage

section

variable {job : Job} {pids : List Pid} {failure : Option LaunchError} {calls : List LaunchCall}

theorem Job.Fresh.launchedAs (fresh : job.Fresh) (fits : pids.length ≤ job.stages.length) :
    job.LaunchedAs pids { job with group := pids.head?, stages := Stage.assign job.stages pids } where
  group := rfl
  processes := Stage.map_pid_assign fits fun s hs => (fresh.unlaunched s hs).1
  statuses := Stage.map_status_assign fits
  unchanged := by
    have back : ∀ s ∈ job.stages, s.unlaunched = s := by
      intro s hs
      obtain ⟨pid, status⟩ := fresh.unlaunched s hs
      rw [Stage.unlaunched, ← pid, ← status]
    rw [Stage.map_unlaunched_assign fits back, ← fresh.group]

/-- A launch that tried its stages put its children into one group. -/
theorem Job.Fresh.grouped (fresh : job.Fresh) (first : Stage)
    (course : Course 0 none job.stages pids failure calls) :
    Job.Grouped { job with group := pids.head?, stages := Stage.assign job.stages pids }
      (inputCalls first ++ calls) := by
  -- a call that made a child is among those that started the stages
  have forked : ∀ planned pid, LaunchCall.fork planned (.ok pid) ∈ inputCalls first ++ calls ↔
      .fork planned (.ok pid) ∈ startCalls none job.stages pids := by
    intro planned pid
    have other : LaunchCall.fork planned (.ok pid) ∉ inputCalls first := by
      unfold inputCalls
      split <;> simp
    rw [List.mem_append, course.fork_mem_iff, or_iff_right other]
  obtain ⟨stage, rest, stages⟩ := List.exists_cons_of_ne_nil fresh.stages
  refine ⟨?_, ?_, ?_⟩
  · have idle := (fresh.unlaunched stage (by simp [stages])).1
    cases pids with
    | nil => simp [stages, Stage.assign, Stage.abandon, idle]
    | cons pid pids => simp [stages, Stage.assign, Stage.startedAs]
  · constructor
    · intro some
      cases pids with
      | nil => cases some
      | cons pid others =>
        refine ⟨none, pid, (forked none pid).mpr ?_⟩
        simp [stages, startCalls]
    · rintro ⟨planned, pid, found⟩
      obtain ⟨founder, group, -⟩ := joined_startCalls ((forked planned pid).mp found)
      exact Option.isSome_iff_exists.mpr ⟨founder, group⟩
  · intro planned pid found
    obtain ⟨founder, group, joined, member⟩ := joined_startCalls ((forked planned pid).mp found)
    exact ⟨founder, group, List.mem_append_right _ (course.starts joined), member⟩

theorem Job.Fresh.groupedOfNone (fresh : job.Fresh)
    (none : ∀ planned pid, LaunchCall.fork planned (.ok pid) ∉ calls) : job.Grouped calls := by
  obtain ⟨stage, rest, stages⟩ := List.exists_cons_of_ne_nil fresh.stages
  have idle := (fresh.unlaunched stage (by simp [stages])).1
  refine ⟨by simp [fresh.group, stages, idle], by simp [fresh.group, none], ?_⟩
  exact fun planned pid found => absurd found (none planned pid)

/-- A job of which every stage was tried is over once its processes have ended. -/
theorem Job.isOver_of_processes {job later : Job}
    (abandoned : ∀ s ∈ job.stages, s.pid = none → s.status = .terminated)
    (advances : job.Advances later)
    (ended : ∀ s ∈ later.stages, s.pid.isSome = true → s.status.isFinished = true) :
    later.isComplete = true ∨ later.isFinished = true := by
  rw [← Bool.or_eq_true, ← later.isOver_eq, Job.isOver, List.all_eq_true]
  intro s hs
  cases process : s.pid with
  | none =>
    rw [advances.abandoned abandoned s hs process]
    rfl
  | some pid => exact ended s hs (by rw [process]; rfl)

end

/-- **How a launch ends**, whatever calls the system refuses.  It ends in one of the five ways; its
children are in one group, which is the job's; and unless the launch left the job as it was, the job
counts as complete or finished as soon as its children have ended. -/
theorem launch_outcome {κ : Type} [Kernel κ] {job : Job} (fresh : job.Fresh) (terminal : Terminal)
    (k : κ) :
    ∃ failure after t, job.launch terminal (⟨k, []⟩ : Transcript κ) = (failure, after, t) ∧
      job.Outcome after failure t.calls ∧ after.Grouped t.calls ∧
      (after ≠ job → ∀ later, after.Advances later →
        (∀ s ∈ later.stages, s.pid.isSome = true → s.status.isFinished = true) →
        later.isComplete = true ∨ later.isFinished = true) := by
  obtain ⟨first, rest, stages⟩ := List.exists_cons_of_ne_nil fresh.stages
  have leads : job.stages.head? = some first := by rw [stages, List.head?_cons]
  have warned : (Terminal.logAll (ignoredRedirections 0 job.stages)
      (⟨k, []⟩ : Transcript κ)).calls = [] := Transcript.calls_logAll _ _
  have clean : job.stages.find? Stage.hasNul = none → ∀ s ∈ job.stages, s.hasNul = false := by
    intro none
    simpa using List.find?_eq_none.mp none
  cases job.launch_cases terminal (⟨k, []⟩ : Transcript κ) stages with
  | nul stage found launch =>
    refine ⟨_, _, _, launch, .nul stage found rfl, ?_, fun changed => absurd rfl changed⟩
    exact fresh.groupedOfNone (by simp)
  | input e t none answer launch =>
    have asked := Transcript.calls_openInput first
      (Terminal.logAll (ignoredRedirections 0 job.stages) (⟨k, []⟩ : Transcript κ))
    rw [answer, warned] at asked
    obtain ⟨path, cause, named, rfl, calls⟩ := asked
    refine ⟨_, _, t, launch, ?_, ?_, fun changed => absurd rfl changed⟩
    · rw [calls]
      exact .input first path cause (clean none) leads named rfl
    · rw [calls]
      exact fresh.groupedOfNone (by simp)
  | started input t none answer launch =>
    have asked := Transcript.calls_openInput first
      (Terminal.logAll (ignoredRedirections 0 job.stages) (⟨k, []⟩ : Transcript κ))
    rw [answer, warned] at asked
    obtain ⟨pids, failure, calls, course, left, made⟩ := Transcript.startStages_course job.stageMode
      (job.mode == .foreground && terminal.enabled) job.stages 0 job.group input t
    simp only [List.nil_append] at asked
    rw [asked, fresh.group] at made
    rw [fresh.group] at course left
    simp only [fresh.group, left] at launch
    refine ⟨_, _, _, launch, ?_, ?_, fun _ later advances => Job.isOver_of_processes ?_ advances⟩
    · rw [made]
      exact .started first pids failure calls (clean none) leads course (fresh.launchedAs course.fits)
    · rw [made]
      exact fresh.grouped first course
    · intro s hs idle
      rcases Stage.mem_assign hs with ⟨t, -, rfl⟩ | ⟨t, -, pid, -, rfl⟩
      · rfl
      · cases idle

/-- A pipeline of three stages. -/
def threeStages : Job where
  id := none
  group := none
  mode := .foreground
  command := "sleep 9 | cat | wc"
  stages := [["sleep", "9"], ["cat"], ["wc"]].map fun words =>
    ⟨words.headD "", words.tail, none, none, none, .running⟩

/-- With two descriptors to spare the second pipe is refused, and one stage of three was started. -/
theorem launch_outcome_secondPipe :
    let machine := { Machine.boot .bare FileTree.root .sink with spare := some 2 }
    threeStages.Fresh ∧ ∃ after t,
      threeStages.launch (.detached machine) (⟨machine, []⟩ : Transcript Machine) =
        (some (.pipe .emfile), after, t) ∧
      after.stages.map Stage.pid = [some 100001, none, none] ∧
      threeStages.Outcome after (some (.pipe .emfile)) t.calls ∧ after.Grouped t.calls ∧
      (after ≠ threeStages → ∀ later, after.Advances later →
        (∀ s ∈ later.stages, s.pid.isSome = true → s.status.isFinished = true) →
        later.isComplete = true ∨ later.isFinished = true) := by
  intro machine
  have fresh : threeStages.Fresh := ⟨rfl, by simp [threeStages], by simp [threeStages]⟩
  obtain ⟨failure, after, t, launch, outcome⟩ :=
    launch_outcome fresh (Terminal.detached machine) machine
  have failed : failure = some (.pipe .emfile) := by
    rw [← show (threeStages.launch _ _).1 = failure from congrArg Prod.fst launch]
    decide +kernel
  have started : after.stages.map Stage.pid = [some 100001, none, none] := by
    rw [← show (threeStages.launch _ _).2.1 = after from congrArg (·.2.1) launch]
    decide +kernel
  subst failed
  exact ⟨fresh, after, t, launch, started, outcome⟩

end JobControl
