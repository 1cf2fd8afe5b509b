import JobControl.Machine.System
import JobControl.Proofs.Session.Course
import JobControl.Proofs.Session.Hosted

/-!
# The signals that a shell sends

`Outbox κ` is any system `κ` that passes every call on and every answer back, and keeps a record
beside it of the signals that were sent to groups, each with the system as it was at that moment.

An operation sends at most one signal, `SIGCONT` to the group of the job that it resumes
(`Session.sent_perform`).  Hanging up a job sends it two, and the end of a session hangs up every job
of the table once, in order (`Session.sent_shutdown`).
-/

set_option autoImplicit false

namespace JobControl

/-- A signal that was sent to a group, and the system when it was. -/
structure Dispatch (κ : Type) where
  group : Pid
  signal : Signal
  system : κ

/-- A system with the signals that were sent to groups, in order. -/
structure Outbox (κ : Type) where
  system : κ
  sent : List (Dispatch κ)

namespace Outbox

variable {κ α : Type}

/-- Passes a call on. -/
def pass (call : κ → α × κ) (o : Outbox κ) : α × Outbox κ :=
  ((call o.system).1, { o with system := (call o.system).2 })

variable [Kernel κ]

instance : Kernel (Outbox κ) where
  openInput path := pass (Kernel.openInput path)
  openOutput file := pass (Kernel.openOutput file)
  openPipe := pass Kernel.openPipe
  close d o := { o with system := Kernel.close d o.system }
  fork plan := pass (Kernel.fork plan)
  joinGroup pid group := pass (Kernel.joinGroup pid group)
  signalGroup group signal o :=
    ((Kernel.signalGroup group signal o.system).1,
      { system := (Kernel.signalGroup group signal o.system).2
        sent := o.sent ++ [⟨group, signal, o.system⟩] })
  awaitGroup group := pass (Kernel.awaitGroup group)
  collect := pass Kernel.collect
  changeDirectory path := pass (Kernel.changeDirectory path)
  workingDirectory o := Kernel.workingDirectory o.system
  ownGroup o := Kernel.ownGroup o.system
  foundGroup := pass Kernel.foundGroup
  comeToForeground := pass Kernel.comeToForeground
  setForeground group := pass (Kernel.setForeground group)
  setDisposition signal disposition := pass (Kernel.setDisposition signal disposition)
  writeOutput text o := { o with system := Kernel.writeOutput text o.system }
  writeError text o := { o with system := Kernel.writeError text o.system }
  log e o := { o with system := Kernel.log e o.system }
  reportsLeft o := Kernel.reportsLeft o.system
  reportsLeft_awaitGroup group o := Kernel.reportsLeft_awaitGroup group o.system
  reportsLeft_collect o := Kernel.reportsLeft_collect o.system

/-- A signal is recorded, whatever the answer. -/
theorem sent_signalGroup {o o' : Outbox κ} {group : Pid} {signal : Signal}
    {result : Except Errno Unit} (answer : Kernel.signalGroup group signal o = (result, o')) :
    o'.sent = o.sent ++ [⟨group, signal, o.system⟩] :=
  (congrArg (·.2.sent) answer).symm

/-- Launching a job and running it in the foreground sends nothing. -/
theorem workInvariant_sent (sent : List (Dispatch κ)) (t : Terminal) :
    WorkInvariant t (fun o : Outbox κ => o.sent = sent) fun _ o => o.sent = sent :=
  .of_calls
    ⟨fun _ _ h => h, fun _ _ h => h, fun _ h => h, fun _ _ h => h, fun _ _ _ h => h,
      fun _ _ h => h, fun _ _ h => h⟩
    ⟨fun _ _ _ h => h, fun _ _ h => h, fun _ _ h => h⟩ (fun _ _ h => h) (fun _ _ h => h) t

/-- Collecting reports sends nothing. -/
theorem sent_drain (o : Outbox κ) : (drain o).2.2.sent = o.sent :=
  drain_of_calls (P := fun k : Outbox κ => k.sent = o.sent) (fun _ same => same) rfl

end Outbox

namespace Session

variable {κ : Type} [Kernel κ] {s s' : Session (Outbox κ)} {resumed : Option Nat}

/-! ## Operations -/

/-- At most one signal is sent: `SIGCONT`, to the group of the job that is resumed, from the system as
it is, apart from what is logged. -/
inductive SendsOnce (s : Session (Outbox κ)) (resumed : Option Nat) (s' : Session (Outbox κ)) :
    Prop
  | silent (same : s'.kernel.sent = s.kernel.sent)
  | sent (e : TableEntry) (tracked : e ∈ s.shell.jobs.entries) (meant : resumed = some e.id)
      (group : Pid) (own : e.job.group = some group) (events : List Event)
      (once : s'.kernel.sent =
        s.kernel.sent ++ [⟨group, .cont, Terminal.logAll events s.kernel.system⟩])

theorem sent_fg (s : Session (Outbox κ)) :
    s.SendsOnce s.shell.jobs.mostRecentBackground? s.fg.2 := by
  cases s.fg_cases with
  | missing recent fg => exact .silent (by rw [fg])
  | groupless e he group fg => exact .silent (by rw [fg])
  | refused e he pgid group cause kernel answer fg recent =>
    have sent := Outbox.sent_signalGroup answer
    exact .sent e he recent pgid group [] (by rw [fg]; exact sent)
  | resumed e he pgid group kernel answer after marked fg recent =>
    have sent : after.kernel.sent = s.kernel.sent ++ [⟨pgid, .cont, s.kernel.system⟩] := by
      rw [marked]
      exact Outbox.sent_signalGroup answer
    have placed : after.shell.jobs.find? e.id = some e.job.markContinued := by
      rw [marked]
      exact JobTable.find?_modify (JobTable.find?_of_mem he)
    have waited := (Outbox.workInvariant_sent _ _).waitForeground placed sent
    exact .sent e he recent pgid group [] (by rw [fg]; exact waited)

theorem sent_bg (s : Session (Outbox κ)) :
    s.SendsOnce s.shell.jobs.mostRecentSuspended? s.bg.2 := by
  cases s.bg_cases with
  | missing bg => exact .silent (by rw [bg])
  | groupless e he group bg => exact .silent (by rw [bg])
  | refused e he pgid group cause kernel answer bg recent =>
    have sent := Outbox.sent_signalGroup answer
    exact .sent e he recent pgid group [] (by rw [bg]; exact sent)
  | resumed e he pgid group kernel answer bg recent =>
    have sent := Outbox.sent_signalGroup answer
    exact .sent e he recent pgid group [] (by rw [bg]; exact sent)

theorem sent_runStage (s : Session (Outbox κ)) (stage : Stage) :
    s.SendsOnce (s.resumes? stage) (s.runStage stage).2 := by
  cases kind : stage.kind with
  | exit =>
    simp only [runStage, kind]
    exact .silent rfl
  | cd =>
    obtain ⟨path, asked⟩ := kernel_cd s stage.arguments
    simp only [runStage, kind]
    exact .silent (by rw [asked]; rfl)
  | fg =>
    simp only [runStage, resumes?, kind]
    exact sent_fg s
  | bg =>
    simp only [runStage, resumes?, kind]
    exact sent_bg s
  | external =>
    simp only [runStage, kind]
    exact .silent rfl

theorem sent_run (s : Session (Outbox κ)) (line : String) :
    s.SendsOnce (s.resumedBy? (.run line)) (s.run line).2 := by
  cases s.run_cases line with
  | faulty fault parsed run => exact .silent (by rw [run])
  | blank parsed run => exact .silent (by rw [run])
  | tracked job parsed fresh external id jobs registered run =>
    have found : ((s.withJobs jobs).log (.jobRegistered id job.command)).shell.jobs.find? id =
        some { job with id := some id } := JobTable.find?_of_register registered
    have launched := (Outbox.workInvariant_sent s.kernel.sent _).launchTracked found
      (fresh.withId (some id)) rfl
    exact .silent (by rw [run]; exact launched)
  | untracked job parsed fresh external full run =>
    have launched := (Outbox.workInvariant_sent s.kernel.sent _).launchUntracked
      (s := s.log (.tableFull full.capacity)) fresh rfl
    exact .silent (by rw [run]; exact launched)
  | builtin job parsed fresh stage rest stages builtin run =>
    have leads : leadingBuiltin? line = some stage := by
      simp [leadingBuiltin?, parsed, stages, builtin]
    -- whatever comes after the built-in sends nothing
    have rest_silent : (s.run line).2.kernel.sent =
        ((s.log (.builtinRun stage.program)).runStage stage).2.kernel.sent := by
      rw [run]
      cases s.runBuiltin_cases stages with
      | failed e after answer run => rw [run, answer]
      | done text after answer last run => rw [run, answer]
      | piped text after answer more run =>
        rw [run, answer]
        exact (Outbox.workInvariant_sent after.kernel.sent _).launchUntracked
          (fresh.tail stages more) rfl
    rw [resumedBy?, leads, Option.bind_some]
    cases sent_runStage (s.log (.builtinRun stage.program)) stage with
    | silent same => exact .silent (rest_silent.trans same)
    | sent e he meant group own events once =>
      exact .sent e he meant group own (.builtinRun stage.program :: events)
        (rest_silent.trans once)

/-- **An operation sends at most one signal**: `SIGCONT`, to the job that it resumes. -/
theorem sent_perform (s : Session (Outbox κ)) (operation : Operation) :
    s.SendsOnce (s.resumedBy? operation) (s.perform operation) := by
  cases operation with
  | run line => exact sent_run s line
  | poll =>
    refine .silent ?_
    exact Terminal.logAll_inv (P := fun o : Outbox κ => o.sent = s.kernel.sent)
      (fun _ _ same => same) _ (Outbox.sent_drain s.kernel)
  | fg => exact sent_fg s
  | bg => exact sent_bg s
  | cd arguments =>
    obtain ⟨path, asked⟩ := kernel_cd s arguments
    exact .silent (by rw [perform, asked]; rfl)
  | exit => exact .silent rfl
  | listJobs => exact .silent rfl

/-! ## The end of a session -/

/-- The signals that are sent, without the systems. -/
def Outbox.addressed (sent : List (Dispatch κ)) : List (Pid × Signal) :=
  sent.map fun d => (d.group, d.signal)

/-- What hanging up some jobs sends, while a property of the system lasts that signals and logging
keep: two signals to each job that has a group. -/
theorem sent_hangUps {P : κ → Prop} (log : ∀ e k, P k → P (Kernel.log e k))
    (signal : ∀ group signal k, P k → P (Kernel.signalGroup group signal k).2) (jobs : List Job)
    (s : Session (Outbox κ)) (h : P s.kernel.system) :
    ∃ new, (jobs.foldl hangUp s).kernel.sent = s.kernel.sent ++ new ∧
      Outbox.addressed new =
        (jobs.filterMap Job.group).flatMap (fun group => [(group, .hup), (group, .cont)]) ∧
      ∀ d ∈ new, P d.system := by
  induction jobs generalizing s with
  | nil => exact ⟨[], (List.append_nil _).symm, rfl, fun _ hd => by cases hd⟩
  | cons job rest ih =>
    rw [List.foldl_cons]
    cases hgroup : job.group with
    | none =>
      have same : s.hangUp job = s := by simp only [hangUp, hgroup]
      rw [same, List.filterMap_cons_none hgroup]
      exact ih s h
    | some group =>
      obtain ⟨first, hfirst⟩ : ∃ k, k = Kernel.log (.hangingUp group job.command) s.kernel.system :=
        ⟨_, rfl⟩
      obtain ⟨second, hsecond⟩ : ∃ k, k = (Kernel.signalGroup group .hup first).2 := ⟨_, rfl⟩
      have logged : P first := hfirst ▸ log _ _ h
      have hung : P second := hsecond ▸ signal _ _ _ logged
      have pair : (s.hangUp job).kernel.sent =
          s.kernel.sent ++ [⟨group, .hup, first⟩, ⟨group, .cont, second⟩] := by
        simp only [hangUp, hgroup]
        rw [hsecond, hfirst]
        exact List.append_assoc ..
      have kept : P (s.hangUp job).kernel.system := by
        simp only [hangUp, hgroup]
        rw [hsecond, hfirst] at hung
        exact signal _ _ _ hung
      obtain ⟨new, sent, addressed, lasting⟩ := ih (s.hangUp job) kept
      refine ⟨⟨group, .hup, first⟩ :: ⟨group, .cont, second⟩ :: new, ?_, ?_, ?_⟩
      · rw [sent, pair, List.append_assoc]
        rfl
      · rw [List.filterMap_cons_some hgroup, List.flatMap_cons, ← addressed]
        rfl
      · intro d hd
        rcases List.mem_cons.mp hd with rfl | hd
        · exact logged
        · rcases List.mem_cons.mp hd with rfl | hd
          · exact hung
          · exact lasting d hd

theorem shell_hangUps (jobs : List Job) (s : Session κ) : (jobs.foldl hangUp s).shell = s.shell := by
  induction jobs generalizing s with
  | nil => rfl
  | cons job rest ih =>
    have same : (s.hangUp job).shell = s.shell := by
      unfold hangUp
      split <;> rfl
    rw [List.foldl_cons, ih, same]

/-- **The end of a session leaves the table empty.** -/
theorem jobs_shutdown (s : Session κ) : s.shutdown.shell.jobs = s.shell.jobs.clear := by
  unfold shutdown
  simp only
  split
  · simp only [shell_hangUps, shell_withJobs]
  · simp only [shell_hangUps, shell_withJobs]

/-- **What the end of a session sends**, while a property of the system lasts that signals and logging
keep: to each job with a group `SIGHUP` and then `SIGCONT`, in order. -/
theorem sent_shutdown {P : κ → Prop} (log : ∀ e k, P k → P (Kernel.log e k))
    (signal : ∀ group signal k, P k → P (Kernel.signalGroup group signal k).2)
    (s : Session (Outbox κ)) (h : P s.kernel.system) :
    ∃ new, s.shutdown.kernel.sent = s.kernel.sent ++ new ∧
      Outbox.addressed new = (s.shell.jobs.entries.filterMap fun e => e.job.group).flatMap
        (fun group => [(group, .hup), (group, .cont)]) ∧
      ∀ d ∈ new, P d.system := by
  obtain ⟨new, sent, addressed, lasting⟩ :=
    sent_hangUps log signal (s.shell.jobs.toList.map Prod.snd) (s.withJobs s.shell.jobs.clear) h
  have groups : (s.shell.jobs.toList.map Prod.snd).filterMap Job.group =
      s.shell.jobs.entries.filterMap fun e => e.job.group := by
    simp only [JobTable.toList, List.map_map, List.filterMap_map]
    rfl
  refine ⟨new, ?_, groups ▸ addressed, lasting⟩
  unfold shutdown
  simp only
  split
  · have quiet : TerminalQuiet fun o : Outbox κ => o.sent = s.kernel.sent ++ new :=
      ⟨fun _ _ _ same => same, fun _ _ same => same, fun _ _ same => same⟩
    exact quiet.giveTo _ _ sent
  · exact sent

end Session

/-! ## Whom a signal reaches -/

namespace Host

variable {σ : Type} [Kernel σ]

/-- A signal takes no child off the roll. -/
theorem children_signalGroup (group : Pid) (signal : Signal) (h : Host σ) :
    (signalGroup group signal h).2.roll.children = h.roll.children := by
  by_cases resumes : signal = .cont
  · subst resumes
    rcases answer : signalGroup group .cont h with ⟨e | ⟨⟩, h'⟩
    · rw [roll_signalGroup_error answer]
    · rw [roll_signalGroup_ok answer]
      rfl
  · unfold signalGroup
    split
    · rfl
    · rw [if_neg resumes]
      rfl

end Host

/-- A signal is meant for a job and reaches it: it was sent to the job's group, and whatever happened to
the children meanwhile, an unreaped child in that group is one of the job's processes. -/
def Dispatch.Reaches {σ : Type} (d : Dispatch (Host σ)) (job : Job) : Prop :=
  job.group = some d.group ∧ ∀ changes : List (Pid × Host.News),
    ∃ c ∈ Host.undergo d.system.children changes, c.group = d.group ∧ c.pid ∈ job.pids

namespace Session

variable {σ : Type} [Kernel σ]

omit [Kernel σ] in
/-- The job of a coherent table has an unreaped child in its group. -/
theorem Coherent.exists_child {s : Session (Host σ)} (h : s.Coherent) {e : TableEntry}
    (he : e ∈ s.shell.jobs.entries) {group : Pid} (hgroup : e.job.group = some group) :
    ∃ pid ∈ e.job.pids, (pid, group) ∈ s.kernel.roll.children := by
  obtain ⟨stage, hs, unfinished⟩ := (h.tracked e he).live
  cases launched : stage.pid with
  | none =>
    -- a stage that was given up counts as terminated
    rw [(h.tracked e he).abandoned stage hs launched] at unfinished
    cases unfinished
  | some pid =>
    refine ⟨pid, Job.mem_pids.mpr ⟨stage, hs, launched⟩, ?_⟩
    exact ((h.coheres e he).present stage hs pid group launched hgroup).mp unfinished

omit [Kernel σ] in
/-- A signal to the group of a job reaches the job, as long as no child was taken off the roll. -/
theorem Coherent.reaches {s : Session (Host σ)} (h : s.Coherent) {e : TableEntry}
    (he : e ∈ s.shell.jobs.entries) {d : Dispatch (Host σ)} (hgroup : e.job.group = some d.group)
    (same : d.system.roll.children = s.kernel.roll.children) : d.Reaches e.job := by
  refine ⟨hgroup, fun changes => ?_⟩
  obtain ⟨pid, own, child⟩ := h.exists_child he hgroup
  have place : (pid, d.group) ∈ (Host.undergo d.system.children changes).map Host.Process.place := by
    rw [Host.map_place_undergo]
    change (pid, d.group) ∈ d.system.roll.children
    rw [same]
    exact child
  obtain ⟨c, hc, hplace⟩ := List.mem_map.mp place
  obtain ⟨hpid, hgroup⟩ := Prod.mk.inj hplace
  exact ⟨c, hc, hgroup, hpid ▸ own⟩

omit [Kernel σ] in
/-- Every job of a coherent table has a group. -/
theorem Coherent.map_group {s : Session (Host σ)} (h : s.Coherent) :
    s.shell.jobs.entries.map (fun e => e.job.group) =
      (s.shell.jobs.entries.filterMap fun e => e.job.group).map some := by
  have led : ∀ e ∈ s.shell.jobs.entries, ∃ group, e.job.group = some group :=
    fun e he => (h.tracked e he).exists_group
  generalize s.shell.jobs.entries = entries at led ⊢
  induction entries with
  | nil => rfl
  | cons e rest ih =>
    obtain ⟨group, hgroup⟩ := led e List.mem_cons_self
    simp only [List.map_cons, List.filterMap_cons, hgroup,
      ih fun f hf => led f (List.mem_cons_of_mem e hf)]

omit [Kernel σ] in
/-- The jobs of a coherent table have different groups. -/
theorem Coherent.nodup_groups {s : Session (Host σ)} (h : s.Coherent) :
    (s.shell.jobs.entries.filterMap fun e => e.job.group).Nodup := by
  have apart : s.shell.jobs.entries.Pairwise fun e f =>
      ∀ g, e.job.group = some g → ∀ g', f.job.group = some g' → g ≠ g' := by
    refine s.shell.jobs.ordered.imp_of_mem fun {e f} he hf before g hg g' hg' => ?_
    rintro rfl
    have same := h.apart e he f hf g ((h.tracked e he).group_mem_pids hg)
      ((h.tracked f hf).group_mem_pids hg')
    exact absurd same (Nat.ne_of_lt before)
  exact List.pairwise_filterMap.mpr (apart.imp fun differ g hg g' hg' => differ g hg g' hg')

/-- The session without the record of its signals. -/
def unrecorded (s : Session (Outbox (Host σ))) : Session (Host σ) :=
  ⟨s.shell, s.kernel.system⟩

/-- **The signals of a session go to its own live jobs.** -/
structure SignalsOwn (s : Session (Outbox (Host σ))) : Prop where
  /-- An operation sends at most one signal, `SIGCONT` to the job that it resumes. -/
  operations : ∀ operation, ∃ new, (s.perform operation).kernel.sent = s.kernel.sent ++ new ∧
    new.length ≤ 1 ∧ ∀ d ∈ new, d.signal = .cont ∧ ∃ e ∈ s.shell.jobs.entries,
      s.resumedBy? operation = some e.id ∧ d.Reaches e.job
  /-- The end of the session sends `SIGHUP` and then `SIGCONT` to the group of every job, in the order
  of their numbers and each group once, and nothing else. -/
  shutdown : ∃ (groups : List Pid) (new : List (Dispatch (Host σ))),
    s.shell.jobs.entries.map (fun e => e.job.group) = groups.map some ∧ groups.Nodup ∧ s.shutdown.kernel.sent = s.kernel.sent ++ new ∧
    new.map (fun d => (d.group, d.signal)) =
      groups.flatMap (fun group => [(group, .hup), (group, .cont)]) ∧
    ∀ d ∈ new, ∃ e ∈ s.shell.jobs.entries, d.Reaches e.job
  inOrder : (s.shell.jobs.entries.map TableEntry.id).Pairwise (· < ·)
  emptied : s.shutdown.shell.jobs.entries = []
  /-- A second end sends nothing. -/
  again : s.shutdown.shutdown.kernel.sent = s.shutdown.kernel.sent

omit [Kernel σ] in
/-- What an operation of a coherent session sends reaches the job that it resumes. -/
theorem SendsOnce.reaches [Kernel σ] {s s' : Session (Outbox (Host σ))} {resumed : Option Nat}
    (h : s.unrecorded.Coherent) (sends : s.SendsOnce resumed s') :
    ∃ new, s'.kernel.sent = s.kernel.sent ++ new ∧ new.length ≤ 1 ∧
      ∀ d ∈ new, d.signal = .cont ∧
        ∃ e ∈ s.shell.jobs.entries, resumed = some e.id ∧ d.Reaches e.job := by
  cases sends with
  | silent same =>
    exact ⟨[], same.trans (List.append_nil _).symm, Nat.zero_le 1, fun _ hd => by cases hd⟩
  | sent e tracked meant group own events once =>
    refine ⟨_, once, Nat.le_refl 1, fun d hd => ?_⟩
    obtain rfl := List.mem_singleton.mp hd
    have same : (Terminal.logAll events s.kernel.system).roll = s.kernel.system.roll :=
      Terminal.logAll_inv (P := fun k : Host σ => k.roll = s.kernel.system.roll)
        (fun _ _ same => same) events rfl
    exact ⟨rfl, e, tracked, meant, h.reaches tracked own (congrArg Roll.children same)⟩

/-- **Signals only ever reach the shell's own live jobs**, in every session on a system with
children. -/
theorem signals_reach_live_jobs (settings : Settings) (login : Login)
    (s : Session (Outbox (Host σ))) (hosted : Hosted settings login s.unrecorded) :
    s.SignalsOwn := by
  have h := coherent_of_hosted hosted
  refine ⟨fun operation => (s.sent_perform operation).reaches h, ?_, ?_, ?_, ?_⟩
  · obtain ⟨new, sent, addressed, lasting⟩ := s.sent_shutdown
      (P := fun k => k.roll.children = s.kernel.system.roll.children) (fun _ _ same => same)
      (fun group signal k same => (Host.children_signalGroup group signal k).trans same) rfl
    refine ⟨_, new, h.map_group, h.nodup_groups, sent, addressed, fun d hd => ?_⟩
    have named : (d.group, d.signal) ∈ Outbox.addressed new := List.mem_map_of_mem hd
    rw [addressed] at named
    obtain ⟨group, hgroup, named⟩ := List.mem_flatMap.mp named
    obtain ⟨e, he, own⟩ := List.mem_filterMap.mp hgroup
    have same : d.group = group := by
      rcases List.mem_cons.mp named with hup | cont
      · exact congrArg Prod.fst hup
      · exact congrArg Prod.fst (List.mem_singleton.mp cont)
    exact ⟨e, he, h.reaches he (by rw [same]; exact own) (lasting d hd)⟩
  · exact List.pairwise_map.mpr s.shell.jobs.ordered
  · rw [jobs_shutdown]
    rfl
  · obtain ⟨new, sent, addressed, -⟩ := s.shutdown.sent_shutdown (P := fun _ => True)
      (fun _ _ _ => trivial) (fun _ _ _ _ => trivial) trivial
    have nothing : new = [] := by
      rw [jobs_shutdown] at addressed
      exact List.map_eq_nil_iff.mp addressed
    rw [sent, nothing, List.append_nil]

/-- A session with two jobs. -/
def pipelineAndCat : Session (Host Machine) :=
  perform (perform (start ⟨true, "$ ", 2, false⟩ ⟨"user", "/"⟩
    ⟨Machine.boot .bare FileTree.root .sink, [], [], []⟩) (.run "true | sleep 9 &")) (.run "cat &")

/-- The same after the first stage of the first job, which its group is named after, has ended and was
reaped. -/
def ledByReaped : Session (Host Machine) :=
  perform { pipelineAndCat with kernel := { pipelineAndCat.kernel with
    children := Host.undergo pipelineAndCat.kernel.children [(100001, .exited 0)]
    turns := [⟨[], 0, none⟩, ⟨[], 0, none⟩] } } .poll

theorem hosted_ledByReaped : Hosted ⟨true, "$ ", 2, false⟩ ⟨"user", "/"⟩ ledByReaped := by
  have first : Hosted ⟨true, "$ ", 2, false⟩ ⟨"user", "/"⟩
      (perform (start ⟨true, "$ ", 2, false⟩ ⟨"user", "/"⟩
        (⟨Machine.boot .bare FileTree.root .sink, [], [], []⟩ : Host Machine))
        (.run "true | sleep 9 &")) :=
    .perform _ (.run "true | sleep 9 &") (.start _) (by decide +kernel)
  have both : Hosted ⟨true, "$ ", 2, false⟩ ⟨"user", "/"⟩ pipelineAndCat :=
    .perform _ (.run "cat &") first (by decide +kernel)
  exact .perform _ .poll (.elapse pipelineAndCat [(100001, .exited 0)] _ _ both) trivial

/-- The group of the first job is still signalled, since its second stage is in it. -/
theorem signals_reach_surviving_stage :
    ledByReaped.kernel.children.map Host.Process.place = [(100002, 100001), (100003, 100003)] ∧
      ∃ s : Session (Outbox (Host Machine)), s.unrecorded = ledByReaped ∧
        Outbox.addressed s.shutdown.kernel.sent =
          [(100001, .hup), (100001, .cont), (100003, .hup), (100003, .cont)] ∧
        s.SignalsOwn :=
  ⟨by decide +kernel, ⟨ledByReaped.shell, ledByReaped.kernel, []⟩, rfl, by decide +kernel,
    signals_reach_live_jobs ⟨true, "$ ", 2, false⟩ ⟨"user", "/"⟩ _ hosted_ledByReaped⟩

end Session

end JobControl
