import JobControl.Machine.System
import JobControl.Proofs.Job.Recency
import JobControl.Proofs.Kernel.Host
import JobControl.Proofs.Session.Course
import JobControl.Proofs.Session.Tracking

/-!
# Which job a session resumes

An operation registers at most one job, the one that a line led by an external program describes
(`registers?`), and leaves a rest of the table it had then (`restOf_perform`).  So the numbers that
the operations of a session gave to new jobs, oldest first, are the history of its table
(`Chronicle`).  Between operations every job is in the background, and resuming a job in the
foreground takes the last number in that history that a job still has.
-/

set_option autoImplicit false

namespace JobControl

/-- Among tracked jobs those in the background are all of them. -/
theorem JobTable.AllTracked.lastGiven?_eq {t : JobTable} (h : t.AllTracked) (given : List Nat) :
    t.lastGiven? given (·.mode == .background) = t.lastGiven? given fun _ => true := by
  unfold JobTable.lastGiven?
  refine congrArg List.getLast? (List.filter_congr fun id _ => ?_)
  cases found : t.find? id with
  | none => rfl
  | some job =>
    obtain ⟨e, he, -, rfl⟩ := JobTable.find?_eq_some_iff.mp found
    simp only [Option.any_some, (h e he).background, beq_self_eq_true]

namespace Session

variable {κ : Type} [Kernel κ] {s : Session κ} {id : Nat} {job : Job}

/-! ## What an operation leaves of the table -/

/-- A table of which some jobs were changed or taken out is a rest of it. -/
theorem restOf_keptAt (t : JobTable) (id : Nat) : JobTable.KeptAt id fun t' => t'.RestOf t where
  modify := fun t' f rest => (JobTable.RestOf.modify t' id f).trans rest
  erase := fun t' rest => (JobTable.RestOf.erase t' id).trans rest

/-- The number under which an operation registers a new job. -/
def registers? (s : Session κ) : Operation → Option Nat
  | .run line =>
    match Job.ofLine line with
    | .ok (some job) =>
      if job.isBuiltin then none else (s.shell.jobs.register job).toOption.map Prod.fst
    | _ => none
  | _ => none

/-- What an operation does to the table: it leaves a rest of it, or it registers a job first. -/
inductive TableCases (s : Session κ) (operation : Operation) : Prop
  | left (none : s.registers? operation = none)
      (rest : (s.perform operation).shell.jobs.RestOf s.shell.jobs)
  | grown (id : Nat) (new : s.registers? operation = some id) (job : Job) (jobs : JobTable)
      (registered : s.shell.jobs.register job = .ok (id, jobs))
      (rest : (s.perform operation).shell.jobs.RestOf jobs)

/-- **The rule for the table in an operation.** -/
theorem table_cases (s : Session κ) (operation : Operation) : s.TableCases operation := by
  cases operation with
  | run line =>
    cases s.run_cases line with
    | faulty fault parsed run =>
      refine .left (by simp only [registers?, parsed]) ?_
      simp only [perform, run]
      exact .refl _
    | blank parsed run =>
      refine .left (by simp only [registers?, parsed]) ?_
      simp only [perform, run]
      exact .refl _
    | tracked job parsed fresh external id jobs registered run =>
      refine .grown id ?_ job jobs registered ?_
      · simp only [registers?, parsed, external, registered]
        rfl
      · simp only [perform, run]
        exact jobs_launchTracked (restOf_keptAt jobs id) (.refl jobs)
    | untracked job parsed fresh external full run refused =>
      refine .left ?_ ?_
      · simp only [registers?, parsed, external, refused]
        rfl
      · simp only [perform, run, shell_launchUntracked fresh]
        exact .refl _
    | builtin job parsed fresh stage rest stages builtin run =>
      have leads : job.isBuiltin = true := by simpa only [Job.isBuiltin, stages] using builtin
      refine .left (by simp only [registers?, parsed, leads, if_true]) ?_
      simp only [perform, run]
      exact jobs_runBuiltin fresh stages (fun id _ => restOf_keptAt _ id) (.refl _)
  | poll => exact .left rfl (.reap _ (drain s.kernel).1)
  | fg => exact .left rfl (jobs_fg (fun id _ => restOf_keptAt _ id) (.refl _))
  | bg => exact .left rfl (jobs_bg (fun id _ => restOf_keptAt _ id) (.refl _))
  | cd arguments =>
    refine .left rfl ?_
    simp only [perform, jobs_cd]
    exact .refl _
  | exit => exact .left rfl (.refl _)
  | listJobs => exact .left rfl (.refl _)

/-! ## The history of a session -/

/-- The sessions that a shell with these settings can be in between two operations, each with the
numbers under which jobs were registered in it, oldest first. -/
inductive Chronicle (settings : Settings) (login : Login) : Session κ → List Nat → Prop
  | start (k : κ) : Chronicle settings login (.start settings login k) []
  | perform (s : Session κ) (given : List Nat) (operation : Operation)
      (before : Chronicle settings login s given) :
      Chronicle settings login (s.perform operation) (given ++ (s.registers? operation).toList)
  | elapse (s : Session κ) (given : List Nat) (kernel : κ)
      (before : Chronicle settings login s given) : Chronicle settings login { s with kernel } given

variable {settings : Settings} {login : Login} {given : List Nat}

theorem Chronicle.reachable (h : Chronicle settings login s given) :
    Reachable settings login s := by
  induction h with
  | start k => exact .start k
  | perform s given operation _ ih => exact .perform s operation ih
  | elapse s given kernel _ ih => exact .elapse s kernel ih

/-- The numbers under which the jobs of a session were registered are the history of its table. -/
theorem Chronicle.gave (h : Chronicle settings login s given) : s.shell.jobs.Gave given := by
  induction h with
  | start k => exact .empty settings.capacity
  | perform s given operation _ ih =>
    cases s.table_cases operation with
    | left none rest =>
      rw [none, Option.toList_none, List.append_nil]
      exact ih.rest rest
    | grown id new job jobs registered rest =>
      rw [new]
      exact (ih.register registered).rest rest
  | elapse s given kernel _ ih => exact ih

/-- What a session makes of its history: which jobs are the most recent, in which order operations
leave them, and which of them is resumed in the foreground. -/
structure Recency (s : Session κ) (given : List Nat) : Prop where
  table : s.shell.jobs.Recency given
  /-- An operation leaves the jobs that stay in their order, and a new job comes last in it. -/
  kept : ∀ operation, ∀ e' ∈ (s.perform operation).shell.jobs.entries,
    (∃ e ∈ s.shell.jobs.entries, e.id = e'.id ∧ e.order = e'.order) ∨
      (s.registers? operation = some e'.id ∧ ∀ e ∈ s.shell.jobs.entries, e.order < e'.order)
  /-- Without jobs there is nothing to resume, and the session stays as it is. -/
  none : s.shell.jobs.lastGiven? given (fun _ => true) = none →
    s.shell.jobs.entries = [] ∧ s.fg = (.error (.builtin .noBackgroundJob), s)
  /-- Otherwise the job registered last is continued and waited for, unless its group could not be
  signalled. -/
  some : ∀ id, s.shell.jobs.lastGiven? given (fun _ => true) = some id →
    ∃ job group, s.shell.jobs.find? id = some job ∧ job.group = some group ∧
      s.fg = match Kernel.signalGroup group .cont s.kernel with
        | (.error e, kernel) =>
          (.error (.builtin (.jobNotFound "fg" id (some e))), { s with kernel })
        | (.ok (), kernel) =>
          let resumed := { s with kernel }.modifyJob id Job.markContinued
          ((resumed.waitForeground id).1.map (job.command ++ "\n" ++ ·),
            (resumed.waitForeground id).2)

theorem Chronicle.recency (h : Chronicle settings login s given) : s.Recency given := by
  have gave := h.gave
  have tracked := allTracked_of_reachable h.reachable
  have recent : s.shell.jobs.mostRecentBackground? =
      s.shell.jobs.lastGiven? given fun _ => true := by
    rw [← tracked.lastGiven?_eq given]
    exact gave.mostRecent?_eq _
  refine ⟨gave.recency, fun operation e' he' => ?_, fun unheld => ?_, fun id last => ?_⟩
  · cases s.table_cases operation with
    | left none rest => exact Or.inl (rest.survived e' he')
    | grown id new job jobs registered rest =>
      obtain ⟨e, he, hid, horder⟩ := rest.survived e' he'
      rcases gave.cases_of_mem_register registered he with he | ⟨rfl, youngest⟩
      · exact Or.inl ⟨e, he, hid, horder⟩
      · rw [← hid, ← horder]
        exact Or.inr ⟨new, youngest⟩
  · rw [← recent] at unheld
    have missing : s.fg = (.error (.builtin .noBackgroundJob), s) := by simp only [fg, unheld]
    refine ⟨(fg_eq_noBackgroundJob_iff tracked).mp ?_, missing⟩
    rw [missing]
  · rw [← recent] at last
    obtain ⟨e, he, rfl, -⟩ := JobTable.mostRecent?_eq_some last
    obtain ⟨group, hgroup⟩ := (tracked e he).exists_group
    have found := JobTable.find?_of_mem he
    refine ⟨e.job, group, found, hgroup, ?_⟩
    rcases answer : Kernel.signalGroup group .cont s.kernel with ⟨cause | ⟨⟩, kernel⟩
    · simp only [fg, last, found, hgroup, answer]
    · simp only [fg, last, found, hgroup, answer]

/-- **The most recent job is the one registered last.**  That holds of a table after any requests,
and of a session between any two operations, which resumes that job in the foreground. -/
theorem resumes_registered_last (settings : Settings) (login : Login)
    (chronicle : Chronicle settings login s given) :
    (∀ (capacity : Nat) (requests : List TableRequest),
      (TableRequest.serveAll JobTable.serve (.empty capacity) requests).2.Recency
        ((TableRequest.serveAll JobTable.serve (.empty capacity) requests).1.filterMap
          TableReply.newNumber?)) ∧
      s.Recency given :=
  ⟨JobTable.recency_serveAll, chronicle.recency⟩

/-- The first of two jobs ends, and its number goes to a third one: that one is the most recent, and
not the job with the highest number. -/
theorem resumes_registered_last_reused_number :
    ∃ (s : Session (Host Machine)) (given : List Nat), given = [1, 2, 1] ∧
      s.shell.jobs.entries.map (fun e => (e.id, e.job.command)) = [(1, "cat"), (2, "sleep 9")] ∧
      s.shell.jobs.lastGiven? given (fun _ => true) = some 1 ∧ s.Recency given :=
  ⟨_, _, by decide +kernel, by decide +kernel, by decide +kernel,
    And.right (resumes_registered_last ⟨true, "$ ", 2, false⟩ ⟨"user", "/"⟩
      (.perform _ _ (.run "cat &")
        (.perform _ _ .poll
          (.elapse _ _ ⟨Machine.boot .bare FileTree.root .sink,
              [⟨100001, 100001, false, some (.exited 0)⟩, ⟨100002, 100002, false, none⟩],
              [⟨[], 0, none⟩, ⟨[], 0, none⟩], []⟩
            (.perform _ _ (.run "sleep 9 &")
              (.perform _ _ (.run "true &")
                (.start ⟨Machine.boot .bare FileTree.root .sink, [], [], []⟩)))))))⟩

end Session

end JobControl
