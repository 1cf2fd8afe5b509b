import JobControl.Proofs.Job.Owner
import JobControl.Proofs.Session.Recency
import Mathlib.Data.List.Dedup

/-!
# Resuming the stopped jobs

Resuming in the background takes the stopped job that was registered last.  The stopped jobs of a
table stand in a queue, the last one registered first: it is read off the numbers that the table gave
out, from the end and each number once (`JobTable.newestFirst`).  A call resumes the first job of the
queue and leaves the rest of it as the queue (`Session.bg_of_queue`), so that any number of calls,
whatever the system does between them, work through the queue and then find nothing to resume
(`Session.bg_works_through`).
-/

set_option autoImplicit false

namespace JobControl

/-! ## The queue -/

/-- A list without repetitions is read from the end as the list itself. -/
theorem getLast?_filter_dedup (p : Nat → Bool) (l : List Nat) :
    (l.dedup.filter p).getLast? = (l.filter p).getLast? := by
  induction l with
  | nil => rfl
  | cons n rest ih =>
    by_cases again : n ∈ rest
    · rw [List.dedup_cons_of_mem again, ih]
      cases hp : p n with
      | false => rw [List.filter_cons_of_neg (by simp [hp])]
      | true =>
        have more : rest.filter p ≠ [] := List.ne_nil_of_mem (List.mem_filter.mpr ⟨again, hp⟩)
        rw [List.filter_cons_of_pos hp, List.getLast?_cons_of_ne_nil more]
    · rw [List.dedup_cons_of_notMem again]
      cases hp : p n with
      | false => rw [List.filter_cons_of_neg (by simp [hp]), List.filter_cons_of_neg (by simp [hp]), ih]
      | true =>
        rw [List.filter_cons_of_pos hp, List.filter_cons_of_pos hp, List.getLast?_cons,
          List.getLast?_cons, ih]

/-- Without repetitions a list is in the order of the last places of its elements. -/
theorem pairwise_dedup (l : List Nat) :
    l.dedup.Pairwise fun m n => ∀ i : Nat, l[i]? = some m → ∃ j, i < j ∧ l[j]? = some n := by
  induction l with
  | nil => exact .nil
  | cons first rest ih =>
    have later : rest.dedup.Pairwise fun m n =>
        ∀ i : Nat, (first :: rest)[i]? = some m → ∃ j, i < j ∧ (first :: rest)[j]? = some n := by
      refine ih.imp_of_mem fun {m n} hm _ follows i hi => ?_
      cases i with
      | zero =>
        obtain ⟨i, hi⟩ := List.mem_iff_getElem?.mp (List.mem_dedup.mp hm)
        obtain ⟨j, -, hj⟩ := follows i hi
        exact ⟨j + 1, Nat.succ_pos j, hj⟩
      | succ i =>
        obtain ⟨j, lt, hj⟩ := follows i hi
        exact ⟨j + 1, Nat.succ_lt_succ lt, hj⟩
    by_cases again : first ∈ rest
    · rw [List.dedup_cons_of_mem again]
      exact later
    · rw [List.dedup_cons_of_notMem again]
      refine List.pairwise_cons.mpr ⟨fun n hn i hi => ?_, later⟩
      cases i with
      | zero =>
        obtain ⟨j, hj⟩ := List.mem_iff_getElem?.mp (List.mem_dedup.mp hn)
        exact ⟨j + 1, Nat.succ_pos j, hj⟩
      | succ i =>
        have behind : rest[i]? = some first := hi
        exact absurd (List.mem_of_getElem? behind) again

namespace JobTable

variable {t : JobTable} {given : List Nat} {p : Job → Bool} {id : Nat} {rest : List Nat}

/-- The numbers of the jobs of a class, the one that was given out last first. -/
def newestFirst (t : JobTable) (given : List Nat) (p : Job → Bool) : List Nat :=
  (given.dedup.filter fun id => (t.find? id).any p).reverse

theorem nodup_newestFirst (t : JobTable) (given : List Nat) (p : Job → Bool) :
    (t.newestFirst given p).Nodup :=
  List.nodup_reverse.mpr ((List.nodup_dedup given).filter _)

theorem any_find?_iff : (t.find? id).any p = true ↔ ∃ e ∈ t.entries, e.id = id ∧ p e.job = true := by
  rw [Option.any_eq_true]
  constructor
  · rintro ⟨job, found, hp⟩
    obtain ⟨e, he, rfl, rfl⟩ := find?_eq_some_iff.mp found
    exact ⟨e, he, rfl, hp⟩
  · rintro ⟨e, he, rfl, hp⟩
    exact ⟨e.job, find?_of_mem he, hp⟩

theorem Gave.mem_newestFirst (h : t.Gave given) :
    id ∈ t.newestFirst given p ↔ ∃ e ∈ t.entries, e.id = id ∧ p e.job = true := by
  rw [newestFirst, List.mem_reverse, List.mem_filter, any_find?_iff, List.mem_dedup]
  refine ⟨And.right, fun tracked => ⟨?_, tracked⟩⟩
  obtain ⟨e, he, rfl, -⟩ := tracked
  exact List.mem_of_getElem? (h.placed e he)

/-- The queue is as long as there are jobs of the class. -/
theorem Gave.length_newestFirst (h : t.Gave given) :
    (t.newestFirst given p).length = t.entries.countP fun e => p e.job := by
  have same : (t.newestFirst given p).Perm ((t.entries.filter fun e => p e.job).map (·.id)) := by
    refine (List.perm_ext_iff_of_nodup (nodup_newestFirst t given p) ?_).mpr fun id => ?_
    · exact (t.nodup_ids).sublist (List.filter_sublist.map _)
    · simp only [h.mem_newestFirst, List.mem_map, List.mem_filter]
      constructor
      · rintro ⟨e, he, hid, hp⟩
        exact ⟨e, ⟨he, hp⟩, hid⟩
      · rintro ⟨e, ⟨he, hp⟩, hid⟩
        exact ⟨e, he, hid, hp⟩
  rw [same.length_eq, List.length_map, List.countP_eq_length_filter]

/-- Every number in the queue was given out for the last time after those behind it. -/
theorem pairwise_newestFirst (t : JobTable) (given : List Nat) (p : Job → Bool) :
    (t.newestFirst given p).Pairwise fun newer older =>
      ∀ i : Nat, given[i]? = some older → ∃ j, i < j ∧ given[j]? = some newer :=
  List.pairwise_reverse.mpr ((pairwise_dedup given).sublist List.filter_sublist)

/-- The most recent job of a class is the first one of the queue. -/
theorem Gave.mostRecent?_eq_head? (h : t.Gave given) (p : Job → Bool) :
    t.mostRecent? p = (t.newestFirst given p).head? := by
  rw [h.mostRecent?_eq p, lastGiven?, newestFirst, List.head?_reverse, getLast?_filter_dedup]

/-- A job that leaves the class leaves the queue, and the others keep their places. -/
theorem newestFirst_modify {f : Job → Job} (queue : t.newestFirst given p = id :: rest)
    (leaves : ∀ job, t.find? id = some job → p (f job) = false) :
    (t.modify id f).newestFirst given p = rest := by
  have apart := nodup_newestFirst t given p
  rw [queue] at apart
  have others : ∀ n, ((t.modify id f).find? n).any p = (n != id && (t.find? n).any p) := by
    intro n
    rw [find?_modify_eq]
    by_cases own : n = id
    · subst own
      rw [if_pos rfl, bne_self_eq_false, Bool.false_and]
      cases found : t.find? n with
      | none => rfl
      | some job => exact leaves job found
    · rw [if_neg own, bne_iff_ne.mpr own, Bool.true_and]
  have shorter : (t.modify id f).newestFirst given p =
      (t.newestFirst given p).filter fun n => n != id := by
    simp only [newestFirst, others]
    rw [← List.filter_filter, ← List.filter_reverse]
  rw [shorter, queue, List.filter_cons_of_neg (by simp)]
  exact List.filter_eq_self.mpr fun n hn => bne_iff_ne.mpr fun same =>
    (List.nodup_cons.mp apart).1 (same ▸ hn)

end JobTable

/-! ## A job that is resumed -/

/-- The job after it was resumed: its launched stages that have not ended count as continued. -/
def Job.resumed (j : Job) : Job :=
  { j with stages := j.stages.map fun s =>
      if s.isOutstanding then { s with status := .continued } else s }

namespace Job.Tracked

variable {id : Nat} {j : Job}

/-- A stage of a tracked job that has not ended was launched. -/
theorem isOutstanding_eq (h : j.Tracked id) {s : Stage} (hs : s ∈ j.stages) :
    s.isOutstanding = !s.status.isFinished := by
  unfold Stage.isOutstanding
  cases launched : s.pid with
  | some pid => rfl
  | none =>
    rw [h.abandoned s hs launched]
    rfl

/-- No stage of a tracked job is suspended any more once the job was resumed. -/
theorem isSuspended_resumed (h : j.Tracked id) : j.resumed.isSuspended = false := by
  refine List.any_eq_false.mpr fun s hs => ?_
  obtain ⟨r, hr, rfl⟩ := List.mem_map.mp hs
  rw [h.isOutstanding_eq hr]
  cases finished : r.status.isFinished with
  | false => simp
  | true =>
    simp only [Bool.not_true, Bool.false_eq_true, if_false, beq_iff_eq]
    intro suspended
    rw [suspended] at finished
    cases finished

/-- Marking a tracked job as continued in the background resumes it, and changes nothing else. -/
theorem markContinued_eq (h : j.Tracked id) :
    { j.markContinued with mode := .background } = j.resumed := by
  have stages : j.stages.map Stage.markContinued = j.resumed.stages := by
    refine List.map_congr_left fun s hs => ?_
    rw [h.isOutstanding_eq hs, Stage.markContinued]
    cases s.status.isFinished <;> rfl
  rw [Job.markContinued, stages, Job.resumed, h.background]

end Job.Tracked

namespace JobTable

variable {t : JobTable} {id : Nat}

/-- The table after the jobs with these numbers were resumed. -/
def resumeAll (t : JobTable) (ids : List Nat) : JobTable :=
  { t with
    entries := t.entries.map fun e => if e.id ∈ ids then { e with job := e.job.resumed } else e
    ordered := by
      rw [List.pairwise_map]
      exact t.ordered.imp fun before => by split <;> split <;> exact before
    numbered := by
      intro e he
      obtain ⟨f, hf, rfl⟩ := List.mem_map.mp he
      split <;> exact t.numbered f hf }

theorem resumeAll_nil (t : JobTable) : t.resumeAll [] = t :=
  ext_entries (by simp [resumeAll]) rfl rfl

/-- Resuming one more job first. -/
theorem resumeAll_modify {ids : List Nat} (new : id ∉ ids) :
    (t.modify id Job.resumed).resumeAll ids = t.resumeAll (id :: ids) := by
  refine ext_entries ?_ rfl rfl
  simp only [resumeAll, modify, List.map_map]
  refine List.map_congr_left fun e _ => ?_
  simp only [Function.comp_apply, TableEntry.modify, List.mem_cons]
  by_cases own : e.id = id
  · simp [own, new]
  · simp [own]

end JobTable

/-! ## One call -/

namespace Session

variable {κ : Type} [Kernel κ] {s : Session κ} {given : List Nat} {id : Nat} {rest : List Nat}

/-- The stopped jobs, the one registered last first. -/
abbrev stoppedQueue (s : Session κ) (given : List Nat) : List Nat :=
  s.shell.jobs.newestFirst given Job.isSuspended

omit [Kernel κ] in
theorem mostRecentSuspended?_eq_head? (gave : s.shell.jobs.Gave given) :
    s.shell.jobs.mostRecentSuspended? = (s.stoppedQueue given).head? :=
  gave.mostRecent?_eq_head? Job.isSuspended

/-- Without a stopped job there is nothing to resume. -/
theorem bg_of_no_queue (gave : s.shell.jobs.Gave given) (queue : s.stoppedQueue given = []) :
    s.bg = (.error (.builtin .noSuspendedJob), s) := by
  have none := mostRecentSuspended?_eq_head? gave
  rw [queue, List.head?_nil] at none
  simp only [bg, none]

/-- **One call resumes the first job of the queue**, if the signal to its group is delivered, and leaves
the rest of the queue. -/
theorem bg_of_queue (tracked : s.shell.jobs.AllTracked) (gave : s.shell.jobs.Gave given)
    (queue : s.stoppedQueue given = id :: rest) :
    ∃ (job : Job) (group : Pid), s.shell.jobs.find? id = some job ∧ job.group = some group ∧
      ((Kernel.signalGroup group .cont s.kernel).1 = .ok () →
        s.bg = (.ok (job.listing id),
          { shell := { s.shell with jobs := s.shell.jobs.modify id Job.resumed }
            kernel := (Kernel.signalGroup group .cont s.kernel).2 })) ∧
      (s.shell.jobs.modify id Job.resumed).newestFirst given Job.isSuspended = rest := by
  have recent := mostRecentSuspended?_eq_head? gave
  rw [queue, List.head?_cons] at recent
  obtain ⟨e, he, rfl, -⟩ := JobTable.mostRecent?_eq_some recent
  have found := JobTable.find?_of_mem he
  obtain ⟨group, hgroup⟩ := (tracked e he).exists_group
  refine ⟨e.job, group, found, hgroup, fun delivered => ?_, ?_⟩
  · rcases answer : Kernel.signalGroup group .cont s.kernel with ⟨cause | ⟨⟩, kernel⟩
    · rw [answer] at delivered
      cases delivered
    · have resumed :
          s.shell.jobs.modify e.id (fun job => { job.markContinued with mode := .background }) =
            s.shell.jobs.modify e.id Job.resumed :=
        (JobTable.modify_eq_modify_iff he).mpr (tracked e he).markContinued_eq
      simp only [bg, recent, found, hgroup, answer, modifyJob, withJobs, resumed]
  · refine JobTable.newestFirst_modify queue fun job there => ?_
    obtain rfl := Option.some.inj (found.symm.trans there)
    exact (tracked e he).isSuspended_resumed

/-! ## Any number of calls -/

/-- Several calls, each with the system as it is by then: the reply to each and the session after
it. -/
def bgAll (s : Session κ) : List κ → List (Reply × Session κ)
  | [] => []
  | kernel :: later => { s with kernel }.bg :: { s with kernel }.bg.2.bgAll later

/-- The signals that several calls send to the jobs of a queue, one job after the other, are
delivered. -/
def Delivers (s : Session κ) (queue : List Nat) (systems : List κ) : Prop :=
  ∀ (i id : Nat) (kernel : κ), queue[i]? = some id → systems[i]? = some kernel →
    ∀ (job : Job) (group : Pid), s.shell.jobs.find? id = some job → job.group = some group →
      (Kernel.signalGroup group .cont kernel).1 = .ok ()

/-- What several calls do to a session whose stopped jobs stand in a queue. -/
structure WorksThrough (s : Session κ) (queue : List Nat) (systems : List κ) : Prop where
  /-- A call resumes the job whose turn it is: it continues the group, prints the processes of the
  job, and leaves a table in which this job and those before it were resumed and nothing else
  differs. -/
  resumes : ∀ (i id : Nat) (kernel : κ), queue[i]? = some id → systems[i]? = some kernel →
    ∃ (job : Job) (group : Pid), s.shell.jobs.find? id = some job ∧ job.group = some group ∧
      (s.bgAll systems)[i]? = some (.ok (job.listing id),
        { shell := { s.shell with jobs := s.shell.jobs.resumeAll (queue.take (i + 1)) }
          kernel := (Kernel.signalGroup group .cont kernel).2 })
  /-- A call after that fails, and leaves everything as it is. -/
  ends : ∀ (i : Nat) (kernel : κ), queue.length ≤ i → systems[i]? = some kernel →
    (s.bgAll systems)[i]? = some (.error (.builtin .noSuspendedJob),
      { shell := { s.shell with jobs := s.shell.jobs.resumeAll queue }, kernel })

/-- The first call resumes the first job of the queue, and the others work through the rest of it. -/
theorem WorksThrough.cons {job : Job} {group : Pid} {kernel : κ} {systems : List κ}
    {next : Session κ} (apart : id ∉ rest) (found : s.shell.jobs.find? id = some job)
    (hgroup : job.group = some group)
    (left : next = { shell := { s.shell with jobs := s.shell.jobs.modify id Job.resumed }
                     kernel := (Kernel.signalGroup group .cont kernel).2 })
    (call : { s with kernel }.bg = (.ok (job.listing id), next))
    (later : next.WorksThrough rest systems) : s.WorksThrough (id :: rest) (kernel :: systems) where
  resumes := by
    intro i n k hn hk
    have calls : s.bgAll (kernel :: systems) =
        (.ok (job.listing id), next) :: next.bgAll systems := by rw [bgAll, call]
    rw [calls]
    cases i with
    | zero =>
      cases hn
      cases hk
      refine ⟨job, group, found, hgroup, ?_⟩
      have one : s.shell.jobs.resumeAll [id] = s.shell.jobs.modify id Job.resumed := by
        rw [← JobTable.resumeAll_modify List.not_mem_nil, JobTable.resumeAll_nil]
      rw [List.getElem?_cons_zero, left, List.take_succ_cons, List.take_zero, one]
    | succ i =>
      obtain ⟨job', group', found', hgroup', nth⟩ := later.resumes i n k hn hk
      have other : n ≠ id := fun same => apart (same ▸ List.mem_of_getElem? hn)
      rw [left, JobTable.find?_modify_eq, if_neg other] at found'
      refine ⟨job', group', found', hgroup', nth.trans ?_⟩
      have within : id ∉ rest.take (i + 1) := fun h => apart (List.mem_of_mem_take h)
      rw [left, List.take_succ_cons, ← JobTable.resumeAll_modify within]
  ends := by
    intro i k beyond hk
    cases i with
    | zero => cases beyond
    | succ i =>
      rw [bgAll, call, List.getElem?_cons_succ,
        later.ends i k (Nat.le_of_succ_le_succ beyond) hk, left,
        JobTable.resumeAll_modify apart]

/-- With nothing to resume the first call fails, and so do the others. -/
theorem WorksThrough.nil {kernel : κ} {systems : List κ}
    (call : { s with kernel }.bg = (.error (.builtin .noSuspendedJob), { s with kernel }))
    (later : { s with kernel }.WorksThrough [] systems) : s.WorksThrough [] (kernel :: systems) where
  resumes := fun _ _ _ hn => by cases hn
  ends := by
    intro i k beyond hk
    rw [bgAll, call]
    cases i with
    | zero =>
      cases hk
      rw [List.getElem?_cons_zero, JobTable.resumeAll_nil]
    | succ i => exact later.ends i k (Nat.zero_le i) hk

/-- Several calls work through the queue. -/
theorem worksThrough_bgAll (tracked : s.shell.jobs.AllTracked) (gave : s.shell.jobs.Gave given)
    (systems : List κ) (delivers : s.Delivers (s.stoppedQueue given) systems) :
    s.WorksThrough (s.stoppedQueue given) systems := by
  induction systems generalizing s with
  | nil => exact ⟨fun _ _ _ _ hk => (by cases hk), fun _ _ _ hk => (by cases hk)⟩
  | cons kernel later ih =>
    cases queue : s.stoppedQueue given with
    | nil =>
      have failed := bg_of_no_queue (s := { s with kernel }) gave queue
      have still : stoppedQueue { s with kernel } given = [] := queue
      have rest := ih (s := { s with kernel }) tracked gave (by
        rw [still]
        intro i id k hid
        cases hid)
      rw [still] at rest
      exact .nil failed rest
    | cons id rest =>
      have once : (s.stoppedQueue given).Nodup := JobTable.nodup_newestFirst ..
      rw [queue] at once delivers
      have apart := (List.nodup_cons.mp once).1
      obtain ⟨job, group, found, hgroup, call, left⟩ :=
        bg_of_queue (s := { s with kernel }) tracked gave queue
      have resumed := call (delivers 0 id kernel rfl rfl job group found hgroup)
      refine .cons apart found hgroup rfl resumed ?_
      have tracked' := allTracked_bg (s := { s with kernel }) tracked
      rw [resumed] at tracked'
      have worked := ih tracked' (gave.rest (.modify _ id Job.resumed)) ?_
      · rwa [stoppedQueue, left] at worked
      · rw [stoppedQueue, left]
        intro i n k hn hk job' group' found'
        have other : n ≠ id := fun same => apart (same ▸ List.mem_of_getElem? hn)
        simp only [JobTable.find?_modify_eq, if_neg other] at found'
        exact delivers (i + 1) n k hn hk job' group' found'

/-! ## Every session -/

/-- The stopped jobs of a session stand in a queue, the one registered last first. -/
structure QueueOfStopped (s : Session κ) (given queue : List Nat) : Prop where
  /-- Each stopped job stands in the queue once, and no other job. -/
  once : queue.Nodup
  stopped : ∀ id, id ∈ queue ↔ ∃ e ∈ s.shell.jobs.entries, e.id = id ∧ e.job.isSuspended = true
  counted : queue.length = s.shell.jobs.entries.countP fun e => e.job.isSuspended
  /-- A job in the queue was registered after the jobs behind it: wherever the number of one of them
  was given out, its own was given out later. -/
  newestFirst : queue.Pairwise fun newer older =>
    ∀ i : Nat, given[i]? = some older → ∃ j, i < j ∧ given[j]? = some newer
  /-- The launched stages of a job that have not ended are all its stages that have not ended. -/
  unfinished : ∀ e ∈ s.shell.jobs.entries, ∀ stage ∈ e.job.stages,
    stage.isOutstanding = !stage.status.isFinished

omit [Kernel κ] in
theorem queueOfStopped (tracked : s.shell.jobs.AllTracked) (gave : s.shell.jobs.Gave given) :
    s.QueueOfStopped given (s.stoppedQueue given) where
  once := JobTable.nodup_newestFirst ..
  stopped := fun _ => gave.mem_newestFirst
  counted := gave.length_newestFirst
  newestFirst := JobTable.pairwise_newestFirst ..
  unfinished := fun e he _ hs => (tracked e he).isOutstanding_eq hs

/-- **Resuming in the background works through the stopped jobs, the newest first.**  Between two
operations the first calls resume them one by one, whatever the system does between the calls, if
their signals are delivered; then there is none left. -/
theorem bg_works_through (settings : Settings) (login : Login)
    (chronicle : Chronicle settings login s given) (systems : List κ)
    (delivers : s.Delivers (s.stoppedQueue given) systems) :
    s.QueueOfStopped given (s.stoppedQueue given) ∧
      s.WorksThrough (s.stoppedQueue given) systems ∧
      (ShellError.builtin .noSuspendedJob).message = "bg: no suspended job" := by
  have tracked := allTracked_of_reachable chronicle.reachable
  exact ⟨queueOfStopped tracked chronicle.gave,
    worksThrough_bgAll tracked chronicle.gave systems delivers, rfl⟩

/-- A session with a job of one stage and one of three stages. -/
def launchedTwo : Session (Host Machine) :=
  perform (perform (start ⟨true, "$ ", 2, false⟩ ⟨"user", "/"⟩
    ⟨Machine.boot .bare FileTree.root .sink, [], [], []⟩) (.run "true &"))
    (.run "cat | true | sleep 9 &")

/-- The children of a session after some things have happened to them. -/
def happened (s : Session (Host Machine)) (changes : List (Pid × Host.News)) : Host Machine :=
  { s.kernel with
    children := Host.undergo s.kernel.children changes
    turns := List.replicate (changes.length + 1) ⟨[], 0, none⟩ }

/-- The first job has ended, and a third one has got its number. -/
def renumbered : Session (Host Machine) :=
  let ended := launchedTwo.happened [(100001, .exited 0)]
  perform (perform { launchedTwo with kernel := ended } .poll) (.run "sleep 9 &")

/-- The newer job has stopped, and so has one stage of the older one; another stage of it has ended. -/
def stoppedTwo : Session (Host Machine) :=
  let stopped := renumbered.happened
    [(100002, .stopped .tstp), (100003, .exited 0), (100005, .stopped .tstp)]
  perform { renumbered with kernel := stopped } .poll

theorem chronicle_stoppedTwo :
    Chronicle ⟨true, "$ ", 2, false⟩ ⟨"user", "/"⟩ stoppedTwo [1, 2, 1] := by
  obtain ⟨given, numbers, chronicle⟩ : ∃ given, given = [1, 2, 1] ∧
      Chronicle ⟨true, "$ ", 2, false⟩ ⟨"user", "/"⟩ stoppedTwo given :=
    ⟨_, by decide +kernel,
      .perform _ _ .poll (.elapse renumbered _ _ (.perform _ _ (.run "sleep 9 &")
        (.perform _ _ .poll (.elapse launchedTwo _ _ (.perform _ _ (.run "cat | true | sleep 9 &")
          (.perform _ _ (.run "true &") (.start _)))))))⟩
  rwa [numbers] at chronicle

/-- The system at three calls, one right after the other. -/
def threeCalls : List (Host Machine) :=
  let first := stoppedTwo.kernel
  let second := (Kernel.signalGroup 100005 .cont first).2
  [first, second, (Kernel.signalGroup 100002 .cont second).2]

theorem delivers_threeCalls : stoppedTwo.Delivers (stoppedTwo.stoppedQueue [1, 2, 1]) threeCalls := by
  have queue : stoppedTwo.stoppedQueue [1, 2, 1] = [1, 2] := by decide +kernel
  have groups : (stoppedTwo.shell.jobs.find? 1).bind Job.group = some 100005 ∧
      (stoppedTwo.shell.jobs.find? 2).bind Job.group = some 100002 := by decide +kernel
  rw [queue]
  intro i id kernel hid hk job group found own
  match i, hid, hk with
  | 0, rfl, rfl =>
    rw [found, Option.bind_some, own] at groups
    obtain rfl := Option.some.inj groups.1
    decide +kernel
  | 1, rfl, rfl =>
    rw [found, Option.bind_some, own] at groups
    obtain rfl := Option.some.inj groups.2
    decide +kernel
  | _ + 2, hid, _ => cases hid

/-- The job with the lower number is resumed first, since it was registered later. -/
theorem bg_works_through_reused_number :
    stoppedTwo.shell.jobs.entries.map (fun e => e.job.stages.map Stage.status) =
        [[.suspended], [.suspended, .done, .running]] ∧
      stoppedTwo.stoppedQueue [1, 2, 1] = [1, 2] ∧
      (stoppedTwo.bgAll threeCalls).map Prod.fst =
        [.ok "[1] 100005\n", .ok "[2] 100002 100003 100004\n",
          .error (.builtin .noSuspendedJob)] ∧
      stoppedTwo.QueueOfStopped [1, 2, 1] (stoppedTwo.stoppedQueue [1, 2, 1]) ∧
      stoppedTwo.WorksThrough (stoppedTwo.stoppedQueue [1, 2, 1]) threeCalls := by
  have worked := bg_works_through ⟨true, "$ ", 2, false⟩ ⟨"user", "/"⟩ chronicle_stoppedTwo
    threeCalls delivers_threeCalls
  exact ⟨by decide +kernel, by decide +kernel, by decide +kernel, worked.1, worked.2.1⟩

end Session

end JobControl
