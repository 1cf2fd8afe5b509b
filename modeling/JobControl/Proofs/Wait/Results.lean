import JobControl.Proofs.Kernel.Foretold
import JobControl.Proofs.Poll.Timing
import JobControl.Proofs.Wait.Agreement

/-!
# What the results of a wait decide

A wait takes results one by one, and they alone decide what comes of it.  `Watch.Takes` is the course
of a watch without a system: the results it takes, the error that ends it, and the watch in the end.
Every watch on a system has such a course (`Watch.run_takes`), and every system that gives the same
results gives the same course (`Watch.Takes.run_eq`).

From the course follows when a watch asks for a result (`Watch.Takes.busy`), when it ends
(`Watch.Takes.stops`) and what it knows then.  Results that do not tell about the job make no
difference, wherever they come (`Watch.sameEnd_of_filter`).
-/

set_option autoImplicit false

namespace JobControl

/-- The status changes that results imply, in order. -/
def changesAmong (results : List WaitResult) : List StatusChange :=
  changesOf (results.filterMap Except.toOption)

theorem changesAmong_cons (n : Notification) (rest : List WaitResult) :
    changesAmong (.ok n :: rest) = changesOf [n] ++ changesAmong rest :=
  changesOf_append [n] _

/-- The job with each stage in the status of the last change of its process among these results; in
the one it had if there is none. -/
def Job.told (job : Job) (results : List WaitResult) : Job :=
  job.final (.of (changesAmong results))

/-- The result tells a wait for these processes something: a change of one of them, or that there is
nothing to wait for. -/
def WaitResult.tells (pids : List Pid) : WaitResult → Bool
  | .ok n => n.change?.any fun change => change.pid ∈ pids
  | .error e => e != .eintr

namespace Watch

variable {w w' : Watch} {group : Pid} {n : Notification} {e : Errno} {failure : Option Errno}
  {taken : List WaitResult}

theorem job_observe (w : Watch) (n : Notification) :
    (w.observe n).job = w.job.after (changesOf [n]) :=
  job_foldl_observe w [n]

theorem pids_observe (w : Watch) (n : Notification) : (w.observe n).job.pids = w.job.pids := by
  rw [job_observe, Job.pids_after]

/-! ## The course of a watch -/

/-- A watch takes these results and no more, and ends with this error, if there is one. -/
inductive Takes : Watch → List WaitResult → Option Errno → Watch → Prop
  | idle {w : Watch} (idle : w.job.running = 0) : Takes w [] none w
  | report {w w' : Watch} {n : Notification} {rest : List WaitResult} {failure : Option Errno}
      (busy : w.job.running ≠ 0) (later : Takes (w.observe n) rest failure w') :
      Takes w (.ok n :: rest) failure w'
  | interruption {w w' : Watch} {rest : List WaitResult} {failure : Option Errno}
      (busy : w.job.running ≠ 0) (later : Takes w rest failure w') :
      Takes w (.error .eintr :: rest) failure w'
  | childless {w : Watch} (busy : w.job.running ≠ 0) : Takes w [.error .echild] none w
  | failed {w : Watch} {e : Errno} (busy : w.job.running ≠ 0) (told : e ≠ .eintr)
      (children : e ≠ .echild) : Takes w [.error e] (some e) w

section

variable {κ : Type} [Kernel κ] {k k' : κ}

/-- **Every watch has a course**, made of the answers it gets. -/
theorem run_takes (group : Pid) (w : Watch) (k : κ) :
    Takes w (answers group w k) (run group w k).1 (run group w k).2.1 ∧
      Gives (Kernel.awaitGroup group) k (answers group w k) (run group w k).2.2 := by
  fun_induction Watch.run group w k with
  | case1 w k idle =>
    rw [answers, vigil_of_idle idle]
    exact ⟨.idle idle, .nil k⟩
  | case2 w k busy n k' answer _ ih =>
    rw [answers, vigil_of_report busy answer, List.map_cons, answer]
    exact ⟨.report busy ih.1, .cons answer ih.2⟩
  | case3 w k busy k' answer _ ih =>
    rw [answers, vigil_of_interruption busy answer, List.map_cons, answer]
    exact ⟨.interruption busy ih.1, .cons answer ih.2⟩
  | case4 w k busy k' answer other =>
    rw [answers, vigil_of_failure busy answer other, List.map_singleton, answer]
    exact ⟨.childless busy, .cons answer (.nil k')⟩
  | case5 w k busy e k' answer other children =>
    rw [answers, vigil_of_failure busy answer other, List.map_singleton, answer]
    exact ⟨.failed busy other children, .cons answer (.nil k')⟩

/-- **A system that gives the results of a course** lets the watch take it. -/
theorem Takes.run_eq (takes : Takes w taken failure w')
    (gives : Gives (Kernel.awaitGroup group) k taken k') :
    run group w k = (failure, w', k') := by
  induction takes generalizing k with
  | idle idle =>
    obtain _ | _ := gives
    exact run_of_idle idle
  | report busy _ ih =>
    obtain _ | ⟨answer, later⟩ := gives
    rw [run_of_report busy answer, ih later]
  | interruption busy _ ih =>
    obtain _ | ⟨answer, later⟩ := gives
    rw [run_of_interruption busy answer, ih later]
  | childless busy =>
    obtain _ | ⟨answer, _ | _⟩ := gives
    exact run_of_childless busy answer
  | failed busy told children =>
    obtain _ | ⟨answer, _ | _⟩ := gives
    exact run_of_failure busy answer told children

end

namespace Takes

/-- Whenever a result is taken, some launched stage runs. -/
theorem busy (takes : Takes w taken failure w') {before after : List WaitResult} {r : WaitResult}
    (cut : taken = before ++ r :: after) : (w.job.after (changesAmong before)).running ≠ 0 := by
  induction takes generalizing before with
  | idle => cases before <;> cases cut
  | report busy _ ih =>
    rcases before with _ | ⟨first, before⟩ <;> cases cut
    · exact busy
    · have later := ih rfl
      rw [job_observe, ← Job.after_append] at later
      rwa [changesAmong_cons]
  | interruption busy _ ih =>
    rcases before with _ | ⟨first, before⟩ <;> cases cut
    · exact busy
    · have later := ih rfl
      exact later
  | childless busy | failed busy =>
    rcases before with _ | ⟨first, _ | _⟩ <;> cases cut
    exact busy

/-- A watch knows the job as the results leave it. -/
theorem job_eq (takes : Takes w taken failure w') : w'.job = w.job.after (changesAmong taken) := by
  induction takes with
  | idle | childless | failed => rfl
  | report _ _ ih => rw [ih, job_observe, ← Job.after_append, changesAmong_cons]
  | interruption _ _ ih => exact ih

/-- A result after which a wait does not go on is the last one that is taken. -/
theorem goesOn (takes : Takes w taken failure w') :
    ∀ r ∈ taken.dropLast, WaitResult.goesOn r = true := by
  induction takes with
  | idle | childless | failed =>
    intro r hr
    cases hr
  | @report w w' n rest failure _ _ ih =>
    intro r hr
    cases rest with
    | nil => cases hr
    | cons next more =>
      rcases List.mem_cons.mp hr with rfl | hr
      · rfl
      · exact ih r hr
  | @interruption w w' rest failure _ _ ih =>
    intro r hr
    cases rest with
    | nil => cases hr
    | cons next more =>
      rcases List.mem_cons.mp hr with rfl | hr
      · rfl
      · exact ih r hr

end Takes

/-- How a watch ends: no launched stage runs, and every result was one to go on after; or the last
result says that there is no child; or it is another error. -/
inductive Stops (taken : List WaitResult) (w : Watch) : Option Errno → Prop
  | idle (idle : w.job.running = 0) (all : ∀ r ∈ taken, WaitResult.goesOn r = true) :
      Stops taken w none
  | childless (last : taken.getLast? = some (.error .echild)) : Stops taken w none
  | failed {e : Errno} (last : taken.getLast? = some (.error e)) (told : e ≠ .eintr)
      (children : e ≠ .echild) : Stops taken w (some e)

theorem Stops.cons {r : WaitResult} (stops : Stops taken w failure)
    (first : WaitResult.goesOn r = true) : Stops (r :: taken) w failure := by
  have last : ∀ {e}, taken.getLast? = some e → (r :: taken).getLast? = some e := by
    intro e he
    rw [List.getLast?_cons, he]
    rfl
  cases stops with
  | idle idle all => exact .idle idle (List.forall_mem_cons.mpr ⟨first, all⟩)
  | childless told => exact .childless (last told)
  | failed told other children => exact .failed (last told) other children

theorem Takes.stops (takes : Takes w taken failure w') : Stops taken w' failure := by
  induction takes with
  | idle idle => exact .idle idle fun r hr => absurd hr List.not_mem_nil
  | report _ _ ih => exact ih.cons rfl
  | interruption _ _ ih => exact ih.cons rfl
  | childless => exact .childless rfl
  | failed _ told children => exact .failed rfl told children

/-! ## Who has reported -/

theorem mem_silent_record (known : ∀ pid ∈ w.silent, pid ∈ w.job.pids) {change : StatusChange}
    {pid : Pid} : pid ∈ (w.record change).silent ↔ pid ∈ w.silent ∧ change.pid ≠ pid := by
  simp only [record]
  split
  case isTrue => rw [List.mem_filter, bne_iff_ne, ne_comm]
  case isFalse foreign =>
    refine ⟨fun hpid => ⟨hpid, ?_⟩, fun h => h.1⟩
    rintro rfl
    exact foreign (Job.containsPid_iff.mpr (known _ hpid))

/-- The silent processes are those without a change. -/
theorem mem_silent_foldl (known : ∀ pid ∈ w.silent, pid ∈ w.job.pids) (reports : List Notification)
    {pid : Pid} : pid ∈ (reports.foldl observe w).silent ↔
      pid ∈ w.silent ∧ ∀ change ∈ changesOf reports, change.pid ≠ pid := by
  induction reports generalizing w with
  | nil => simp [changesOf]
  | cons n rest ih =>
    rw [List.foldl_cons]
    rcases w.observe_eq n with ⟨implied, same⟩ | ⟨change, implied, recorded⟩
    · rw [same, ih known, changesOf_cons_none implied]
    · have known' : ∀ pid ∈ (w.record change).silent, pid ∈ (w.record change).job.pids := by
        intro pid hpid
        show pid ∈ (w.job.apply change).pids
        rw [Job.pids_apply]
        exact known pid ((mem_silent_record known).mp hpid).1
      rw [recorded, ih known', mem_silent_record known, changesOf_cons_some implied,
        List.forall_mem_cons, and_assoc]

theorem mem_outstandingPids {job : Job} {pid : Pid} : pid ∈ job.outstandingPids ↔
    ∃ s ∈ job.stages, s.pid = some pid ∧ s.isOutstanding = true := by
  simp only [Job.outstandingPids, List.mem_filterMap, List.mem_filter, Stage.isOutstanding]
  constructor
  · rintro ⟨s, ⟨hs, unfinished⟩, launched⟩
    exact ⟨s, hs, launched, by simpa [launched] using unfinished⟩
  · rintro ⟨s, hs, launched, outstanding⟩
    exact ⟨s, ⟨hs, by simpa [launched] using outstanding⟩, launched⟩

/-- A watch has heard of every process once each outstanding stage has a change. -/
theorem silent_foldl_isEmpty_iff {job : Job} (reports : List Notification) :
    (reports.foldl observe (start job)).silent.isEmpty = true ↔
      ∀ s ∈ job.stages, s.isOutstanding = true →
        ∃ change ∈ changesOf reports, s.pid = some change.pid := by
  have known : ∀ pid ∈ (start job).silent, pid ∈ (start job).job.pids := by
    intro pid hpid
    obtain ⟨s, hs, launched, -⟩ := mem_outstandingPids.mp hpid
    exact Job.mem_pids.mpr ⟨s, hs, launched⟩
  rw [List.isEmpty_iff, List.eq_nil_iff_forall_not_mem]
  constructor
  · intro none s hs outstanding
    obtain ⟨pid, launched⟩ : ∃ pid, s.pid = some pid := by
      refine Option.isSome_iff_exists.mp ?_
      simp only [Stage.isOutstanding, Bool.and_eq_true] at outstanding
      exact outstanding.1
    by_contra unheard
    refine none pid ((mem_silent_foldl known reports).mpr ⟨?_, fun change hchange same => ?_⟩)
    · exact mem_outstandingPids.mpr ⟨s, hs, launched, outstanding⟩
    · exact unheard ⟨change, hchange, by rw [launched, same]⟩
  · intro all pid hpid
    obtain ⟨started, unheard⟩ := (mem_silent_foldl known reports).mp hpid
    obtain ⟨s, hs, launched, outstanding⟩ := mem_outstandingPids.mp started
    obtain ⟨change, hchange, own⟩ := all s hs outstanding
    exact unheard change hchange (Option.some.inj (own.symm.trans launched))

/-! ## Results that make no difference -/

/-- Two watches know the same of a job with these processes.  They may have seen changes of other
processes. -/
structure Alike (pids : List Pid) (w w' : Watch) : Prop where
  job : w'.job = w.job
  silent : w'.silent = w.silent
  seen : (w'.seen.filter fun change => change.pid ∈ pids) =
    w.seen.filter fun change => change.pid ∈ pids

theorem Alike.refl (pids : List Pid) (w : Watch) : Alike pids w w :=
  ⟨rfl, rfl, rfl⟩

theorem Alike.observe {pids : List Pid} (alike : Alike pids w w') (n : Notification) :
    Alike pids (w.observe n) (w'.observe n) := by
  unfold Watch.observe
  cases n.change? with
  | none => exact alike
  | some change =>
    refine ⟨?_, ?_, ?_⟩
    · simp only [record, alike.job]
    · simp only [record, alike.job, alike.silent]
    · simp only [record, List.filter_append, alike.seen]

/-- A report that does not tell about the job is as good as none. -/
theorem Alike.skip {pids : List Pid} (alike : Alike pids w w') (own : w.job.pids = pids)
    (silent : WaitResult.tells pids (.ok n) = false) : Alike pids (w.observe n) w' := by
  unfold Watch.observe
  unfold WaitResult.tells at silent
  cases implied : n.change? with
  | none => exact alike
  | some change =>
    have foreign : change.pid ∉ pids := by simpa [implied] using silent
    rw [← own] at foreign
    refine ⟨?_, ?_, ?_⟩
    · simp only [record, Job.apply_eq_self foreign, alike.job]
    · have other : w.job.containsPid change.pid = false :=
        Bool.eq_false_iff.mpr fun h => foreign (Job.containsPid_iff.mp h)
      simp only [record, other, alike.silent, Bool.false_eq_true, if_false]
    · rw [own] at foreign
      simp [record, foreign, alike.seen]

/-- Two watches on foretold results end alike: with the same error, if any, and before the same
results that tell about the job. -/
structure SameEnd {κ κ' : Type} (pids : List Pid) (x : Option Errno × Watch × Foretold κ)
    (y : Option Errno × Watch × Foretold κ') : Prop where
  failure : y.1 = x.1
  alike : Alike pids x.2.1 y.2.1
  left : y.2.2.results.filter (WaitResult.tells pids) = x.2.2.results.filter (WaitResult.tells pids)

section

variable {κ κ' : Type} [Kernel κ] [Kernel κ'] {pids : List Pid}

/-- **A watch ends alike without the results that do not tell about its job.** -/
theorem sameEnd_filter (group : Pid) (alike : Alike pids w w') (own : w.job.pids = pids) (k : κ)
    (k' : κ') (results : List WaitResult) :
    SameEnd pids (run group w (Foretold.mk k results))
      (run group w' (Foretold.mk k' (results.filter (WaitResult.tells pids)))) := by
  have twice : ∀ l : List WaitResult, (l.filter (WaitResult.tells pids)).filter
      (WaitResult.tells pids) = l.filter (WaitResult.tells pids) := fun l => by
    rw [List.filter_filter]
    simp only [Bool.and_self]
  induction results generalizing w w' with
  | nil =>
    by_cases idle : w.job.running = 0
    · rw [run_of_idle idle, run_of_idle (alike.job ▸ idle)]
      exact ⟨rfl, alike, rfl⟩
    · rw [run_of_childless idle rfl, run_of_childless (alike.job ▸ idle) rfl]
      exact ⟨rfl, alike, rfl⟩
  | cons r rest ih =>
    by_cases idle : w.job.running = 0
    · rw [run_of_idle idle, run_of_idle (alike.job ▸ idle)]
      exact ⟨rfl, alike, twice (r :: rest)⟩
    have busy : w'.job.running ≠ 0 := alike.job ▸ idle
    cases telling : WaitResult.tells pids r with
    | true =>
      -- both take the result
      rw [List.filter_cons_of_pos telling]
      rcases r with e | n
      · have told : e ≠ .eintr := bne_iff_ne.mp telling
        by_cases children : e = .echild
        · subst children
          rw [run_of_childless idle rfl, run_of_childless busy rfl]
          exact ⟨rfl, alike, twice rest⟩
        · rw [run_of_failure idle rfl told children, run_of_failure busy rfl told children]
          exact ⟨rfl, alike, twice rest⟩
      · rw [run_of_report idle rfl, run_of_report busy rfl]
        exact ih (alike.observe n) ((w.pids_observe n).trans own)
    | false =>
      -- only the first one does, and learns nothing of the job
      rw [List.filter_cons_of_neg (by simp [telling])]
      rcases r with e | n
      · obtain rfl : e = .eintr := by simpa [WaitResult.tells] using telling
        rw [run_of_interruption idle rfl]
        exact ih alike own
      · rw [run_of_report idle rfl]
        exact ih (alike.skip own telling) ((w.pids_observe n).trans own)

/-- So two watches end alike that are told the same of the job. -/
theorem sameEnd_of_filter (group : Pid) (w : Watch) (k : κ) (k' : κ')
    {results results' : List WaitResult}
    (same : results'.filter (WaitResult.tells w.job.pids) =
      results.filter (WaitResult.tells w.job.pids)) :
    SameEnd w.job.pids (run group w (Foretold.mk k results))
      (run group w (Foretold.mk k' results')) := by
  have one := sameEnd_filter group (.refl w.job.pids w) rfl k k results
  have other := sameEnd_filter group (.refl w.job.pids w) rfl k' k results'
  rw [same] at other
  exact ⟨other.failure.symm.trans one.failure,
    ⟨other.alike.job.symm.trans one.alike.job, other.alike.silent.symm.trans one.alike.silent,
      other.alike.seen.symm.trans one.alike.seen⟩, other.left.symm.trans one.left⟩

end

end Watch

end JobControl
