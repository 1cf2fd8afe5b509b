import JobControl.Proofs.Kernel.Host

/-!
# What the shell has not been told yet

A child and the history of the reports on it may differ, since it changes when it likes.  They
differ by at most one report: if a child that has not ended has an untaken report, that one says
whether it is stopped, and if a stopped child has none, the history says that it is suspended
(`Process.UpToDate`).

`Host.UpToDate` says this of all children with a process id.  It need not hold of the children that
were there before the shell.  But it holds of an id that no child has, so it holds of every process
that the shell starts, and no call and nothing that happens to the children breaks it
(`Host.callInvariant_upToDate`, `Host.UpToDate.undergo`).
-/

set_option autoImplicit false

namespace JobControl.Host

/-! ## One child -/

namespace Process

/-- The child runs. -/
def isRunning (c : Process) : Bool :=
  !c.stopped && !c.hasEnded

/-- The history and the untaken report of a child tell whether it is stopped. -/
structure UpToDate (history : List Happening) (c : Process) : Prop where
  told : ∀ n, c.news = some n → n.status.isFinished = false →
    (c.stopped = true ↔ n.status = .suspended)
  noted : c.stopped = true → c.news = none →
    history.foldl (Happening.statusAfter c.pid c.group) .running = .suspended

variable {history : List Happening} {c : Process} {happening : Happening}

/-- Whatever happens to a child leaves a report on it, or leaves it alone. -/
theorem UpToDate.undergo (h : c.UpToDate history) (n : News) : (c.undergo n).UpToDate history := by
  -- a report that is left is the one on what happened, and settles both facts
  have reported : ∀ stopped : Bool, (n.status.isFinished = false →
      (stopped = true ↔ n.status = .suspended)) →
      UpToDate history { c with stopped, news := some n } := by
    intro stopped agrees
    refine ⟨fun m hm => ?_, fun _ silent => ?_⟩
    · cases hm
      exact agrees
    · cases silent
  unfold Process.undergo
  split
  · exact h
  · split
    · exact reported c.stopped fun unfinished => by cases unfinished
    · exact reported c.stopped fun unfinished => by cases unfinished
    · split
      · exact h
      · exact reported true fun _ => by simp [News.status]
    · split
      · exact reported false fun _ => by simp [News.status]
      · exact h

/-- A happening that is not about the status of a child makes no difference to it. -/
theorem UpToDate.append (h : c.UpToDate history)
    (other : ∀ status, happening.statusAfter c.pid c.group status = status) :
    c.UpToDate (history ++ [happening]) where
  told := h.told
  noted := by
    intro stopped silent
    rw [List.foldl_append, h.noted stopped silent]
    exact other .suspended

/-- A child that was continued has a report on that, unless it was not stopped. -/
theorem news_of_continued (stopped : (c.undergo .continued).stopped = true) :
    (c.undergo .continued).news ≠ none := by
  unfold undergo at stopped ⊢
  split
  case isTrue ended =>
    intro silent
    rw [hasEnded, silent] at ended
    cases ended
  case isFalse alive =>
    rw [if_neg alive] at stopped
    by_cases was : c.stopped = true
    · simp [was] at stopped
    · simp only [if_neg was] at stopped
      exact absurd stopped was

/-- `SIGCONT` leaves a report with every child it continues. -/
theorem UpToDate.resume (h : c.UpToDate history) (group : Pid) :
    (if c.group = group then c.undergo .continued else c).UpToDate
      (history ++ [.resumed group]) := by
  split
  case isTrue =>
    exact ⟨(h.undergo .continued).told,
      fun stopped silent => absurd silent (news_of_continued stopped)⟩
  case isFalse other =>
    refine h.append fun status => ?_
    simp only [Happening.statusAfter, Ne.symm other, false_and, if_false]

/-- Once its report is taken the history has what the report said. -/
theorem UpToDate.taken (h : c.UpToDate history) {n : News} (hnews : c.news = some n)
    (unfinished : n.status.isFinished = false) :
    UpToDate (history ++ [.reported ⟨c.pid, n.status⟩]) { c with news := none } where
  told := by
    intro m hm
    cases hm
  noted := by
    intro stopped _
    rw [List.foldl_append]
    simp only [List.foldl_cons, List.foldl_nil, Happening.statusAfter, if_true]
    exact (h.told n hnews unfinished).mp stopped

end Process

/-! ## The children with a process id -/

/-- There is at most one child with this process id, and its history and its untaken report tell
whether it is stopped. -/
structure UpToDate (children : List Process) (history : List Happening) (pid : Pid) : Prop where
  alone : ∀ c ∈ children, ∀ c' ∈ children, c.pid = pid → c'.pid = pid → c = c'
  each : ∀ c ∈ children, c.pid = pid → c.UpToDate history

namespace UpToDate

variable {children : List Process} {history : List Happening} {pid : Pid}

/-- There is nothing to be told about a child that does not exist. -/
theorem of_unused (unused : ∀ c ∈ children, c.pid ≠ pid) : UpToDate children history pid where
  alone := fun c hc _ _ hpid => absurd hpid (unused c hc)
  each := fun c hc hpid => absurd hpid (unused c hc)

/-- What is true of one child after a change is true of all. -/
theorem map {history' : List Happening} {f : Process → Process} (h : UpToDate children history pid)
    (same : ∀ c, (f c).pid = c.pid)
    (each : ∀ c ∈ children, c.pid = pid → c.UpToDate history → (f c).UpToDate history') :
    UpToDate (children.map f) history' pid where
  alone := by
    intro a ha b hb hpid hpid'
    obtain ⟨c, hc, rfl⟩ := List.mem_map.mp ha
    obtain ⟨d, hd, rfl⟩ := List.mem_map.mp hb
    rw [same] at hpid hpid'
    rw [h.alone c hc d hd hpid hpid']
  each := by
    intro a ha hpid
    obtain ⟨c, hc, rfl⟩ := List.mem_map.mp ha
    rw [same] at hpid
    exact each c hc hpid (h.each c hc hpid)

/-- Nothing that happens to the children breaks it. -/
theorem undergo (h : UpToDate children history pid) (changes : List (Pid × News)) :
    UpToDate (Host.undergo children changes) history pid := by
  induction changes generalizing children with
  | nil => exact h
  | cons change rest ih =>
    refine ih (h.map (fun c => ?_) fun c _ _ hc => ?_)
    · split
      · exact c.pid_undergo change.2
      · rfl
    · split
      · exact hc.undergo change.2
      · exact hc

/-- Continuing a group does not break it. -/
theorem resume (h : UpToDate children history pid) (group : Pid) :
    UpToDate (children.map fun c => if c.group = group then c.undergo .continued else c)
      (history ++ [.resumed group]) pid := by
  refine h.map (fun c => ?_) fun c _ _ hc => hc.resume group
  split
  · exact c.pid_undergo .continued
  · rfl

/-- A new child runs, and is the only one with its process id. -/
theorem start (h : UpToDate children history pid) {new group : Pid}
    (unused : ∀ c ∈ children, c.pid ≠ new) :
    UpToDate (children ++ [⟨new, group, false, none⟩]) (history ++ [.started new group]) pid := by
  have cases_of_mem : ∀ c ∈ children ++ [⟨new, group, false, none⟩],
      c ∈ children ∧ c.pid ≠ new ∨ c = ⟨new, group, false, none⟩ := by
    intro c hc
    rcases List.mem_append.mp hc with hc | hc
    · exact Or.inl ⟨hc, unused c hc⟩
    · exact Or.inr (List.mem_singleton.mp hc)
  refine ⟨fun c hc d hd hpid hpid' => ?_, fun c hc hpid => ?_⟩
  · rcases cases_of_mem c hc with ⟨hc, hne⟩ | rfl
    · rcases cases_of_mem d hd with ⟨hd, -⟩ | rfl
      · exact h.alone c hc d hd hpid hpid'
      · exact absurd (hpid.trans hpid'.symm) hne
    · rcases cases_of_mem d hd with ⟨-, hne⟩ | rfl
      · exact absurd (hpid'.trans hpid.symm) hne
      · rfl
  · rcases cases_of_mem c hc with ⟨hc, hne⟩ | rfl
    · refine (h.each c hc hpid).append fun status => ?_
      simp only [Happening.statusAfter, if_neg (Ne.symm hne)]
    · refine ⟨fun n hn => ?_, fun stopped => ?_⟩
      · cases hn
      · cases stopped

/-- A child that is left when a report was taken is one that the report was not about, or the one it
was about, which has not ended and has no untaken report any more. -/
theorem cases_of_mem_taken (h : UpToDate children history pid) {c d : Process} {n : News}
    (hc : c ∈ children) (hd : d ∈ children.filterMap (Process.afterReport c.pid n))
    (hpid : d.pid = pid) :
    d ∈ children ∧ d.pid ≠ c.pid ∨
      c.pid = pid ∧ n.status.isFinished = false ∧ d = { c with news := none } := by
  obtain ⟨b, hb, after⟩ := List.mem_filterMap.mp hd
  unfold Process.afterReport at after
  split at after
  case isTrue own =>
    split at after
    case isTrue => cases after
    case isFalse unfinished =>
      cases after
      obtain rfl := h.alone b hb c hc hpid (own.symm.trans hpid)
      exact Or.inr ⟨hpid, Bool.eq_false_iff.mpr unfinished, rfl⟩
  case isFalse other =>
    cases after
    exact Or.inl ⟨hb, other⟩

/-- Taking a report does not break it. -/
theorem take (h : UpToDate children history pid) {c : Process} {n : News} (hc : c ∈ children)
    (hnews : c.news = some n) :
    UpToDate (children.filterMap (Process.afterReport c.pid n))
      (history ++ [.reported ⟨c.pid, n.status⟩]) pid := by
  refine ⟨fun a ha b hb hpid hpid' => ?_, fun a ha hpid => ?_⟩
  · rcases h.cases_of_mem_taken hc ha hpid with ⟨ha, hne⟩ | ⟨own, -, rfl⟩
    · rcases h.cases_of_mem_taken hc hb hpid' with ⟨hb, -⟩ | ⟨own, -, rfl⟩
      · exact h.alone a ha b hb hpid hpid'
      · exact absurd (hpid.trans own.symm) hne
    · rcases h.cases_of_mem_taken hc hb hpid' with ⟨-, hne⟩ | ⟨-, -, rfl⟩
      · exact absurd (hpid'.trans own.symm) hne
      · rfl
  · rcases h.cases_of_mem_taken hc ha hpid with ⟨ha, hne⟩ | ⟨own, unfinished, rfl⟩
    · refine (h.each a ha hpid).append fun status => ?_
      simp only [Happening.statusAfter, if_neg (Ne.symm hne)]
    · exact (h.each c hc own).taken hnews unfinished

end UpToDate

/-! ## The calls -/

variable {σ : Type} {h : Host σ} {pid : Pid}

/-- Taking a report that was found keeps the children up to date. -/
theorem upToDate_take (kept : UpToDate h.children h.history pid) {t : Turn}
    {among : Process → Bool} {report : Pid × News}
    (found : t.find among h.children = .ok (some report)) :
    UpToDate (h.take report).2.children (h.take report).2.history pid := by
  obtain ⟨c, hc, -, hpid, hnews⟩ := Turn.mem_of_find (n := report.2) found
  have taken := kept.take hc hnews
  rwa [hpid] at taken

theorem upToDate_await {group : Pid} {turns : List Turn}
    (kept : UpToDate h.children h.history pid) :
    UpToDate (await group turns h).2.children (await group turns h).2.history pid := by
  induction turns generalizing h with
  | nil => exact kept
  | cons t turns ih =>
    have passed : UpToDate (h.pass t turns).children (h.pass t turns).history pid :=
      kept.undergo t.changes
    simp only [await]
    split
    · exact passed
    · rename_i report found
      exact upToDate_take passed found
    · exact ih passed

theorem upToDate_collect (kept : UpToDate h.children h.history pid) :
    UpToDate h.collect.2.children h.collect.2.history pid := by
  cases h.collect_cases with
  | exhausted turns collect => rwa [collect]
  | failed t turns next e found collect =>
    rw [collect]
    exact kept.undergo t.changes
  | took t turns next report found collect =>
    have passed : UpToDate (h.pass t turns).children (h.pass t turns).history pid :=
      kept.undergo t.changes
    rw [collect]
    exact upToDate_take passed found
  | idle t turns next found collect =>
    rw [collect]
    exact kept.undergo t.changes

variable [Kernel σ]

theorem upToDate_fork (kept : UpToDate h.children h.history pid) (plan : ChildPlan) :
    UpToDate (fork plan h).2.children (fork plan h).2.history pid := by
  unfold fork
  split
  · exact kept
  · rename_i new _ _
    split
    · exact kept
    · rename_i unused
      refine kept.start fun c hc hpid => unused ?_
      exact List.any_eq_true.mpr ⟨c, hc, by simpa using hpid⟩

theorem upToDate_resume (kept : UpToDate h.children h.history pid) (group : Pid) :
    UpToDate (signalGroup group .cont h).2.children (signalGroup group .cont h).2.history pid := by
  unfold signalGroup
  split
  · exact kept
  · exact kept.resume group

/-- **No call breaks it.** -/
theorem callInvariant_upToDate (pid : Pid) :
    CallInvariant fun h : Host σ => UpToDate h.children h.history pid where
  openInput := fun _ _ kept => kept
  openOutput := fun _ _ kept => kept
  openPipe := fun _ kept => kept
  close := fun _ _ kept => kept
  joinGroup := fun _ _ _ kept => kept
  writeError := fun _ _ kept => kept
  log := fun _ _ kept => kept
  setDisposition := fun _ _ _ kept => kept
  setForeground := fun _ _ kept => kept
  fork := fun plan _ kept => upToDate_fork kept plan
  resume := fun group _ kept => upToDate_resume kept group
  await := fun _ _ kept => upToDate_await kept
  collect := fun _ kept => upToDate_collect kept
  changeDirectory := fun _ _ kept => kept

end JobControl.Host
