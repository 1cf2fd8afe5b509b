import JobControl.Proofs.Kernel.Host
import Mathlib.Data.List.Nodup

/-!
# Groups that nothing is heard of

Waiting for one group lets turns pass, and in a turn anything may happen to any child.  For the
children of another group that is all: no report on them is taken, and they are what the changes of
these turns made of them (`Host.Unheard`).  It takes that no two children have one process id
(`Roll.Distinct`); every call keeps that (`Host.callInvariant_distinct`).

What is not heard is not lost.  A drain that is not cut short takes a report on every child that has
one; if the child has ended, it is the report on that (`Host.Due.drain`).
-/

set_option autoImplicit false

namespace JobControl

/-! ## One process id, one child -/

namespace Roll

variable {r : Roll}

/-- No two children have one process id. -/
def Distinct (r : Roll) : Prop :=
  (r.children.map Prod.fst).Nodup

instance (r : Roll) : Decidable r.Distinct :=
  inferInstanceAs (Decidable (List.Nodup _))

theorem Distinct.start (h : r.Distinct) {pid : Pid} (unused : ∀ g, (pid, g) ∉ r.children)
    (group : Pid) : (r.start pid group).Distinct := by
  have new : pid ∉ r.children.map Prod.fst := by
    intro present
    obtain ⟨⟨p, g⟩, child, rfl⟩ := List.mem_map.mp present
    exact unused g child
  unfold Distinct Roll.start
  rw [List.map_append]
  refine List.nodup_append.mpr ⟨h, List.nodup_singleton _, fun p hp q hq => ?_⟩
  rintro rfl
  obtain rfl := List.mem_singleton.mp hq
  exact new hp

theorem Distinct.report (h : r.Distinct) (change : StatusChange) : (r.report change).Distinct := by
  unfold Distinct Roll.report
  split
  · exact h.sublist (List.filter_sublist.map Prod.fst)
  · exact h

end Roll

namespace Host

section

variable {σ : Type} [Kernel σ]

/-- A property of the roll that new children, reports on children and resumptions keep, every call
keeps. -/
theorem callInvariant_roll {J : Roll → Prop}
    (start : ∀ r pid group, (∀ g, (pid, g) ∉ r.children) → J r → J (r.start pid group))
    (report : ∀ r change group, (change.pid, group) ∈ r.children → J r → J (r.report change))
    (resume : ∀ r group, J r → J (r.resume group)) : CallInvariant fun h : Host σ => J h.roll where
  toQuiet := quiet_roll J
  setDisposition := fun _ _ _ kept => kept
  setForeground := fun _ _ kept => kept
  fork := by
    intro plan h kept
    rcases answer : fork plan h with ⟨e | pid, h'⟩
    · have same := roll_fork_error answer
      simpa only [Kernel.fork, answer, same] using kept
    · obtain ⟨unused, after⟩ := roll_fork_ok answer
      simpa only [Kernel.fork, answer, after] using start _ pid _ unused kept
  resume := by
    intro group h kept
    rcases answer : signalGroup group .cont h with ⟨e | ⟨⟩, h'⟩
    · have same := roll_signalGroup_error answer
      simpa only [Kernel.signalGroup, answer, same] using kept
    · have after := roll_signalGroup_ok answer
      simpa only [Kernel.signalGroup, answer, after] using resume _ group kept
  await := by
    intro group h kept
    rcases answer : await group h.turns h with ⟨e | n, h'⟩
    · have same := (roll_await_error answer).1
      simpa only [Kernel.awaitGroup, answer, same] using kept
    · obtain ⟨change, takes⟩ := roll_await_ok answer
      simpa only [Kernel.awaitGroup, answer, takes.after] using
        report _ change group takes.present kept
  collect := by
    intro h kept
    rcases answer : h.collect with ⟨e | n, h'⟩
    · have same := roll_collect_error answer
      simpa only [Kernel.collect, answer, same] using kept
    · by_cases idle : n = .stillAlive
      · subst idle
        have same := roll_collect_none answer
        simpa only [Kernel.collect, answer, same] using kept
      · obtain ⟨group, change, takes⟩ := roll_collect_ok answer idle
        simpa only [Kernel.collect, answer, takes.after] using
          report _ change group takes.present kept
  changeDirectory := fun _ _ kept => kept

theorem callInvariant_distinct : CallInvariant fun h : Host σ => h.roll.Distinct :=
  callInvariant_roll (fun _ _ group unused distinct => distinct.start unused group)
    (fun _ change _ _ distinct => distinct.report change) fun _ _ distinct => distinct

end

variable {σ : Type} {h h' h'' : Host σ} {g : Pid}

/-- Two children with one process id are the same. -/
theorem eq_of_pid_eq (distinct : h.roll.Distinct) {c d : Process} (hc : c ∈ h.children)
    (hd : d ∈ h.children) (hpid : c.pid = d.pid) : c = d := by
  have pids : (h.children.map Process.pid).Nodup := by
    unfold Roll.Distinct roll at distinct
    rw [List.map_map] at distinct
    exact distinct
  exact List.inj_on_of_nodup_map pids hc hd hpid

/-! ## The children of one group -/

/-- The children of a group. -/
def members (g : Pid) (children : List Process) : List Process :=
  children.filter (·.group = g)

theorem mem_members {c : Process} {children : List Process} :
    c ∈ members g children ↔ c ∈ children ∧ c.group = g := by
  simp [members]

/-- What happens to the children happens to those of a group. -/
theorem members_undergo (g : Pid) (children : List Process) (changes : List (Pid × News)) :
    members g (undergo children changes) = undergo (members g children) changes := by
  induction changes generalizing children with
  | nil => rfl
  | cons change rest ih =>
    have one : members g (undergoOne children change) = undergoOne (members g children) change := by
      rw [members, undergoOne, List.filter_map]
      refine congrArg (List.map _) (List.filter_congr fun c _ => ?_)
      simp only [Function.comp_apply]
      split
      · rw [c.group_undergo]
      · rfl
    exact (ih (undergoOne children change)).trans (by rw [one]; rfl)

/-- A change of children outside a group leaves the children of the group. -/
theorem members_map {f : Process → Process} {children : List Process}
    (group : ∀ c, (f c).group = c.group) (same : ∀ c, c.group = g → f c = c) :
    members g (children.map f) = members g children := by
  induction children with
  | nil => rfl
  | cons c rest ih =>
    by_cases inside : c.group = g
    · simpa [members, same c inside, inside] using ih
    · simpa [members, group c, inside] using ih

/-- A report on a process outside a group leaves the children of the group. -/
theorem members_afterReport {pid : Pid} (n : News) {children : List Process}
    (elsewhere : ∀ c ∈ children, c.pid = pid → c.group ≠ g) :
    members g (children.filterMap (Process.afterReport pid n)) = members g children := by
  induction children with
  | nil => rfl
  | cons c rest ih =>
    have tail := ih fun d hd => elsewhere d (List.mem_cons_of_mem c hd)
    by_cases own : c.pid = pid
    · have outside := elsewhere c List.mem_cons_self own
      by_cases ends : n.status.isFinished = true
      · simpa [members, Process.afterReport, own, ends, outside] using tail
      · simpa [members, Process.afterReport, own, ends, outside] using tail
    · by_cases inside : c.group = g
      · simpa [members, Process.afterReport, own, inside] using tail
      · simpa [members, Process.afterReport, own, inside] using tail

/-- Nothing was heard of a group between two states: some turns have passed, and its children are
what the changes of these turns made of them. -/
def Unheard (g : Pid) (h h' : Host σ) : Prop :=
  ∃ passed, h.turns = passed ++ h'.turns ∧
    members g h'.children = undergo (members g h.children) (passed.flatMap Turn.changes)

namespace Unheard

theorem refl (g : Pid) (h : Host σ) : Unheard g h h :=
  ⟨[], rfl, rfl⟩

theorem trans (first : Unheard g h h') (second : Unheard g h' h'') : Unheard g h h'' := by
  obtain ⟨passed, turns, left⟩ := first
  obtain ⟨passed', turns', left'⟩ := second
  refine ⟨passed ++ passed', ?_, ?_⟩
  · rw [turns, turns', List.append_assoc]
  · rw [left', left, List.flatMap_append]
    exact (List.foldl_append ..).symm

/-- What leaves the turns and the children of the group alone. -/
theorem of_eq (turns : h'.turns = h.turns)
    (same : members g h'.children = members g h.children) : Unheard g h h' :=
  ⟨[], turns.symm, same⟩

/-- A turn that passes. -/
theorem pass {t : Turn} {turns : List Turn} (next : h.turns = t :: turns) :
    Unheard g h (h.pass t turns) := by
  refine ⟨[t], next, ?_⟩
  rw [List.flatMap_singleton]
  exact members_undergo g h.children t.changes

/-- A report that is taken on a child of another group. -/
theorem take (distinct : h.roll.Distinct) {t : Turn} {group : Pid} {report : Pid × News}
    (found : t.find (·.group = group) h.children = .ok (some report)) (other : group ≠ g) :
    Unheard g h (h.take report).2 := by
  obtain ⟨c, hc, own, hpid, -⟩ := Turn.mem_of_find (n := report.2) found
  refine of_eq rfl (members_afterReport report.2 fun d hd same => ?_)
  obtain rfl := eq_of_pid_eq distinct hd hc (same.trans hpid.symm)
  have own : d.group = group := by simpa using own
  exact fun inside => other (own.symm.trans inside)

/-- **Waiting for one group, nothing is heard of another.** -/
theorem await {group : Pid} (other : group ≠ g) {turns : List Turn} (distinct : h.roll.Distinct)
    (next : h.turns = turns) : Unheard g h (Host.await group turns h).2 := by
  induction turns generalizing h with
  | nil => exact of_eq next.symm rfl
  | cons t turns ih =>
    have passed := pass (g := g) next
    have kept : (h.pass t turns).roll.Distinct := by rw [h.roll_pass]; exact distinct
    simp only [Host.await]
    split
    · exact passed
    · rename_i report found
      exact passed.trans (take kept found other)
    · exact passed.trans (ih kept rfl)

variable [Kernel σ]

theorem fork {plan : ChildPlan} {pid : Pid} (answer : Host.fork plan h = (.ok pid, h'))
    (other : plan.group.getD pid ≠ g) : Unheard g h h' := by
  unfold Host.fork at answer
  split at answer
  · cases answer
  · split at answer
    · cases answer
    · cases answer
      refine of_eq rfl ?_
      simp [members, List.filter_append, other]

theorem signalGroup {group : Pid} (other : group ≠ g) (signal : Signal) :
    Unheard g h (Host.signalGroup group signal h).2 := by
  unfold Host.signalGroup
  split
  · exact of_eq rfl rfl
  · split
    · refine of_eq rfl (members_map (fun c => ?_) fun c inside => ?_)
      · split
        · exact c.group_undergo .continued
        · rfl
      · rw [if_neg fun own => other (own.symm.trans inside)]
    · exact of_eq rfl rfl

end Unheard

/-! ## What a drain hears -/

/-- A kind of news that a child keeps once it has it, whatever happens to it. -/
def Lasting (said : News → Prop) : Prop :=
  ∀ (c : Process) (m n : News), c.news = some n → said n →
    ∃ n', (c.undergo m).news = some n' ∧ said n'

/-- A child that has news keeps having some. -/
theorem lasting_any : Lasting fun _ => True := by
  intro c m n hnews _
  unfold Process.undergo
  split
  · exact ⟨n, hnews, trivial⟩
  · split
    · exact ⟨_, rfl, trivial⟩
    · exact ⟨_, rfl, trivial⟩
    · split
      · exact ⟨n, hnews, trivial⟩
      · exact ⟨_, rfl, trivial⟩
    · split
      · exact ⟨_, rfl, trivial⟩
      · exact ⟨n, hnews, trivial⟩

/-- That a child has ended is the last news of it. -/
theorem lasting_end {n : News} (ends : n.status.isFinished = true) : Lasting (· = n) := by
  rintro c m n hnews rfl
  have closed : c.hasEnded = true := by simp [Process.hasEnded, hnews, ends]
  have same : c.undergo m = c := by
    unfold Process.undergo
    rw [if_pos closed]
  exact ⟨n, by rw [same, hnews], rfl⟩

/-- If a child has news of a lasting kind, it has after any changes. -/
theorem Lasting.undergo {said : News → Prop} (lasting : Lasting said) {p : Pid}
    {children : List Process}
    (child : ∃ c ∈ children, c.pid = p ∧ ∃ n, c.news = some n ∧ said n)
    (changes : List (Pid × News)) :
    ∃ c ∈ Host.undergo children changes, c.pid = p ∧ ∃ n, c.news = some n ∧ said n := by
  induction changes generalizing children with
  | nil => exact child
  | cons change rest ih =>
    obtain ⟨c, hc, hpid, n, hnews, hsaid⟩ := child
    by_cases own : c.pid = change.1
    · obtain ⟨n', hnews', hsaid'⟩ := lasting c change.2 n hnews hsaid
      have placed : c.undergo change.2 ∈ undergoOne children change :=
        List.mem_map.mpr ⟨c, hc, if_pos own⟩
      exact ih ⟨_, placed, (c.pid_undergo change.2).trans hpid, n', hnews', hsaid'⟩
    · have placed : c ∈ undergoOne children change := List.mem_map.mpr ⟨c, hc, if_neg own⟩
      exact ih ⟨c, placed, hpid, n, hnews, hsaid⟩

/-- News of a process is due: its only child has a report on it, or one was taken. -/
structure Due (p : Pid) (said : News → Prop) (reports : List Notification) (h : Host σ) :
    Prop where
  distinct : h.roll.Distinct
  due : (∃ c ∈ h.children, c.pid = p ∧ ∃ n, c.news = some n ∧ said n) ∨
    ∃ n, said n ∧ n.report p ∈ reports

namespace Due

variable {p : Pid} {said : News → Prop} {reports : List Notification}

/-- The changes of a turn leave it due. -/
theorem pass (lasting : Lasting said) (h_due : Due p said reports h) (t : Turn)
    (turns : List Turn) : Due p said reports (h.pass t turns) where
  distinct := by
    rw [h.roll_pass]
    exact h_due.distinct
  due := h_due.due.imp_left (lasting.undergo · t.changes)

/-- Once the report on the child is taken, it is among those taken. -/
theorem take (h_due : Due p said reports h) {t : Turn} {report : Pid × News}
    (found : t.find (fun _ => true) h.children = .ok (some report)) :
    Due p said (reports ++ [report.2.report report.1]) (h.take report).2 := by
  refine ⟨by rw [roll_take]; exact h_due.distinct.report _, ?_⟩
  rcases h_due.due with ⟨c, hc, hpid, n, hnews, hsaid⟩ | ⟨n, hsaid, heard⟩
  · obtain ⟨d, hd, -, hdpid, hdnews⟩ := Turn.mem_of_find (n := report.2) found
    by_cases own : c.pid = report.1
    · obtain rfl := eq_of_pid_eq h_due.distinct hc hd (own.trans hdpid.symm)
      obtain rfl : n = report.2 := Option.some.inj (hnews.symm.trans hdnews)
      refine Or.inr ⟨report.2, hsaid, List.mem_append_right _ ?_⟩
      rw [← own, hpid]
      exact List.mem_singleton_self _
    · refine Or.inl ⟨c, List.mem_filterMap.mpr ⟨c, hc, ?_⟩, hpid, n, hnews, hsaid⟩
      rw [Process.afterReport, if_neg own]
  · exact Or.inr ⟨n, hsaid, List.mem_append_left _ heard⟩

/-- When a call finds nothing to take, no child has a report at that moment. -/
theorem silent_of_end (ended : h.collect = (.ok .stillAlive, h') ∨ h.collect = (.error .echild, h')) :
    ∃ t turns, ∀ c ∈ (h.pass t turns).children, c.news = none := by
  cases h.collect_cases with
  | exhausted turns collect =>
    rcases ended with answer | answer
    · cases collect.symm.trans answer
    · cases collect.symm.trans answer
  | failed t turns next e found collect =>
    rcases ended with answer | answer
    · cases collect.symm.trans answer
    · obtain rfl : e = .echild :=
        Except.error.inj (congrArg Prod.fst (collect.symm.trans answer))
      exact ⟨t, turns, fun c hc => absurd (Turn.none_of_find found c hc) (by simp)⟩
  | took t turns next report found collect =>
    rcases ended with answer | answer
    · have taken := Except.ok.inj (congrArg Prod.fst (collect.symm.trans answer))
      exact absurd taken (report.2.report_ne_stillAlive report.1)
    · cases collect.symm.trans answer
  | idle t turns next found collect =>
    exact ⟨t, turns, fun c hc => Turn.silent_of_find found c hc rfl⟩

variable [Kernel σ]

/-- **A drain that is not cut short takes the news that is due.** -/
theorem drain (lasting : Lasting said) (h_due : Due p said [] h)
    (whole : (JobControl.drain h).2.1 = none) :
    ∃ n, said n ∧ n.report p ∈ (JobControl.drain h).1 := by
  have report : ∀ reports (k : Host σ) n k', n ≠ .stillAlive → Due p said reports k →
      Kernel.collect k = (.ok n, k') → Due p said (reports ++ [n]) k' := by
    intro reports k n k' some_report kept answer
    cases k.collect_cases with
    | exhausted turns collect => cases collect.symm.trans answer
    | failed t turns next e found collect => cases collect.symm.trans answer
    | took t turns next report found collect =>
      cases collect.symm.trans answer
      exact (kept.pass lasting t turns).take found
    | idle t turns next found collect =>
      cases collect.symm.trans answer
      exact absurd rfl some_report
  have interrupted : ∀ reports (k k' : Host σ), Due p said reports k →
      Kernel.collect k = (.error .eintr, k') → Due p said reports k' := by
    intro reports k k' kept answer
    cases k.collect_cases with
    | exhausted turns collect => cases collect.symm.trans answer
    | failed t turns next e found collect =>
      cases collect.symm.trans answer
      exact kept.pass lasting t turns
    | took t turns next report found collect => cases collect.symm.trans answer
    | idle t turns next found collect => cases collect.symm.trans answer
  obtain ⟨k, last, ended⟩ := drain_end report interrupted h h_due whole
  obtain ⟨t, turns, silent⟩ := silent_of_end ended
  rcases (last.pass lasting t turns).due with ⟨c, hc, -, n, hnews, -⟩ | heard
  · cases (silent c hc).symm.trans hnews
  · exact heard

end Due

end Host

end JobControl
