import JobControl.Proofs.Kernel.Roll
import JobControl.Proofs.Loops

/-!
# A system with children of its own will

`Host σ` is any system `σ` with a set of children beside it.  A child runs, is stopped, or has ended
and waits to be reaped; it has at most one report that nobody has taken yet, and a newer change
replaces an older one.  Children stay in the group they were started in, and only the shell reaps
them.

When a child does what is up to a script: between two calls that look at the children any number of
changes may happen to any of them, and among several reports any may be handed out (`Host.Turn`).  A
call that waits lets turns pass until there is a report to take.  Only a script that has run out
makes it fail; every run that ends has a script long enough for it.

A report that is taken is always handed out.  So it names its signal, and what happens to a child
has a standard signal for a cause (`Signal.Standard`): a report on a child that was killed by a
real-time signal would be lost, and the call that took it would fail.

Everything else the shell asks for is answered by the system `σ`.  What a call does to the roll of
the children is said by one rule for each (`Host.roll_fork` and so on).
-/

set_option autoImplicit false

namespace JobControl

/-- A signal that a report can name. -/
structure Signal.Standard where
  signal : Signal
  standard : signal.isStandard = true
deriving DecidableEq, Repr

namespace Signal.Standard

def stop : Standard := ⟨.stop, rfl⟩
def tstp : Standard := ⟨.tstp, rfl⟩

end Signal.Standard

namespace Host

/-- What can happen to a child. -/
inductive News
  | exited (code : Int)
  | killed (cause : Signal.Standard) (core : Bool)
  | stopped (cause : Signal.Standard)
  | continued
deriving DecidableEq, Repr

namespace News

/-- The status a child has then. -/
def status : News → Status
  | exited _ => .done
  | killed _ _ => .terminated
  | stopped _ => .suspended
  | continued => .continued

/-- The report on it. -/
def report (pid : Pid) : News → Notification
  | exited code => .exited pid code
  | killed cause core => .signaled pid cause.signal core
  | stopped cause => .stopped pid cause.signal
  | continued => .continued pid

theorem change?_report (n : News) (pid : Pid) : (n.report pid).change? = some ⟨pid, n.status⟩ := by
  cases n <;> rfl

theorem report_ne_stillAlive (n : News) (pid : Pid) : n.report pid ≠ .stillAlive := by
  cases n <;> simp [report]

end News

/-- A child: it has ended if its untaken report says so, and otherwise runs or is stopped. -/
structure Process where
  pid : Pid
  group : Pid
  stopped : Bool
  news : Option News
deriving DecidableEq, Repr

namespace Process

/-- The child has ended and waits to be reaped. -/
def hasEnded (c : Process) : Bool :=
  c.news.any fun n => n.status.isFinished

/-- Something happens to a child.  What has ended stays as it is, only what runs can stop, and only
what is stopped can be continued. -/
def undergo (n : News) (c : Process) : Process :=
  if c.hasEnded then c
  else
    match n with
    | .exited _ => { c with news := some n }
    | .killed _ _ => { c with news := some n }
    | .stopped _ => if c.stopped then c else { c with stopped := true, news := some n }
    | .continued => if c.stopped then { c with stopped := false, news := some n } else c

/-- The child after its report has been taken, unless that reaps it. -/
def afterReport (pid : Pid) (n : News) (c : Process) : Option Process :=
  if c.pid = pid then if n.status.isFinished then none else some { c with news := none } else some c

/-- Where the child stands on the roll. -/
def place (c : Process) : Pid × Pid :=
  (c.pid, c.group)

theorem place_undergo (n : News) (c : Process) : (c.undergo n).place = c.place := by
  unfold undergo
  split
  · rfl
  · split
    · rfl
    · rfl
    · split <;> rfl
    · split <;> rfl

theorem pid_undergo (n : News) (c : Process) : (c.undergo n).pid = c.pid :=
  congrArg Prod.fst (c.place_undergo n)

theorem group_undergo (n : News) (c : Process) : (c.undergo n).group = c.group :=
  congrArg Prod.snd (c.place_undergo n)

end Process

/-- What happens to one child happens to the child with that process id. -/
def undergoOne (children : List Process) (change : Pid × News) : List Process :=
  children.map fun c => if c.pid = change.1 then c.undergo change.2 else c

/-- Several things happen, one after the other. -/
def undergo (children : List Process) (changes : List (Pid × News)) : List Process :=
  changes.foldl undergoOne children

theorem map_place_undergo (changes : List (Pid × News)) (children : List Process) :
    (undergo children changes).map Process.place = children.map Process.place := by
  induction changes generalizing children with
  | nil => rfl
  | cons change rest ih =>
    have one : (undergoOne children change).map Process.place = children.map Process.place := by
      rw [undergoOne, List.map_map]
      refine List.map_congr_left fun c _ => ?_
      simp only [Function.comp_apply]
      split
      · exact c.place_undergo change.2
      · rfl
    exact (ih (undergoOne children change)).trans one

/-- One turn of the script: what happens before a call looks at the children, which of the reports
there are then it takes, and whether it fails instead. -/
structure Turn where
  changes : List (Pid × News)
  pick : Nat
  failure : Option Errno
deriving DecidableEq, Repr

namespace Turn

/-- What a call finds that asks for a report on one of some children: that there is no such child, a
failure for another reason, a report, or none yet. -/
def find (t : Turn) (among : Process → Bool) (children : List Process) :
    Except Errno (Option (Pid × News)) :=
  if children.any among then
    match t.failure.filter (· ≠ .echild) with
    | some e => .error e
    | none =>
      let ready := (children.filter among).filterMap fun c => c.news.map fun n => (c.pid, n)
      .ok ready[t.pick % ready.length]?
  else .error .echild

variable {t : Turn} {among : Process → Bool} {children : List Process}

/-- A report that is found is the untaken one of such a child. -/
theorem mem_of_find {pid : Pid} {n : News} (h : t.find among children = .ok (some (pid, n))) :
    ∃ c ∈ children, among c = true ∧ c.pid = pid ∧ c.news = some n := by
  unfold find at h
  split at h
  · split at h
    · cases h
    · have found := List.mem_of_getElem? (Except.ok.inj h)
      obtain ⟨c, hc, hn⟩ := List.mem_filterMap.mp found
      obtain ⟨hmem, hamong⟩ := List.mem_filter.mp hc
      obtain ⟨m, hnews, heq⟩ := Option.map_eq_some_iff.mp hn
      cases heq
      exact ⟨c, hmem, hamong, rfl, hnews⟩
  · cases h

/-- If such a child has an untaken report, a call that does not fail finds one. -/
theorem find_of_news {c : Process} (hc : c ∈ children) (hamong : among c = true) {n : News}
    (hnews : c.news = some n) (succeeds : t.failure = none) :
    ∃ report, t.find among children = .ok (some report) := by
  have some_child : children.any among = true := List.any_eq_true.mpr ⟨c, hc, hamong⟩
  simp only [find, some_child, if_true, succeeds, Option.filter_none]
  have ready : (c.pid, n) ∈ (children.filter among).filterMap fun c =>
      c.news.map fun n => (c.pid, n) :=
    List.mem_filterMap.mpr ⟨c, List.mem_filter.mpr ⟨hc, hamong⟩, by rw [hnews]; rfl⟩
  have bound := Nat.mod_lt t.pick (List.length_pos_of_mem ready)
  exact ⟨_, congrArg Except.ok (List.getElem?_eq_getElem bound)⟩

/-- That there is no report yet is the answer only if no such child has one. -/
theorem silent_of_find (h : t.find among children = .ok none) :
    ∀ c ∈ children, among c = true → c.news = none := by
  intro c hc hamong
  unfold find at h
  rw [if_pos (List.any_eq_true.mpr ⟨c, hc, hamong⟩)] at h
  split at h
  · cases h
  · -- a report that is ready could have been picked
    have none_ready := List.getElem?_eq_none_iff.mp (Except.ok.inj h)
    by_contra some_news
    obtain ⟨n, hnews⟩ := Option.ne_none_iff_exists'.mp some_news
    have ready : (c.pid, n) ∈ (children.filter among).filterMap fun c =>
        c.news.map fun n => (c.pid, n) :=
      List.mem_filterMap.mpr ⟨c, List.mem_filter.mpr ⟨hc, hamong⟩, by rw [hnews]; rfl⟩
    exact absurd (Nat.mod_lt t.pick (List.length_pos_of_mem ready)) (Nat.not_lt.mpr none_ready)

/-- That there is no such child is the answer only if there is none. -/
theorem none_of_find (h : t.find among children = .error .echild) :
    ∀ c ∈ children, among c = false := by
  unfold find at h
  split at h
  · split at h
    · rename_i e failed
      obtain ⟨-, other⟩ := Option.filter_eq_some_iff.mp failed
      cases h
      simp at other
    · cases h
  · rename_i absent
    intro c hc
    by_contra present
    exact absent (List.any_eq_true.mpr ⟨c, hc, by simpa using present⟩)

end Turn

end Host

/-- A system with children, the turns to come, and what has happened so far. -/
structure Host (σ : Type) where
  world : σ
  children : List Host.Process
  turns : List Host.Turn
  history : List Happening

namespace Host

variable {σ : Type} {h h' : Host σ} {group : Pid} {e : Errno} {n : Notification}

/-- The roll of the children. -/
def roll (h : Host σ) : Roll :=
  ⟨h.children.map Process.place, h.history⟩

/-- A turn passes: its changes happen. -/
def pass (h : Host σ) (t : Turn) (turns : List Turn) : Host σ :=
  { h with children := undergo h.children t.changes, turns }

/-- A report is taken. -/
def take (h : Host σ) (report : Pid × News) : WaitResult × Host σ :=
  (.ok (report.2.report report.1),
    { h with
      children := h.children.filterMap (Process.afterReport report.1 report.2)
      history := h.history ++ [.reported ⟨report.1, report.2.status⟩] })

/-- Lets turns pass until a child of the group has a report, and takes it. -/
def await (group : Pid) : List Turn → Host σ → WaitResult × Host σ
  | [], h => (.error .edeadlk, { h with turns := [] })
  | t :: turns, h =>
    let h := h.pass t turns
    match t.find (·.group = group) h.children with
    | .error e => (.error e, h)
    | .ok (some report) => h.take report
    | .ok none => await group turns h

/-- Lets one turn pass, and takes a report of any child if there is one. -/
def collect (h : Host σ) : WaitResult × Host σ :=
  match h.turns with
  | [] => (.error .edeadlk, h)
  | t :: turns =>
    let h := h.pass t turns
    match t.find (fun _ => true) h.children with
    | .error e => (.error e, h)
    | .ok (some report) => h.take report
    | .ok none => (.ok .stillAlive, h)

theorem turns_await (group : Pid) (turns : List Turn) (h : Host σ)
    (goesOn : (await group turns h).1.goesOn = true) :
    (await group turns h).2.turns.length < turns.length := by
  induction turns generalizing h with
  | nil => simp [await, WaitResult.goesOn, Errno.edeadlk, Errno.eintr] at goesOn
  | cons t turns ih =>
    simp only [await] at goesOn ⊢
    split at goesOn
    · exact Nat.lt_succ_self _
    · exact Nat.lt_succ_self _
    · exact Nat.lt_succ_of_lt (ih _ goesOn)

/-- What can become of asking for a report without waiting: the script has run out; or a turn passes,
and the call fails, takes a report, or finds none. -/
inductive CollectCases (h : Host σ) : Prop
  | exhausted (turns : h.turns = []) (collect : h.collect = (.error .edeadlk, h))
  | failed (t : Turn) (turns : List Turn) (next : h.turns = t :: turns) (e : Errno)
      (found : t.find (fun _ => true) (h.pass t turns).children = .error e)
      (collect : h.collect = (.error e, h.pass t turns))
  | took (t : Turn) (turns : List Turn) (next : h.turns = t :: turns) (report : Pid × News)
      (found : t.find (fun _ => true) (h.pass t turns).children = .ok (some report))
      (collect : h.collect = (h.pass t turns).take report)
  | idle (t : Turn) (turns : List Turn) (next : h.turns = t :: turns)
      (found : t.find (fun _ => true) (h.pass t turns).children = .ok none)
      (collect : h.collect = (.ok .stillAlive, h.pass t turns))

/-- **The rule for asking for a report without waiting.** -/
theorem collect_cases (h : Host σ) : h.CollectCases := by
  cases next : h.turns with
  | nil => exact .exhausted next (by simp only [collect, next])
  | cons t turns =>
    rcases found : t.find (fun _ => true) (h.pass t turns).children with e | (_ | report)
    · exact .failed t turns next e found (by simp only [collect, next, found])
    · exact .idle t turns next found (by simp only [collect, next, found])
    · exact .took t turns next report found (by simp only [collect, next, found])

theorem turns_collect (h : Host σ) (goesOn : h.collect.1.drainGoesOn = true) :
    h.collect.2.turns.length < h.turns.length := by
  cases h.collect_cases with
  | exhausted turns collect => simp [collect, WaitResult.drainGoesOn, Errno.edeadlk, Errno.eintr] at goesOn
  | failed t turns next e found collect =>
    rw [collect, next]
    exact Nat.lt_succ_self _
  | took t turns next report found collect =>
    rw [collect, next]
    exact Nat.lt_succ_self _
  | idle t turns next found collect => simp [collect, WaitResult.drainGoesOn] at goesOn

variable [Kernel σ]

/-- The error of a fork that finds no free process id. -/
def eagain : Errno :=
  ⟨11⟩

/-- Starts a child under a process id that no child has. -/
def fork (plan : ChildPlan) (h : Host σ) : Except Errno Pid × Host σ :=
  match Kernel.fork plan h.world with
  | (.error e, world) => (.error e, { h with world })
  | (.ok pid, world) =>
    if h.children.any (·.pid = pid) then (.error eagain, { h with world })
    else
      (.ok pid, { h with
        world
        children := h.children ++ [⟨pid, plan.group.getD pid, false, none⟩]
        history := h.history ++ [.started pid (plan.group.getD pid)] })

/-- Sends a signal to a group.  `SIGCONT` continues every stopped child of it. -/
def signalGroup (group : Pid) (signal : Signal) (h : Host σ) : Except Errno Unit × Host σ :=
  match Kernel.signalGroup group signal h.world with
  | (.error e, world) => (.error e, { h with world })
  | (.ok (), world) =>
    if signal = .cont then
      (.ok (), { h with
        world
        children := h.children.map fun c => if c.group = group then c.undergo .continued else c
        history := h.history ++ [.resumed group] })
    else (.ok (), { h with world })

/-- Passes a call on that does not look at the children. -/
def ask {α : Type} (call : σ → α × σ) (h : Host σ) : α × Host σ :=
  ((call h.world).1, { h with world := (call h.world).2 })

instance : Kernel (Host σ) where
  openInput path := ask (Kernel.openInput path)
  openOutput file := ask (Kernel.openOutput file)
  openPipe := ask Kernel.openPipe
  close d h := { h with world := Kernel.close d h.world }
  fork := fork
  joinGroup pid group := ask (Kernel.joinGroup pid group)
  signalGroup := signalGroup
  awaitGroup group h := await group h.turns h
  collect := collect
  changeDirectory path := ask (Kernel.changeDirectory path)
  workingDirectory h := Kernel.workingDirectory h.world
  ownGroup h := Kernel.ownGroup h.world
  foundGroup := ask Kernel.foundGroup
  comeToForeground := ask Kernel.comeToForeground
  setForeground group := ask (Kernel.setForeground group)
  setDisposition signal disposition := ask (Kernel.setDisposition signal disposition)
  writeOutput text h := { h with world := Kernel.writeOutput text h.world }
  writeError text h := { h with world := Kernel.writeError text h.world }
  log e h := { h with world := Kernel.log e h.world }
  reportsLeft h := h.turns.length
  reportsLeft_awaitGroup group h := turns_await group h.turns h
  reportsLeft_collect := turns_collect

/-! ## What the calls do to the roll

One rule for each way a call can answer. -/

omit [Kernel σ] in
theorem roll_pass (h : Host σ) (t : Turn) (turns : List Turn) : (h.pass t turns).roll = h.roll := by
  simp only [roll, pass, map_place_undergo]

omit [Kernel σ] in
theorem mem_roll {pid : Pid} : (pid, group) ∈ h.roll.children ↔
    ∃ c ∈ h.children, c.pid = pid ∧ c.group = group := by
  simp only [roll, List.mem_map, Process.place, Prod.mk.injEq]

/-- The children that are left after a report, on the roll. -/
theorem map_place_afterReport (pid : Pid) (n : News) (children : List Process) :
    (children.filterMap (Process.afterReport pid n)).map Process.place =
      if n.status.isFinished then (children.map Process.place).filter (·.1 != pid)
      else children.map Process.place := by
  induction children with
  | nil => simp
  | cons c rest ih =>
    by_cases hpid : c.pid = pid
    · by_cases ends : n.status.isFinished = true
      · simp [Process.afterReport, Process.place, hpid, ends, ih]
      · simp [Process.afterReport, Process.place, hpid, ends, ih]
    · by_cases ends : n.status.isFinished = true
      · simp [Process.afterReport, Process.place, hpid, ends, ih]
      · simp [Process.afterReport, Process.place, hpid, ends, ih]

omit [Kernel σ] in
theorem roll_take (h : Host σ) (report : Pid × News) :
    (h.take report).2.roll = h.roll.report ⟨report.1, report.2.status⟩ := by
  simp only [roll, take, Roll.report, map_place_afterReport]

omit [Kernel σ] in
/-- **The rule for a wait that takes a report.** -/
theorem roll_await_ok {turns : List Turn} (answer : await group turns h = (.ok n, h')) :
    ∃ change, h.roll.Takes n group change h'.roll := by
  induction turns generalizing h with
  | nil => cases answer
  | cons t turns ih =>
    have same := h.roll_pass t turns
    simp only [await] at answer
    rw [← same]
    split at answer
    · cases answer
    · rename_i report found
      obtain ⟨c, hc, hgroup, hpid, -⟩ := Turn.mem_of_find found
      cases answer
      refine ⟨⟨report.1, report.2.status⟩, report.2.change?_report report.1, ?_, roll_take _ report⟩
      exact mem_roll.mpr ⟨c, hc, hpid, by simpa using hgroup⟩
    · exact ih answer

omit [Kernel σ] in
/-- **The rule for a wait that fails.**  That the group has no child is the reason only if it has
none. -/
theorem roll_await_error {turns : List Turn} (answer : await group turns h = (.error e, h')) :
    h'.roll = h.roll ∧ (e = .echild → ∀ pid, (pid, group) ∉ h.roll.children) := by
  induction turns generalizing h with
  | nil =>
    cases answer
    exact ⟨rfl, fun none => by cases none⟩
  | cons t turns ih =>
    have same := h.roll_pass t turns
    simp only [await] at answer
    rw [← same]
    split at answer
    · rename_i cause found
      cases answer
      refine ⟨rfl, ?_⟩
      rintro rfl pid present
      obtain ⟨c, hc, -, hgroup⟩ := mem_roll.mp present
      have absent := Turn.none_of_find found c hc
      simp [hgroup] at absent
    · cases answer
    · exact ih answer

omit [Kernel σ] in
theorem roll_collect_ok (answer : h.collect = (.ok n, h')) (some_report : n ≠ .stillAlive) :
    ∃ group change, h.roll.Takes n group change h'.roll := by
  cases h.collect_cases with
  | exhausted turns collect => cases collect.symm.trans answer
  | failed t turns next e found collect => cases collect.symm.trans answer
  | took t turns next report found collect =>
    obtain ⟨c, hc, -, hpid, -⟩ := Turn.mem_of_find found
    cases collect.symm.trans answer
    rw [← h.roll_pass t turns]
    refine ⟨c.group, ⟨report.1, report.2.status⟩, report.2.change?_report report.1, ?_,
      roll_take _ report⟩
    exact mem_roll.mpr ⟨c, hc, hpid, rfl⟩
  | idle t turns next found collect =>
    cases collect.symm.trans answer
    exact absurd rfl some_report

omit [Kernel σ] in
theorem roll_collect_none (answer : h.collect = (.ok .stillAlive, h')) : h'.roll = h.roll := by
  cases h.collect_cases with
  | exhausted turns collect => cases collect.symm.trans answer
  | failed t turns next e found collect => cases collect.symm.trans answer
  | took t turns next report found collect =>
    have taken := Except.ok.inj (congrArg Prod.fst (collect.symm.trans answer))
    exact absurd taken (report.2.report_ne_stillAlive report.1)
  | idle t turns next found collect =>
    cases collect.symm.trans answer
    exact h.roll_pass t turns

omit [Kernel σ] in
theorem roll_collect_error (answer : h.collect = (.error e, h')) : h'.roll = h.roll := by
  cases h.collect_cases with
  | exhausted turns collect =>
    cases collect.symm.trans answer
    rfl
  | failed t turns next e found collect =>
    cases collect.symm.trans answer
    exact h.roll_pass t turns
  | took t turns next report found collect => cases collect.symm.trans answer
  | idle t turns next found collect => cases collect.symm.trans answer

theorem roll_fork_ok {plan : ChildPlan} {pid : Pid} (answer : fork plan h = (.ok pid, h')) :
    (∀ g, (pid, g) ∉ h.roll.children) ∧ h'.roll = h.roll.start pid (plan.group.getD pid) := by
  unfold fork at answer
  split at answer
  · cases answer
  · split at answer
    · cases answer
    · rename_i unused
      cases answer
      refine ⟨?_, by simp [roll, Roll.start, Process.place]⟩
      intro g present
      obtain ⟨c, hc, hpid, -⟩ := mem_roll.mp present
      exact unused (List.any_eq_true.mpr ⟨c, hc, by simpa using hpid⟩)

/-- A child that is refused leaves all as it was but the system beside the children. -/
theorem fork_error {plan : ChildPlan} (answer : fork plan h = (.error e, h')) :
    ∃ world, h' = { h with world } := by
  unfold fork at answer
  split at answer
  · cases answer
    exact ⟨_, rfl⟩
  · split at answer
    · cases answer
      exact ⟨_, rfl⟩
    · cases answer

theorem roll_fork_error {plan : ChildPlan} (answer : fork plan h = (.error e, h')) :
    h'.roll = h.roll := by
  obtain ⟨world, rfl⟩ := fork_error answer
  rfl

theorem roll_signalGroup_ok (answer : signalGroup group .cont h = (.ok (), h')) :
    h'.roll = h.roll.resume group := by
  have continued : ∀ children : List Process,
      (children.map fun c =>
          if c.group = group then c.undergo .continued else c).map Process.place =
        children.map Process.place := by
    intro children
    rw [List.map_map]
    refine List.map_congr_left fun c _ => ?_
    simp only [Function.comp_apply]
    split
    · exact c.place_undergo .continued
    · rfl
  unfold signalGroup at answer
  split at answer
  · cases answer
  · cases answer
    simp only [roll, Roll.resume, continued]

/-- A signal that is refused leaves all as it was but the system beside the children. -/
theorem signalGroup_error {signal : Signal}
    (answer : signalGroup group signal h = (.error e, h')) : ∃ world, h' = { h with world } := by
  unfold signalGroup at answer
  split at answer
  · cases answer
    exact ⟨_, rfl⟩
  · split at answer <;> cases answer

theorem roll_signalGroup_error {signal : Signal}
    (answer : signalGroup group signal h = (.error e, h')) : h'.roll = h.roll := by
  obtain ⟨world, rfl⟩ := signalGroup_error answer
  rfl

/-- Opening, closing, writing and logging leave the roll. -/
theorem quiet_roll (P : Roll → Prop) : Quiet fun h : Host σ => P h.roll :=
  ⟨fun _ _ h => h, fun _ _ h => h, fun _ h => h, fun _ _ h => h, fun _ _ _ h => h, fun _ _ h => h,
    fun _ _ h => h⟩

/-- Handing the terminal over leaves the roll. -/
theorem terminalQuiet_roll (P : Roll → Prop) : TerminalQuiet fun h : Host σ => P h.roll :=
  ⟨fun _ _ _ h => h, fun _ _ h => h, fun _ _ h => h⟩

/-! ## The loops -/

/-- While the shell waits for a group, the roll changes by the reports on its children. -/
theorem waitInvariant_roll {J : Watch → Roll → Prop}
    (report : ∀ w r n change r', J w r → r.Takes n group change r' → J (w.record change) r') :
    WaitInvariant group fun w (h : Host σ) => J w h.roll where
  report := by
    intro w h n h' _ kept answer
    obtain ⟨change, takes⟩ := roll_await_ok answer
    have observed : w.observe n = w.record change := by
      simp only [Watch.observe, takes.implied]
    rw [observed]
    exact report w h.roll n change h'.roll kept takes
  failed := by
    intro w h e h' _ kept answer
    rw [(roll_await_error answer).1]
    exact kept

/-- Waiting notes nothing but reports. -/
theorem waitInvariant_reported (history : List Happening) :
    WaitInvariant group fun _ (h : Host σ) => h.roll.ReportedSince history := by
  refine waitInvariant_roll (J := fun _ r => r.ReportedSince history) ?_
  intro w r n change r' kept takes
  rw [takes.after]
  exact kept.report change

/-- What a launch has done to the roll once it was given some processes: they are new children of
the first one's group. -/
def Launching (r : Roll) (pids : List Pid) (h : Host σ) : Prop :=
  h.roll = r.startAll pids (pids.headD 0) ∧ pids.Nodup ∧ ∀ p ∈ pids, ∀ g, (p, g) ∉ r.children

omit [Kernel σ] in
theorem launching_nil (h : Host σ) : Launching h.roll [] h :=
  ⟨rfl, .nil, by simp⟩

/-- A launch starts its processes as new children of one group. -/
theorem launchInvariant_roll (r : Roll) (takesTerminal : Bool) :
    LaunchInvariant none takesTerminal fun pids (h : Host σ) => Launching r pids h where
  quiet := fun pids =>
    quiet_roll fun r' =>
      r' = r.startAll pids (pids.headD 0) ∧ pids.Nodup ∧ ∀ p ∈ pids, ∀ g, (p, g) ∉ r.children
  started := by
    rintro pids plan h pid h' hgroup - ⟨roll, distinct, unused⟩ answer
    obtain ⟨absent, after⟩ := roll_fork_ok answer
    have new : pid ∉ pids := by
      intro hpid
      refine absent (pids.headD 0) ?_
      rw [roll]
      exact Roll.mem_startAll.mpr (Or.inr ⟨hpid, rfl⟩)
    refine ⟨?_, ?_, ?_⟩
    · rw [after, roll, hgroup]
      cases pids with
      | nil => rfl
      | cons first others => exact (r.startAll_append (first :: others) pid first).symm
    · exact List.nodup_append.mpr ⟨distinct, by simp, by
        intro p hp q hq
        obtain rfl := List.mem_singleton.mp hq
        rintro rfl
        exact new hp⟩
    · intro p hp g present
      rcases List.mem_append.mp hp with hp | hp
      · exact unused p hp g present
      · obtain rfl := List.mem_singleton.mp hp
        refine absent g ?_
        rw [roll]
        exact Roll.mem_startAll.mpr (Or.inl present)
  refused := by
    rintro pids plan h e h' ⟨roll, distinct, unused⟩ answer
    exact ⟨(roll_fork_error answer).trans roll, distinct, unused⟩

/-! ## The turns

Only a call that asks for a report lets turns pass. -/

theorem turns_fork (plan : ChildPlan) (h : Host σ) : (fork plan h).2.turns = h.turns := by
  unfold fork
  split
  · rfl
  · split <;> rfl

theorem turns_signalGroup (group : Pid) (signal : Signal) (h : Host σ) :
    (signalGroup group signal h).2.turns = h.turns := by
  unfold signalGroup
  split
  · rfl
  · split <;> rfl

/-- A launch lets no turn pass. -/
theorem launchInvariant_turns (turns : List Turn) (group : Option Pid) (takesTerminal : Bool) :
    LaunchInvariant group takesTerminal fun _ (h : Host σ) => h.turns = turns where
  quiet := fun _ => ⟨fun _ _ h => h, fun _ _ h => h, fun _ h => h, fun _ _ h => h,
    fun _ _ _ h => h, fun _ _ h => h, fun _ _ h => h⟩
  started := by
    intro pids plan h pid h' _ _ kept answer
    have same : (Kernel.fork plan h).2.turns = h.turns := turns_fork plan h
    rw [answer] at same
    exact same.trans kept
  refused := by
    intro pids plan h e h' kept answer
    have same : (Kernel.fork plan h).2.turns = h.turns := turns_fork plan h
    rw [answer] at same
    exact same.trans kept

end Host

end JobControl
