import JobControl.Proofs.Loops

/-!
# A terminal and who holds it

`Tty κ` is any system `κ` with the shell's terminal beside it: its foreground group, and what decides
who may change that.  A child that was started with the terminal takes it for its group before its
program starts, and the program may hand it on.  When it does so is up to a script: children may move
the terminal between any two calls of the shell, any number of times and to any group.

A child that was started with the terminal has its turn until it is reported to have ended or
stopped.  A move that it makes after that is noted as late (`Tty.late`).  When a wait fails, the shell
waits no longer for the children that have their turn.  They are adrift then, and their moves are
noted as stray (`Tty.stray`) until the shell takes the terminal again: it cannot know that one is still
to come.

The shell itself is refused the terminal while it is in the background, unless it ignores `SIGTTOU`.
Otherwise its own group can always be put in the foreground, and about other groups the system `κ`
decides.

`Stable` is what a property needs in order to be kept by everything that happens beside the call that
is made, and `Idle` what it needs in order to be kept by the reports that are taken while no child has
its turn.  `Regained` says that the terminal is where it should be between two operations, and `Spared`
that it was only moved by children that did not have their turn.
-/

set_option autoImplicit false

namespace JobControl

/-- A report ends the turn of a child: it says that the child has ended or stopped. -/
def Notification.endsTurn (n : Notification) (pid : Pid) : Bool :=
  n.change?.any fun change =>
    change.pid == pid && (change.status.isFinished || change.status == .suspended)

namespace Dispositions

theorem of_set (d : Dispositions) (signal : Signal) (value : Disposition) :
    (d.set signal value).of signal = value :=
  if_pos rfl

/-- Setting a disposition and setting it back leaves them all. -/
theorem set_back (d : Dispositions) (signal : Signal) (value : Disposition) :
    (d.set signal value).set signal (d.of signal) = d := by
  refine congrArg Dispositions.mk (funext fun other => ?_)
  by_cases same : other = signal
  · rw [if_pos same, same]
  · rw [if_neg same]
    exact if_neg same

end Dispositions

/-- A system with the shell's terminal. -/
structure Tty (κ : Type) where
  system : κ
  /-- The shell's process id and its group. -/
  shell : Pid
  own : Pid
  dispositions : Dispositions
  foreground : Pid
  /-- The groups that were put in the foreground, in order. -/
  moves : List Pid
  /-- The children that have their turn, those that the shell gave up waiting for in their turn, and
  those that had it. -/
  front : List Pid
  adrift : List Pid
  past : List Pid
  /-- Which child put which group in the foreground: a child adrift, since the shell last took the
  terminal for itself, and a child that had its turn. -/
  stray : List (Pid × Pid)
  late : List (Pid × Pid)
  /-- The moves that children are going to make before each call. -/
  script : List (List (Pid × Pid))

namespace Tty

variable {κ α : Type}

/-- Puts a group in the foreground. -/
def place (group : Pid) (c : Tty κ) : Tty κ :=
  { c with foreground := group, moves := c.moves ++ [group] }

/-- A child puts a group in the foreground.  Only children that were started with the terminal do. -/
def move (c : Tty κ) (m : Pid × Pid) : Tty κ :=
  if m.1 ∈ c.front then c.place m.2
  else if m.1 ∈ c.adrift then { c.place m.2 with stray := c.stray ++ [m] }
  else if m.1 ∈ c.past then { c.place m.2 with late := c.late ++ [m] }
  else c

/-- The shell puts a group in the foreground.  With its own there, nobody is astray. -/
def take (group : Pid) (c : Tty κ) : Tty κ :=
  { c.place group with stray := if group = c.own then [] else c.stray }

/-- Children put groups in the foreground, one after the other. -/
def moveAll (c : Tty κ) (moves : List (Pid × Pid)) : Tty κ :=
  moves.foldl move c

/-- What the children do before a call. -/
def act (c : Tty κ) : Tty κ :=
  match c.script with
  | [] => c
  | now :: later => { c.moveAll now with script := later }

/-- Passes a call on. -/
def pass (call : κ → α × κ) (c : Tty κ) : α × Tty κ :=
  ((call c.system).1, { c.act with system := (call c.system).2 })

/-- The turn of some children ends. -/
def dismiss (gone : Pid → Bool) (c : Tty κ) : Tty κ :=
  { c with
    front := c.front.filter (!gone ·)
    adrift := c.adrift.filter (!gone ·)
    past := c.past ++ (c.front ++ c.adrift).filter gone }

/-- The shell gives up waiting for the children that have their turn. -/
def forsake (c : Tty κ) : Tty κ :=
  { c with front := [], adrift := c.adrift ++ c.front }

/-- What an answer to a wait means for the children. -/
def learn (answer : WaitResult) (c : Tty κ) : Tty κ :=
  match answer with
  | .ok n => c.dismiss n.endsTurn
  | .error e => if e = .eintr then c else c.forsake

/-- Where no child has its turn, there is none to give up. -/
theorem forsake_eq_self {c : Tty κ} (front : c.front = []) : c.forsake = c := by
  obtain ⟨system, shell, own, dispositions, foreground, moves, _, adrift, past, stray, late, script⟩ := c
  cases front
  simp only [forsake, List.append_nil]

variable [Kernel κ]

/-- Starts a child.  It has its turn if it is to take the terminal. -/
def fork (plan : ChildPlan) (c : Tty κ) : Except Errno Pid × Tty κ :=
  match pass (Kernel.fork plan) c with
  | (.ok pid, c) => (.ok pid, if plan.takesTerminal then { c with front := c.front ++ [pid] } else c)
  | (.error e, c) => (.error e, c)

/-- Takes a report. -/
def hear (call : κ → WaitResult × κ) (c : Tty κ) : WaitResult × Tty κ :=
  ((pass call c).1, (pass call c).2.learn (pass call c).1)

omit [Kernel κ] in
theorem system_hear (call : κ → WaitResult × κ) (c : Tty κ) :
    (hear call c).2.system = (call c.system).2 := by
  unfold hear learn
  split
  · rfl
  · split <;> rfl

/-- Puts a group in the foreground for the shell. -/
def setForeground (group : Pid) (c : Tty κ) : Except Errno Unit × Tty κ :=
  if c.dispositions.of .ttou = .ignore ∨ c.act.foreground = c.own then
    match pass (Kernel.setForeground group) c with
    | (.ok (), c) => (.ok (), c.take group)
    | (.error e, c) => if group = c.own then (.ok (), c.take group) else (.error e, c)
  else (.error .eintr, c.act)

/-- Moves the shell into a group of its own. -/
def foundGroup (c : Tty κ) : Except Errno Unit × Tty κ :=
  match pass Kernel.foundGroup c with
  | (.ok (), c) => (.ok (), { c with own := c.shell })
  | (.error e, c) => (.error e, c)

/-- Stops the shell until its group is the foreground group. -/
def comeToForeground (c : Tty κ) : Except Errno Unit × Tty κ :=
  match pass Kernel.comeToForeground c with
  | (.ok (), c) => (.ok (), { c with foreground := c.own })
  | (.error e, c) => (.error e, c)

instance : Kernel (Tty κ) where
  openInput path := pass (Kernel.openInput path)
  openOutput file := pass (Kernel.openOutput file)
  openPipe := pass Kernel.openPipe
  close d c := { c.act with system := Kernel.close d c.system }
  fork := fork
  joinGroup pid group := pass (Kernel.joinGroup pid group)
  signalGroup group signal := pass (Kernel.signalGroup group signal)
  awaitGroup group := hear (Kernel.awaitGroup group)
  collect := hear Kernel.collect
  changeDirectory path := pass (Kernel.changeDirectory path)
  workingDirectory c := Kernel.workingDirectory c.system
  ownGroup c := c.own
  foundGroup := foundGroup
  comeToForeground := comeToForeground
  setForeground := setForeground
  setDisposition signal value c :=
    (c.dispositions.of signal, { c.act with dispositions := c.dispositions.set signal value })
  writeOutput text c := { c.act with system := Kernel.writeOutput text c.system }
  writeError text c := { c.act with system := Kernel.writeError text c.system }
  log e c := { c.act with system := Kernel.log e c.system }
  reportsLeft c := Kernel.reportsLeft c.system
  reportsLeft_awaitGroup group c := by
    rw [system_hear]
    exact Kernel.reportsLeft_awaitGroup group c.system
  reportsLeft_collect c := by
    rw [system_hear]
    exact Kernel.reportsLeft_collect c.system

/-! ## What happens beside a call -/

/-- A property that the moves of children keep, and changes of the system below. -/
structure Stable (P : Tty κ → Prop) : Prop where
  move : ∀ c m, P c → P (c.move m)
  below : ∀ c system script, P c → P { c with system, script }

/-- A stable property of a terminal at which no child has its turn, kept by any report. -/
structure Idle (P : Tty κ → Prop) : Prop extends Stable P where
  front : ∀ c, P c → c.front = []
  dismiss : ∀ c gone, P c → P (c.dismiss gone)

omit [Kernel κ] in
/-- Who the shell is, what it does with signals and whose turn it is do not depend on the terminal. -/
theorem stable_standing (Q : Pid → Dispositions → List Pid → Prop) :
    Stable fun c : Tty κ => Q c.own c.dispositions c.front where
  move := by
    intro c m h
    unfold move
    split_ifs <;> exact h
  below := fun _ _ _ h => h

namespace Stable

variable {P : Tty κ → Prop} {c c' : Tty κ}

omit [Kernel κ] in
theorem and {Q : Tty κ → Prop} (stable : Stable P) (other : Stable Q) :
    Stable fun c => P c ∧ Q c where
  move := fun c m h => ⟨stable.move c m h.1, other.move c m h.2⟩
  below := fun c system script h =>
    ⟨stable.below c system script h.1, other.below c system script h.2⟩

omit [Kernel κ] in
theorem imp (stable : Stable P) (p : Prop) : Stable fun c => p → P c where
  move := fun c m h hp => stable.move c m (h hp)
  below := fun c system script h hp => stable.below c system script (h hp)

omit [Kernel κ] in
theorem moveAll (stable : Stable P) (moves : List (Pid × Pid)) (h : P c) : P (c.moveAll moves) := by
  induction moves generalizing c with
  | nil => exact h
  | cons m rest ih => exact ih (stable.move c m h)

omit [Kernel κ] in
theorem act (stable : Stable P) (h : P c) : P c.act := by
  unfold Tty.act
  split
  · exact h
  · rename_i now later _
    exact stable.below (c.moveAll now) _ later (stable.moveAll now h)

omit [Kernel κ] in
theorem pass (stable : Stable P) (call : κ → α × κ) (h : P c) : P (pass call c).2 :=
  stable.below c.act _ _ (stable.act h)

omit [Kernel κ] in
theorem passed (stable : Stable P) {call : κ → α × κ} {a : α} (h : P c)
    (answer : Tty.pass call c = (a, c')) : P c' := by
  cases answer
  exact stable.pass call h

omit [Kernel κ] in
/-- An answer to a wait says whose turn is over. -/
theorem hear (stable : Stable P) {call : κ → WaitResult × κ} {result : WaitResult} (h : P c)
    (answer : Tty.hear call c = (result, c')) : ∃ d, P d ∧ c' = d.learn result := by
  cases answer
  exact ⟨_, stable.pass call h, rfl⟩

theorem quiet (stable : Stable P) : Quiet P where
  openInput := fun _ _ h => stable.pass _ h
  openOutput := fun _ _ h => stable.pass _ h
  openPipe := fun _ h => stable.pass _ h
  close := fun _ c h => stable.below c.act _ _ (stable.act h)
  joinGroup := fun _ _ _ h => stable.pass _ h
  writeError := fun _ c h => stable.below c.act _ _ (stable.act h)
  log := fun _ c h => stable.below c.act _ _ (stable.act h)

/-- A child that is refused leaves what is stable. -/
theorem fork_error (stable : Stable P) {plan : ChildPlan} {e : Errno} (h : P c)
    (answer : Kernel.fork plan c = (.error e, c')) : P c' := by
  have kept := stable.pass (Kernel.fork plan) h
  simp only [Kernel.fork, fork] at answer
  split at answer <;> rename_i passed <;> cases answer
  rwa [passed] at kept

/-- A child that is started has its turn if it is to take the terminal. -/
theorem fork_ok (stable : Stable P) {plan : ChildPlan} {pid : Pid} (h : P c)
    (answer : Kernel.fork plan c = (.ok pid, c')) :
    ∃ d, P d ∧ c' = if plan.takesTerminal then { d with front := d.front ++ [pid] } else d := by
  have kept := stable.pass (Kernel.fork plan) h
  simp only [Kernel.fork, fork] at answer
  split at answer <;> rename_i passed <;> cases answer
  rw [passed] at kept
  exact ⟨_, kept, rfl⟩

/-- The shell puts a group in the foreground or is refused it.  It is not refused its own while it
ignores `SIGTTOU`. -/
theorem setForeground (stable : Stable P) (group : Pid) (h : P c) :
    ∃ d, P d ∧ d.own = c.own ∧ d.dispositions = c.dispositions ∧
      (Kernel.setForeground group c = (.ok (), d.take group) ∨
        (¬ (group = c.own ∧ c.dispositions.of .ttou = .ignore) ∧
          ∃ e, Kernel.setForeground group c = (.error e, d))) := by
  have same : Stable fun d : Tty κ => d.own = c.own ∧ d.dispositions = c.dispositions :=
    stable_standing fun own dispositions _ => own = c.own ∧ dispositions = c.dispositions
  obtain ⟨held, own, signals⟩ := (stable.and same).act ⟨h, rfl, rfl⟩
  obtain ⟨held', own', signals'⟩ :=
    (stable.and same).pass (Kernel.setForeground group) ⟨h, rfl, rfl⟩
  simp only [Kernel.setForeground, Tty.setForeground]
  split
  case isFalse barred =>
    exact ⟨c.act, held, own, signals, Or.inr ⟨fun free => barred (Or.inl free.2), .eintr, rfl⟩⟩
  case isTrue =>
    rcases passed : Tty.pass (Kernel.setForeground group) c with ⟨e | ⟨⟩, d⟩
    · rw [passed] at held' own' signals'
      refine ⟨d, held', own', signals', ?_⟩
      by_cases isOwn : group = d.own
      · exact Or.inl (if_pos isOwn)
      · exact Or.inr ⟨fun free => isOwn (free.1.trans own'.symm), e, if_neg isOwn⟩
    · rw [passed] at held' own' signals'
      exact ⟨d, held', own', signals', Or.inl rfl⟩

end Stable

/-! ## Handing the terminal over -/

/-- A stable property that does not depend on what the shell does with signals. -/
structure Steadfast (P : Tty κ → Prop) : Prop extends Stable P where
  signals : ∀ c dispositions, P c → P { c with dispositions }

omit [Kernel κ] in
theorem steadfast_standing (Q : Pid → List Pid → Prop) :
    Steadfast fun c : Tty κ => Q c.own c.front where
  toStable := stable_standing fun own _ front => Q own front
  signals := fun _ _ h => h

omit [Kernel κ] in
theorem Steadfast.and {P Q : Tty κ → Prop} (steadfast : Steadfast P) (other : Steadfast Q) :
    Steadfast fun c => P c ∧ Q c where
  toStable := steadfast.toStable.and other.toStable
  signals := fun c d h => ⟨steadfast.signals c d h.1, other.signals c d h.2⟩

variable {P R : Tty κ → Prop} {c : Tty κ}

/-- **The rule for handing the terminal over.**  It may be refused, unless it is the shell that gets
it, and leaves the dispositions in either case. -/
theorem handOver_rule (group : Pid) (before : Steadfast P) (after : Steadfast R)
    (taken : ∀ d, P d → R (d.take group)) (refused : group ≠ c.own → ∀ d, P d → R d) (h : P c) :
    R (Terminal.handOver group c).2 ∧
      (Terminal.handOver group c).2.dispositions = c.dispositions := by
  let guarded : Tty κ :=
    { c.act with dispositions := c.dispositions.set .ttou .ignore }
  have own : guarded.own = c.own :=
    (stable_standing fun own _ _ => own = c.own).act (c := c) rfl
  have ignored : guarded.dispositions.of .ttou = .ignore := c.dispositions.of_set .ttou .ignore
  have ready : P guarded := before.signals c.act _ (before.act h)
  obtain ⟨d, held, -, signals, answer⟩ := before.setForeground group ready
  have back : d.dispositions.set .ttou (c.dispositions.of .ttou) = c.dispositions := by
    rw [signals]
    exact c.dispositions.set_back .ttou .ignore
  have given : ∃ d', R d' ∧ d'.dispositions = d.dispositions ∧
      (Kernel.setForeground group guarded).2 = d' := by
    rcases answer with granted | ⟨barred, e, denied⟩
    · exact ⟨d.take group, taken d held, rfl, congrArg Prod.snd granted⟩
    · refine ⟨d, refused (fun isOwn => barred ⟨isOwn.trans own.symm, ignored⟩) d held, rfl, ?_⟩
      exact congrArg Prod.snd denied
  obtain ⟨d', reached, same, eq⟩ := given
  have result : (Terminal.handOver group c).2 =
      { d'.act with dispositions := d'.dispositions.set .ttou (c.dispositions.of .ttou) } := by
    rw [← eq]
    rfl
  rw [result]
  exact ⟨after.signals _ _ (after.act reached), by rw [same]; exact back⟩

/-- **The rule for giving the terminal to a group** with job control. -/
theorem giveTo_rule (group : Pid) (before : Steadfast P) (after : Steadfast R)
    (taken : ∀ d, P d → R (d.take group)) (refused : group ≠ c.own → ∀ d, P d → R d) (h : P c)
    {t : Terminal} (enabled : t.enabled = true) :
    R (t.giveTo group c) ∧ (t.giveTo group c).dispositions = c.dispositions := by
  obtain ⟨reached, same⟩ := handOver_rule group before after taken refused h
  have logged : Stable fun d => R d ∧ d.dispositions = c.dispositions :=
    after.toStable.and (stable_standing fun _ dispositions _ => dispositions = c.dispositions)
  unfold Terminal.giveTo
  rw [if_pos enabled]
  split <;> rename_i answer <;> rw [answer] at reached same
  · exact logged.quiet.log _ _ ⟨reached, same⟩
  · exact logged.quiet.log _ _ ⟨reached, same⟩

/-! ## Between two operations -/

/-- No child has its turn, and the shell has its terminal unless a child took it that was late or
astray. -/
structure Regained (c : Tty κ) : Prop where
  front : c.front = []
  foreground : c.foreground = c.own ∨ ∃ m ∈ c.late ++ c.stray, m.2 = c.foreground

/-- From one state to another the terminal was moved by children that did not have their turn, and by
nobody else. -/
structure Spared (c c' : Tty κ) : Prop where
  own : c'.own = c.own
  signals : c'.dispositions = c.dispositions
  front : c'.front = []
  others : ∀ p ∈ c'.past ++ c'.adrift, p ∈ c.past ++ c.adrift
  moved : ∃ new, (∀ m ∈ new, m.1 ∈ c.past ++ c.adrift) ∧
    (c'.late ++ c'.stray).Perm (c.late ++ c.stray ++ new) ∧
    c'.moves = c.moves ++ new.map Prod.snd ∧
    c'.foreground = (new.getLast?.map Prod.snd).getD c.foreground

omit [Kernel κ] in
/-- Where no child has its turn, a report brings nobody among those that had it or are adrift. -/
theorem mem_dismiss {c : Tty κ} (front : c.front = []) (gone : Pid → Bool) {p : Pid}
    (hp : p ∈ (c.dismiss gone).past ++ (c.dismiss gone).adrift) : p ∈ c.past ++ c.adrift := by
  simp only [dismiss, front, List.nil_append, List.mem_append, List.mem_filter] at hp ⊢
  rcases hp with (past | ⟨adrift, -⟩) | ⟨adrift, -⟩
  · exact Or.inl past
  · exact Or.inr adrift
  · exact Or.inr adrift

omit [Kernel κ] in
theorem steadfast_regained : Steadfast (Regained : Tty κ → Prop) where
  move := by
    intro c m h
    unfold move
    rw [if_neg (by simp [h.front])]
    split_ifs
    · exact ⟨h.front, Or.inr ⟨m, by simp, rfl⟩⟩
    · exact ⟨h.front, Or.inr ⟨m, by simp, rfl⟩⟩
    · exact h
  below := fun _ _ _ h => ⟨h.1, h.2⟩
  signals := fun _ _ h => ⟨h.1, h.2⟩

omit [Kernel κ] in
theorem Regained.dismiss {c : Tty κ} (h : c.Regained) (gone : Pid → Bool) :
    (c.dismiss gone).Regained :=
  ⟨by simp only [Tty.dismiss, h.front, List.filter_nil], h.foreground⟩

namespace Spared

variable {c c' : Tty κ}

omit [Kernel κ] in
theorem refl (front : c.front = []) : c.Spared c :=
  ⟨rfl, rfl, front, fun _ hp => hp, [], by simp⟩

omit [Kernel κ] in
/-- A child without its turn moves the terminal once more, and the move is noted. -/
theorem moved_again {d d' : Tty κ} (spared : c.Spared d) {m : Pid × Pid}
    (noted : (d'.late ++ d'.stray).Perm (d.late ++ d.stray ++ [m]))
    (out : m.1 ∈ d.past ++ d.adrift) (moves : d'.moves = d.moves ++ [m.2])
    (foreground : d'.foreground = m.2) :
    ∃ new, (∀ m ∈ new, m.1 ∈ c.past ++ c.adrift) ∧
      (d'.late ++ d'.stray).Perm (c.late ++ c.stray ++ new) ∧
      d'.moves = c.moves ++ new.map Prod.snd ∧
      d'.foreground = (new.getLast?.map Prod.snd).getD c.foreground := by
  obtain ⟨new, outside, before, moved, -⟩ := spared.moved
  refine ⟨new ++ [m], ?_, ?_, by simp [moves, moved], by simp [foreground]⟩
  · exact List.forall_mem_append.mpr
      ⟨outside, List.forall_mem_singleton.mpr (spared.others m.1 out)⟩
  · rw [← List.append_assoc]
    exact noted.trans (before.append_right [m])

omit [Kernel κ] in
theorem idle (c : Tty κ) : Idle c.Spared where
  move := by
    intro d m spared
    unfold move
    rw [if_neg (by simp [spared.front])]
    split_ifs with adrift past
    · refine ⟨spared.own, spared.signals, spared.front, spared.others, ?_⟩
      have noted : (d.late ++ (d.stray ++ [m])).Perm (d.late ++ d.stray ++ [m]) := by
        rw [List.append_assoc]
      exact spared.moved_again noted (List.mem_append_right _ adrift) rfl rfl
    · refine ⟨spared.own, spared.signals, spared.front, spared.others, ?_⟩
      have noted : (d.late ++ [m] ++ d.stray).Perm (d.late ++ d.stray ++ [m]) := by
        simpa only [List.append_assoc] using List.perm_append_comm.append_left d.late
      exact spared.moved_again noted (List.mem_append_left _ past) rfl rfl
    · exact spared
  below := fun _ _ _ h => ⟨h.1, h.2, h.3, h.4, h.5⟩
  front := fun _ spared => spared.front
  dismiss := fun d gone spared =>
    ⟨spared.own, spared.signals, by simp only [Tty.dismiss, spared.front, List.filter_nil],
      fun p hp => spared.others p (mem_dismiss spared.front gone hp), spared.moved⟩

omit [Kernel κ] in
/-- If no child moved the terminal, it was not moved. -/
theorem still (spared : c.Spared c') (punctual : c'.late = c.late) (moored : c'.stray = c.stray) :
    c'.moves = c.moves ∧ c'.foreground = c.foreground := by
  obtain ⟨new, -, noted, moves, foreground⟩ := spared.moved
  obtain rfl : new = [] := by simpa [punctual, moored] using noted.length_eq
  exact ⟨by simpa using moves, foreground⟩

omit [Kernel κ] in
/-- If no child was ever started with the terminal, it was not moved. -/
theorem still_of_unused (spared : c.Spared c') (past : c.past = []) (adrift : c.adrift = []) :
    c'.moves = c.moves ∧ c'.foreground = c.foreground := by
  obtain ⟨new, outside, -, moves, foreground⟩ := spared.moved
  obtain rfl : new = [] := by
    refine List.eq_nil_iff_forall_not_mem.mpr fun m hm => ?_
    have out := outside m hm
    simp [past, adrift] at out
  exact ⟨by simpa using moves, foreground⟩

end Spared

end Tty

end JobControl
