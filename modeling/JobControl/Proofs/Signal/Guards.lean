import JobControl.Proofs.Kernel.Tty

/-!
# Nested guards

A guard ignores `SIGTTOU` from its creation until it is dropped, and then puts back what it found.
Several guards may be alive at a time.  `GuardAct` lists what a process does with its guards and
with its dispositions in between, `Guarded` is the process with the guards that are alive.

Guards are well nested if the last one created is the first one dropped (`GuardAct.WellNested`).
Then each guard remembers what the older ones left (`Guarded.Stacked`): `SIGTTOU` is ignored as long
as one of them is alive, and when none is it is as it was before the first one.  Each act keeps that
(`Guarded.Stacked.act`), so it holds at every moment (`nested_guards_hold`).  A guard that is dropped
before a younger one puts back too much, and the younger one too little.

The shell creates its guards around a handover of the terminal (`Tty.handOver_guarded`).
-/

set_option autoImplicit false

namespace JobControl

/-- What a process does with its guards, and with its dispositions. -/
inductive GuardAct
  | create
  /-- Drops the guard that is outlived by this many younger ones. -/
  | drop (younger : Nat)
  | set (signal : Signal) (value : Disposition)
deriving DecidableEq, Repr

namespace GuardAct

/-- The act has nothing to do with guards. -/
def isSet : GuardAct → Bool
  | set .. => true
  | _ => false

/-- With some number of guards alive, the acts drop the youngest guard if they drop one, and leave
the signal of the guards to the guards. -/
inductive WellNested : Nat → List GuardAct → Prop
  | done (alive : Nat) : WellNested alive []
  | create {alive : Nat} {rest : List GuardAct} (later : WellNested (alive + 1) rest) :
      WellNested alive (create :: rest)
  | drop {alive : Nat} {rest : List GuardAct} (later : WellNested alive rest) :
      WellNested (alive + 1) (drop 0 :: rest)
  | set {alive : Nat} {rest : List GuardAct} {signal : Signal} (value : Disposition)
      (other : signal ≠ .ttou) (later : WellNested alive rest) :
      WellNested alive (set signal value :: rest)

/-- Acts that are well nested are so up to any moment. -/
theorem WellNested.take {alive : Nat} {acts : List GuardAct} (h : WellNested alive acts) (i : Nat) :
    WellNested alive (acts.take i) := by
  induction h generalizing i with
  | done alive =>
    rw [List.take_nil]
    exact .done alive
  | create _ ih =>
    cases i with
    | zero => exact .done _
    | succ i => exact .create (ih i)
  | drop _ ih =>
    cases i with
    | zero => exact .done _
    | succ i => exact .drop (ih i)
  | set value other _ ih =>
    cases i with
    | zero => exact .done _
    | succ i => exact .set value other (ih i)

end GuardAct

/-- A process with its guards that are alive, the last created first. -/
structure Guarded where
  dispositions : Dispositions
  alive : List TtouGuard

namespace Guarded

/-- A process without guards. -/
def unguarded (dispositions : Dispositions) : Guarded :=
  ⟨dispositions, []⟩

/-- Carries out one act. -/
def act (p : Guarded) : GuardAct → Guarded
  | .create =>
    ⟨(TtouGuard.acquire p.dispositions).2, (TtouGuard.acquire p.dispositions).1 :: p.alive⟩
  | .drop younger =>
    match p.alive[younger]? with
    | some guard => ⟨guard.release p.dispositions, p.alive.eraseIdx younger⟩
    | none => p
  | .set signal value => { p with dispositions := p.dispositions.set signal value }

/-- Carries out several acts, one after the other. -/
def actAll (p : Guarded) (acts : List GuardAct) : Guarded :=
  acts.foldl act p

variable {p : Guarded} {initial : Disposition} {signal : Signal}

/-! ## The signal of the guards -/

/-- The signal stands as the guards leave it, the last created first: without guards as it was
initially, otherwise ignored, and the youngest guard remembers how the older ones left it. -/
def Stacked (initial : Disposition) : List TtouGuard → Disposition → Prop
  | [], current => current = initial
  | guard :: older, current => current = .ignore ∧ Stacked initial older guard.previous

/-- The first act of well-nested ones keeps the guards stacked, and the others are well nested
after it. -/
theorem Stacked.act {first : GuardAct} {rest : List GuardAct}
    (stacked : Stacked initial p.alive (p.dispositions.of .ttou))
    (nested : GuardAct.WellNested p.alive.length (first :: rest)) :
    Stacked initial (p.act first).alive ((p.act first).dispositions.of .ttou) ∧
      GuardAct.WellNested (p.act first).alive.length rest := by
  obtain ⟨dispositions, alive⟩ := p
  generalize count : alive.length = n at nested
  cases nested with
  | create later =>
    subst count
    exact ⟨⟨dispositions.of_set .ttou .ignore, stacked⟩, later⟩
  | set value other later =>
    subst count
    refine ⟨?_, later⟩
    have untouched : (dispositions.set _ value).of .ttou = dispositions.of .ttou := if_neg other.symm
    simp only [Guarded.act, untouched]
    exact stacked
  | drop later =>
    obtain ⟨guard, older, rfl⟩ := List.exists_cons_of_length_eq_add_one count
    obtain rfl := Nat.succ.inj count
    -- the guard puts back what it found, and that is how the older ones left the signal
    have back : (guard.release dispositions).of .ttou = guard.previous :=
      dispositions.of_set .ttou guard.previous
    refine ⟨?_, later⟩
    simp only [Guarded.act, List.getElem?_cons_zero, List.eraseIdx_cons_zero, back]
    exact stacked.2

/-- Well-nested acts keep the guards stacked. -/
theorem Stacked.actAll {acts : List GuardAct}
    (stacked : Stacked initial p.alive (p.dispositions.of .ttou))
    (nested : GuardAct.WellNested p.alive.length acts) :
    Stacked initial (p.actAll acts).alive ((p.actAll acts).dispositions.of .ttou) := by
  induction acts generalizing p with
  | nil => exact stacked
  | cons first rest ih =>
    obtain ⟨stacked, nested⟩ := stacked.act nested
    exact ih stacked nested

/-- In well-nested acts every drop drops one of the guards that were created. -/
theorem length_alive_actAll {n : Nat} {acts : List GuardAct} (nested : GuardAct.WellNested n acts)
    (count : p.alive.length = n) :
    (p.actAll acts).alive.length + acts.count (.drop 0) = n + acts.count .create := by
  induction nested generalizing p with
  | done n => exact count
  | @create n rest later ih =>
    have more : (p.act .create).alive.length = n + 1 := congrArg Nat.succ count
    have counted : ((p.act .create).actAll rest).alive.length + rest.count (.drop 0) =
        n + 1 + rest.count .create := ih more
    rw [List.count_cons_of_ne (by simp), List.count_cons_self, actAll, List.foldl_cons, ← actAll]
    omega
  | @drop n rest later ih =>
    obtain ⟨guard, older, alive⟩ := List.exists_cons_of_length_eq_add_one count
    have fewer : (p.act (.drop 0)).alive.length = n := by
      rw [alive] at count
      simp only [Guarded.act, alive, List.getElem?_cons_zero, List.eraseIdx_cons_zero]
      exact Nat.succ.inj count
    have counted : ((p.act (.drop 0)).actAll rest).alive.length + rest.count (.drop 0) =
        n + rest.count .create := ih fewer
    rw [List.count_cons_self, List.count_cons_of_ne (by simp), actAll, List.foldl_cons, ← actAll]
    omega
  | set value other later ih =>
    rw [List.count_cons_of_ne (by simp), List.count_cons_of_ne (by simp)]
    exact ih count

/-! ## Other signals -/

/-- Creating and dropping guards, in whatever order, touches no other signal. -/
theorem of_act_of_not_isSet {act : GuardAct} (guards : act.isSet = false) (other : signal ≠ .ttou) :
    (p.act act).dispositions.of signal = p.dispositions.of signal := by
  cases act with
  | create => exact if_neg other
  | drop younger =>
    simp only [Guarded.act]
    split
    · exact if_neg other
    · rfl
  | set => cases guards

/-- Other signals are as if there had never been a guard. -/
theorem of_actAll {q : Guarded} {acts : List GuardAct} (other : signal ≠ .ttou)
    (same : p.dispositions.of signal = q.dispositions.of signal) :
    (p.actAll acts).dispositions.of signal =
      (q.actAll (acts.filter GuardAct.isSet)).dispositions.of signal := by
  induction acts generalizing p q with
  | nil => exact same
  | cons first rest ih =>
    cases setting : first.isSet with
    | false =>
      rw [List.filter_cons_of_neg (by simp [setting])]
      exact ih ((of_act_of_not_isSet setting other).trans same)
    | true =>
      rw [List.filter_cons_of_pos setting]
      refine ih ?_
      cases first with
      | set changed value =>
        by_cases own : signal = changed
        · exact (if_pos own).trans (if_pos own).symm
        · exact (if_neg own).trans (same.trans (if_neg own).symm)
      | create => cases setting
      | drop => cases setting

end Guarded

/-! ## Handing the terminal over -/

namespace Tty

variable {κ : Type} [Kernel κ]

/-- A handover is made under a guard that is created right before it and dropped right after it. -/
theorem handOver_guarded (group : Pid) (c : Tty κ) :
    ∃ during : Tty κ, during.dispositions = (TtouGuard.acquire c.dispositions).2 ∧
      (Terminal.handOver group c).1 = (Kernel.setForeground group during).1 ∧
      (Terminal.handOver group c).2.dispositions =
        (TtouGuard.acquire c.dispositions).1.release
          (Kernel.setForeground group during).2.dispositions :=
  ⟨{ c.act with dispositions := c.dispositions.set .ttou .ignore }, rfl, rfl, rfl⟩

/-- A handover finds `SIGTTOU` ignored, and leaves all signals as they were. -/
theorem handOver_leaves (group : Pid) (c : Tty κ) :
    (∃ during : Tty κ, during.dispositions.of .ttou = .ignore ∧
      (Terminal.handOver group c).1 = (Kernel.setForeground group during).1) ∧
      (Terminal.handOver group c).2.dispositions = c.dispositions := by
  obtain ⟨during, signals, result, -⟩ := handOver_guarded group c
  refine ⟨⟨during, ?_, result⟩, ?_⟩
  · rw [signals]
    exact c.dispositions.of_set .ttou .ignore
  · have anything : Steadfast fun _ : Tty κ => True := steadfast_standing fun _ _ => True
    exact (handOver_rule group anything anything (fun _ _ => trivial) (fun _ _ _ => trivial)
      trivial).2

end Tty

/-! ## Every moment -/

/-- How the signals stand at a moment, after some acts of a process that had no guard. -/
structure GuardsHold (initial : Dispositions) (past : List GuardAct) (now : Guarded) : Prop where
  /-- The guards that are alive are those that were created and not dropped. -/
  counted : now.alive.length + past.count (.drop 0) = past.count .create
  ignored : now.alive ≠ [] → now.dispositions.of .ttou = .ignore
  restored : now.alive = [] → now.dispositions.of .ttou = initial.of .ttou
  /-- The other signals are as the same process would have them that never had a guard. -/
  others : ∀ signal, signal ≠ .ttou → now.dispositions.of signal =
    ((Guarded.unguarded initial).actAll (past.filter GuardAct.isSet)).dispositions.of signal
  /-- Handing the terminal over finds `SIGTTOU` ignored, and leaves all signals as they are. -/
  handover : ∀ (κ : Type) [Kernel κ] (c : Tty κ) (group : Pid),
    c.dispositions = now.dispositions →
      (∃ during : Tty κ, during.dispositions.of .ttou = .ignore ∧
        (Terminal.handOver group c).1 = (Kernel.setForeground group during).1) ∧
        (Terminal.handOver group c).2.dispositions = now.dispositions

/-- **Nested guards.**  At every moment of well-nested acts `SIGTTOU` is ignored if a guard is alive,
and is as it was initially if none is; no guard touches another signal. -/
theorem nested_guards_hold (initial : Dispositions) (acts : List GuardAct)
    (nested : GuardAct.WellNested 0 acts) (moment : Nat) :
    GuardsHold initial (acts.take moment)
      ((Guarded.unguarded initial).actAll (acts.take moment)) := by
  have past := nested.take moment
  generalize acts.take moment = before at past ⊢
  have fresh : Guarded.Stacked (initial.of .ttou) (Guarded.unguarded initial).alive
      ((Guarded.unguarded initial).dispositions.of .ttou) := rfl
  have stacked := fresh.actAll past
  refine ⟨?_, fun some_alive => ?_, fun none_alive => ?_, fun signal other => ?_, ?_⟩
  · exact (Guarded.length_alive_actAll past rfl).trans (Nat.zero_add _)
  · obtain ⟨guard, older, alive⟩ := List.exists_cons_of_ne_nil some_alive
    rw [alive] at stacked
    exact stacked.1
  · rw [none_alive] at stacked
    exact stacked
  · exact Guarded.of_actAll other rfl
  · intro κ _ c group same
    rw [← same]
    exact Tty.handOver_leaves group c

/-- Two guards, one inside the other, and a third after the inner one, in a process that handles
`SIGTTOU` and that ignores another signal meanwhile. -/
def twiceNested : List GuardAct :=
  [.create, .set .chld .ignore, .create, .drop 0, .create, .drop 0, .drop 0]

theorem wellNested_twiceNested : GuardAct.WellNested 0 twiceNested :=
  .create (.set _ (by decide) (.create (.drop (.create (.drop (.drop (.done 0)))))))

/-- The handler is back after the last drop, and not before. -/
theorem nested_guards_hold_twiceNested :
    let initial := Dispositions.allDefault.set .ttou (@Disposition.handler 7)
    let after moment := (Guarded.unguarded initial).actAll (twiceNested.take moment)
    GuardAct.WellNested 0 twiceNested ∧
      (after 6).alive.length = 1 ∧ (after 6).dispositions.of .ttou = .ignore ∧
      (after 7).alive.length = 0 ∧ (after 7).dispositions.of .ttou = @Disposition.handler 7 ∧
      (after 7).dispositions.of .chld = .ignore ∧
      ∀ moment, GuardsHold initial (twiceNested.take moment) (after moment) :=
  ⟨wellNested_twiceNested, by decide, by decide, by decide, by decide, by decide,
    nested_guards_hold _ _ wellNested_twiceNested⟩

/-- If the first guard is dropped first, the second one is alive without effect, and then leaves the
signal ignored for good. -/
example :
    let after moment := (Guarded.unguarded .allDefault).actAll
      ([GuardAct.create, .create, .drop 1, .drop 0].take moment)
    (after 3).alive.length = 1 ∧ (after 3).dispositions.of .ttou = .default ∧
      (after 4).alive.length = 0 ∧ (after 4).dispositions.of .ttou = .ignore := by
  decide

end JobControl
