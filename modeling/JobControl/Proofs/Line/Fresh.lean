import JobControl.Line.Parse
import Mathlib.Data.List.Forall2

/-!
# The job a line gives

The stages of a command are its segments, read one by one (`Line.stages_eq_ok_iff`).  What a line
gives is a job that nothing has happened to yet: it has stages, none of them was launched, and it
has no group (`Job.Fresh`).
-/

set_option autoImplicit false

namespace JobControl

/-! ## Reading the segments one by one -/

/-- A list is read if each of its elements is. -/
theorem mapM_eq_ok_iff {ε α β : Type} {f : α → Except ε β} {xs : List α} {ys : List β} :
    xs.mapM f = .ok ys ↔ List.Forall₂ (fun x y => f x = .ok y) xs ys := by
  induction xs generalizing ys with
  | nil =>
    rw [List.mapM_nil, List.forall₂_nil_left_iff]
    exact ⟨fun h => (Except.ok.inj h).symm, fun h => by rw [h]; rfl⟩
  | cons x rest ih =>
    rw [List.mapM_cons, List.forall₂_cons_left_iff]
    constructor
    · intro h
      cases hx : f x with
      | error e => rw [hx] at h; cases h
      | ok y =>
        cases hrest : rest.mapM f with
        | error e => rw [hx, hrest] at h; cases h
        | ok ys' =>
          rw [hx, hrest] at h
          exact ⟨y, ys', rfl, ih.mp hrest, (Except.ok.inj h).symm⟩
    · rintro ⟨y, ys', hx, hrest, rfl⟩
      rw [hx, ih.mpr hrest]
      rfl

/-- A list that is not read fails with the first of its elements that is not. -/
theorem mapM_eq_error_iff {ε α β : Type} {f : α → Except ε β} {xs : List α} {e : ε} :
    xs.mapM f = .error e ↔
      ∃ before x after, xs = before ++ x :: after ∧ (∀ y ∈ before, ∃ b, f y = .ok b) ∧
        f x = .error e := by
  induction xs with
  | nil =>
    rw [List.mapM_nil]
    exact ⟨fun h => (nomatch h), fun ⟨before, x, after, h, _⟩ => by cases before <;> cases h⟩
  | cons x rest ih =>
    rw [List.mapM_cons]
    constructor
    · intro h
      cases hx : f x with
      | error d =>
        rw [hx] at h
        obtain rfl : d = e := Except.error.inj h
        exact ⟨[], x, rest, rfl, by simp, hx⟩
      | ok y =>
        cases hrest : rest.mapM f with
        | ok ys => rw [hx, hrest] at h; cases h
        | error d =>
          rw [hx, hrest] at h
          obtain rfl : d = e := Except.error.inj h
          obtain ⟨before, z, after, rfl, read, failed⟩ := ih.mp hrest
          refine ⟨x :: before, z, after, rfl, ?_, failed⟩
          intro w hw
          rcases List.mem_cons.mp hw with rfl | hw
          · exact ⟨y, hx⟩
          · exact read w hw
    · rintro ⟨_ | ⟨b, before⟩, z, after, whole, read, failed⟩
      · obtain ⟨rfl, rfl⟩ := List.cons.inj whole
        rw [failed]
        rfl
      · obtain ⟨rfl, rfl⟩ := List.cons.inj whole
        obtain ⟨y, hx⟩ := read x List.mem_cons_self
        have tail := ih.mpr ⟨before, z, after, rfl,
          fun w hw => read w (List.mem_cons_of_mem x hw), failed⟩
        rw [hx, tail]
        rfl

/-- The stages of a command are those of its segments in order. -/
theorem Line.stages_eq_ok_iff {command : List Char} {stages : List Stage} :
    Line.stages command = .ok stages ↔
      ∃ segments, List.Forall₂ (fun text s => Segment.ofText text = .ok s)
        (command.splitOn '|') segments ∧ stages = segments.map Stage.ofSegment := by
  have read : ∀ texts : List (List Char),
      (texts.mapM fun text => (Segment.ofText text).map Stage.ofSegment) =
        (texts.mapM Segment.ofText).map (List.map Stage.ofSegment) := by
    intro texts
    induction texts with
    | nil => rfl
    | cons text rest ih =>
      rw [List.mapM_cons, List.mapM_cons, ih]
      cases Segment.ofText text <;> cases rest.mapM Segment.ofText <;> rfl
  simp only [Line.stages, read, ← mapM_eq_ok_iff]
  cases (command.splitOn '|').mapM Segment.ofText with
  | error e => simp [Except.map]
  | ok segments => simp [Except.map, eq_comm]

/-- A command without stages has the fault of its first segment that cannot be read. -/
theorem Line.stages_eq_error_iff {command : List Char} {fault : LineFault} :
    Line.stages command = .error fault ↔
      ∃ before text after, command.splitOn '|' = before ++ text :: after ∧
        (∀ t ∈ before, ∃ s, Segment.ofText t = .ok s) ∧ Segment.ofText text = .error fault := by
  have read : ∀ text, (∃ stage, (Segment.ofText text).map Stage.ofSegment = .ok stage) ↔
      ∃ s, Segment.ofText text = .ok s := by
    intro text
    cases Segment.ofText text <;> simp [Except.map]
  have failed : ∀ text, (Segment.ofText text).map Stage.ofSegment = .error fault ↔
      Segment.ofText text = .error fault := by
    intro text
    cases Segment.ofText text <;> simp [Except.map]
  simp only [Line.stages, mapM_eq_error_iff, read, failed]

/-! ## A job before its launch -/

/-- A job that nothing has happened to yet. -/
structure Job.Fresh (j : Job) : Prop where
  group : j.group = none
  stages : j.stages ≠ []
  unlaunched : ∀ s ∈ j.stages, s.pid = none ∧ s.status = .running

/-- The later stages of a fresh job are a fresh job of their own. -/
theorem Job.Fresh.tail {j : Job} (fresh : j.Fresh) {stage : Stage} {rest : List Stage}
    (stages : j.stages = stage :: rest) (more : rest ≠ []) :
    Job.Fresh { j with stages := rest } where
  group := fresh.group
  stages := more
  unlaunched := by
    intro s hs
    refine fresh.unlaunched s ?_
    rw [stages]
    exact List.mem_cons_of_mem stage hs

theorem Job.Fresh.withId {j : Job} (fresh : j.Fresh) (id : Option Nat) :
    Job.Fresh { j with id } :=
  ⟨fresh.group, fresh.stages, fresh.unlaunched⟩

/-- **A line gives a fresh job.** -/
theorem Job.fresh_of_ofLine {line : String} {j : Job} (h : Job.ofLine line = .ok (some j)) :
    j.Fresh := by
  unfold Job.ofLine at h
  split at h
  · cases h
  · generalize Line.modeAndCommand (Text.trim Text.isSeparator line.toList) = parts at h
    obtain ⟨mode, command⟩ := parts
    simp only at h
    cases hstages : Line.stages command with
    | error e => rw [hstages] at h; cases h
    | ok stages =>
      rw [hstages] at h
      cases h
      obtain ⟨segments, read, rfl⟩ := Line.stages_eq_ok_iff.mp hstages
      refine ⟨rfl, ?_, ?_⟩
      · intro none
        rw [List.map_eq_nil_iff.mp none] at read
        exact List.splitOn_ne_nil '|' _ (List.forall₂_nil_right_iff.mp read)
      · intro s hs
        obtain ⟨segment, -, rfl⟩ := List.mem_map.mp hs
        exact ⟨rfl, rfl⟩

end JobControl
