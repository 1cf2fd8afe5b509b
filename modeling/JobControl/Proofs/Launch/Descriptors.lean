import JobControl.Machine.Descriptors
import Mathlib.Data.List.Nodup
import Mathlib.Data.List.Perm.Subperm

/-!
# Descriptors held for a while

While the shell launches a job it holds some descriptors on top of those it had, all of them marked
to be closed when a program starts (`DescriptorTable.holdAll`).  Closing them in any order gives the
table from before (`close_holdAll`), and a program started meanwhile gets none of them but those
installed as its standard input and output (`file?_start_install`).
-/

set_option autoImplicit false

namespace JobControl.DescriptorTable

variable {t : DescriptorTable} {held : List (Nat × Nat)} {d file : Nat}

/-! ## One descriptor -/

theorem file?_cons (number : Nat) (slot : Slot) (slots : List (Nat × Slot)) (d : Nat) :
    file? ⟨(number, slot) :: slots⟩ d = if number = d then some slot.file else file? ⟨slots⟩ d := by
  unfold file?
  by_cases same : number = d
  · rw [if_pos same, List.find?_cons_of_pos (by simp [same])]
    rfl
  · rw [if_neg same, List.find?_cons_of_neg (by simp [same])]

theorem file?_close (t : DescriptorTable) (closed d : Nat) :
    (t.close closed).file? d = if d = closed then none else t.file? d := by
  obtain ⟨slots⟩ := t
  unfold close
  induction slots with
  | nil => simp [file?]
  | cons s slots ih =>
    obtain ⟨number, slot⟩ := s
    simp only [List.filter_cons, bne_iff_ne, ne_eq]
    by_cases dropped : number = closed
    · subst dropped
      rw [if_neg (by simp), ih, file?_cons]
      split
      · rfl
      · rename_i other
        rw [if_neg (Ne.symm other)]
    · rw [if_pos dropped, file?_cons, file?_cons, ih]
      by_cases same : number = d
      · subst same
        simp [dropped]
      · simp [same]

theorem ne_of_file?_eq_none (free : t.file? d = none) : ∀ slot ∈ t.slots, slot.1 ≠ d := by
  intro slot hs same
  have missed := List.find?_eq_none.mp (Option.map_eq_none_iff.mp free) slot hs
  simp [same] at missed

theorem exists_slot_of_file? (opened : t.file? d = some file) : ∃ slot ∈ t.slots, slot.2.file = file := by
  obtain ⟨slot, found, named⟩ := Option.map_eq_some_iff.mp opened
  exact ⟨slot, List.mem_of_find?_eq_some found, named⟩

/-- **There is always a free descriptor**, and the lowest one is free. -/
theorem file?_lowestFree (t : DescriptorTable) : t.file? t.lowestFree = none := by
  cases found : (List.range (t.slots.length + 1)).find? fun d => (t.file? d).isNone with
  | some d =>
    have free := List.find?_some found
    rw [lowestFree, found]
    simpa using free
  | none =>
    -- all these numbers are taken, but there are more of them than slots
    have taken : List.range (t.slots.length + 1) ⊆ t.slots.map Prod.fst := by
      intro d hd
      by_contra absent
      apply List.find?_eq_none.mp found d hd
      rw [Option.isNone_iff_eq_none, file?, Option.map_eq_none_iff, List.find?_eq_none]
      intro slot hs same
      apply absent
      rw [← beq_iff_eq.mp same]
      exact List.mem_map_of_mem hs
    have many := (List.nodup_range.subperm taken).length_le
    rw [List.length_range, List.length_map] at many
    omega

/-- The standard descriptors are open. -/
def Standard (t : DescriptorTable) : Prop :=
  ∀ d < 3, (t.file? d).isSome = true

instance (t : DescriptorTable) : Decidable t.Standard :=
  inferInstanceAs (Decidable (∀ d < 3, (t.file? d).isSome = true))

theorem Standard.le_of_free (standard : t.Standard) (free : t.file? d = none) : 3 ≤ d := by
  by_contra low
  have := standard d (by omega)
  rw [free] at this
  cases this

/-! ## Several descriptors -/

/-- A table with more descriptors, marked to be closed when a program starts. -/
def holdAll (t : DescriptorTable) (held : List (Nat × Nat)) : DescriptorTable :=
  ⟨held.map (fun h => (h.1, ⟨h.2, true⟩)) ++ t.slots⟩

theorem file?_holdAll_cons (t : DescriptorTable) (number file : Nat) (held : List (Nat × Nat))
    (d : Nat) : (t.holdAll ((number, file) :: held)).file? d =
      if number = d then some file else (t.holdAll held).file? d :=
  file?_cons _ _ _ _

theorem openLowest_holdAll (t : DescriptorTable) (held : List (Nat × Nat)) (file : Nat) :
    (t.holdAll held).openLowest file true =
      ((t.holdAll held).lowestFree, t.holdAll (((t.holdAll held).lowestFree, file) :: held)) := rfl

theorem file?_of_mem (distinct : (held.map Prod.fst).Nodup) (h : (d, file) ∈ held) :
    (t.holdAll held).file? d = some file := by
  induction held with
  | nil => cases h
  | cons other held ih =>
    obtain ⟨number, first⟩ := other
    rw [List.map_cons, List.nodup_cons] at distinct
    rw [file?_holdAll_cons]
    rcases List.mem_cons.mp h with same | h
    · cases same
      rw [if_pos rfl]
    · rw [if_neg, ih distinct.2 h]
      rintro rfl
      exact distinct.1 (List.mem_map.mpr ⟨_, h, rfl⟩)

/-- A descriptor that is free with others held is none of them, and is free without them. -/
theorem free_of_holdAll (free : (t.holdAll held).file? d = none) :
    t.file? d = none ∧ d ∉ held.map Prod.fst := by
  induction held with
  | nil => exact ⟨free, List.not_mem_nil⟩
  | cons other held ih =>
    obtain ⟨number, first⟩ := other
    rw [file?_holdAll_cons] at free
    split at free
    · cases free
    · rename_i apart
      obtain ⟨below, absent⟩ := ih free
      simp [below, absent, Ne.symm apart]

theorem close_holdAll (free : t.file? d = none) :
    (t.holdAll held).close d = t.holdAll (held.filter (·.1 != d)) := by
  have kept : t.slots.filter (fun slot => slot.1 != d) = t.slots := by
    apply List.filter_eq_self.mpr
    intro slot hs
    simpa using ne_of_file?_eq_none free slot hs
  simp only [holdAll, close, List.filter_append, kept, List.filter_map]
  rfl

theorem close_holdAll_middle {before after : List (Nat × Nat)} {h : Nat × Nat}
    (distinct : ((before ++ h :: after).map Prod.fst).Nodup) (free : t.file? h.1 = none) :
    (t.holdAll (before ++ h :: after)).close h.1 = t.holdAll (before ++ after) := by
  rw [List.map_append, List.map_cons, List.nodup_middle, List.nodup_cons,
    ← List.map_append] at distinct
  have others : (before ++ after).filter (·.1 != h.1) = before ++ after := by
    apply List.filter_eq_self.mpr
    intro h' found
    have apart : h'.1 ≠ h.1 := fun same => distinct.1 (List.mem_map.mpr ⟨h', found, same⟩)
    simpa using apart
  rw [List.filter_append] at others
  rw [close_holdAll free, List.filter_append, List.filter_cons_of_neg (by simp), others]

theorem start_holdAll (t : DescriptorTable) (held : List (Nat × Nat)) :
    (t.holdAll held).start = t.start := by
  unfold holdAll start
  rw [List.filter_append, List.filter_map]
  simp [Function.comp_def]

/-! ## What a program gets -/

theorem start_close (t : DescriptorTable) (d : Nat) : (t.close d).start = t.start.close d := by
  simp only [start, close, List.filter_filter, Bool.and_comm]

/-- A descriptor that is copied onto another one stays open there when a program starts. -/
theorem file?_start_copyOnto {source target : Nat} (apart : source ≠ target)
    (opened : t.file? source = some file) (d : Nat) :
    (t.copyOnto source target).start.file? d =
      if d = target then some file else t.start.file? d := by
  have started : (t.copyOnto source target).start =
      ⟨(target, ⟨file, false⟩) :: (t.start.close target).slots⟩ := by
    rw [copyOnto, if_neg apart, opened, ← start_close]
    rfl
  rw [started, file?_cons]
  by_cases same : d = target
  · rw [if_pos same.symm, if_pos same]
  · rw [if_neg (Ne.symm same), if_neg same]
    exact (file?_close _ _ _).trans (if_neg same)

/-- **What a program gets** of a table with a descriptor installed for it, if there is one to
install: that one, and for the rest what it would get anyway. -/
theorem file?_start_install (installed : Option (Nat × Nat)) (target : Nat)
    (opened : ∀ h ∈ installed, h.1 ≠ target ∧ t.file? h.1 = some h.2) (d : Nat) :
    (t.install (installed.map Prod.fst) target).start.file? d =
      if d = target then (installed.map Prod.snd).or (t.start.file? target)
      else t.start.file? d := by
  cases installed with
  | none =>
    split
    · rename_i same
      rw [same]
      rfl
    · rfl
  | some h =>
    obtain ⟨apart, opened⟩ := opened h rfl
    exact file?_start_copyOnto apart opened d

theorem file?_install (installed : Option (Nat × Nat)) {target : Nat}
    (opened : ∀ h ∈ installed, h.1 ≠ target ∧ t.file? h.1 = some h.2) (other : d ≠ target) :
    (t.install (installed.map Prod.fst) target).file? d = t.file? d := by
  cases installed with
  | none => rfl
  | some h =>
    obtain ⟨apart, opened⟩ := opened h rfl
    simp only [Option.map_some, install, copyOnto, if_neg apart, opened, file?_cons,
      if_neg (Ne.symm other)]
    exact (file?_close _ _ _).trans (if_neg other)

end JobControl.DescriptorTable
