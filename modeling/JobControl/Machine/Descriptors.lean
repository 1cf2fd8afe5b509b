/-!
# Descriptor tables

A process names its open files by descriptors.  A descriptor may be marked to be closed when the
process starts another program.  A child begins with a copy of its parent's table; before its program
starts it copies descriptors onto its standard input and output, and the start closes the marked
ones.
-/

set_option autoImplicit false

namespace JobControl

/-- What a descriptor stands for: an open file, by number. -/
structure Slot where
  file : Nat
  closeOnStart : Bool
deriving DecidableEq, Repr

/-- The open descriptors of a process, each at most once. -/
structure DescriptorTable where
  slots : List (Nat × Slot)
deriving DecidableEq, Repr

namespace DescriptorTable

/-- The open file of a descriptor. -/
def file? (t : DescriptorTable) (d : Nat) : Option Nat :=
  (t.slots.find? fun (number, _) => number == d).map fun (_, slot) => slot.file

/-- Closes a descriptor. -/
def close (t : DescriptorTable) (d : Nat) : DescriptorTable :=
  ⟨t.slots.filter fun (number, _) => number != d⟩

/-- The lowest number that no descriptor has. -/
def lowestFree (t : DescriptorTable) : Nat :=
  ((List.range (t.slots.length + 1)).find? fun d => (t.file? d).isNone).getD t.slots.length

/-- Opens the lowest free descriptor. -/
def openLowest (t : DescriptorTable) (file : Nat) (closeOnStart : Bool) : Nat × DescriptorTable :=
  let d := t.lowestFree
  (d, ⟨(d, ⟨file, closeOnStart⟩) :: t.slots⟩)

/-- Makes `target` stand for the same open file as `source`; the copy stays open when a program
starts.  A descriptor copied onto itself stays as it is. -/
def copyOnto (t : DescriptorTable) (source target : Nat) : DescriptorTable :=
  if source = target then t
  else
    match t.file? source with
    | some file => ⟨(target, ⟨file, false⟩) :: (t.close target).slots⟩
    | none => t

/-- Copies an optional descriptor onto another one. -/
def install (t : DescriptorTable) (source : Option Nat) (target : Nat) : DescriptorTable :=
  match source with
  | some d => t.copyOnto d target
  | none => t

/-- What is left open when a program starts. -/
def start (t : DescriptorTable) : DescriptorTable :=
  ⟨t.slots.filter fun (_, slot) => !slot.closeOnStart⟩

end DescriptorTable

end JobControl
