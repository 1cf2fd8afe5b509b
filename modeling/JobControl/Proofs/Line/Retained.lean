import JobControl.Proofs.Line.Fresh
import JobControl.Proofs.Line.Marker

/-!
# The text that a job keeps

A job keeps the command of its line and drops the rest: separators at the ends, and the marker for
the background.  The command stands for the job.  A line divides into the same command once more
when it is written as the command alone or as the command with a new marker behind it, so reading
that line gives the same stages again (`Job.ofLine_retained`).  The one exception is a command that
ends in a marker of its own, such as the `&` that is left of `a & &`: on its own it would be taken
for the marker of a shorter command.
-/

set_option autoImplicit false

namespace JobControl

namespace Line

variable {command text : List Char} {mode : JobMode}

/-- The command ends in a marker that no backslash stands before. -/
def Marked (command : List Char) : Prop :=
  ['&'] <:+ command ∧ ¬['\\', '&'] <:+ command

instance (command : List Char) : Decidable (Marked command) :=
  inferInstanceAs (Decidable (_ ∧ _))

theorem not_marked_iff :
    ¬Marked command ↔ ∀ init, command = init ++ ['&'] → init.getLast? = some '\\' := by
  unfold Marked
  push Not
  constructor
  · rintro escaped init rfl
    obtain ⟨start, whole⟩ := escaped ⟨init, rfl⟩
    have same : start ++ ['\\'] ++ ['&'] = init ++ ['&'] := by
      rw [← whole, List.append_assoc]
      rfl
    rw [← List.append_cancel_right same, List.getLast?_concat]
  · rintro unmarked ⟨init, rfl⟩
    obtain ⟨start, rfl⟩ := List.getLast?_eq_some_iff.mp (unmarked init rfl)
    exact ⟨start, by simp⟩

namespace Divides

/-- The command is a piece of the line. -/
theorem isInfix (h : Divides text mode command) : command <:+: text := by
  cases h with
  | foreground before _ after => exact ⟨before, after, rfl⟩
  | background before _ between after =>
    refine ⟨before, between ++ ['&'] ++ after, ?_⟩
    simp only [List.append_assoc]
  | bare before after => exact ⟨before, ['&'] ++ after, by simp⟩

theorem solid (h : Divides text mode command) (nonempty : command ≠ []) :
    Text.Solid Text.isSeparator command := by
  cases h with
  | foreground _ _ _ _ solid => exact solid
  | background _ _ _ _ _ solid => exact solid
  | bare => exact absurd rfl nonempty

/-- A command that ends in a marker was not left in the foreground. -/
theorem not_marked (h : Divides text .foreground command) : ¬Marked command := by
  cases h with
  | foreground _ _ _ _ _ _ unmarked => exact not_marked_iff.mpr unmarked

end Divides

/-- No command is empty: its only segment would be. -/
theorem ne_nil_of_stages {stages : List Stage} (h : Line.stages command = .ok stages) :
    command ≠ [] := by
  rintro rfl
  obtain ⟨segments, read, -⟩ := stages_eq_ok_iff.mp h
  cases read with
  | cons first _ => cases first

end Line

namespace Job

variable {line : String} {job : Job}

/-- A line that gives a job divides into the command that the job keeps and its mode. -/
theorem exists_divides_of_ofLine (h : ofLine line = .ok (some job)) :
    ∃ mode command, Line.Divides line.toList mode command ∧
      ∃ stages, Line.stages command = .ok stages ∧
        job = { id := none, group := none, mode, command := String.ofList command, stages } := by
  have solid : ¬Text.Blank Text.isSeparator line.toList := by
    intro blank
    rw [ofLine_of_blank blank] at h
    cases h
  obtain ⟨mode, command, divides⟩ := Line.exists_divides solid
  refine ⟨mode, command, divides, ?_⟩
  rw [ofLine_of_divides divides] at h
  cases read : Line.stages command with
  | error fault =>
    rw [read] at h
    cases h
  | ok stages =>
    rw [read] at h
    exact ⟨stages, rfl, (Option.some.inj (Except.ok.inj h)).symm⟩

/-- **The text that a job keeps stands for the job.**  It is a piece of the line and has no separator
at its ends.  With separators and a marker behind it, it is read as the same job in the background;
alone it is read as the same job in the foreground, unless it ends in a marker itself, and only
then. -/
theorem ofLine_retained (h : ofLine line = .ok (some job)) :
    Text.Solid Text.isSeparator job.command.toList ∧
    job.command.toList <:+: line.toList ∧
    (∀ gap : String, gap ≠ "" → Text.Blank Text.isSeparator gap.toList →
      ofLine (job.command ++ gap ++ "&") = .ok (some { job with mode := .background })) ∧
    (ofLine job.command = .ok (some { job with mode := .foreground }) ↔
      ¬Line.Marked job.command.toList) := by
  obtain ⟨mode, command, divides, stages, read, rfl⟩ := exists_divides_of_ofLine h
  have solid := divides.solid (Line.ne_nil_of_stages read)
  simp only [String.toList_ofList]
  refine ⟨solid, divides.isInfix, ?_, ?_, ?_⟩
  · intro gap some_gap blank
    have again : Line.Divides (String.ofList command ++ gap ++ "&").toList .background command := by
      have written := Line.Divides.background [] command gap.toList [] Text.blank_nil solid blank
        Text.blank_nil fun _ none => some_gap (String.toList_eq_nil_iff.mp none)
      simpa using written
    rw [ofLine_of_divides again, read]
    rfl
  · intro same
    -- read alone, the text divides into itself, in the foreground
    obtain ⟨mode', command', divides', _, _, eq⟩ := exists_divides_of_ofLine same
    obtain ⟨rfl, rfl⟩ : mode' = .foreground ∧ command' = command := by
      simp only [Job.mk.injEq, String.ofList_inj] at eq
      exact ⟨eq.2.2.1.symm, eq.2.2.2.1.symm⟩
    exact divides'.not_marked
  · intro unmarked
    have again : Line.Divides (String.ofList command).toList .foreground command := by
      have written := Line.Divides.foreground [] command [] Text.blank_nil solid Text.blank_nil
        (Line.not_marked_iff.mp unmarked)
      simpa using written
    rw [ofLine_of_divides again, read]
    rfl

/-- Of two markers with a separator between them the first belongs to the command, and so does one
behind a backslash. -/
theorem ofLine_retained_twoMarkers :
    ∃ job, ofLine "\tcat <a|tee \\& x & &\n" = .ok (some job) ∧ job.command = "cat <a|tee \\& x &" ∧
      ofLine "cat <a|tee \\& x & \t&" = .ok (some { job with mode := .background }) ∧
      ofLine "cat <a|tee \\& x &" ≠ .ok (some { job with mode := .foreground }) := by
  let job : Job := ⟨none, none, .background, "cat <a|tee \\& x &",
    [⟨"cat", [], some "a", none, none, .running⟩,
      ⟨"tee", ["\\&", "x", "&"], none, none, none, .running⟩]⟩
  have read : ofLine "\tcat <a|tee \\& x & &\n" = .ok (some job) := by decide +kernel
  obtain ⟨-, -, background, foreground⟩ := ofLine_retained read
  refine ⟨job, read, rfl, background " \t" (by decide) (by decide), ?_⟩
  exact fun same => foreground.mp same (by decide +kernel)

end Job

end JobControl
