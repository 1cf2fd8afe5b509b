import JobControl.Line.Parse
import JobControl.Proofs.Text.Words

/-!
# The marker at the end of a line

What a line holds besides its command: separators at its ends, and for the background a marker with
separators before it.  `Line.Divides` says which command and which mode are left without them.  Every
line that is not blank divides into a command and a mode (`Line.exists_divides`), and reading the
line is reading the stages of that command (`Job.ofLine_of_divides`).
-/

set_option autoImplicit false

namespace JobControl

namespace Line

/-- The command of a line and its mode: what is left without the separators at the ends of the line
and without one final marker, which a backslash right before it takes its meaning away from.  The
separators before the marker are taken away with it. -/
inductive Divides : List Char → JobMode → List Char → Prop
  | foreground (before command after : List Char) (hbefore : Text.Blank Text.isSeparator before)
      (solid : Text.Solid Text.isSeparator command)
      (hafter : Text.Blank Text.isSeparator after)
      (unmarked : ∀ init, command = init ++ ['&'] → init.getLast? = some '\\') :
      Divides (before ++ command ++ after) .foreground command
  | background (before command between after : List Char)
      (hbefore : Text.Blank Text.isSeparator before)
      (solid : Text.Solid Text.isSeparator command)
      (hbetween : Text.Blank Text.isSeparator between)
      (hafter : Text.Blank Text.isSeparator after)
      (apart : command.getLast? = some '\\' → between ≠ []) :
      Divides (before ++ (command ++ between ++ ['&']) ++ after) .background command
  | bare (before after : List Char) (hbefore : Text.Blank Text.isSeparator before)
      (hafter : Text.Blank Text.isSeparator after) :
      Divides (before ++ ['&'] ++ after) .background []

variable {command between text : List Char} {mode : JobMode}

/-- A command that does not end in the marker, or only behind a backslash, is left as it is. -/
theorem modeAndCommand_foreground
    (unmarked : ∀ init, command = init ++ ['&'] → init.getLast? = some '\\') :
    modeAndCommand command = (.foreground, command) := by
  unfold modeAndCommand
  split
  · rfl
  · rename_i rest other reversed
    have whole : command = rest.reverse ++ ['&'] := by
      rw [← List.reverse_reverse command, reversed, List.reverse_cons]
    have last := unmarked _ whole
    rw [List.getLast?_reverse] at last
    obtain ⟨more, rfl⟩ := List.head?_eq_some_iff.mp last
    exact absurd rfl (other more)
  · rfl

theorem modeAndCommand_background (solid : Text.Solid Text.isSeparator command)
    (hbetween : Text.Blank Text.isSeparator between)
    (apart : command.getLast? = some '\\' → between ≠ []) :
    modeAndCommand (command ++ between ++ ['&']) = (.background, command) := by
  have reversed : (command ++ between ++ ['&']).reverse = '&' :: (command ++ between).reverse := by
    rw [List.reverse_append]
    rfl
  unfold modeAndCommand
  rw [reversed]
  split
  · rename_i more escaped
    have last : (command ++ between).getLast? = some '\\' := by
      rw [← List.head?_reverse, (List.cons.inj escaped).2]
      rfl
    cases between with
    | nil => exact absurd rfl (apart (by simpa using last))
    | cons c rest =>
      rw [List.getLast?_append_of_ne_nil _ (by simp)] at last
      cases hbetween _ (List.mem_of_getLast? last)
  · rename_i rest _ eq
    rw [← (List.cons.inj eq).2, List.reverse_reverse, Text.trimEnd_append hbetween solid]
  · rename_i unmarked
    exact absurd rfl (unmarked _)

theorem solid_marker : Text.Solid Text.isSeparator ['&'] :=
  .of_word ⟨by simp, by simp [Text.isSeparator]⟩

/-- What is left of a line after trimming it is the command, in the background with the marker. -/
theorem Divides.trimmed (h : Divides text mode command) :
    ∃ c rest, Text.trim Text.isSeparator text = c :: rest ∧
      modeAndCommand (c :: rest) = (mode, command) := by
  cases h with
  | foreground before _ after hbefore solid hafter unmarked =>
    obtain ⟨c, rest, whole, -⟩ := solid.first
    refine ⟨c, rest, ?_, ?_⟩
    · rw [Text.trim_surround hbefore solid hafter, whole]
    · rw [← whole]
      exact modeAndCommand_foreground unmarked
  | background before _ between after hbefore solid hbetween hafter apart =>
    have marked := solid.append between solid_marker
    obtain ⟨c, rest, whole, -⟩ := marked.first
    refine ⟨c, rest, ?_, ?_⟩
    · rw [Text.trim_surround hbefore marked hafter, whole]
    · rw [← whole]
      exact modeAndCommand_background solid hbetween apart
  | bare before after hbefore hafter =>
    exact ⟨'&', [], Text.trim_surround hbefore solid_marker hafter, rfl⟩

/-- Every line that is not blank divides into a command and its mode. -/
theorem exists_divides (h : ¬Text.Blank Text.isSeparator text) :
    ∃ mode command, Divides text mode command := by
  obtain ⟨before, body, after, rfl, hbefore, solid, hafter⟩ := Text.exists_solid h
  by_cases unmarked : ∀ init, body = init ++ ['&'] → init.getLast? = some '\\'
  · exact ⟨_, _, .foreground before body after hbefore solid hafter unmarked⟩
  · push Not at unmarked
    obtain ⟨init, rfl, unescaped⟩ := unmarked
    -- the separators before the marker go with it
    obtain ⟨command, between, rfl, hbetween, rfl | ⟨start, d, rfl, hd⟩⟩ :=
      Text.exists_append_blank Text.isSeparator init
    · cases between with
      | nil => exact ⟨_, _, .bare before after hbefore hafter⟩
      | cons c gap =>
        obtain ⟨e, rest, whole, he⟩ := solid.first
        obtain ⟨rfl, -⟩ := List.cons.inj whole
        cases he.symm.trans (hbetween c List.mem_cons_self)
    · have kept : Text.Solid Text.isSeparator (start ++ [d]) := by
        obtain ⟨c, rest, whole, hc⟩ := solid.first
        refine ⟨?_, start, d, rfl, hd⟩
        cases start with
        | nil => exact ⟨d, [], rfl, hd⟩
        | cons b start =>
          obtain ⟨rfl, -⟩ := List.cons.inj whole
          exact ⟨b, start ++ [d], rfl, hc⟩
      refine ⟨_, _, .background before (start ++ [d]) between after hbefore kept hbetween hafter ?_⟩
      rintro escaped rfl
      exact unescaped (by simpa using escaped)

end Line

/-! ## Reading a line -/

theorem Job.ofLine_of_blank {line : String} (h : Text.Blank Text.isSeparator line.toList) :
    Job.ofLine line = .ok none := by
  rw [Job.ofLine, Text.trim_blank h]

/-- Reading a line is reading the stages of its command. -/
theorem Job.ofLine_of_divides {line : String} {mode : JobMode} {command : List Char}
    (h : Line.Divides line.toList mode command) :
    Job.ofLine line = (Line.stages command).map fun stages =>
      some { id := none, group := none, mode, command := String.ofList command, stages } := by
  obtain ⟨c, rest, trimmed, split⟩ := h.trimmed
  simp only [Job.ofLine, trimmed, split]

end JobControl
