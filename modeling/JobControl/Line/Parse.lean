import JobControl.Job.Basic

/-!
# From a line to a job

A line, less the separators at its ends, may end in the background marker `&`; a backslash before
the marker takes its meaning away.  What remains is the command: segments with `|` between them.
`Job.ofLine` gives no job for a line of separators only, and the fault of the leftmost bad segment
for a line that is no command.
-/

set_option autoImplicit false

namespace JobControl

/-- Splits the background marker off a trimmed line. -/
def Line.modeAndCommand (text : List Char) : JobMode × List Char :=
  match text.reverse with
  | '&' :: '\\' :: _ => (.foreground, text)
  | '&' :: rest => (.background, Text.trimEnd Text.isSeparator rest.reverse)
  | _ => (.foreground, text)

/-- The stages of a command. -/
def Line.stages (command : List Char) : Except LineFault (List Stage) :=
  (command.splitOn '|').mapM fun segment => (Segment.ofText segment).map Stage.ofSegment

/-- Reads one command line. -/
def Job.ofLine (line : String) : Except LineFault (Option Job) :=
  match Text.trim Text.isSeparator line.toList with
  | [] => .ok none
  | text =>
    let (mode, command) := Line.modeAndCommand text
    (Line.stages command).map fun stages =>
      some { id := none, group := none, mode, command := String.ofList command, stages }

end JobControl
