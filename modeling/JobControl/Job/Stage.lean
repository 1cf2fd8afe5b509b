import JobControl.Job.Status
import JobControl.Line.Segment

/-!
# Pipeline stages

One stage of a pipeline: what to run, where its text comes from and goes to, and what has become of
it.  Built-in commands are recognised by the name of the program.
-/

set_option autoImplicit false

namespace JobControl

/-- The commands the shell carries out itself, and the rest. -/
inductive StageKind
  | exit
  | cd
  | fg
  | bg
  | external
deriving DecidableEq, Repr

namespace StageKind

/-- The kind of a program name. -/
def ofProgram (program : String) : StageKind :=
  if program = "exit" then exit
  else if program = "cd" then cd
  else if program = "fg" then fg
  else if program = "bg" then bg
  else external

/-- The shell carries the command out itself. -/
def isBuiltin (kind : StageKind) : Bool :=
  kind != external

end StageKind

/-- How an output file is opened. -/
inductive OutputMode
  | truncate
  | append
deriving DecidableEq, Repr

/-- An output redirection. -/
structure Output where
  path : String
  mode : OutputMode
deriving DecidableEq, Repr

/-- One stage of a pipeline. -/
structure Stage where
  program : String
  arguments : List String
  input : Option String
  output : Option Output
  pid : Option Pid
  status : Status
deriving DecidableEq, Repr

namespace Stage

/-- The stage that a segment describes; it has not been launched. -/
def ofSegment (s : Segment) : Stage where
  program := s.program
  arguments := s.arguments
  input := s.input?
  output := s.output?.map fun r =>
    ⟨r.path, if r.op == .append then .append else .truncate⟩
  pid := none
  status := .running

/-- The words of the command, program first. -/
def words (s : Stage) : List String :=
  s.program :: s.arguments

/-- The kind of its program. -/
def kind (s : Stage) : StageKind :=
  .ofProgram s.program

/-- The process id as status lines show it: `-1` for a stage that was not launched. -/
def shownPid (s : Stage) : Int :=
  s.pid.getD (-1)

/-- The stage has been launched and has not ended. -/
def isOutstanding (s : Stage) : Bool :=
  s.pid.isSome && !s.status.isFinished

/-- The stage has been launched, has not ended and is not suspended. -/
def isRunning (s : Stage) : Bool :=
  s.isOutstanding && s.status != .suspended

/-- Some word of the command holds a NUL, which no program can be given. -/
def hasNul (s : Stage) : Bool :=
  s.words.any fun word => word.toList.contains '\x00'

/-- An unfinished stage counts as continued once its group has been sent `SIGCONT`. -/
def markContinued (s : Stage) : Stage :=
  if s.status.isFinished then s else { s with status := .continued }

end Stage

end JobControl
