import JobControl.Job.Stage

/-!
# Jobs

A job is one submitted pipeline.  Its stages share a process group, whose id is that of the first
stage launched.
-/

set_option autoImplicit false

namespace JobControl

/-- How a job, or a stage of it, is scheduled. -/
inductive JobMode
  | foreground
  | background
  | pipeline
deriving DecidableEq, Repr

namespace JobMode

/-- The name, as log lines show it. -/
def name : JobMode → String
  | foreground => "Foreground"
  | background => "Background"
  | pipeline => "Pipeline"

end JobMode

/-- One submitted pipeline: its number in the table, its process group, its mode, its text without
the background marker, and its stages. -/
structure Job where
  id : Option Nat
  group : Option Pid
  mode : JobMode
  command : String
  stages : List Stage
deriving DecidableEq, Repr

namespace Job

/-- The leading stage is a built-in. -/
def isBuiltin (j : Job) : Bool :=
  match j.stages with
  | stage :: _ => stage.kind.isBuiltin
  | [] => false

/-- A stage that feeds another one is part of the pipeline; the last one carries the job's mode. -/
def stageMode (j : Job) (index : Nat) : JobMode :=
  if index + 1 < j.stages.length then .pipeline else j.mode

/-- A stage was launched as this process. -/
def containsPid (j : Job) (pid : Pid) : Bool :=
  j.stages.any fun s => s.pid == some pid

/-- The first stage launched as this process. -/
def stageOf? (j : Job) (pid : Pid) : Option Stage :=
  j.stages.find? fun s => s.pid == some pid

/-- Changes the first stage launched as this process. -/
def modifyStage (pid : Pid) (f : Stage → Stage) : List Stage → List Stage
  | [] => []
  | s :: rest => if s.pid = some pid then f s :: rest else s :: modifyStage pid f rest

/-- Records a report on one of the stages; a report on another process changes nothing. -/
def apply (j : Job) (change : StatusChange) : Job :=
  { j with stages := modifyStage change.pid (fun s => { s with status := change.status }) j.stages }

/-- Every stage ended by itself. -/
def isComplete (j : Job) : Bool :=
  j.stages.all fun s => s.status == .done

/-- Every stage has ended, at least one by a signal. -/
def isFinished (j : Job) : Bool :=
  j.stages.all (fun s => s.status.isFinished) && j.stages.any fun s => s.status == .terminated

/-- Some stage is suspended. -/
def isSuspended (j : Job) : Bool :=
  j.stages.any fun s => s.status == .suspended

/-- Every unfinished stage is suspended. -/
def isStopped (j : Job) : Bool :=
  (j.stages.filter fun s => !s.status.isFinished).all fun s => s.status == .suspended

/-- The number of launched stages that have not ended. -/
def outstanding (j : Job) : Nat :=
  j.stages.countP Stage.isOutstanding

/-- The number of launched stages that have neither ended nor stopped. -/
def running (j : Job) : Nat :=
  j.stages.countP Stage.isRunning

/-- The processes of the stages that have not ended. -/
def outstandingPids (j : Job) : List Pid :=
  (j.stages.filter fun s => !s.status.isFinished).filterMap Stage.pid

/-- Marks every unfinished stage continued. -/
def markContinued (j : Job) : Job :=
  { j with stages := j.stages.map Stage.markContinued }

end Job

end JobControl
