import JobControl.Job.Table

/-!
# Status lines

Two texts show a job.  The *report* has a line per stage with process id, status and program; the
*listing* names the process ids on one line.  Both begin with the number of the job in brackets.
-/

set_option autoImplicit false

namespace JobControl

/-- The number of a job in brackets. -/
def Job.label (id : Nat) : String :=
  "[" ++ toString id ++ "]"

/-- The report's fields of a stage. -/
def Stage.fields (s : Stage) : String :=
  "\t" ++ toString s.shownPid ++ "\t" ++ s.status.word ++ "\t" ++ s.program

/-- The report's lines of some stages: a stage that feeds another one ends in `|`. -/
def Stage.reportLines : List Stage → String
  | [] => ""
  | [s] => s.fields ++ "\n"
  | s :: rest => s.fields ++ "|\n" ++ reportLines rest

/-- The report on a job under a number. -/
def Job.report (id : Nat) (j : Job) : String :=
  match j.stages with
  | [] => label id ++ "\n"
  | stages => label id ++ Stage.reportLines stages

/-- The listing of a job under a number. -/
def Job.listing (id : Nat) (j : Job) : String :=
  label id ++ String.join (j.stages.map fun s => " " ++ toString s.shownPid) ++ "\n"

/-- The reports on all jobs, in order of their numbers. -/
def JobTable.report (t : JobTable) : String :=
  String.join (t.toList.map fun (id, job) => job.report id)

end JobControl
