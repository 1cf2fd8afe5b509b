import JobControl.Shell.Builtin

/-!
# Sessions

A session starts with an empty table and goes on by operations, in any order and with any lines.
Between two operations the system may do as it likes: `Reachable` lets it be replaced by any other
state of it.
-/

set_option autoImplicit false

namespace JobControl

/-- What can be asked of a shell. -/
inductive Operation
  | run (line : String)
  | poll
  | fg
  | bg
  | cd (arguments : List String)
  | exit
  | listJobs
deriving DecidableEq, Repr

namespace Session

/-- The built-in that leads a line. -/
def leadingBuiltin? (line : String) : Option Stage :=
  match Job.ofLine line with
  | .ok (some job) => job.stages.head?.filter (·.kind.isBuiltin)
  | _ => none

variable {κ : Type} [Kernel κ]

/-- Carries out an operation, and leaves its answer aside. -/
def perform (s : Session κ) : Operation → Session κ
  | .run line => (s.run line).2
  | .poll => s.poll.2
  | .fg => s.fg.2
  | .bg => s.bg.2
  | .cd arguments => (s.cd arguments).2
  | .exit => s.exit.2
  | .listJobs => s

/-- The sessions that a shell with these settings can be in between two operations. -/
inductive Reachable (settings : Settings) (login : Login) : Session κ → Prop
  | start (k : κ) : Reachable settings login (.start settings login k)
  | perform (s : Session κ) (operation : Operation) (before : Reachable settings login s) :
      Reachable settings login (s.perform operation)
  | elapse (s : Session κ) (kernel : κ) (before : Reachable settings login s) :
      Reachable settings login { s with kernel }

end Session

end JobControl
