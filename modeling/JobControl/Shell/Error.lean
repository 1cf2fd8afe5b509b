import JobControl.Job.Table
import JobControl.Launch

/-!
# Diagnostics of the shell

A shell operation gives text to print or one diagnostic.  Diagnostics of built-in commands begin with
the command's name, all others with the shell's.
-/

set_option autoImplicit false

namespace JobControl

/-- Why a built-in command failed. -/
inductive BuiltinError
  | directory (target : String) (cause : PathError)
  | noBackgroundJob
  | noSuspendedJob
  /-- The group of a job to be resumed by this command could not be signalled; a job without a group
  has no cause. -/
  | jobNotFound (command : String) (id : Nat) (cause : Option Errno)
  | stated (text : String)
deriving DecidableEq, Repr

namespace BuiltinError

/-- The diagnostic text. -/
def message : BuiltinError → String
  | directory target cause => "cd: " ++ target ++ ": " ++ cause.message
  | noBackgroundJob => "fg: no background job"
  | noSuspendedJob => "bg: no suspended job"
  | jobNotFound command id cause =>
    command ++ ": job " ++ toString id ++ " not found" ++
      (match cause with
       | some e => ": " ++ e.message
       | none => "")
  | stated text => text

end BuiltinError

/-- Why a shell operation failed. -/
inductive ShellError
  | parse (fault : LineFault)
  | launch (cause : LaunchError)
  | tableFull (full : TableFull)
  | wait (cause : Errno)
  | builtin (cause : BuiltinError)
deriving DecidableEq, Repr

namespace ShellError

/-- The diagnostic text. -/
def message : ShellError → String
  | parse fault => "ish: " ++ fault.message
  | launch cause => "ish: " ++ cause.message
  | tableFull full => "ish: " ++ full.message
  | wait cause => "ish: waitpid: " ++ cause.message
  | builtin cause => cause.message

end ShellError

/-- Text to print, or a diagnostic. -/
abbrev Reply := Except ShellError String

end JobControl
