/-!
# Faults of a command line

The ways in which a line fails to be a command.  A fault is kept as its cause; `LineFault.message`
words it.
-/

set_option autoImplicit false

namespace JobControl

/-- The three redirection operators. -/
inductive RedirectOp
  | input
  | truncate
  | append
deriving DecidableEq, Repr

namespace RedirectOp

/-- The operator as it is written. -/
def symbol : RedirectOp → String
  | input => "<"
  | truncate => ">"
  | append => ">>"

end RedirectOp

/-- Why a line is not a command. -/
inductive LineFault
  | emptyCommand
  | missingProgram
  | missingTarget (op : RedirectOp)
  | unexpectedWord (word : String)
deriving DecidableEq, Repr

namespace LineFault

/-- The diagnostic text. -/
def message : LineFault → String
  | emptyCommand => "syntax error: empty command"
  | missingProgram => "syntax error: redirection without a command"
  | missingTarget op => "syntax error: missing file name after `" ++ op.symbol ++ "`"
  | unexpectedWord word => "syntax error: unexpected word `" ++ word ++ "` after redirection"

end LineFault

end JobControl
