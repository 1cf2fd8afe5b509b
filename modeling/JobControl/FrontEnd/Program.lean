import JobControl.FrontEnd.Loop
import JobControl.Options

/-!
# The program

With a command on its command line the program runs that line alone; otherwise it is interactive, and
it controls jobs if its input is a terminal.
-/

set_option autoImplicit false

namespace JobControl.FrontEnd

variable {κ : Type} [Kernel κ]

/-- The shell controls jobs through its terminal if it is interactive and has one. -/
def controlsJobs (o : Options) (onTerminal : Bool) : Bool :=
  o.command.isNone && onTerminal

/-- Runs the program from its start to its end. -/
def program (o : Options) (login : Login) (onTerminal : Bool) (input : List InputLine) (k : κ) :
    Session κ :=
  let s := Session.start (o.settings (controlsJobs o onTerminal)) login k
  match o.command with
  | some line => runOnce s line
  | none => loop s input

end JobControl.FrontEnd
