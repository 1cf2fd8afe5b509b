/-!
# Signals

A signal is its number.  The numbers from 1 to 31 are the standard signals and have names; the
higher ones are real-time signals, which can end a process like any other but cannot be named in a
report on it.
-/

set_option autoImplicit false

namespace JobControl

/-- A signal, by number. -/
structure Signal where
  number : Nat
deriving DecidableEq, Repr, Inhabited

namespace Signal

/-- The names of the standard signals, from number 1 on. -/
def standardNames : List String :=
  ["HUP", "INT", "QUIT", "ILL", "TRAP", "ABRT", "BUS", "FPE", "KILL", "USR1", "SEGV", "USR2",
   "PIPE", "ALRM", "TERM", "STKFLT", "CHLD", "CONT", "STOP", "TSTP", "TTIN", "TTOU", "URG",
   "XCPU", "XFSZ", "VTALRM", "PROF", "WINCH", "IO", "PWR", "SYS"]

def hup : Signal := ⟨1⟩
def int : Signal := ⟨2⟩
def quit : Signal := ⟨3⟩
def kill : Signal := ⟨9⟩
def pipe : Signal := ⟨13⟩
def term : Signal := ⟨15⟩
def chld : Signal := ⟨17⟩
def cont : Signal := ⟨18⟩
def stop : Signal := ⟨19⟩
def tstp : Signal := ⟨20⟩
def ttin : Signal := ⟨21⟩
def ttou : Signal := ⟨22⟩
def urg : Signal := ⟨23⟩
def winch : Signal := ⟨28⟩

/-- A standard signal, which a report can name. -/
def isStandard (s : Signal) : Bool :=
  1 ≤ s.number && s.number ≤ 31

/-- The name without `SIG`. -/
def name? (s : Signal) : Option String :=
  if s.number == 0 then none else standardNames[s.number - 1]?

/-- The signal of a name without `SIG`. -/
def ofName? (name : String) : Option Signal :=
  (standardNames.findIdx? (· == name)).map fun i => ⟨i + 1⟩

/-- The full name, as log lines show it. -/
def fullName (s : Signal) : String :=
  match s.name? with
  | some name => "SIG" ++ name
  | none => "SIGRT" ++ toString s.number

end Signal

end JobControl
