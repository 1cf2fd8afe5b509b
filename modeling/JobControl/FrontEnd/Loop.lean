import JobControl.Shell.Builtin

/-!
# The front end

The front end answers `jobs` itself and passes every other line to the shell.  It prints replies on
standard output and diagnostics on standard error.  Interactively it polls and prompts before each
line it reads, until the input ends or the shell is asked to exit.
-/

set_option autoImplicit false

namespace JobControl

/-- One line of input, with its newline if it has one, or bytes that are no text. -/
inductive InputLine
  | text (line : String)
  | undecodable
deriving DecidableEq, Repr

namespace InputLine

/-- A line from its bytes. -/
def ofBytes (bytes : List UInt8) : InputLine :=
  match String.fromUTF8? ⟨bytes.toArray⟩ with
  | some line => text line
  | none => undecodable

/-- Input from its pieces between newlines: every piece but the last ends in a newline, and a last
piece without bytes is no line. -/
def ofPieces : List (List UInt8) → List InputLine
  | [] => []
  | [last] => if last.isEmpty then [] else [ofBytes last]
  | piece :: rest => ofBytes (piece ++ [10]) :: ofPieces rest

/-- The lines of an input. -/
def all (input : ByteArray) : List InputLine :=
  ofPieces (input.toList.splitOn 10)

end InputLine

namespace FrontEnd

/-- The word the front end answers itself. -/
def listCommand : String := "jobs"

/-- The line's first word, between Unicode white space. -/
def firstWord? (line : String) : Option String :=
  (Text.words Text.isWhiteSpace line.toList).head?.map String.ofList

variable {κ : Type} [Kernel κ]

/-- Answers one line. -/
def dispatch (s : Session κ) (line : String) : Reply × Session κ :=
  if firstWord? line = some listCommand then (.ok s.listJobs, s) else s.run line

/-- Prints a reply. -/
def emit (s : Session κ) (reply : Reply) : Session κ :=
  match reply with
  | .ok text => { s with kernel := Kernel.writeOutput text s.kernel }
  | .error e => { s with kernel := Kernel.writeError (e.message ++ "\n") s.kernel }

/-- Polls and prints what there is to report. -/
def pollAndEmit (s : Session κ) : Session κ :=
  let (text, s) := s.poll
  emit s (.ok text)

/-- Answers one line and prints the reply. -/
def answer (s : Session κ) (line : String) : Session κ :=
  let (reply, s) := dispatch s line
  emit s reply

/-- Runs a single line, then collects what finished meanwhile. -/
def runOnce (s : Session κ) (line : String) : Session κ :=
  pollAndEmit (answer s line)

/-- What happens before a line is read. -/
def ready (s : Session κ) : Session κ :=
  let s := pollAndEmit s
  emit s (.ok s.prompt)

/-- The interactive loop over the lines of the input. -/
def loop (s : Session κ) : List InputLine → Session κ
  | [] => (ready s).shutdown
  | .undecodable :: _ => ((ready s).log .inputUnreadable).shutdown
  | .text line :: rest =>
    let s := answer (ready s) line
    if s.shell.exitRequested then s.shutdown else loop s rest

end FrontEnd

end JobControl
