import JobControl.FrontEnd.Program
import JobControl.Machine.Layout
import JobControl.Machine.System

/-!
# Command line

Reads the options and the whole input, runs the program on a new machine, and prints what the machine
has on its standard output and standard error.
-/

set_option autoImplicit false

open JobControl

/-- Reads a stream to its end. -/
partial def readAll (stream : IO.FS.Stream) (sofar : ByteArray) : IO ByteArray := do
  let piece ← stream.read 65536
  if piece.isEmpty then return sofar
  readAll stream (sofar ++ piece)

/-- Prints what arrived on the standard error of a machine. -/
def printDiagnostics (filter : Filter) (m : Machine) : IO Unit := do
  let errors ← IO.getStderr
  for d in m.diagnostics do
    match d with
    | .text data => errors.write data
    | .event e => if filter.admits e then errors.putStrLn e.line

/-- Runs the program with its options. -/
def runWith (o : Options) : IO Unit := do
  let input ← readAll (← IO.getStdin) .empty
  let user := (← IO.getEnv "USER").getD "root"
  let home := (← IO.getEnv "HOME").getD "/root"
  let (directory, files) := FileTree.installed.makeDirectories FileTree.root home
  let channel := if o.command.isSome then Channel.text input else Channel.sink
  let machine := Machine.boot files directory channel
  let s := FrontEnd.program o ⟨user, home⟩ false (InputLine.all input) machine
  (← IO.getStdout).write s.kernel.output
  printDiagnostics (o.filter (← IO.getEnv "ISH_LOG")) s.kernel

/-- The program. -/
def main (args : List String) : IO UInt32 := do
  match Options.parse args with
  | .ok o => runWith o; return 0
  | .error .help => IO.print Options.helpText; return 0
  | .error .version => IO.print Options.versionText; return 0
  | .error stop => IO.eprintln stop.message; return stop.exitCode.toUInt32
