import JobControl.Machine.Activity
import JobControl.Text.Blank

/-!
# Installed programs

A utility works on three descriptors and ends with an exit code.  It is an activity that hands its
code on, so that a script can run it as one of its steps.
-/

set_option autoImplicit false

namespace JobControl

/-- The descriptors a utility works on. -/
structure Streams where
  input : Nat
  output : Nat
  errors : Nat
deriving DecidableEq, Repr

namespace Streams

/-- Standard input, output and error. -/
def standard : Streams :=
  ⟨0, 1, 2⟩

end Streams

namespace Utility

/-- A utility: the word it was called by, its arguments, its descriptors, and what follows its exit
code. -/
abbrev Run := String → List String → Streams → (Nat → Activity) → Activity

/-- Reports a failure and ends with a code. -/
def fail (s : Streams) (text : String) (code : Nat) (done : Nat → Activity) : Activity :=
  .say s.errors (text ++ "\n") (done code)

/-- Writes the result and ends, successfully if it could be written. -/
def finish (name : String) (s : Streams) (data : ByteArray) (code : Nat)
    (done : Nat → Activity) : Activity :=
  .write s.output data fun failure =>
    match failure with
    | none => done code
    | some e => fail s (name ++ ": write error: " ++ e.wording) 1 done

/-- The names of the input files; `-` is standard input, and so is the lack of a name. -/
def operands (arguments : List String) : List String :=
  if arguments.isEmpty then ["-"] else arguments

/-- Letters given as options before the operands; `--` ends the options. -/
def splitOptions : List String → List Char × List String
  | [] => ([], [])
  | word :: rest =>
    match word.toList with
    | ['-'] => let (letters, names) := splitOptions rest; (letters, word :: names)
    | ['-', '-'] => ([], rest)
    | '-' :: letters => let (more, names) := splitOptions rest; (letters ++ more, names)
    | _ => let (letters, names) := splitOptions rest; (letters, word :: names)

/-- The first letter that is no option of the utility. -/
def unknownLetter? (known : List Char) (letters : List Char) : Option Char :=
  letters.find? fun c => !known.contains c

/-- The complaint about an unknown option. -/
def badOption (name : String) (letter : Char) (s : Streams) (code : Nat)
    (done : Nat → Activity) : Activity :=
  fail s (name ++ ": invalid option -- '" ++ letter.toString ++ "'\nTry '" ++ name ++
    " --help' for more information.") code done

/-- A file name as complaints show it: quoted if the command interpreter would need quotes. -/
def shownName (name : String) : String :=
  let plain (c : Char) : Bool := c.isAlphanum || "%+,-./:=@_^".toList.contains c || 0x80 ≤ c.toNat
  if name ≠ "" && name.toList.all plain then name else "'" ++ name ++ "'"

end Utility

end JobControl
