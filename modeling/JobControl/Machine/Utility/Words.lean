import JobControl.Machine.Utility.Basic

/-!
# Utilities without input

`echo` prints its arguments, `pwd` the working directory, and `sleep` waits.
-/

set_option autoImplicit false

namespace JobControl.Utility

/-- `echo` understands `-n` and ignores `-e` and `-E` on text without backslashes. -/
def echo : Run := fun name arguments s done =>
  let isOption (word : String) : Bool :=
    match word.toList with
    | '-' :: c :: rest => (c :: rest).all fun c => ['n', 'e', 'E'].contains c
    | _ => false
  let options := arguments.takeWhile isOption
  let words := arguments.dropWhile isOption
  let newline := !options.any fun word => word.toList.contains 'n'
  finish name s ((" ".intercalate words ++ if newline then "\n" else "").toUTF8) 0 done

/-- `pwd` prints the working directory. -/
def pwd : Run := fun name arguments s done =>
  let (letters, names) := splitOptions arguments
  match unknownLetter? ['L', 'P'] letters with
  | some c => badOption name c s 1 done
  | none =>
    .say s.errors (if names.isEmpty then "" else name ++ ": ignoring non-option arguments\n")
      (.directory fun result =>
        match result with
        | .ok path => finish name s (path ++ "\n").toUTF8 0 done
        | .error _ =>
          fail s (name ++ ": couldn't find directory entry in '..' with matching i-node") 1 done)

/-- A time in milliseconds: decimal digits with an optional fraction and unit. -/
def duration? (text : String) : Option Nat :=
  let digits (cs : List Char) : Nat := cs.foldl (fun n c => 10 * n + (c.toNat - '0'.toNat)) 0
  let whole := text.toList.takeWhile Char.isDigit
  let afterWhole := text.toList.dropWhile Char.isDigit
  let (fraction, rest) :=
    match afterWhole with
    | '.' :: more => (more.takeWhile Char.isDigit, more.dropWhile Char.isDigit)
    | _ => ([], afterWhole)
  let unit? : Option Nat :=
    match rest with
    | [] => some 1
    | ['s'] => some 1
    | ['m'] => some 60
    | ['h'] => some 3600
    | ['d'] => some 86400
    | _ => none
  if whole.isEmpty && fraction.isEmpty then none
  else
    unit?.map fun unit =>
      (1000 * digits whole + 1000 * digits fraction / Nat.pow 10 fraction.length) * unit

/-- `sleep` sleeps for the sum of its arguments. -/
def sleep : Run := fun name arguments s done =>
  let help := "\nTry '" ++ name ++ " --help' for more information."
  let (letters, arguments) := splitOptions arguments
  if arguments.isEmpty ∧ letters.isEmpty then fail s (name ++ ": missing operand" ++ help) 1 done
  else
    match letters.head?, arguments.find? fun word => (duration? word).isNone with
    | some c, _ => badOption name c s 1 done
    | none, some word =>
      fail s (name ++ ": invalid time interval '" ++ word ++ "'" ++ help) 1 done
    | none, none => .sleep ((arguments.filterMap duration?).foldl (· + ·) 0) (done 0)

end JobControl.Utility
