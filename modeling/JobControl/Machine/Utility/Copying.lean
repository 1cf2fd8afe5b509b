import JobControl.Machine.Utility.Basic

/-!
# Copying

`cat` copies files one after the other as they come.  `readAll`, for utilities that need all of their
input first, reads the files to their ends.
-/

set_option autoImplicit false

namespace JobControl.Utility

/-- A number filled up with blanks on the left. -/
def padded (width n : Nat) : String :=
  let digits := toString n
  String.ofList (List.replicate (width - digits.length) ' ') ++ digits

/-- The reason why a file cannot be read, as most utilities give it. -/
def unreadable (name file : String) (e : Errno) : String :=
  name ++ ": " ++ shownName file ++ ": " ++ e.wording ++ "\n"

/-- Copies the files one after the other; one that would be copied onto its own end is left out. -/
def catFiles (name : String) (s : Streams) (done : Nat → Activity) : Nat → List String → Activity
  | code, [] => done code
  | code, file :: rest =>
    let skip (complaint : String) (close : Activity → Activity) : Activity :=
      .say s.errors complaint (close (catFiles name s done 1 rest))
    let copy (d : Nat) (close : Activity → Activity) : Activity :=
      .feedsItself d s.output fun endless =>
        if endless then skip (name ++ ": " ++ shownName file ++ ": input file is output file\n") close
        else
          .relay d s.output some fun ending =>
            match ending with
            | .finished => close (catFiles name s done code rest)
            | .unreadable e => skip (unreadable name file e) close
            | .unwritable e => fail s (name ++ ": write error: " ++ e.wording) 1 done
    if file = "-" then copy s.input id
    else
      .openRead file fun result =>
        match result with
        | .ok d => copy d (Activity.close d)
        | .error e => skip (unreadable name file e) id

/-- Reads all files one after the other and hands on their bytes, file by file, and for a file that
cannot be read the reason. -/
def readAll (s : Streams) (next : List (String × Except Errno ByteArray) → Activity) :
    List String → List (String × Except Errno ByteArray) → Activity
  | [], got => next got.reverse
  | file :: rest, got =>
    if file = "-" then
      .gather s.input .empty fun result => readAll s next rest ((file, result) :: got)
    else
      .openRead file fun opened =>
        match opened with
        | .error e => readAll s next rest ((file, .error e) :: got)
        | .ok d =>
          .gather d .empty fun result =>
            .close d (readAll s next rest ((file, result) :: got))

/-- What `cat` adds to its lines. -/
structure LineMarks where
  numbered : Bool
  skipEmpty : Bool
  ends : Bool
deriving DecidableEq, Repr

/-- Lines, numbered from `n` on and with their ends shown, as the marks ask for. -/
def markLines (marks : LineMarks) : Nat → List (List UInt8) → List UInt8
  | _, [] => []
  | n, line :: rest =>
    let counts := marks.numbered && !(marks.skipEmpty && line.isEmpty)
    let label := if counts then (padded 6 n ++ "\t").toUTF8.toList else []
    let last := if rest = [] then [] else if marks.ends then [36, 10] else [10]
    if rest = [] ∧ line = [] then []
    else label ++ line ++ last ++ markLines marks (if counts then n + 1 else n) rest

/-- `cat` copies its files, or its input, to its output; it can number the lines and show their
ends. -/
def cat : Run := fun name arguments s done =>
  let (letters, names) := splitOptions arguments
  let marks : LineMarks :=
    ⟨letters.contains 'n' || letters.contains 'b', letters.contains 'b', letters.contains 'E'⟩
  match unknownLetter? ['u', 'n', 'b', 'E'] letters with
  | some c => badOption name c s 1 done
  | none =>
    if !marks.numbered && !marks.ends then catFiles name s done 0 (operands names)
    else
      readAll s (fun got =>
        let complaints := String.join (got.map fun (file, result) =>
          match result with
          | .error e => unreadable name file e
          | .ok _ => "")
        let data := got.flatMap fun (_, result) => (result.toOption.getD .empty).toList
        .say s.errors complaints
          (finish name s ⟨(markLines marks 1 (data.splitOn 10)).toArray⟩
            (if complaints = "" then 0 else 1) done)) (operands names) []

end JobControl.Utility
