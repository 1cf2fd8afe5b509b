import JobControl.Machine.Utility.Copying

/-!
# Counting

`wc` counts lines, words, characters and bytes of its files.
-/

set_option autoImplicit false

namespace JobControl.Utility

/-- Lines, words, characters and bytes of some data. -/
structure Counts where
  lines : Nat
  words : Nat
  chars : Nat
  bytes : Nat
deriving DecidableEq, Repr

namespace Counts

/-- Counts some data.  A word is a run of bytes without blanks that holds a printable one. -/
def of (data : ByteArray) : Counts where
  lines := data.toList.count 10
  words := (data.toList.splitOnP fun b => b == 32 || (9 ≤ b && b ≤ 13)).countP fun w =>
    w.any fun b => 33 ≤ b && b ≤ 126
  chars := data.size
  bytes := data.size

/-- Adds two counts. -/
def add (a b : Counts) : Counts :=
  ⟨a.lines + b.lines, a.words + b.words, a.chars + b.chars, a.bytes + b.bytes⟩

/-- The counts that option letters ask for, in their fixed order. -/
def shown (c : Counts) (letters : List Char) : List Nat :=
  let has := letters.contains
  if letters.isEmpty then [c.lines, c.words, c.bytes]
  else
    (if has 'l' then [c.lines] else []) ++ (if has 'w' then [c.words] else []) ++
    (if has 'm' then [c.chars] else []) ++ (if has 'c' then [c.bytes] else [])

end Counts

/-- One line of counts. -/
def countLine (width : Nat) (counts : List Nat) (file : String) : String :=
  " ".intercalate (counts.map (padded width)) ++
    (if file = "" then "" else " " ++ shownName file) ++ "\n"

/-- The sizes of the regular files among the inputs, as far as they are known before reading. -/
def sizes (s : Streams) (next : List (Option Nat) → Activity) :
    List String → List (Option Nat) → Activity
  | [], got => next got.reverse
  | file :: rest, got =>
    if file = "-" then .size s.input fun n => sizes s next rest (n :: got)
    else
      .openRead file fun opened =>
        match opened with
        | .error _ => sizes s next rest (some 0 :: got)
        | .ok d => .size d fun n => .close d (sizes s next rest (n :: got))

/-- `wc` counts its files, or its input.  A single number stands alone; several are aligned to the
total size of the files, and to seven places if the size of one is unknown. -/
def wc : Run := fun name arguments s done =>
  let (letters, names) := splitOptions arguments
  match unknownLetter? ['l', 'w', 'm', 'c'] letters with
  | some c => badOption name c s 1 done
  | none =>
    let files := operands names
    let single := files.length == 1 && (letters.eraseDups).length == 1
    sizes s (fun known =>
      let total := (known.filterMap id).foldl (· + ·) 0
      let width :=
        if single then 1
        else max (toString total).length (if known.contains none then 7 else 1)
      let next (got : List (String × Except Errno ByteArray)) : Activity :=
        let shownFile (file : String) : String := if names.isEmpty then "" else file
        let complaints := String.join (got.map fun (file, result) =>
          match result with
          | .error e =>
            name ++ ": " ++ (if names.isEmpty then "'standard input'" else shownName file) ++ ": " ++
              e.wording ++ "\n"
          | .ok _ => "")
        let body := String.join (got.map fun (file, result) =>
          match result with
          | .ok data => countLine width ((Counts.of data).shown letters) (shownFile file)
          | .error e =>
            if e == .eisdir then
              countLine width ((Counts.mk 0 0 0 0).shown letters) (shownFile file)
            else "")
        let sum := got.foldl
          (fun (c : Counts) (_, result) =>
            match result with
            | .ok data => c.add (Counts.of data)
            | .error _ => c)
          ⟨0, 0, 0, 0⟩
        let last := if 1 < files.length then countLine width (sum.shown letters) "total" else ""
        let code := if complaints = "" then 0 else 1
        .say s.errors complaints (finish name s (body ++ last).toUTF8 code done)
      readAll s next files []) files []

end JobControl.Utility
