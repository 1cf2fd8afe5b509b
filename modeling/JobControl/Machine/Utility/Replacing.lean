import JobControl.Machine.Utility.Basic

/-!
# Replacing bytes

`tr` replaces the bytes of one set by those of another, drops them, or keeps one of several equal
neighbours.
-/

set_option autoImplicit false

namespace JobControl.Utility

/-- The bytes of a named class. -/
def classBytes? (name : List UInt8) : Option (List UInt8) :=
  let all (p : Char → Bool) : Option (List UInt8) :=
    some (((List.range 128).filter fun n => p (Char.ofNat n)).map Nat.toUInt8)
  let printed (c : Char) : Bool := '!' ≤ c && c ≤ '~'
  match Text.words (· == ':') (name.map fun b => Char.ofNat b.toNat) with
  | [word] =>
    match String.ofList word with
    | "lower" => all Char.isLower
    | "upper" => all Char.isUpper
    | "alpha" => all Char.isAlpha
    | "digit" => all Char.isDigit
    | "alnum" => all Char.isAlphanum
    | "blank" => all fun c => c == ' ' || c == '\t'
    | "space" => all fun c => c == ' ' || ('\t' ≤ c && c ≤ '\r')
    | "punct" => all fun c => printed c && !c.isAlphanum
    | "print" => all fun c => c == ' ' || printed c
    | "graph" => all printed
    | "cntrl" => all fun c => c < ' ' || c.toNat == 127
    | _ => none
  | _ => none

/-- The bytes a set stands for: named classes, escapes, ranges and plain bytes; or the range whose
ends are in the wrong order.  The number bounds the length of the set. -/
def expandSet : Nat → List UInt8 → Except (UInt8 × UInt8) (List UInt8)
  | 0, _ => .ok []
  | _, [] => .ok []
  | n + 1, 91 :: 58 :: rest =>
    match classBytes? (rest.takeWhile (· != 93)) with
    | some bytes => (expandSet n ((rest.dropWhile (· != 93)).drop 1)).map (bytes ++ ·)
    | none => (expandSet n (58 :: rest)).map (91 :: ·)
  | n + 1, 92 :: 110 :: rest => (expandSet n rest).map (10 :: ·)
  | n + 1, 92 :: 114 :: rest => (expandSet n rest).map (13 :: ·)
  | n + 1, 92 :: 116 :: rest => (expandSet n rest).map (9 :: ·)
  | n + 1, 92 :: b :: rest => (expandSet n rest).map (b :: ·)
  | n + 1, a :: 45 :: b :: rest =>
    if b < a then .error (a, b)
    else
      (expandSet n rest).map fun more =>
        ((List.range (b.toNat + 1 - a.toNat)).map fun i => a + i.toUInt8) ++ more
  | n + 1, a :: rest => (expandSet n rest).map (a :: ·)

/-- Keeps the first of equal neighbours out of a set. -/
def squeeze (set : List UInt8) : List UInt8 → List UInt8
  | a :: b :: rest =>
    if a == b && set.contains a then squeeze set (b :: rest) else a :: squeeze set (b :: rest)
  | rest => rest

/-- What `tr` does to a byte. -/
abbrev ByteChange := UInt8 → Option UInt8

/-- Replaces the bytes of one set by those of another; the last byte stands in for missing ones. -/
def replaceBytes (old new : List UInt8) (last : UInt8) : ByteChange := fun b =>
  match old.reverse.findIdx? (· == b) with
  | some i => some (new[old.length - 1 - i]?.getD last)
  | none => some b

/-- Drops the bytes of a set. -/
def dropBytes (set : List UInt8) : ByteChange := fun b =>
  if set.contains b then none else some b

/-- `tr` changes bytes on their way, and where it squeezes repeats, after it has read them all. -/
def changeBytes (name : String) (s : Streams) (change : ByteChange) (repeats : Option (List UInt8))
    (done : Nat → Activity) : Activity :=
  let failed (doing : String) (e : Errno) : Activity :=
    fail s (name ++ ": " ++ doing ++ " error: " ++ e.wording) 1 done
  match repeats with
  | none =>
    .relay s.input s.output change fun ending =>
      match ending with
      | .finished => done 0
      | .unreadable e => failed "read" e
      | .unwritable e => failed "write" e
  | some set =>
    .gather s.input .empty fun result =>
      match result with
      | .ok data => finish name s ⟨(squeeze set (data.toList.filterMap change)).toArray⟩ 0 done
      | .error e => failed "read" e

/-- `tr` replaces, drops and squeezes bytes on their way from its input to its output. -/
def tr : Run := fun name arguments s done =>
  let (letters, sets) := splitOptions arguments
  let help := "\nTry '" ++ name ++ " --help' for more information."
  let complement (set : List UInt8) : List UInt8 :=
    ((List.range 256).map Nat.toUInt8).filter fun b => !set.contains b
  let inverted := letters.contains 'c' || letters.contains 'C'
  let drops := letters.contains 'd'
  let squeezes := letters.contains 's'
  let run (first second : List UInt8) : Activity :=
    let first := if inverted then complement first else first
    if drops then
      changeBytes name s (dropBytes first) (if squeezes then some second else none) done
    else if sets.length = 1 then changeBytes name s some (some first) done
    else
      match second.getLast? with
      | none => fail s (name ++ ": when not truncating set1, string2 must be non-empty") 1 done
      | some last =>
        changeBytes name s (replaceBytes first second last)
          (if squeezes then some second else none) done
  let bytes (set : String) : Except (UInt8 × UInt8) (List UInt8) :=
    expandSet set.utf8ByteSize set.toUTF8.toList
  let go (first second : String) : Activity :=
    match bytes first, bytes second with
    | .ok first, .ok second => run first second
    | .error (a, b), _ | _, .error (a, b) =>
      fail s (name ++ ": range-endpoints of '" ++ String.ofList
        [Char.ofNat a.toNat, '-', Char.ofNat b.toNat] ++
        "' are in reverse collating sequence order") 1 done
  let extra (word note : String) : Activity :=
    fail s (name ++ ": extra operand '" ++ word ++ "'" ++ note ++ help) 1 done
  match unknownLetter? ['d', 'c', 'C', 's'] letters with
  | some c => badOption name c s 1 done
  | none =>
    match sets with
    | [] => fail s (name ++ ": missing operand" ++ help) 1 done
    | first :: rest =>
      match rest with
      | _ :: word :: _ => extra word ""
      | [word] =>
        if drops && !squeezes then
          extra word "\nOnly one string may be given when deleting without squeezing repeats."
        else go first word
      | [] =>
        if drops && squeezes then
          fail s (name ++ ": missing operand after '" ++ first ++
            "'\nTwo strings must be given when both deleting and squeezing repeats." ++ help) 1 done
        else if !drops && !squeezes then
          fail s (name ++ ": missing operand after '" ++ first ++
            "'\nTwo strings must be given when translating." ++ help) 1 done
        else go first ""

end JobControl.Utility
