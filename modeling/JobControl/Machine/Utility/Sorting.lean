import JobControl.Machine.Utility.Copying

/-!
# Sorting

`sort` prints the lines of its files in the order of their bytes, or in numeric order.
-/

set_option autoImplicit false

namespace JobControl.Utility

/-- The lines of some bytes, without their newlines. -/
def lines (data : ByteArray) : List (List UInt8) :=
  match (data.toList.splitOn 10).reverse with
  | [] :: rest => rest.reverse
  | all => all.reverse

/-- Byte strings in dictionary order. -/
def bytesLe : List UInt8 → List UInt8 → Bool
  | [], _ => true
  | _ :: _, [] => false
  | a :: as, b :: bs => if a == b then bytesLe as bs else a < b

/-- The number at the beginning of a line, for the numeric order. -/
def leadingNumber (line : List UInt8) : Int :=
  let text := (line.map fun b => Char.ofNat b.toNat).dropWhile fun c => c == ' ' || c == '\t'
  let value (cs : List Char) : Int :=
    (cs.takeWhile Char.isDigit).foldl (fun n c => 10 * n + (c.toNat - '0'.toNat)) 0
  match text with
  | '-' :: rest => -value rest
  | rest => value rest

/-- The order that some option letters ask for. -/
def sortLe (letters : List Char) (a b : List UInt8) : Bool :=
  let forward (a b : List UInt8) : Bool :=
    if letters.contains 'n' && leadingNumber a != leadingNumber b then
      leadingNumber a < leadingNumber b
    else bytesLe a b
  if letters.contains 'r' then forward b a else forward a b

/-- Keeps the first of equal neighbours. -/
def dedupe (same : List UInt8 → List UInt8 → Bool) : List (List UInt8) → List (List UInt8)
  | a :: b :: rest => if same a b then dedupe same (a :: rest) else a :: dedupe same (b :: rest)
  | rest => rest
termination_by ls => ls.length

/-- `sort` prints the lines of its files in order. -/
def sort : Run := fun name arguments s done =>
  let (letters, names) := splitOptions arguments
  match unknownLetter? ['r', 'n', 'u'] letters with
  | some c => badOption name c s 2 done
  | none =>
    let next (got : List (String × Except Errno ByteArray)) : Activity :=
      let failed := got.findSome? fun (file, result) =>
        match result with
        | .error e =>
          some (name ++ (if e == .eisdir then ": read failed: " else ": cannot read: ") ++
            shownName file ++ ": " ++ e.wording)
        | .ok _ => none
      match failed with
      | some text => fail s text 2 done
      | none =>
        let all := got.flatMap fun (_, result) =>
          match result with
          | .ok data => lines data
          | .error _ => []
        let sorted := all.mergeSort (sortLe letters)
        let same (a b : List UInt8) : Bool :=
          if letters.contains 'n' then leadingNumber a == leadingNumber b else a == b
        let kept := if letters.contains 'u' then dedupe same sorted else sorted
        finish name s ⟨(kept.flatMap fun line => line ++ [10]).toArray⟩ 0 done
    readAll s next (operands names) []

end JobControl.Utility
