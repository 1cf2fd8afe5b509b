import JobControl.FrontEnd.Loop
import Mathlib.Data.List.Basic
import Mathlib.Data.Nat.Init

/-!
# The lines of a text

A text has a line for each newline, which ends in it, and one more if anything follows the last
newline (`Text.lines`).  The input of the front end is cut as bytes.  For a text in UTF-8 that gives
the lines of the text (`InputLine.all_toUTF8`), since the byte of the newline occurs in no other
character's code.
-/

set_option autoImplicit false

namespace JobControl

namespace Text

/-- The lines of a text: each piece up to a newline, with the newline, and what follows the last
one. -/
def lines : List Char → List (List Char)
  | [] => []
  | c :: rest =>
    if c = '\n' then [c] :: lines rest
    else
      match lines rest with
      | [] => [[c]]
      | line :: more => (c :: line) :: more

variable {text rest : List Char} {c : Char}

theorem lines_eq_singleton (nonempty : text ≠ []) (h : '\n' ∉ text) : lines text = [text] := by
  induction text with
  | nil => contradiction
  | cons c rest ih =>
    simp only [List.mem_cons, not_or] at h
    cases rest with
    | nil => simp [lines, Ne.symm h.1]
    | cons d rest => rw [lines, if_neg (Ne.symm h.1), ih (List.cons_ne_nil d rest) h.2]

theorem lines_append_cons (rest : List Char) (h : '\n' ∉ text) :
    lines (text ++ '\n' :: rest) = (text ++ ['\n']) :: lines rest := by
  induction text with
  | nil => simp [lines]
  | cons c text ih =>
    simp only [List.mem_cons, not_or] at h
    rw [List.cons_append, lines, if_neg (Ne.symm h.1), ih h.2]
    rfl

/-- The code of a text in UTF-8. -/
def codes (text : List Char) : List UInt8 :=
  text.flatMap String.utf8EncodeChar

theorem codes_append (text rest : List Char) : codes (text ++ rest) = codes text ++ codes rest :=
  List.flatMap_append

/-- The byte of the newline is in no other character's code. -/
theorem newline_not_mem_code (h : c ≠ '\n') : 10 ∉ String.utf8EncodeChar c := by
  have value : c.val.toNat ≠ 10 := fun same => h (Char.ext (UInt32.toNat.inj same))
  -- a byte is the number 10 only if its number modulo 256 is
  have byte : ∀ n : Nat, (10 : UInt8) = UInt8.ofNat n → n % 256 = 10 := by
    intro n same
    simpa using (congrArg UInt8.toNat same).symm
  intro found
  unfold String.utf8EncodeChar at found
  generalize c.val.toNat = v at value found
  simp only at found
  split at found
  · have := byte _ (List.mem_singleton.mp found)
    omega
  · split at found
    · simp only [List.mem_cons, List.not_mem_nil, or_false] at found
      rcases found with found | found <;> have := byte _ found <;> omega
    · split at found
      · simp only [List.mem_cons, List.not_mem_nil, or_false] at found
        rcases found with found | found | found <;> have := byte _ found <;> omega
      · simp only [List.mem_cons, List.not_mem_nil, or_false] at found
        rcases found with found | found | found | found <;> have := byte _ found <;> omega

theorem newline_not_mem_codes (h : '\n' ∉ text) : 10 ∉ codes text := by
  intro found
  obtain ⟨c, hc, found⟩ := List.mem_flatMap.mp found
  exact newline_not_mem_code (fun same => h (same ▸ hc)) found

end Text

namespace InputLine

variable {text : List Char} {piece : List UInt8} {pieces : List (List UInt8)}

theorem ofBytes_codes (text : List Char) :
    ofBytes (Text.codes text) = .text (String.ofList text) := by
  have bytes : (⟨(Text.codes text).toArray⟩ : ByteArray) = (String.ofList text).toByteArray := by
    apply ByteArray.ext
    rw [String.toByteArray_ofList, List.utf8Encode, List.data_toByteArray]
    rfl
  have decoded : String.fromUTF8? ⟨(Text.codes text).toArray⟩ = some (String.ofList text) := by
    rw [bytes, String.fromUTF8?, dif_pos (String.ofList text).isValidUTF8]
    rfl
  rw [ofBytes, decoded]

theorem ofPieces_cons (h : pieces ≠ []) :
    ofPieces (piece :: pieces) = ofBytes (piece ++ [10]) :: ofPieces pieces := by
  obtain ⟨next, rest, rfl⟩ := List.exists_cons_of_ne_nil h
  rfl

theorem splitOn_codes (clear : '\n' ∉ text) :
    (Text.codes text).splitOn 10 = [Text.codes text] := by
  apply List.splitOnP_eq_singleton
  intro b hb
  have other : b ≠ 10 := fun h => Text.newline_not_mem_codes clear (h ▸ hb)
  simp [other]

/-- Cutting the code of a text gives the lines of the text. -/
theorem ofPieces_codes (text : List Char) : ofPieces ((Text.codes text).splitOn 10) =
    (Text.lines text).map fun line => .text (String.ofList line) := by
  induction hn : text.length using Nat.strong_induction_on generalizing text with
  | _ n ih =>
    by_cases ended : '\n' ∈ text
    · -- the first line ends at the first newline
      obtain ⟨first, rest, rfl, clear⟩ := List.eq_append_cons_of_mem ended
      have shorter : rest.length < n := by
        simp only [List.length_append, List.length_cons] at hn
        omega
      have code : Text.codes (first ++ '\n' :: rest) =
          Text.codes first ++ 10 :: Text.codes rest := Text.codes_append first ('\n' :: rest)
      have pieces : (Text.codes (first ++ '\n' :: rest)).splitOn 10 =
          Text.codes first :: (Text.codes rest).splitOn 10 := by
        rw [code]
        unfold List.splitOn
        rw [List.splitOnP_append_cons _ _ rfl]
        exact congrArg (· ++ _) (splitOn_codes clear)
      have line : Text.codes first ++ [10] = Text.codes (first ++ ['\n']) :=
        (Text.codes_append first ['\n']).symm
      have more : (Text.codes rest).splitOn 10 ≠ [] := List.splitOnP_ne_nil _ _
      rw [pieces, ofPieces_cons more, ih _ shorter rest rfl, Text.lines_append_cons rest clear,
        line, ofBytes_codes]
      rfl
    · rw [splitOn_codes ended]
      cases text with
      | nil => rfl
      | cons c rest =>
        have nonempty : (Text.codes (c :: rest)).isEmpty = false := by
          simp [Text.codes, String.utf8EncodeChar_ne_nil]
        rw [Text.lines_eq_singleton (List.cons_ne_nil c rest) ended, ofPieces, nonempty,
          ofBytes_codes]
        rfl

theorem toList_loop (bytes : ByteArray) (i : Nat) (seen : List UInt8) :
    ByteArray.toList.loop bytes i seen = seen.reverse ++ bytes.data.toList.drop i := by
  fun_induction ByteArray.toList.loop bytes i seen with
  | case1 i seen h ih =>
    have bound : i < bytes.data.toList.length := by simpa using h
    rw [ih, List.drop_eq_getElem_cons bound]
    simp [ByteArray.get!, h]
  | case2 i seen h =>
    have bound : bytes.data.toList.length ≤ i := by simpa using Nat.le_of_not_lt h
    simp [List.drop_eq_nil_of_le bound]

/-- **A text is read line by line.** -/
theorem all_toUTF8 (text : String) : all text.toUTF8 =
    (Text.lines text.toList).map fun line => .text (String.ofList line) := by
  have bytes : text.toUTF8.toList = Text.codes text.toList := by
    conv_lhs => rw [← String.ofList_toList (s := text)]
    rw [String.toUTF8_eq_toByteArray, String.toByteArray_ofList, ByteArray.toList, toList_loop]
    exact List.toList_data_toByteArray
  rw [all, bytes, ofPieces_codes]

end InputLine

end JobControl
