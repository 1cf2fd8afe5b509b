import JobControl.Text.Blank
import Mathlib.Data.List.Basic
import Mathlib.Data.List.TakeWhile

/-!
# Cutting text at blanks

Text is cut into words one blank at a time (`words_append_cons`).  So a text of words with blanks
between them is cut into these words, however many blanks there are (`Joined.words_eq`), and blanks
around it do not matter, neither for its words nor for what is left after trimming it
(`trim_surround`).
-/

set_option autoImplicit false

namespace JobControl.Text

variable {p : Char → Bool} {text gap before after : List Char}

/-- Every character of the text is in the class. -/
def Blank (p : Char → Bool) (text : List Char) : Prop :=
  ∀ c ∈ text, p c = true

theorem blank_nil : Blank p [] := by
  intro c hc
  cases hc

/-- A word: not empty, and without a character of the class. -/
structure Word (p : Char → Bool) (text : List Char) : Prop where
  nonempty : text ≠ []
  clear : ∀ c ∈ text, p c = false

instance (p : Char → Bool) (text : List Char) : Decidable (Blank p text) :=
  List.decidableBAll (p · = true) text

instance (p : Char → Bool) (text : List Char) : Decidable (Word p text) :=
  decidable_of_iff (text ≠ [] ∧ Blank (! p ·) text)
    ⟨fun h => ⟨h.1, fun c hc => by simpa using h.2 c hc⟩,
      fun h => ⟨h.nonempty, fun c hc => by simpa using h.clear c hc⟩⟩

/-! ## Words -/

/-- A blank separates what stands before it from what stands after it. -/
theorem words_append_cons {c : Char} (h : p c = true) (xs ys : List Char) :
    words p (xs ++ c :: ys) = words p xs ++ words p ys := by
  simp only [words, List.splitOnP_append_cons xs ys h, List.filter_append]

theorem words_blank (h : Blank p text) : words p text = [] := by
  induction text with
  | nil => rfl
  | cons c rest ih =>
    have first := words_append_cons (h c List.mem_cons_self) [] rest
    rw [List.nil_append, ih fun d hd => h d (List.mem_cons_of_mem c hd)] at first
    rw [first]
    rfl

theorem words_word (h : Word p text) : words p text = [text] := by
  rw [words, List.splitOnP_eq_singleton h.clear]
  cases text with
  | nil => exact absurd rfl h.nonempty
  | cons c rest => rfl

/-- Blanks before a text do not matter. -/
theorem words_blank_append (h : Blank p gap) (text : List Char) :
    words p (gap ++ text) = words p text := by
  induction gap with
  | nil => rfl
  | cons c rest ih =>
    have first := words_append_cons (h c List.mem_cons_self) [] (rest ++ text)
    rw [ih fun d hd => h d (List.mem_cons_of_mem c hd)] at first
    simpa [words] using first

/-- Blanks after a text do not matter. -/
theorem words_append_blank (h : Blank p gap) (text : List Char) :
    words p (text ++ gap) = words p text := by
  cases gap with
  | nil => rw [List.append_nil]
  | cons c rest =>
    rw [words_append_cons (h c List.mem_cons_self) text rest,
      words_blank fun d hd => h d (List.mem_cons_of_mem c hd), List.append_nil]

/-- Only the characters of the text matter for its words. -/
theorem words_congr {q : Char → Bool} (h : ∀ c ∈ text, p c = q c) : words p text = words q text := by
  have pieces : text.splitOnP p = text.splitOnP q := by
    induction text with
    | nil => rfl
    | cons c rest ih =>
      rw [List.splitOnP_cons_eq_if_modifyHead, List.splitOnP_cons_eq_if_modifyHead,
        h c List.mem_cons_self, ih fun d hd => h d (List.mem_cons_of_mem c hd)]
  rw [words, words, pieces]

/-- The first word of a text stands behind blanks, and before a blank or the end. -/
theorem head?_words_eq_some_iff {word : List Char} :
    (words p text).head? = some word ↔
      ∃ gap rest, text = gap ++ word ++ rest ∧ Blank p gap ∧ Word p word ∧
        ∀ c ∈ rest.head?, p c = true := by
  have first : ∀ gap word rest, Blank p gap → Word p word → (∀ c ∈ rest.head?, p c = true) →
      (words p (gap ++ word ++ rest)).head? = some word := by
    intro gap word rest blank isWord ends
    rw [List.append_assoc, words_blank_append blank]
    cases rest with
    | nil => rw [List.append_nil, words_word isWord, List.head?_cons]
    | cons c rest =>
      rw [words_append_cons (ends c rfl), words_word isWord]
      rfl
  constructor
  · intro h
    let gap := text.takeWhile p
    let body := text.dropWhile p
    let rest := body.dropWhile (! p ·)
    have blank : Blank p gap := fun c hc => List.mem_takeWhile_imp hc
    have whole : text = gap ++ body.takeWhile (! p ·) ++ rest := by
      rw [List.append_assoc, List.takeWhile_append_dropWhile, List.takeWhile_append_dropWhile]
    have isWord : Word p (body.takeWhile (! p ·)) := by
      refine ⟨fun none => ?_, fun c hc => by simpa using List.mem_takeWhile_imp hc⟩
      cases hbody : body with
      | nil =>
        rw [words_blank (List.dropWhile_eq_nil_iff.mp hbody)] at h
        cases h
      | cons c tail =>
        have clear : ¬p c = true := by
          have := List.head?_dropWhile_not p text
          rw [show text.dropWhile p = c :: tail from hbody] at this
          simpa using this
        rw [hbody, List.takeWhile_cons_of_pos (by simpa using clear)] at none
        cases none
    have ends : ∀ c ∈ rest.head?, p c = true := by
      intro c hc
      have := List.head?_dropWhile_not (! p ·) body
      rw [show (body.dropWhile (! p ·)).head? = some c from hc] at this
      simpa using this
    have found := first gap _ rest blank isWord ends
    rw [← whole, h] at found
    exact ⟨gap, rest, Option.some.inj found ▸ whole, blank, Option.some.inj found ▸ isWord, ends⟩
  · rintro ⟨gap, rest, rfl, blank, isWord, ends⟩
    exact first gap word rest blank isWord ends

/-- Words are not empty. -/
theorem ne_nil_of_mem_words {word : List Char} (h : word ∈ words p text) : word ≠ [] := by
  simp only [words, List.mem_filter] at h
  simpa using h.2

/-- The pieces of a text hold characters of the text, and none that it was cut at. -/
theorem mem_of_mem_splitOnP {piece : List Char} (h : piece ∈ text.splitOnP p) {c : Char}
    (hc : c ∈ piece) : c ∈ text ∧ p c = false := by
  induction text generalizing piece with
  | nil =>
    rw [List.splitOnP_nil, List.mem_singleton] at h
    subst h
    cases hc
  | cons d rest ih =>
    rw [List.splitOnP_cons_eq_if_modifyHead] at h
    split at h
    case isTrue =>
      rcases List.mem_cons.mp h with rfl | h
      · cases hc
      · exact ⟨List.mem_cons_of_mem d (ih h hc).1, (ih h hc).2⟩
    case isFalse hd =>
      obtain ⟨first, others, pieces⟩ := List.exists_cons_of_ne_nil (List.splitOnP_ne_nil p rest)
      rw [pieces] at h ih
      rcases List.mem_cons.mp h with rfl | h
      · rcases List.mem_cons.mp hc with rfl | hc
        · exact ⟨List.mem_cons_self, by simpa using hd⟩
        · have := ih List.mem_cons_self hc
          exact ⟨List.mem_cons_of_mem d this.1, this.2⟩
      · have := ih (List.mem_cons_of_mem first h) hc
        exact ⟨List.mem_cons_of_mem d this.1, this.2⟩

/-- The words of a text hold characters of the text, and no blanks. -/
theorem mem_of_mem_words {word : List Char} (h : word ∈ words p text) {c : Char} (hc : c ∈ word) :
    c ∈ text ∧ p c = false :=
  mem_of_mem_splitOnP (List.mem_filter.mp h).1 hc

/-- Words with blanks between them. -/
inductive Joined (p : Char → Bool) : List (List Char) → List Char → Prop
  | single (word : List Char) : Joined p [word] word
  | cons (word gap : List Char) (more : List (List Char)) (text : List Char) (some_gap : gap ≠ [])
      (blank : Blank p gap) (rest : Joined p more text) :
      Joined p (word :: more) (word ++ gap ++ text)

namespace Joined

variable {tokens : List (List Char)}

/-- Such a text is cut into its words. -/
theorem words_eq (h : Joined p tokens text) (each : ∀ t ∈ tokens, Word p t) :
    words p text = tokens := by
  induction h with
  | single word => exact words_word (each word List.mem_cons_self)
  | cons word gap more text some_gap blank _ ih =>
    obtain ⟨c, rest, rfl⟩ := List.exists_cons_of_ne_nil some_gap
    have hc := blank c List.mem_cons_self
    have tail := ih fun t ht => each t (List.mem_cons_of_mem word ht)
    rw [List.append_assoc, List.cons_append, words_append_cons hc,
      words_word (each word List.mem_cons_self),
      words_blank_append fun d hd => blank d (List.mem_cons_of_mem c hd), tail]
    rfl

theorem mem (h : Joined p tokens text) {c : Char} (hc : c ∈ text) :
    (∃ t ∈ tokens, c ∈ t) ∨ p c = true := by
  induction h with
  | single word => exact Or.inl ⟨word, List.mem_cons_self, hc⟩
  | cons word gap more text _ blank _ ih =>
    rcases List.mem_append.mp hc with hc | hc
    · rcases List.mem_append.mp hc with hc | hc
      · exact Or.inl ⟨word, List.mem_cons_self, hc⟩
      · exact Or.inr (blank c hc)
    · rcases ih hc with ⟨t, ht, hc⟩ | hc
      · exact Or.inl ⟨t, List.mem_cons_of_mem word ht, hc⟩
      · exact Or.inr hc

end Joined

/-! ## Trimming -/

/-- A text that neither begins nor ends with a blank. -/
structure Solid (p : Char → Bool) (text : List Char) : Prop where
  first : ∃ c rest, text = c :: rest ∧ p c = false
  last : ∃ init c, text = init ++ [c] ∧ p c = false

namespace Solid

theorem of_word (h : Word p text) : Solid p text where
  first := by
    obtain ⟨c, rest, rfl⟩ := List.exists_cons_of_ne_nil h.nonempty
    exact ⟨c, rest, rfl, h.clear c List.mem_cons_self⟩
  last := by
    have whole := List.dropLast_append_getLast h.nonempty
    exact ⟨_, _, whole.symm, h.clear _ (List.getLast_mem h.nonempty)⟩

/-- What stands between two solid texts makes no difference. -/
theorem append (h : Solid p before) (between : List Char) (h' : Solid p after) :
    Solid p (before ++ between ++ after) where
  first := by
    obtain ⟨c, rest, rfl, hc⟩ := h.first
    exact ⟨c, rest ++ between ++ after, by simp, hc⟩
  last := by
    obtain ⟨init, c, rfl, hc⟩ := h'.last
    exact ⟨before ++ between ++ init, c, by simp, hc⟩

/-- Words with blanks between them are solid. -/
theorem of_joined {tokens : List (List Char)} (h : Joined p tokens text)
    (each : ∀ t ∈ tokens, Word p t) : Solid p text := by
  induction h with
  | single word => exact .of_word (each word List.mem_cons_self)
  | cons word gap more text _ _ _ ih =>
    exact (of_word (each word List.mem_cons_self)).append gap
      (ih fun t ht => each t (List.mem_cons_of_mem word ht))

end Solid

/-- Every text is followed by the blanks it ends in. -/
theorem exists_append_blank (p : Char → Bool) (text : List Char) :
    ∃ kept gap, text = kept ++ gap ∧ Blank p gap ∧
      (kept = [] ∨ ∃ init c, kept = init ++ [c] ∧ p c = false) := by
  induction text with
  | nil => exact ⟨[], [], rfl, blank_nil, Or.inl rfl⟩
  | cons c rest ih =>
    obtain ⟨kept, gap, rfl, hgap, rfl | ⟨init, d, rfl, hd⟩⟩ := ih
    · cases hc : p c with
      | false => exact ⟨[c], gap, rfl, hgap, Or.inr ⟨[], c, rfl, hc⟩⟩
      | true =>
        refine ⟨[], c :: gap, rfl, ?_, Or.inl rfl⟩
        intro e he
        rcases List.mem_cons.mp he with rfl | he
        · exact hc
        · exact hgap e he
    · exact ⟨c :: (init ++ [d]), gap, rfl, hgap, Or.inr ⟨c :: init, d, rfl, hd⟩⟩

/-- A text that is not blank is a solid text between blanks. -/
theorem exists_solid (h : ¬Blank p text) :
    ∃ before body after, text = before ++ body ++ after ∧ Blank p before ∧ Solid p body ∧
      Blank p after := by
  induction text with
  | nil => exact absurd blank_nil h
  | cons c rest ih =>
    cases hc : p c with
    | true =>
      have later : ¬Blank p rest := fun blank => h fun d hd => by
        rcases List.mem_cons.mp hd with rfl | hd
        · exact hc
        · exact blank d hd
      obtain ⟨before, body, after, rfl, hbefore, solid, hafter⟩ := ih later
      refine ⟨c :: before, body, after, rfl, ?_, solid, hafter⟩
      intro d hd
      rcases List.mem_cons.mp hd with rfl | hd
      · exact hc
      · exact hbefore d hd
    | false =>
      obtain ⟨kept, gap, rfl, hgap, ends⟩ := exists_append_blank p rest
      refine ⟨[], c :: kept, gap, rfl, blank_nil, ⟨⟨c, kept, rfl, hc⟩, ?_⟩, hgap⟩
      rcases ends with rfl | ⟨init, d, rfl, hd⟩
      · exact ⟨[], c, rfl, hc⟩
      · exact ⟨c :: init, d, rfl, hd⟩

/-- Nothing is left of a blank text. -/
theorem trim_blank (h : Blank p text) : trim p text = [] := by
  have dropped : trimStart p text = [] := List.dropWhile_eq_nil_iff.mpr h
  rw [trim, dropped]
  rfl

/-- Blanks after a solid text are dropped. -/
theorem trimEnd_append (h : Blank p gap) (solid : Solid p text) :
    trimEnd p (text ++ gap) = text := by
  obtain ⟨init, c, rfl, hc⟩ := solid.last
  have reversed : ∀ d ∈ gap.reverse, p d = true := fun d hd => h d (List.mem_reverse.mp hd)
  rw [trimEnd, List.reverse_append, List.dropWhile_append_of_pos reversed, List.reverse_append]
  simp [hc]

/-- Trimming takes the blanks around a solid text away. -/
theorem trim_surround (hbefore : Blank p before) (solid : Solid p text) (hafter : Blank p after) :
    trim p (before ++ text ++ after) = text := by
  obtain ⟨c, rest, rfl, hc⟩ := solid.first
  have start : trimStart p (before ++ (c :: rest ++ after)) = c :: rest ++ after := by
    rw [trimStart, List.dropWhile_append_of_pos hbefore, List.cons_append,
      List.dropWhile_cons_of_neg (by rw [hc]; simp)]
  rw [trim, List.append_assoc, start, trimEnd_append hafter solid]

/-- A text without a blank at its ends: it is empty or solid. -/
def Unpadded (p : Char → Bool) (text : List Char) : Prop :=
  text = [] ∨ Solid p text

/-- Trimming leaves such a text as it is. -/
theorem trim_eq_self (h : Unpadded p text) : trim p text = text := by
  rcases h with rfl | solid
  · rfl
  · simpa using trim_surround blank_nil solid blank_nil

end JobControl.Text
