import JobControl.FrontEnd.Loop
import JobControl.Machine.System
import JobControl.Proofs.Text.Words

/-!
# Whose line it is

The front end looks for the word it answers itself before a line is read: the first word of the line
is `jobs`, where words are cut at Unicode white space.  The reader of lines cuts tokens elsewhere, at
the five separators and at `|`.  Neither class contains the other: bell and `|` are no white space,
and white space like a no-break space or a vertical tab is no separator.

The tokens are those of the line as it is written (`Line.tokens`).  The reader takes a `&` off the end
of a line before it cuts, so that in `jobs&` the token is `jobs&` and the program is `jobs`.

A line is *disputed* (`Disputed`) if `jobs` stands free in it by one of the two classes, but next to
a character on which they differ.  On every other line the front end goes by the first token of the
line, and on a disputed one it goes against it (`dispatch_by_token`).
-/

set_option autoImplicit false

namespace JobControl

/-! ## The tokens of a line -/

namespace Line

/-- The characters between tokens: the separators, and `|` between segments. -/
def isBoundary (c : Char) : Bool :=
  Text.isSeparator c || c == '|'

/-- The tokens of a line as it is written, with the `&` at its end if there is one: those of its
segments, in order. -/
def tokens (text : List Char) : List (List Char) :=
  (text.splitOn '|').flatMap Lexeme.tokens

theorem tokens_append_cons (xs ys : List Char) :
    tokens (xs ++ '|' :: ys) = tokens xs ++ tokens ys := by
  have parts : (xs ++ '|' :: ys).splitOn '|' = xs.splitOn '|' ++ ys.splitOn '|' :=
    List.splitOnP_append_cons xs ys (beq_self_eq_true '|')
  rw [tokens, parts, List.flatMap_append]
  rfl

/-- The tokens are the words between boundaries. -/
theorem tokens_eq_words (text : List Char) : tokens text = Text.words isBoundary text := by
  induction hn : text.length using Nat.strong_induction_on generalizing text with
  | _ n ih =>
    by_cases piped : '|' ∈ text
    · -- the parts before and behind one of the `|` have their tokens by induction
      obtain ⟨xs, ys, rfl⟩ := List.append_of_mem piped
      have lengths : xs.length < n ∧ ys.length < n := by
        simp only [List.length_append, List.length_cons] at hn
        omega
      rw [tokens_append_cons, ih _ lengths.1 xs rfl, ih _ lengths.2 ys rfl,
        ← Text.words_append_cons (show isBoundary '|' = true from rfl)]
    · have same : ∀ c ∈ text, Text.isSeparator c = isBoundary c := by
        intro c hc
        have other : c ≠ '|' := fun h => piped (h ▸ hc)
        simp [isBoundary, other]
      have single : text.splitOn '|' = [text] := by
        apply List.splitOnP_eq_singleton
        intro c hc
        have other : c ≠ '|' := fun h => piped (h ▸ hc)
        simp [other]
      simp only [tokens, single, List.flatMap_cons, List.flatMap_nil, List.append_nil,
        Lexeme.tokens]
      exact Text.words_congr same

end Line

namespace FrontEnd

/-! ## The word that stands free -/

/-- A word between this text and that one stands free: what is before it, and what follows it
directly, is in the class. -/
structure Margins (p : Char → Bool) (gap rest : List Char) : Prop where
  before : Text.Blank p gap
  after : ∀ c ∈ rest.head?, p c = true

/-- The first token of the line, cut at separators and at `|` and nowhere else, is the word that the
front end answers. -/
def LeadsTokens (line : String) : Prop :=
  (Line.tokens line.toList).head? = some listCommand.toList

instance (line : String) : Decidable (LeadsTokens line) :=
  inferInstanceAs (Decidable (_ = _))

/-- The word that the front end answers stands free by white space or by the boundaries of tokens,
and a character next to it or before it is one of the two and not the other. -/
def Disputed (line : String) : Prop :=
  ∃ gap rest, line.toList = gap ++ listCommand.toList ++ rest ∧
    (Margins Text.isWhiteSpace gap rest ∨ Margins Line.isBoundary gap rest) ∧
    ∃ c ∈ gap ++ rest.head?.toList, Text.isWhiteSpace c ≠ Line.isBoundary c

variable {line : String} {gap rest gap' rest' : List Char}

theorem firstWord?_iff : firstWord? line = some listCommand ↔
    ∃ gap rest, line.toList = gap ++ listCommand.toList ++ rest ∧
      Margins Text.isWhiteSpace gap rest := by
  have isWord : Text.Word Text.isWhiteSpace listCommand.toList := by decide
  have head : firstWord? line = some listCommand ↔
      (Text.words Text.isWhiteSpace line.toList).head? = some listCommand.toList := by
    rw [firstWord?, Option.map_eq_some_iff]
    constructor
    · rintro ⟨word, found, named⟩
      rw [found, ← named, String.toList_ofList]
    · exact fun found => ⟨_, found, String.ofList_toList⟩
  rw [head, Text.head?_words_eq_some_iff]
  constructor
  · rintro ⟨gap, rest, whole, blank, -, ends⟩
    exact ⟨gap, rest, whole, blank, ends⟩
  · rintro ⟨gap, rest, whole, free⟩
    exact ⟨gap, rest, whole, free.before, isWord, free.after⟩

theorem leadsTokens_iff : LeadsTokens line ↔
    ∃ gap rest, line.toList = gap ++ listCommand.toList ++ rest ∧
      Margins Line.isBoundary gap rest := by
  have isWord : Text.Word Line.isBoundary listCommand.toList := by decide
  rw [LeadsTokens, Line.tokens_eq_words, Text.head?_words_eq_some_iff]
  constructor
  · rintro ⟨gap, rest, whole, blank, -, ends⟩
    exact ⟨gap, rest, whole, blank, ends⟩
  · rintro ⟨gap, rest, whole, free⟩
    exact ⟨gap, rest, whole, free.before, isWord, free.after⟩

/-- The word has one place behind text without its first letter. -/
theorem place_unique (h : gap ++ listCommand.toList ++ rest = gap' ++ listCommand.toList ++ rest')
    (clear : 'j' ∉ gap) (clear' : 'j' ∉ gap') : gap = gap' ∧ rest = rest' := by
  have before : ∀ gap rest : List Char, 'j' ∉ gap →
      (gap ++ listCommand.toList ++ rest).takeWhile (· != 'j') = gap := by
    intro gap rest clear
    have spared : ∀ c ∈ gap, (c != 'j') = true := by
      intro c hc
      simpa using fun h : c = 'j' => clear (h ▸ hc)
    rw [List.append_assoc, List.takeWhile_append_of_pos spared]
    exact List.append_nil gap
  have same : gap = gap' := by rw [← before gap rest clear, h, before gap' rest' clear']
  subst same
  exact ⟨rfl, by simpa using h⟩

theorem Margins.clear {p : Char → Bool} (free : Margins p gap rest) (letter : p 'j' = false) :
    'j' ∉ gap := by
  intro h
  have := free.before 'j' h
  rw [letter] at this
  cases this

theorem Margins.congr {p q : Char → Bool} (free : Margins p gap rest)
    (agree : ∀ c ∈ gap ++ rest.head?.toList, p c = q c) : Margins q gap rest where
  before := fun c hc => (agree c (List.mem_append_left _ hc)).symm.trans (free.before c hc)
  after := fun c hc => by
    have listed : c ∈ rest.head?.toList := Option.mem_toList.mpr hc
    exact (agree c (List.mem_append_right _ listed)).symm.trans (free.after c hc)

/-- A line is disputed if and only if the front end and the reader of lines see a different first
word. -/
theorem disputed_iff : Disputed line ↔ ¬(firstWord? line = some listCommand ↔ LeadsTokens line) := by
  rw [firstWord?_iff, leadsTokens_iff]
  constructor
  · rintro ⟨gap, rest, whole, free, c, hc, differs⟩ same
    -- the word stands in one place only, and there it would stand free by both classes
    have both : Margins Text.isWhiteSpace gap rest ∧ Margins Line.isBoundary gap rest := by
      rcases free with free | free
      · obtain ⟨gap', rest', whole', free'⟩ := same.mp ⟨gap, rest, whole, free⟩
        obtain ⟨rfl, rfl⟩ := place_unique (whole.symm.trans whole') (free.clear (by decide))
          (free'.clear (by decide))
        exact ⟨free, free'⟩
      · obtain ⟨gap', rest', whole', free'⟩ := same.mpr ⟨gap, rest, whole, free⟩
        obtain ⟨rfl, rfl⟩ := place_unique (whole.symm.trans whole') (free.clear (by decide))
          (free'.clear (by decide))
        exact ⟨free', free⟩
    apply differs
    rcases List.mem_append.mp hc with hc | hc
    · rw [both.1.before c hc, both.2.before c hc]
    · have hc := Option.mem_toList.mp hc
      rw [both.1.after c hc, both.2.after c hc]
  · intro differ
    by_contra undisputed
    have agree : ∀ gap rest, line.toList = gap ++ listCommand.toList ++ rest →
        Margins Text.isWhiteSpace gap rest ∨ Margins Line.isBoundary gap rest →
        ∀ c ∈ gap ++ rest.head?.toList, Text.isWhiteSpace c = Line.isBoundary c := by
      intro gap rest whole free c hc
      by_contra differs
      exact undisputed ⟨gap, rest, whole, free, c, hc, differs⟩
    apply differ
    constructor
    · rintro ⟨gap, rest, whole, free⟩
      exact ⟨gap, rest, whole, free.congr (agree gap rest whole (Or.inl free))⟩
    · rintro ⟨gap, rest, whole, free⟩
      refine ⟨gap, rest, whole, free.congr fun c hc => ?_⟩
      exact (agree gap rest whole (Or.inr free) c hc).symm

/-! ## Where a line goes -/

/-- **Which lines the front end answers.**  On a line that is not disputed it goes by the first token
that the reader of lines finds, and on a disputed line it goes against it.  So two lines without a
dispute and with the same first token go to the same place. -/
theorem dispatch_by_token (line : String) :
    (¬Disputed line → ∀ (κ : Type) [Kernel κ] (s : Session κ),
      dispatch s line = if LeadsTokens line then (.ok s.listJobs, s) else s.run line) ∧
    (Disputed line → ∀ (κ : Type) [Kernel κ] (s : Session κ),
      dispatch s line = if LeadsTokens line then s.run line else (.ok s.listJobs, s)) ∧
    ∀ other : String, ¬Disputed line → ¬Disputed other →
      (Line.tokens other.toList).head? = (Line.tokens line.toList).head? →
      ∀ (κ : Type) [Kernel κ] (s : Session κ),
        (dispatch s line = (.ok s.listJobs, s) ∧ dispatch s other = (.ok s.listJobs, s)) ∨
          (dispatch s line = s.run line ∧ dispatch s other = s.run other) := by
  have undisputed : ∀ line, ¬Disputed line → ∀ (κ : Type) [Kernel κ] (s : Session κ),
      dispatch s line = if LeadsTokens line then (.ok s.listJobs, s) else s.run line := by
    intro line clear κ _ s
    have same : firstWord? line = some listCommand ↔ LeadsTokens line := by
      rwa [disputed_iff, not_not] at clear
    simp only [dispatch, same]
  refine ⟨undisputed line, ?_, ?_⟩
  · intro disputed κ _ s
    have differ := disputed_iff.mp disputed
    by_cases leads : LeadsTokens line
    · have other : ¬firstWord? line = some listCommand := fun h => differ (iff_of_true h leads)
      rw [dispatch, if_neg other, if_pos leads]
    · have first : firstWord? line = some listCommand := by
        by_contra other
        exact differ (iff_of_false other leads)
      rw [dispatch, if_pos first, if_neg leads]
  · intro other clear clear' alike κ _ s
    rw [undisputed line clear κ s, undisputed other clear' κ s]
    by_cases leads : LeadsTokens line
    · have leads' : LeadsTokens other := alike.trans leads
      rw [if_pos leads, if_pos leads']
      exact Or.inl ⟨rfl, rfl⟩
    · have leads' : ¬LeadsTokens other := fun h => leads (alike.symm.trans h)
      rw [if_neg leads, if_neg leads']
      exact Or.inr ⟨rfl, rfl⟩

/-- A shell that has just been started. -/
def idleShell : Session Machine :=
  .start ⟨true, "$ ", 4, false⟩ ⟨"user", "/"⟩ (Machine.boot .bare FileTree.root .sink)

/-- A bell further on in the line makes no dispute, and neither does a carriage return behind the
word; a bell before the word does. -/
theorem dispatch_by_token_bell :
    ¬Disputed "\tjobs\r\x07 all" ∧ ¬Disputed "jobs" ∧ Disputed "\x07jobs" ∧
      dispatch idleShell "\tjobs\r\x07 all" = (.ok idleShell.listJobs, idleShell) ∧
      dispatch idleShell "\x07jobs" = idleShell.run "\x07jobs" ∧
      (dispatch idleShell "\tjobs\r\x07 all" = (.ok idleShell.listJobs, idleShell) ∧
          dispatch idleShell "jobs" = (.ok idleShell.listJobs, idleShell) ∨
        dispatch idleShell "\tjobs\r\x07 all" = idleShell.run "\tjobs\r\x07 all" ∧
          dispatch idleShell "jobs" = idleShell.run "jobs") := by
  have clear : ¬Disputed "\tjobs\r\x07 all" := by
    rw [disputed_iff]
    decide +kernel
  have clear' : ¬Disputed "jobs" := by
    rw [disputed_iff]
    decide +kernel
  have disputed : Disputed "\x07jobs" := by
    rw [disputed_iff]
    decide +kernel
  refine ⟨clear, clear', disputed, ?_, ?_, ?_⟩
  · rw [(dispatch_by_token _).1 clear, if_pos (by decide +kernel)]
  · rw [(dispatch_by_token _).2.1 disputed, if_pos (by decide +kernel)]
  · exact (dispatch_by_token _).2.2 "jobs" clear clear' (by decide +kernel) Machine idleShell

/-- **The front end overlooks the word before a pipe, and finds it in a longer token.**  `jobs|cat`
has the first token `jobs` and is run; with a blank before the `|`, which the reader of lines does
not tell apart, it is answered; and so is a line whose first token ends in a no-break space. -/
theorem dispatch_misses_token :
    LeadsTokens "jobs|cat &" ∧ (dispatch idleShell "jobs|cat &").1 ≠ .ok idleShell.listJobs ∧
      Line.tokens "jobs |cat &".toList = Line.tokens "jobs|cat &".toList ∧
      (dispatch idleShell "jobs |cat &").1 = .ok idleShell.listJobs ∧
      ¬LeadsTokens "jobs\u00a0&" ∧ (idleShell.run "jobs\u00a0&").1 ≠ .ok idleShell.listJobs ∧
      (dispatch idleShell "jobs\u00a0&").1 = .ok idleShell.listJobs := by
  decide +kernel

end FrontEnd

end JobControl
