import JobControl.Proofs.Line.Spelling

/-!
# The grammar of a command line

What a line must look like to be a command, and which fault it has if it does not.  A segment is a
non-empty run of words followed by complete redirections (`Segment.Written`), and each of its tokens
is one of these words or part of one of these redirections.  A segment that is not so has a first
fault from the left (`Segment.Fault`), which is one of the segment as a whole or of its redirection
section (`Redirection.Fault`).

Reading follows the grammar: `Segment.ofText_eq_ok_iff` and `Segment.ofText_eq_error_iff` for a
segment, `Job.ofLine_iff_grammar` for a line.  The way there is the same for both levels.  What is
written is read, what has a fault fails with it, and every list of tokens is one or the other
(`Redirection.exists_section`, `Segment.written_or_fault`).
-/

set_option autoImplicit false

namespace JobControl

/-! ## Operators -/

/-- The tokens begin with an operator, with this text attached to it and these tokens behind it.  A
token `>` and a token that begins with `>` are an append operator together, as `>>` is; so `>` is an
operator of its own only if no other `>` follows it. -/
inductive RedirectOp.Opens : RedirectOp → List Char → List (List Char) → List (List Char) → Prop
  | input (text : List Char) (rest : List (List Char)) :
      Opens .input text rest (('<' :: text) :: rest)
  | append (text : List Char) (rest : List (List Char)) :
      Opens .append text rest (('>' :: '>' :: text) :: rest)
  | splitAppend (text : List Char) (rest : List (List Char)) :
      Opens .append text rest (['>'] :: ('>' :: text) :: rest)
  | truncate (text : List Char) (rest : List (List Char)) (whole : text.head? ≠ some '>')
      (alone : text = [] → ∀ next ∈ rest.head?, next.head? ≠ some '>') :
      Opens .truncate text rest (('>' :: text) :: rest)

namespace RedirectOp.Opens

variable {op : RedirectOp} {text path token : List Char} {rest tokens : List (List Char)}

theorem suffix (h : op.Opens text rest tokens) : rest <:+ tokens := by
  cases h with
  | input | append | truncate => exact ⟨[_], rfl⟩
  | splitAppend => exact ⟨[_, _], rfl⟩

theorem lexemes (h : op.Opens text rest tokens) :
    Lexeme.ofTokens tokens =
      .operator op :: (Lexeme.attachment text ++ Lexeme.ofTokens rest) := by
  cases h with
  | input | append | splitAppend => rw [Lexeme.ofTokens, List.cons_append]
  | truncate _ _ whole alone =>
    rw [Lexeme.ofTokens, List.cons_append]
    · rintro more rfl
      exact whole rfl
    · rintro more others rfl rfl
      exact alone rfl _ rfl rfl

/-- The text attached to an operator is its file name. -/
theorem attached (h : op.Opens path rest tokens) :
    ∃ part, Redirection.Spelled ⟨op, String.ofList path⟩ part ∧ tokens = part ++ rest := by
  have whole := Redirection.Spelled.attached op (String.ofList path)
  have split := Redirection.Spelled.splitAttached (String.ofList path)
  rw [String.toList_ofList] at whole split
  cases h with
  | input | append | truncate => exact ⟨_, whole, rfl⟩
  | splitAppend => exact ⟨_, split, rfl⟩

/-- The token behind an operator that stands alone is its file name. -/
theorem apart (h : op.Opens [] (path :: rest) tokens) :
    ∃ part, Redirection.Spelled ⟨op, String.ofList path⟩ part ∧ tokens = part ++ rest := by
  have whole := Redirection.Spelled.apart op (String.ofList path)
  have split := Redirection.Spelled.splitApart (String.ofList path)
  rw [String.toList_ofList] at whole split
  cases h with
  | input | append | truncate => exact ⟨_, whole, rfl⟩
  | splitAppend => exact ⟨_, split, rfl⟩

end RedirectOp.Opens

/-- Tokens of which the first begins like an operator begin with one. -/
theorem RedirectOp.exists_opens {token : List Char} (h : Lexeme.startsOperator token = true)
    (rest : List (List Char)) : ∃ op text others, Opens op text others (token :: rest) := by
  unfold Lexeme.startsOperator at h
  split at h
  case h_1 text => exact ⟨_, _, _, .input text rest⟩
  case h_2 text =>
    by_cases whole : text.head? = some '>'
    · obtain ⟨more, rfl⟩ := List.head?_eq_some_iff.mp whole
      exact ⟨_, _, _, .append more rest⟩
    · by_cases alone : text = [] → ∀ next ∈ rest.head?, next.head? ≠ some '>'
      · exact ⟨_, _, _, .truncate text rest whole alone⟩
      · push Not at alone
        obtain ⟨rfl, next, hnext, starts⟩ := alone
        obtain ⟨others, rfl⟩ := List.head?_eq_some_iff.mp hnext
        obtain ⟨more, rfl⟩ := List.head?_eq_some_iff.mp starts
        exact ⟨_, _, _, .splitAppend more others⟩
  case h_3 => cases h

/-! ## Redirections -/

namespace Redirection

/-- The tokens are these redirections in order, each complete with its file name, and then `rest`. -/
structure Complete (rs : List Redirection) (tokens rest : List (List Char)) : Prop where
  operands : ∀ r ∈ rs, Operand r.path.toList
  spelled : ∃ parts, List.Forall₂ Spelled rs parts ∧ tokens = parts.flatten ++ rest

/-- What is left of a redirection section begins with a fault: a word where an operator was due, or
an operator without a file name, be it that the text attached to it begins like another operator,
or that nothing is attached and no word follows. -/
inductive Fault : List (List Char) → LineFault → Prop
  | word (text : List Char) (rest : List (List Char))
      (plain : Lexeme.startsOperator text = false) :
      Fault (text :: rest) (.unexpectedWord (String.ofList text))
  | attached (op : RedirectOp) (text : List Char) (rest tokens : List (List Char))
      (opens : op.Opens text rest tokens) (operator : Lexeme.startsOperator text = true) :
      Fault tokens (.missingTarget op)
  | apart (op : RedirectOp) (rest tokens : List (List Char)) (opens : op.Opens [] rest tokens)
      (none : ∀ next ∈ rest.head?, Lexeme.startsOperator next = true) :
      Fault tokens (.missingTarget op)

variable {rs : List Redirection} {tokens rest : List (List Char)} {fault : LineFault}

namespace Complete

theorem nil (rest : List (List Char)) : Complete [] rest rest :=
  ⟨by simp, [], .nil, rfl⟩

theorem cons (h : Complete rs tokens rest) {r : Redirection} {part : List (List Char)}
    (spelled : r.Spelled part) (operand : Operand r.path.toList) :
    Complete (r :: rs) (part ++ tokens) rest := by
  obtain ⟨operands, parts, each, rfl⟩ := h
  refine ⟨?_, part :: parts, .cons spelled each, by simp⟩
  intro r' hr'
  rcases List.mem_cons.mp hr' with rfl | hr'
  · exact operand
  · exact operands r' hr'

theorem read (h : Complete rs tokens rest) :
    ofLexemes (Lexeme.ofTokens tokens) = (ofLexemes (Lexeme.ofTokens rest)).map (rs ++ ·) := by
  obtain ⟨operands, parts, each, rfl⟩ := h
  exact lexemes_spelled each operands rest

end Complete

theorem ofLexemes_fault (h : Fault tokens fault) :
    ofLexemes (Lexeme.ofTokens tokens) = .error fault := by
  cases h with
  | word text rest plain => rw [Lexeme.ofTokens_plain plain, ofLexemes]
  | attached op text rest _ opens operator =>
    obtain ⟨c, more, rfl⟩ : ∃ c more, text = c :: more := by
      cases text with
      | nil => cases operator
      | cons c more => exact ⟨c, more, rfl⟩
    rw [opens.lexemes, Lexeme.attachment, List.singleton_append, ofLexemes, if_pos operator]
    simp
  | apart op rest _ opens none =>
    rw [opens.lexemes, Lexeme.attachment, List.nil_append]
    cases rest with
    | nil => rfl
    | cons next rest =>
      obtain ⟨op', more, eq⟩ := Lexeme.ofTokens_operator (none next rfl) rest
      rw [eq]
      rfl

/-- Tokens begin with a fault, or with a complete redirection, or there are none. -/
theorem fault_or_complete (nonempty : ∀ t ∈ tokens, t ≠ []) :
    tokens = [] ∨ (∃ fault, Fault tokens fault) ∨
      ∃ (r : Redirection) (part rest : List (List Char)), r.Spelled part ∧
        Operand r.path.toList ∧ tokens = part ++ rest := by
  rcases tokens with _ | ⟨token, behind⟩
  · exact Or.inl rfl
  refine Or.inr ?_
  cases starts : Lexeme.startsOperator token with
  | false => exact Or.inl ⟨_, .word token behind starts⟩
  | true =>
    obtain ⟨op, text, rest, opens⟩ := RedirectOp.exists_opens starts behind
    cases operator : Lexeme.startsOperator text with
    | true => exact Or.inl ⟨_, .attached op text rest _ opens operator⟩
    | false =>
      by_cases empty : text = []
      · subst empty
        rcases rest with _ | ⟨next, rest⟩
        · exact Or.inl ⟨_, .apart op [] _ opens (by simp)⟩
        cases follows : Lexeme.startsOperator next with
        | true => exact Or.inl ⟨_, .apart op (next :: rest) _ opens (by simpa using follows)⟩
        | false =>
          obtain ⟨part, spelled, whole⟩ := opens.apart
          have some_text := nonempty next (opens.suffix.subset List.mem_cons_self)
          exact Or.inr ⟨_, part, rest, spelled, by simpa using ⟨some_text, follows⟩, whole⟩
      · obtain ⟨part, spelled, whole⟩ := opens.attached
        exact Or.inr ⟨_, part, rest, spelled, by simpa using ⟨empty, operator⟩, whole⟩

/-- Every redirection section is a list of complete redirections, with nothing behind them or with
a fault. -/
theorem exists_section (tokens : List (List Char)) (nonempty : ∀ t ∈ tokens, t ≠ []) :
    ∃ rs rest, Complete rs tokens rest ∧ (rest = [] ∨ ∃ fault, Fault rest fault) := by
  -- on the number of tokens, since a redirection takes one, two or three of them
  induction hn : tokens.length using Nat.strong_induction_on generalizing tokens with
  | _ n ih =>
    rcases fault_or_complete nonempty with rfl | fails | ⟨r, part, behind, spelled, operand, rfl⟩
    · exact ⟨[], [], .nil [], Or.inl rfl⟩
    · exact ⟨[], tokens, .nil tokens, Or.inr fails⟩
    · obtain ⟨first, more, rfl, -⟩ := spelled.head
      have fewer : behind.length < n := by
        rw [← hn, List.length_append, List.length_cons]
        omega
      obtain ⟨rs, rest, complete, ended⟩ := ih behind.length fewer behind
        (fun t ht => nonempty t (List.mem_append_right _ ht)) rfl
      exact ⟨r :: rs, rest, complete.cons spelled operand, ended⟩

end Redirection

/-! ## Segments -/

namespace Segment

/-- The tokens of a segment: its words, program first, none of which begins like an operator, and
then its redirections, each complete. -/
structure Written (s : Segment) (tokens : List (List Char)) : Prop where
  words : ∀ w ∈ s.words, Lexeme.startsOperator w.toList = false
  redirections : ∃ behind, tokens = s.words.map String.toList ++ behind ∧
    Redirection.Complete s.redirections behind []

/-- The first fault of the tokens of a segment: that there are none, that the first one is an
operator, or, behind the words, the fault that follows the complete redirections. -/
inductive Fault : List (List Char) → LineFault → Prop
  | empty : Fault [] .emptyCommand
  | headless (first : List Char) (rest : List (List Char))
      (operator : Lexeme.startsOperator first = true) : Fault (first :: rest) .missingProgram
  | redirection (words behind rest : List (List Char)) (rs : List Redirection) (fault : LineFault)
      (some_words : words ≠ []) (plain : ∀ w ∈ words, Lexeme.startsOperator w = false)
      (begins : ∀ token ∈ behind.head?, Lexeme.startsOperator token = true)
      (complete : Redirection.Complete rs behind rest) (found : Redirection.Fault rest fault) :
      Fault (words ++ behind) fault

variable {s : Segment} {tokens : List (List Char)} {text : List Char} {fault : LineFault}

theorem ofLexemes_written (h : s.Written tokens) :
    ofLexemes (Lexeme.ofTokens tokens) = .ok s := by
  obtain ⟨words, behind, rfl, complete⟩ := h
  have plain : ∀ w ∈ s.program.toList :: s.arguments.map String.toList,
      Lexeme.startsOperator w = false := by
    intro w hw
    obtain ⟨v, hv, rfl⟩ := List.mem_map.mp (show w ∈ s.words.map String.toList from hw)
    exact words v hv
  have begins : ∀ token ∈ behind.head?, Lexeme.startsOperator token = true := by
    obtain ⟨-, parts, each, rfl⟩ := complete
    rw [List.append_nil]
    exact Redirection.head_spelled each
  rw [Segment.words, List.map_cons, ofLexemes_words plain begins, complete.read]
  simp [Lexeme.ofTokens, Redirection.ofLexemes, Except.map]

theorem ofLexemes_fault (h : Fault tokens fault) :
    ofLexemes (Lexeme.ofTokens tokens) = .error fault := by
  cases h with
  | empty => rfl
  | headless first rest operator =>
    obtain ⟨op, more, eq⟩ := Lexeme.ofTokens_operator operator rest
    rw [eq]
    rfl
  | redirection words behind rest rs fault some_words plain begins complete found =>
    obtain ⟨program, arguments, rfl⟩ := List.exists_cons_of_ne_nil some_words
    rw [ofLexemes_words plain begins, complete.read, Redirection.ofLexemes_fault found]
    rfl

/-- Every list of tokens is that of a segment or has a fault. -/
theorem written_or_fault (nonempty : ∀ t ∈ tokens, t ≠ []) :
    (∃ s : Segment, s.Written tokens) ∨ ∃ fault, Fault tokens fault := by
  let isPlain : List Char → Bool := fun t => !Lexeme.startsOperator t
  have plain : ∀ w ∈ tokens.takeWhile isPlain, Lexeme.startsOperator w = false := by
    intro w hw
    simpa [isPlain] using List.mem_takeWhile_imp hw
  have begins : ∀ token ∈ (tokens.dropWhile isPlain).head?,
      Lexeme.startsOperator token = true := by
    intro token ht
    have stopped := List.head?_dropWhile_not isPlain tokens
    rw [ht] at stopped
    simpa [isPlain] using stopped
  have whole := List.takeWhile_append_dropWhile (p := isPlain) (l := tokens)
  generalize tokens.takeWhile isPlain = words at plain whole
  generalize tokens.dropWhile isPlain = behind at begins whole
  subst whole
  rcases words with _ | ⟨program, arguments⟩
  · refine Or.inr ?_
    rcases behind with _ | ⟨first, rest⟩
    · exact ⟨_, .empty⟩
    · exact ⟨_, .headless first rest (begins first rfl)⟩
  · obtain ⟨rs, rest, complete, rfl | ⟨fault, found⟩⟩ :=
      Redirection.exists_section behind fun t ht => nonempty t (List.mem_append_right _ ht)
    · refine Or.inl ⟨⟨String.ofList program, arguments.map String.ofList, rs⟩, ?_, behind, ?_,
        complete⟩
      · intro w hw
        obtain ⟨v, hv, rfl⟩ := List.mem_map.mp
          (show w ∈ (program :: arguments).map String.ofList from hw)
        simpa using plain v hv
      · simp [Segment.words, Function.comp_def]
    · exact Or.inr ⟨fault, .redirection _ behind rest rs fault (by simp) plain begins complete found⟩

/-- **A text is read as a segment exactly if its tokens are those of the segment.** -/
theorem ofText_eq_ok_iff : ofText text = .ok s ↔ s.Written (Lexeme.tokens text) := by
  refine ⟨fun h => ?_, ofLexemes_written⟩
  rcases written_or_fault fun t (ht : t ∈ Lexeme.tokens text) => Text.ne_nil_of_mem_words ht with
    ⟨s', written⟩ | ⟨fault, fails⟩
  · have same : ofText text = .ok s' := ofLexemes_written written
    rw [h] at same
    rwa [Except.ok.inj same]
  · have refused : ofText text = .error fault := ofLexemes_fault fails
    rw [h] at refused
    cases refused

/-- **A text is refused for a fault exactly if that is the first fault of its tokens.** -/
theorem ofText_eq_error_iff : ofText text = .error fault ↔ Fault (Lexeme.tokens text) fault := by
  refine ⟨fun h => ?_, ofLexemes_fault⟩
  rcases written_or_fault fun t (ht : t ∈ Lexeme.tokens text) => Text.ne_nil_of_mem_words ht with
    ⟨s, written⟩ | ⟨other, fails⟩
  · have read : ofText text = .ok s := ofLexemes_written written
    rw [h] at read
    cases read
  · have refused : ofText text = .error other := ofLexemes_fault fails
    rw [h] at refused
    rwa [Except.error.inj refused]

end Segment

/-! ## Lines -/

/-- **Reading a line follows the grammar.**  A blank line, and no other, gives no job.  Any other
line divides into a command and its mode; however it does, the line gives a job exactly if the
tokens between the `|` are those of segments, which the stages of the job then describe; and it is
refused for a fault exactly if that is the fault of the leftmost text between the `|` that is not a
segment. -/
theorem Job.ofLine_iff_grammar (line : String) :
    (Job.ofLine line = .ok none ↔ Text.Blank Text.isSeparator line.toList) ∧
    (¬Text.Blank Text.isSeparator line.toList →
      ∃ mode command, Line.Divides line.toList mode command) ∧
    ∀ mode command, Line.Divides line.toList mode command →
      (∀ job, Job.ofLine line = .ok (some job) ↔
        ∃ segments : List Segment,
          List.Forall₂ (fun text (s : Segment) => s.Written (Lexeme.tokens text))
            (command.splitOn '|') segments ∧
          job = { id := none, group := none, mode, command := String.ofList command,
                  stages := segments.map Stage.ofSegment }) ∧
      ∀ fault, Job.ofLine line = .error fault ↔
        ∃ before text after, command.splitOn '|' = before ++ text :: after ∧
          (∀ t ∈ before, ∃ s : Segment, s.Written (Lexeme.tokens t)) ∧
          Segment.Fault (Lexeme.tokens text) fault := by
  refine ⟨⟨fun h => ?_, Job.ofLine_of_blank⟩, Line.exists_divides, fun mode command divides => ?_⟩
  · -- a line that is not blank divides, and then reading it gives a job or an error
    by_contra solid
    obtain ⟨mode, command, divides⟩ := Line.exists_divides solid
    rw [Job.ofLine_of_divides divides] at h
    cases hs : Line.stages command <;> rw [hs] at h <;> cases h
  · simp only [← Segment.ofText_eq_ok_iff, ← Segment.ofText_eq_error_iff,
      ← Line.stages_eq_error_iff, Job.ofLine_of_divides divides]
    constructor
    · intro job
      constructor
      · intro h
        cases hs : Line.stages command with
        | error fault => rw [hs] at h; cases h
        | ok stages =>
          rw [hs] at h
          obtain ⟨segments, read, rfl⟩ := Line.stages_eq_ok_iff.mp hs
          exact ⟨segments, read, (Option.some.inj (Except.ok.inj h)).symm⟩
      · rintro ⟨segments, read, rfl⟩
        rw [Line.stages_eq_ok_iff.mpr ⟨segments, read, rfl⟩]
        rfl
    · intro fault
      cases Line.stages command <;> simp [Except.map]

/-- The second of two segments has the first fault: three `>` in a row, which are an append operator
with another operator where its file name should be. -/
theorem ofLine_iff_grammar_triple_operator :
    Line.Divides " cat <a > > b|wc >>>x&".toList .background "cat <a > > b|wc >>>x".toList ∧
      Job.ofLine " cat <a > > b|wc >>>x&" = .error (.missingTarget .append) := by
  have divides : Line.Divides " cat <a > > b|wc >>>x&".toList .background
      "cat <a > > b|wc >>>x".toList :=
    .background [' '] _ [] [] (by decide) ⟨⟨'c', "at <a > > b|wc >>>x".toList, rfl, by decide⟩,
      ⟨"cat <a > > b|wc >>>".toList, 'x', rfl, by decide⟩⟩ Text.blank_nil Text.blank_nil
      (by decide +kernel)
  have first : Segment.Written ⟨"cat", [], [⟨.input, "a"⟩, ⟨.append, "b"⟩]⟩
      (Lexeme.tokens "cat <a > > b".toList) := by
    refine ⟨by decide +kernel, [['<', 'a'], ['>'], ['>'], ['b']], by decide +kernel, ?_⟩
    exact (((Redirection.Complete.nil []).cons (.splitApart "b") ⟨by decide, by decide⟩).cons
      (.attached .input "a") ⟨by decide, by decide⟩)
  have second : Segment.Fault (Lexeme.tokens "wc >>>x".toList) (.missingTarget .append) :=
    .redirection [['w', 'c']] [['>', '>', '>', 'x']] _ [] _ (by simp) (by decide)
      (by simp [Lexeme.startsOperator]) (.nil _)
      (.attached .append ['>', 'x'] [] _ (.append _ _) rfl)
  refine ⟨divides, ?_⟩
  refine (((Job.ofLine_iff_grammar _).2.2 _ _ divides).2 _).mpr
    ⟨["cat <a > > b".toList], "wc >>>x".toList, [], by decide +kernel, ?_, second⟩
  intro t ht
  rw [List.mem_singleton.mp ht]
  exact ⟨_, first⟩

end JobControl
