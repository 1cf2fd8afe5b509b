import JobControl.Proofs.Line.Fresh
import JobControl.Proofs.Line.Marker

/-!
# Spellings of a command

A command is a list of segments, and it can be written in many ways: with any separators between its
tokens, around the `|` and at the ends of the line, with file names attached to their operators or
apart from them, and with the append operator in one piece or in two.  `Line.Spelled` says that a
line is one of these ways, and `ofLine_spelled` that reading it gives the command back.

The way there follows the text from the inside: the lexemes of one redirection
(`Redirection.Spelled.lexemes`), the tokens of a segment (`Segment.ofText_spelled`), the segments
between the `|` (`Command.segments_spelled`), and the marker at the end of the line.
-/

set_option autoImplicit false

namespace JobControl

/-! ## Plain words -/

/-- A token that stands for itself, as a word or a file name: not empty, and not beginning like an
operator. -/
structure Operand (token : List Char) : Prop where
  nonempty : token ≠ []
  no_operator : Lexeme.startsOperator token = false

/-- A text that can stand as a word or a file name: not empty, without separators and `|`, and not
beginning like an operator. -/
structure Plain (text : List Char) : Prop extends Text.Word Text.isSeparator text where
  no_bar : '|' ∉ text
  no_operator : Lexeme.startsOperator text = false

/-- All words and file names of a segment are plain. -/
structure Segment.Plain (s : Segment) : Prop where
  program : JobControl.Plain s.program.toList
  arguments : ∀ a ∈ s.arguments, JobControl.Plain a.toList
  paths : ∀ r ∈ s.redirections, JobControl.Plain r.path.toList

theorem Plain.operand {text : List Char} (h : Plain text) : Operand text :=
  ⟨h.nonempty, h.no_operator⟩

instance (text : List Char) : Decidable (Plain text) :=
  decidable_of_iff
    (Text.Word Text.isSeparator text ∧ '|' ∉ text ∧ Lexeme.startsOperator text = false)
    ⟨fun h => ⟨h.1, h.2.1, h.2.2⟩, fun h => ⟨h.toWord, h.no_bar, h.no_operator⟩⟩

instance (s : Segment) : Decidable s.Plain :=
  decidable_of_iff
    (Plain s.program.toList ∧ (∀ a ∈ s.arguments, Plain a.toList) ∧
      ∀ r ∈ s.redirections, Plain r.path.toList)
    ⟨fun h => ⟨h.1, h.2.1, h.2.2⟩, fun h => ⟨h.program, h.arguments, h.paths⟩⟩

/-! ## Redirections -/

namespace Redirection

/-- The ways to write a redirection, as tokens: the file name attached or apart, and the append
operator in one piece or in two. -/
inductive Spelled : Redirection → List (List Char) → Prop
  | attached (op : RedirectOp) (path : String) :
      Spelled ⟨op, path⟩ [op.symbol.toList ++ path.toList]
  | apart (op : RedirectOp) (path : String) :
      Spelled ⟨op, path⟩ [op.symbol.toList, path.toList]
  | splitAttached (path : String) : Spelled ⟨.append, path⟩ [['>'], '>' :: path.toList]
  | splitApart (path : String) : Spelled ⟨.append, path⟩ [['>'], ['>'], path.toList]

/-- The lexemes of a redirection: the file name is attached text or a word. -/
inductive Lexemes : Redirection → List Lexeme → Prop
  | attached (op : RedirectOp) (path : String) :
      Lexemes ⟨op, path⟩ [.operator op, .attached path.toList]
  | apart (op : RedirectOp) (path : String) :
      Lexemes ⟨op, path⟩ [.operator op, .word path.toList]

end Redirection

namespace Lexeme

theorem ofTokens_plain {token : List Char} (h : startsOperator token = false)
    (rest : List (List Char)) : ofTokens (token :: rest) = word token :: ofTokens rest := by
  unfold startsOperator at h
  split at h
  · cases h
  · cases h
  · rename_i input output
    rw [ofTokens]
    · exact fun text eq => input text eq
    · exact fun text eq => output _ eq
    · intro text rest' eq
      exact absurd eq (output [])
    · exact fun text eq => output text eq

/-- A token that begins like an operator is read as one. -/
theorem ofTokens_operator {token : List Char} (h : startsOperator token = true)
    (rest : List (List Char)) : ∃ op more, ofTokens (token :: rest) = operator op :: more := by
  rw [ofTokens.eq_def]
  split
  case h_1 none => cases none
  case h_6 first others no_input _ _ no_output whole =>
    obtain ⟨rfl, -⟩ := List.cons.inj whole
    unfold startsOperator at h
    split at h
    · exact (no_input _ rfl).elim
    · exact (no_output _ rfl).elim
    · cases h
  all_goals exact ⟨_, _, rfl⟩

/-- Words are lexemes of their own. -/
theorem ofTokens_words {words : List (List Char)}
    (plain : ∀ w ∈ words, startsOperator w = false) (rest : List (List Char)) :
    ofTokens (words ++ rest) = words.map word ++ ofTokens rest := by
  induction words with
  | nil => rfl
  | cons w words ih =>
    rw [List.cons_append, ofTokens_plain (plain w List.mem_cons_self),
      ih fun v hv => plain v (List.mem_cons_of_mem w hv)]
    rfl

end Lexeme

namespace RedirectOp

theorem symbol_toList (op : RedirectOp) :
    op.symbol.toList =
      match op with
      | .input => ['<']
      | .truncate => ['>']
      | .append => ['>', '>'] := by
  cases op <;> rfl

end RedirectOp

namespace Redirection

variable {r : Redirection} {rs : List Redirection} {tokens : List (List Char)} {ls : List Lexeme}

/-- A redirection, however it is written, is read as its operator and its file name. -/
theorem Spelled.lexemes (h : r.Spelled tokens) (operand : Operand r.path.toList)
    (rest : List (List Char)) :
    ∃ ls, r.Lexemes ls ∧ Lexeme.ofTokens (tokens ++ rest) = ls ++ Lexeme.ofTokens rest := by
  obtain ⟨c, text, htext⟩ := List.exists_cons_of_ne_nil operand.nonempty
  have hc : c ≠ '>' := by
    rintro rfl
    have starts := operand.no_operator
    rw [htext] at starts
    cases starts
  have word := Lexeme.ofTokens_plain operand.no_operator rest
  cases h with
  | attached op path =>
    refine ⟨_, .attached op path, ?_⟩
    cases op <;> simp [RedirectOp.symbol_toList, htext, Lexeme.ofTokens, Lexeme.attachment, hc]
  | apart op path =>
    refine ⟨_, .apart op path, ?_⟩
    rw [htext] at word
    cases op <;>
      simp [RedirectOp.symbol_toList, htext, Lexeme.ofTokens, Lexeme.attachment, hc, word]
  | splitAttached path =>
    refine ⟨_, .attached .append path, ?_⟩
    simp [htext, Lexeme.ofTokens, Lexeme.attachment]
  | splitApart path =>
    refine ⟨_, .apart .append path, ?_⟩
    rw [htext] at word
    simp [htext, Lexeme.ofTokens, Lexeme.attachment, word]

/-- The lexemes of a redirection are read as that redirection. -/
theorem Lexemes.read (h : r.Lexemes ls) (operand : Operand r.path.toList) (rest : List Lexeme) :
    ofLexemes (ls ++ rest) = (ofLexemes rest).map (r :: ·) := by
  cases h with
  | attached op path =>
    simp [ofLexemes, operand.no_operator]
  | apart op path =>
    simp [ofLexemes]

/-- A list of redirections, however each is written, is read as that list, and reading goes on
behind it. -/
theorem lexemes_spelled {parts : List (List (List Char))} (h : List.Forall₂ Spelled rs parts)
    (operands : ∀ r ∈ rs, Operand r.path.toList) (rest : List (List Char)) :
    ofLexemes (Lexeme.ofTokens (parts.flatten ++ rest)) =
      (ofLexemes (Lexeme.ofTokens rest)).map (rs ++ ·) := by
  induction h with
  | nil =>
    rw [List.flatten_nil, List.nil_append]
    cases ofLexemes (Lexeme.ofTokens rest) <;> rfl
  | @cons r tokens rs parts spelled _ ih =>
    have path := operands r List.mem_cons_self
    obtain ⟨ls, lexemes, eq⟩ := spelled.lexemes path (parts.flatten ++ rest)
    rw [List.flatten_cons, List.append_assoc, eq, lexemes.read path,
      ih fun r hr => operands r (List.mem_cons_of_mem _ hr)]
    cases ofLexemes (Lexeme.ofTokens rest) <;> rfl

/-- A written redirection begins with an operator. -/
theorem Spelled.head (h : r.Spelled tokens) :
    ∃ token more, tokens = token :: more ∧ Lexeme.startsOperator token = true := by
  have operator : ∀ (op : RedirectOp) (text : List Char),
      Lexeme.startsOperator (op.symbol.toList ++ text) = true := by
    intro op text
    cases op <;> rfl
  cases h with
  | attached op path => exact ⟨_, _, rfl, operator op _⟩
  | apart op path => exact ⟨_, _, rfl, by simpa using operator op []⟩
  | splitAttached path => exact ⟨_, _, rfl, rfl⟩
  | splitApart path => exact ⟨_, _, rfl, rfl⟩

theorem head_spelled {parts : List (List (List Char))} (h : List.Forall₂ Spelled rs parts) :
    ∀ token ∈ parts.flatten.head?, Lexeme.startsOperator token = true := by
  intro token ht
  cases h with
  | nil => cases ht
  | cons spelled _ =>
    obtain ⟨first, more, rfl, starts⟩ := spelled.head
    obtain rfl : first = token := by simpa using ht
    exact starts

end Redirection

/-! ## Segments -/

namespace Segment

variable {s : Segment} {text gap : List Char}

/-- The words of a segment, program first. -/
def words (s : Segment) : List String :=
  s.program :: s.arguments

/-- The ways to write a segment: its words and then its redirections, with separators between all
tokens. -/
inductive Spelled (s : Segment) : List Char → Prop
  | tokens (parts : List (List (List Char)))
      (redirections : List.Forall₂ Redirection.Spelled s.redirections parts) (text : List Char)
      (joined : Text.Joined Text.isSeparator (s.words.map String.toList ++ parts.flatten) text) :
      Spelled s text

/-- The tokens of a redirection are words without `|`. -/
theorem word_of_spelled {r : Redirection} {tokens : List (List Char)} (h : r.Spelled tokens)
    (plain : JobControl.Plain r.path.toList) :
    ∀ t ∈ tokens, Text.Word Text.isSeparator t ∧ '|' ∉ t := by
  have operator : ∀ op : RedirectOp,
      Text.Word Text.isSeparator op.symbol.toList ∧ '|' ∉ op.symbol.toList := by
    intro op
    rw [RedirectOp.symbol_toList]
    cases op <;> exact ⟨⟨by simp, by simp [Text.isSeparator]⟩, by simp⟩
  have joined : ∀ symbol : List Char, Text.Word Text.isSeparator symbol ∧ '|' ∉ symbol →
      Text.Word Text.isSeparator (symbol ++ r.path.toList) ∧ '|' ∉ symbol ++ r.path.toList := by
    rintro symbol ⟨word, bar⟩
    refine ⟨⟨by simp [word.nonempty], ?_⟩, by simp [bar, plain.no_bar]⟩
    intro c hc
    rcases List.mem_append.mp hc with hc | hc
    · exact word.clear c hc
    · exact plain.clear c hc
  have path : Text.Word Text.isSeparator r.path.toList ∧ '|' ∉ r.path.toList :=
    ⟨plain.toWord, plain.no_bar⟩
  have truncate := operator .truncate
  cases h with
  | attached op path =>
    intro t ht
    obtain rfl := List.mem_singleton.mp ht
    exact joined _ (operator op)
  | apart op p =>
    intro t ht
    rcases List.mem_pair.mp ht with rfl | rfl
    · exact operator op
    · exact path
  | splitAttached p =>
    intro t ht
    rcases List.mem_pair.mp ht with rfl | rfl
    · exact truncate
    · exact joined ['>'] truncate
  | splitApart p =>
    intro t ht
    rcases List.mem_cons.mp ht with rfl | ht
    · exact truncate
    rcases List.mem_pair.mp ht with rfl | rfl
    · exact truncate
    · exact path

/-- The tokens of a plain segment are words without `|`. -/
theorem word_of_tokens (plain : s.Plain) {parts : List (List (List Char))}
    (redirections : List.Forall₂ Redirection.Spelled s.redirections parts) :
    ∀ t ∈ s.words.map String.toList ++ parts.flatten,
      Text.Word Text.isSeparator t ∧ '|' ∉ t := by
  intro t ht
  rcases List.mem_append.mp ht with ht | ht
  · obtain ⟨w, hw, rfl⟩ := List.mem_map.mp ht
    rcases List.mem_cons.mp hw with rfl | hw
    · exact ⟨plain.program.toWord, plain.program.no_bar⟩
    · exact ⟨(plain.arguments w hw).toWord, (plain.arguments w hw).no_bar⟩
  · obtain ⟨tokens, htokens, ht⟩ := List.mem_flatten.mp ht
    obtain ⟨i, hi, rfl⟩ := List.getElem_of_mem htokens
    have hi' : i < s.redirections.length := by rwa [redirections.length_eq]
    exact word_of_spelled (redirections.get hi' hi)
      (plain.paths _ (List.get_mem s.redirections ⟨i, hi'⟩)) t ht

/-- The words of a segment end where its redirections begin. -/
theorem ofLexemes_words {program : List Char} {arguments tokens : List (List Char)}
    (plain : ∀ w ∈ program :: arguments, Lexeme.startsOperator w = false)
    (stop : ∀ token ∈ tokens.head?, Lexeme.startsOperator token = true) :
    ofLexemes (Lexeme.ofTokens (program :: arguments ++ tokens)) =
      (Redirection.ofLexemes (Lexeme.ofTokens tokens)).map fun redirections =>
        ⟨String.ofList program, arguments.map String.ofList, redirections⟩ := by
  have all_words : ∀ l ∈ (program :: arguments).map Lexeme.word, l.isWord = true := by
    intro l hl
    obtain ⟨w, -, rfl⟩ := List.mem_map.mp hl
    rfl
  have ended : (Lexeme.ofTokens tokens).takeWhile Lexeme.isWord = [] ∧
      (Lexeme.ofTokens tokens).dropWhile Lexeme.isWord = Lexeme.ofTokens tokens := by
    cases tokens with
    | nil => exact ⟨rfl, rfl⟩
    | cons token rest =>
      obtain ⟨op, more, eq⟩ := Lexeme.ofTokens_operator (stop token rfl) rest
      rw [eq]
      exact ⟨rfl, rfl⟩
  rw [Lexeme.ofTokens_words plain]
  generalize Lexeme.ofTokens tokens = ls at ended
  have taken : (((program :: arguments).map Lexeme.word ++ ls).takeWhile Lexeme.isWord).filterMap
      Lexeme.wordText? = program :: arguments := by
    rw [List.takeWhile_append_of_pos all_words, ended.1, List.append_nil, List.filterMap_map]
    exact List.filterMap_some
  have left : ((program :: arguments).map Lexeme.word ++ ls).dropWhile Lexeme.isWord = ls := by
    rw [List.dropWhile_append_of_pos all_words, ended.2]
  unfold ofLexemes
  rw [taken]
  simp only [left]

/-- **A segment is read back from every way to write it**, also with separators around it. -/
theorem ofText_spelled (plain : s.Plain) (h : s.Spelled text) {before after : List Char}
    (hbefore : Text.Blank Text.isSeparator before) (hafter : Text.Blank Text.isSeparator after) :
    ofText (before ++ text ++ after) = .ok s := by
  obtain ⟨parts, redirections, text, joined⟩ := h
  have each := word_of_tokens plain redirections
  have cut := joined.words_eq fun t ht => (each t ht).1
  have read := Redirection.lexemes_spelled redirections
    (fun r hr => (plain.paths r hr).operand) []
  rw [List.append_nil] at read
  have words : ∀ w ∈ s.words.map String.toList, Lexeme.startsOperator w = false := by
    intro w hw
    obtain ⟨v, hv, rfl⟩ := List.mem_map.mp hw
    rcases List.mem_cons.mp hv with rfl | hv
    · exact plain.program.no_operator
    · exact (plain.arguments v hv).no_operator
  rw [ofText, Lexeme.tokens, Text.words_append_blank hafter, Text.words_blank_append hbefore, cut,
    Segment.words, List.map_cons,
    ofLexemes_words words (Redirection.head_spelled redirections), read]
  simp [Lexeme.ofTokens, Redirection.ofLexemes, Except.map]

/-- A written segment neither begins nor ends with a separator, and holds no `|`. -/
theorem solid_of_spelled (plain : s.Plain) (h : s.Spelled text) :
    Text.Solid Text.isSeparator text ∧ '|' ∉ text := by
  obtain ⟨parts, redirections, text, joined⟩ := h
  have each := word_of_tokens plain redirections
  refine ⟨.of_joined joined fun t ht => (each t ht).1, fun bar => ?_⟩
  rcases joined.mem bar with ⟨t, ht, hbar⟩ | blank
  · exact (each t ht).2 hbar
  · cases blank

end Segment

/-! ## Commands -/

/-- The ways to write a command: its segments with `|` between them, and separators around each `|`
or none. -/
inductive Command.Spelled : List Segment → List Char → Prop
  | last (s : Segment) (text : List Char) (segment : s.Spelled text) : Spelled [s] text
  | more (s : Segment) (text : List Char) (segment : s.Spelled text) (before after : List Char)
      (hbefore : Text.Blank Text.isSeparator before) (hafter : Text.Blank Text.isSeparator after)
      (segments : List Segment) (rest : List Char) (spelled : Spelled segments rest) :
      Spelled (s :: segments) (text ++ before ++ '|' :: (after ++ rest))

namespace Command

variable {segments : List Segment} {command : List Char}

/-- The segments are read back from the text between the `|`. -/
theorem segments_spelled (plain : ∀ s ∈ segments, s.Plain) (h : Spelled segments command)
    {gap : List Char} (hgap : Text.Blank Text.isSeparator gap) :
    List.Forall₂ (fun text s => Segment.ofText text = .ok s) ((gap ++ command).splitOn '|')
      segments := by
  have blank_bar : ∀ {g : List Char}, Text.Blank Text.isSeparator g → '|' ∉ g :=
    fun hg bar => by cases hg '|' bar
  induction h generalizing gap with
  | last s text segment =>
    have hs := plain s List.mem_cons_self
    have bar : '|' ∉ gap ++ text := by
      simp [blank_bar hgap, (Segment.solid_of_spelled hs segment).2]
    rw [List.splitOn_eq_singleton bar]
    have read := Segment.ofText_spelled hs segment hgap Text.blank_nil
    rw [List.append_nil] at read
    exact .cons read .nil
  | more s text segment before after hbefore hafter segments rest _ ih =>
    have hs := plain s List.mem_cons_self
    have bar : '|' ∉ gap ++ text ++ before := by
      simp [blank_bar hgap, blank_bar hbefore, (Segment.solid_of_spelled hs segment).2]
    rw [← List.append_assoc, ← List.append_assoc, List.splitOn_append_cons_self_of_not_mem bar]
    exact .cons (Segment.ofText_spelled hs segment hgap hbefore)
      (ih (fun s hs => plain s (List.mem_cons_of_mem _ hs)) hafter)

/-- A written command neither begins nor ends with a separator. -/
theorem solid_of_spelled (plain : ∀ s ∈ segments, s.Plain) (h : Spelled segments command) :
    Text.Solid Text.isSeparator command := by
  induction h with
  | last s text segment =>
    exact (Segment.solid_of_spelled (plain s List.mem_cons_self) segment).1
  | more s text segment before after _ _ segments rest _ ih =>
    have first := (Segment.solid_of_spelled (plain s List.mem_cons_self) segment).1
    have last := ih fun s hs => plain s (List.mem_cons_of_mem _ hs)
    simpa using first.append (before ++ '|' :: after) last

end Command

/-! ## Lines -/

/-- The ways to write a command as a line: with separators around it, and for the background with
the marker after it, with separators before the marker or none.  In the foreground the command may
end in the marker only behind a backslash; in the background a separator keeps the marker from a
backslash at the end of the command. -/
inductive Line.Spelled : JobMode → List Segment → List Char → List Char → Prop
  | foreground (segments : List Segment) (command : List Char)
      (written : Command.Spelled segments command)
      (unmarked : ∀ init, command = init ++ ['&'] → init.getLast? = some '\\')
      (before after : List Char) (hbefore : Text.Blank Text.isSeparator before)
      (hafter : Text.Blank Text.isSeparator after) :
      Spelled .foreground segments command (before ++ command ++ after)
  | background (segments : List Segment) (command : List Char)
      (written : Command.Spelled segments command) (between : List Char)
      (hbetween : Text.Blank Text.isSeparator between)
      (apart : command.getLast? = some '\\' → between ≠ [])
      (before after : List Char) (hbefore : Text.Blank Text.isSeparator before)
      (hafter : Text.Blank Text.isSeparator after) :
      Spelled .background segments command (before ++ (command ++ between ++ ['&']) ++ after)

/-- What a stage says that a segment was written for: its words, program first, with their number
and the kind of the program; the last input and the last output redirection; and no process yet. -/
structure Segment.Describes (s : Segment) (stage : Stage) : Prop where
  words : stage.words = s.words
  count : stage.words.length = s.arguments.length + 1
  program : stage.program = s.program
  kind : stage.kind = .ofProgram s.program
  input : stage.input = (s.redirections.filter (·.op == .input)).getLast?.map Redirection.path
  output : stage.output = (s.redirections.filter (·.op != .input)).getLast?.map fun r =>
    ⟨r.path, if r.op == .append then .append else .truncate⟩
  pid : stage.pid = none
  status : stage.status = .running

/-- The stage of a segment is what the segment describes. -/
theorem Segment.describes_ofSegment (s : Segment) : s.Describes (.ofSegment s) := by
  have last : ∀ p : Redirection → Bool, s.redirections.reverse.find? p =
      (s.redirections.filter p).getLast? := by
    intro p
    rw [← List.head?_filter, List.filter_reverse, List.head?_reverse]
  refine ⟨rfl, rfl, rfl, rfl, ?_, ?_, rfl, rfl⟩
  · rw [← last]
    rfl
  · rw [← last]
    rfl

/-- A written line divides into the command it was written for and its mode. -/
theorem Line.Spelled.divides {mode : JobMode} {segments : List Segment} {command text : List Char}
    (plain : ∀ s ∈ segments, s.Plain) (h : Line.Spelled mode segments command text) :
    Command.Spelled segments command ∧ Line.Divides text mode command := by
  cases h with
  | foreground _ _ written unmarked before after hbefore hafter =>
    have solid := Command.solid_of_spelled plain written
    exact ⟨written, .foreground before command after hbefore solid hafter unmarked⟩
  | background _ _ written between hbetween apart before after hbefore hafter =>
    have solid := Command.solid_of_spelled plain written
    exact ⟨written, .background before command between after hbefore solid hbetween hafter apart⟩

/-- **Reading a line undoes every way to write a command.**  The job is new, it has the mode the
line was written for and the text of the command, and its stages are those the segments describe. -/
theorem Job.ofLine_spelled {mode : JobMode} {segments : List Segment} {command : List Char}
    {line : String} (plain : ∀ s ∈ segments, s.Plain)
    (h : Line.Spelled mode segments command line.toList) :
    ∃ stages, List.Forall₂ Segment.Describes segments stages ∧
      Job.ofLine line = .ok (some
        { id := none, group := none, mode, command := String.ofList command, stages }) := by
  obtain ⟨written, divides⟩ := h.divides plain
  have read := Command.segments_spelled plain written Text.blank_nil
  rw [List.nil_append] at read
  have stages : Line.stages command = .ok (segments.map Stage.ofSegment) :=
    Line.stages_eq_ok_iff.mpr ⟨segments, read, rfl⟩
  refine ⟨segments.map Stage.ofSegment, ?_, ?_⟩
  · refine List.forall₂_map_right_iff.mpr (List.forall₂_same.mpr fun s _ => ?_)
    exact s.describes_ofSegment
  · rw [Job.ofLine_of_divides divides, stages]
    rfl

/-- Two stages in the background, with the append operator in two pieces and the file name attached
to the second. -/
theorem ofLine_spelled_append :
    ∃ stages,
      List.Forall₂ Segment.Describes [⟨"cat", ["x"], [⟨.append, "y"⟩]⟩, ⟨"wc", [], []⟩] stages ∧
      Job.ofLine " cat x > >y|wc &" =
        .ok (some ⟨none, none, .background, String.ofList "cat x > >y|wc".toList, stages⟩) := by
  have gap : Text.Blank Text.isSeparator [' '] := by decide
  have first : Segment.Spelled ⟨"cat", ["x"], [⟨.append, "y"⟩]⟩ "cat x > >y".toList :=
    .tokens [[['>'], '>' :: "y".toList]] (.cons (.splitAttached "y") .nil) _
      (.cons ['c', 'a', 't'] [' '] _ _ (by decide) gap (.cons ['x'] [' '] _ _ (by decide) gap
        (.cons ['>'] [' '] _ _ (by decide) gap (.single ['>', 'y']))))
  have second : Segment.Spelled ⟨"wc", [], []⟩ "wc".toList :=
    .tokens [] .nil _ (.single ['w', 'c'])
  have command := Command.Spelled.more _ _ first [] [] Text.blank_nil Text.blank_nil _ _
    (.last _ _ second)
  exact Job.ofLine_spelled (by decide +kernel)
    (.background _ _ command [' '] gap (by decide +kernel) [' '] [] gap Text.blank_nil)

end JobControl
