import JobControl.Proofs.FrontEnd.Dispatch
import JobControl.Proofs.FrontEnd.Input
import JobControl.Proofs.Line.Grammar
import JobControl.Proofs.Session.Course

/-!
# What the loop does

The loop polls, prompts and answers one line after the other, and looks at the shell after each line
to see whether it is to go on.  What it finds there can be told from the lines alone: the shell is to
exit once it was given a line that is led by `exit` (`exitRequested_dispatch`), and nothing else has
that effect, however a line fails.  So there is an agenda for every text (`agenda`), and the loop
works it off, whatever the system does (`loop_follows_agenda`).

An act on the agenda is a call of the shell and the text that is written after it (`perform`): what a
poll reports, the prompt, the reply to a line on standard output, or its error on standard error.
-/

set_option autoImplicit false

namespace JobControl

variable {κ : Type} [Kernel κ]

/-! ## The program that leads a line -/

theorem Line.Divides.around {text command : List Char} {mode : JobMode}
    (h : Line.Divides text mode command) :
    ∃ before after, text = before ++ command ++ after ∧ Text.Blank Text.isSeparator before := by
  cases h with
  | foreground before _ after blank => exact ⟨before, after, rfl, blank⟩
  | background before _ between after blank =>
    exact ⟨before, between ++ ['&'] ++ after, by simp, blank⟩
  | bare before after blank => exact ⟨before, ['&'] ++ after, by simp, blank⟩

/-- The program of the first stage is the first token of the command. -/
theorem Line.leads_command {command : List Char} {stage : Stage} {rest : List Stage}
    (h : Line.stages command = .ok (stage :: rest)) :
    ∃ gap behind, command = gap ++ stage.program.toList ++ behind ∧
      Text.Blank Text.isSeparator gap := by
  obtain ⟨segments, read, same⟩ := Line.stages_eq_ok_iff.mp h
  obtain ⟨segment, others, rfl, rfl, -⟩ := List.map_eq_cons_iff.mp same.symm
  obtain ⟨piece, pieces, first, -, cut⟩ := List.forall₂_cons_right_iff.mp read
  obtain ⟨-, behind, tokens, -⟩ := Segment.ofText_eq_ok_iff.mp first
  have head : (Text.words Text.isSeparator piece).head? = some segment.program.toList := by
    rw [show Text.words Text.isSeparator piece = _ from tokens]
    rfl
  obtain ⟨gap, after, spelled, blank, -⟩ := Text.head?_words_eq_some_iff.mp head
  -- the command goes on with the other pieces, if there are any
  have joined : ['|'].intercalate (command.splitOn '|') = command := List.intercalate_splitOn '|'
  rw [cut] at joined
  cases pieces with
  | nil =>
    rw [List.intercalate_singleton] at joined
    exact ⟨gap, after, joined.symm.trans spelled, blank⟩
  | cons next pieces =>
    refine ⟨gap, after ++ ['|'] ++ ['|'].intercalate (next :: pieces), ?_, blank⟩
    rw [← joined, List.intercalate_cons_cons, spelled]
    simp only [List.append_assoc]
    rfl

theorem Job.leads_line {line : String} {job : Job} {stage : Stage} {rest : List Stage}
    (parsed : Job.ofLine line = .ok (some job)) (stages : job.stages = stage :: rest) :
    ∃ gap behind, line.toList = gap ++ stage.program.toList ++ behind ∧
      Text.Blank Text.isSeparator gap := by
  by_cases nothing : Text.Blank Text.isSeparator line.toList
  · rw [Job.ofLine_of_blank nothing] at parsed
    cases parsed
  · obtain ⟨mode, command, divides⟩ := Line.exists_divides nothing
    obtain ⟨before, after, whole, blank⟩ := divides.around
    rw [Job.ofLine_of_divides divides] at parsed
    cases staged : Line.stages command with
    | error fault =>
      rw [staged] at parsed
      cases parsed
    | ok all =>
      rw [staged] at parsed
      cases parsed
      simp only at stages
      rw [stages] at staged
      obtain ⟨gap, behind, spelled, blank'⟩ := Line.leads_command staged
      refine ⟨before ++ gap, behind ++ after, ?_, ?_⟩
      · simp [whole, spelled]
      · intro c hc
        rcases List.mem_append.mp hc with hc | hc
        · exact blank c hc
        · exact blank' c hc

namespace FrontEnd

/-! ## Lines that ask to exit -/

/-- The line is read as a job led by `exit`. -/
def asksExit (line : String) : Bool :=
  match Job.ofLine line with
  | .ok (some job) => job.stages.head?.any (·.program == "exit")
  | _ => false

variable {line : String} {s : Session κ}

theorem asksExit_iff : asksExit line = true ↔
    ∃ job stage rest, Job.ofLine line = .ok (some job) ∧ job.stages = stage :: rest ∧
      stage.program = "exit" := by
  unfold asksExit
  split
  · rename_i job parsed
    rw [Option.any_eq_true]
    constructor
    · rintro ⟨stage, first, named⟩
      obtain ⟨rest, stages⟩ := List.head?_eq_some_iff.mp first
      exact ⟨job, stage, rest, parsed, stages, beq_iff_eq.mp named⟩
    · rintro ⟨other, stage, rest, same, stages, named⟩
      rw [parsed] at same
      cases same
      exact ⟨stage, by rw [stages, List.head?_cons], beq_iff_eq.mpr named⟩
  · rename_i other
    simp only [Bool.false_eq_true, false_iff]
    rintro ⟨job, stage, rest, parsed, -⟩
    exact other job parsed

theorem kind_eq_exit_iff {stage : Stage} : stage.kind = .exit ↔ stage.program = "exit" := by
  unfold Stage.kind StageKind.ofProgram
  split
  · simp [*]
  · rename_i other
    simp only [other, iff_false]
    split
    · simp
    · split
      · simp
      · split <;> simp

/-- The shell answers such a line, since `exit` is the first word. -/
theorem firstWord?_of_asksExit (asks : asksExit line = true) :
    firstWord? line ≠ some listCommand := by
  obtain ⟨job, stage, rest, parsed, stages, named⟩ := asksExit_iff.mp asks
  obtain ⟨gap, behind, whole, blank⟩ := Job.leads_line parsed stages
  -- the first character that is no separator is the letter e
  have letter : line.toList.find? (! Text.isSeparator ·) = some 'e' := by
    have passed : gap.find? (! Text.isSeparator ·) = none := by
      apply List.find?_eq_none.mpr
      intro c hc
      simp [blank c hc]
    rw [whole, named, List.append_assoc, List.find?_append, passed]
    rfl
  intro answered
  obtain ⟨gap', rest', whole', free⟩ := firstWord?_iff.mp answered
  rw [whole', List.append_assoc, List.find?_append] at letter
  cases found : gap'.find? (! Text.isSeparator ·) with
  | none =>
    rw [found] at letter
    have first : 'j' = 'e' := Option.some.inj letter
    revert first
    decide
  | some c =>
    rw [found] at letter
    have white := free.before c (List.mem_of_find?_eq_some found)
    rw [Option.some.inj letter] at white
    revert white
    decide

/-- **The effect of a line that asks to exit** is that the shell is to exit.  Nothing is printed, and
nothing behind `exit` is launched. -/
theorem dispatch_of_asksExit (asks : asksExit line = true) (s : Session κ) :
    dispatch s line = (.ok "", (s.log (.builtinRun "exit")).exit.2) := by
  obtain ⟨job, stage, rest, parsed, stages, named⟩ := asksExit_iff.mp asks
  have kind : stage.kind = .exit := kind_eq_exit_iff.mpr named
  have builtin : job.isBuiltin = true := by simp [Job.isBuiltin, stages, kind, StageKind.isBuiltin]
  rw [dispatch, if_neg (firstWord?_of_asksExit asks)]
  simp only [Session.run, parsed, Session.launch, builtin, if_true, Session.runBuiltin, stages,
    Session.runStage, kind, named, Session.exit, or_true]

theorem standing_exitRequested : Shell.Standing Shell.exitRequested :=
  ⟨fun _ _ => rfl, fun _ _ => rfl⟩

/-- No other line has that effect. -/
theorem exitRequested_dispatch (s : Session κ) (line : String) :
    (dispatch s line).2.shell.exitRequested = (s.shell.exitRequested || asksExit line) := by
  cases asks : asksExit line with
  | true =>
    rw [dispatch_of_asksExit asks, Bool.or_true]
    rfl
  | false =>
    rw [Bool.or_false, dispatch]
    split
    · rfl
    · apply standing_exitRequested.run s line
      rintro ⟨stage, leads, kind⟩
      have asked : asksExit line = true := by
        unfold Session.leadingBuiltin? at leads
        split at leads
        · rename_i job parsed
          obtain ⟨first, -⟩ := Option.filter_eq_some_iff.mp leads
          obtain ⟨rest, stages⟩ := List.head?_eq_some_iff.mp first
          exact asksExit_iff.mpr ⟨job, stage, rest, parsed, stages, kind_eq_exit_iff.mp kind⟩
        · cases leads
      rw [asks] at asked
      cases asked

/-! ## The agenda -/

/-- What the front end does in the loop. -/
inductive Act
  | poll
  | prompt
  | dispatch (line : String)
  | shutdown
deriving DecidableEq, Repr

/-- Carries out an act, and writes what comes of it. -/
def perform (s : Session κ) : Act → Session κ
  | .poll => { s.poll.2 with kernel := Kernel.writeOutput s.poll.1 s.poll.2.kernel }
  | .prompt => { s with kernel := Kernel.writeOutput s.prompt s.kernel }
  | .dispatch line =>
    match dispatch s line with
    | (.ok text, s) => { s with kernel := Kernel.writeOutput text s.kernel }
    | (.error e, s) => { s with kernel := Kernel.writeError (e.message ++ "\n") s.kernel }
  | .shutdown => s.shutdown

/-- Before a line is read there are a poll and a prompt. -/
theorem ready_eq_perform (s : Session κ) : ready s = perform (perform s .poll) .prompt :=
  rfl

theorem answer_eq_perform (s : Session κ) (line : String) :
    answer s line = perform s (.dispatch line) := by
  rcases replied : dispatch s line with ⟨e | text, after⟩ <;> simp only [answer, perform, replied, emit]

/-- The lines that are answered: those up to the first that asks to exit, and that one. -/
def answered (lines : List String) : List String :=
  lines.takeWhile (! asksExit ·) ++ (lines.find? asksExit).toList

/-- What is to be done with the lines of a text: each is answered after a poll and a prompt, and so
is the end of the text, if it is reached; then the shell is shut down. -/
def agenda (lines : List String) : List Act :=
  (answered lines).flatMap (fun line => [.poll, .prompt, .dispatch line]) ++
    (if lines.any asksExit then [] else [.poll, .prompt]) ++ [.shutdown]

variable {lines : List String}

theorem agenda_of_asksExit (asks : asksExit line = true) (lines : List String) :
    agenda (line :: lines) = [.poll, .prompt, .dispatch line, .shutdown] := by
  simp [agenda, answered, asks]

theorem agenda_cons (goes_on : asksExit line = false) (lines : List String) :
    agenda (line :: lines) = .poll :: .prompt :: .dispatch line :: agenda lines := by
  simp [agenda, answered, goes_on]

theorem shell_emit (s : Session κ) (reply : Reply) : (emit s reply).shell = s.shell := by
  cases reply <;> rfl

theorem exitRequested_answer (on : s.shell.exitRequested = false) (line : String) :
    (answer (ready s) line).shell.exitRequested = asksExit line := by
  have before : (ready s).shell.exitRequested = false := by
    simp only [ready, pollAndEmit, shell_emit]
    exact on
  simp only [answer, shell_emit, exitRequested_dispatch, before, Bool.false_or]

/-- The loop works the agenda off: each line is either the last to be answered, or the rest of the
agenda is that of the lines behind it. -/
theorem loop_lines (on : s.shell.exitRequested = false) (lines : List String) :
    loop s (lines.map .text) = (agenda lines).foldl perform s := by
  induction lines generalizing s with
  | nil => rfl
  | cons line rest ih =>
    have asked := exitRequested_answer on line
    simp only [List.map_cons, loop]
    cases asks : asksExit line with
    | true =>
      rw [asks] at asked
      rw [if_pos asked, agenda_of_asksExit asks, answer_eq_perform, ready_eq_perform]
      rfl
    | false =>
      rw [asks] at asked
      rw [if_neg (by simp [asked]), agenda_cons asks, ih asked, answer_eq_perform, ready_eq_perform]
      rfl

/-- **The loop follows the agenda of its text**, which it reads in UTF-8, unless the shell has been
asked to exit before.  The line that ends it does nothing else: nothing is printed for it, and no
stage behind `exit` is launched. -/
theorem loop_follows_agenda (text : String) (s : Session κ) (on : s.shell.exitRequested = false) :
    loop s (InputLine.all text.toUTF8) =
        (agenda ((Text.lines text.toList).map String.ofList)).foldl perform s ∧
      ∀ line, asksExit line = true → ∀ s : Session κ,
        dispatch s line = (.ok "", (s.log (.builtinRun "exit")).exit.2) := by
  refine ⟨?_, fun line asks s => dispatch_of_asksExit asks s⟩
  rw [InputLine.all_toUTF8, ← loop_lines on, List.map_map]
  rfl

/-- The loop goes on behind `exit` in a later stage, behind a faulty line and behind a built-in that
fails, and ends with the last line but one. -/
theorem loop_follows_agenda_faults : idleShell.shell.exitRequested = false ∧
    loop idleShell (InputLine.all "cat | exit\nexit | > out\nfg\n exit now | cat\nls".toUTF8) =
      [.poll, .prompt, .dispatch "cat | exit\n", .poll, .prompt, .dispatch "exit | > out\n",
        .poll, .prompt, .dispatch "fg\n", .poll, .prompt, .dispatch " exit now | cat\n",
        .shutdown].foldl perform idleShell ∧
      dispatch idleShell " exit now | cat\n" =
        (.ok "", (idleShell.log (.builtinRun "exit")).exit.2) := by
  have followed := loop_follows_agenda "cat | exit\nexit | > out\nfg\n exit now | cat\nls"
    idleShell rfl
  refine ⟨rfl, followed.1.trans ?_, followed.2 _ (by decide +kernel) idleShell⟩
  have planned : agenda ((Text.lines
      "cat | exit\nexit | > out\nfg\n exit now | cat\nls".toList).map String.ofList) =
      [.poll, .prompt, .dispatch "cat | exit\n", .poll, .prompt, .dispatch "exit | > out\n",
        .poll, .prompt, .dispatch "fg\n", .poll, .prompt, .dispatch " exit now | cat\n",
        .shutdown] := by
    decide +kernel
  rw [planned]

end FrontEnd

end JobControl
