import JobControl.Machine.System
import JobControl.Proofs.Line.Grammar
import JobControl.Proofs.Line.Retained
import JobControl.Proofs.Poll.Bulletin
import JobControl.Shell.Session

/-!
# Reading status lines back

The reports on jobs are one text, and the layout alone says what belongs together: a line for each
stage, its fields behind tabs, and `|` at the end of a stage that feeds another one.  The layout is
enough, since the name of a program that was read from a line holds no tab, no newline and no `|`
(`Job.clean_of_ofLine`).  It may hold anything else, such as brackets, digits and blanks of other
kinds.

`JobRows` is what a report shows of a job.  `JobRows.readAll` reads a text of reports, line by line
from the last one on, and finds what the reports show, whatever jobs they are on
(`JobRows.readAll_reports`).  `JobRows.readListing` does the same for a listing.  So the listing of a
table, the output of a poll and the acknowledgement of a launch can each be read in one way only
(`Session.reads_back`).
-/

set_option autoImplicit false

namespace JobControl

/-! ## What is shown -/

/-- What a report shows of a stage: the process, the status and the program. -/
structure StageRow where
  pid : Int
  status : Status
  program : String
deriving DecidableEq, Repr

/-- What a report shows of a job: its number, and a row for each stage. -/
structure JobRows where
  id : Nat
  rows : List StageRow
deriving DecidableEq, Repr

/-- What the report shows of a stage. -/
def Stage.row (s : Stage) : StageRow :=
  ⟨s.shownPid, s.status, s.program⟩

/-- What the report shows of a job under a number. -/
def Job.rows (id : Nat) (j : Job) : JobRows :=
  ⟨id, j.stages.map Stage.row⟩

/-- What the reports show of some jobs under their numbers. -/
def Job.rowsOf (jobs : List (Nat × Job)) : List JobRows :=
  jobs.map fun (id, job) => job.rows id

/-! ## Reading -/

/-- The number that is written with these digits. -/
def Text.natural? (digits : List Char) : Option Nat :=
  if digits.all Char.isDigit then some (Nat.ofDigitChars 10 digits 0) else none

/-- The whole number that is written with these digits, perhaps behind a sign. -/
def Text.integer? : List Char → Option Int
  | '-' :: digits => (natural? digits).map fun n : Nat => -(n : Int)
  | digits => (natural? digits).map Int.ofNat

/-- The status with this word. -/
def Status.ofWord? (word : List Char) : Option Status :=
  [running, suspended, continued, terminated, done].find? fun s => s.word.toList == word

/-- The number of a job from its label. -/
def Job.ofLabel? : List Char → Option Nat
  | '[' :: rest => if rest.getLast? = some ']' then Text.natural? rest.dropLast else none
  | _ => none

/-- A row from its fields.  The name of the program ends where it is marked to feed another stage. -/
def StageRow.ofFields? : List (List Char) → Option StageRow
  | [pid, word, program] =>
    match Text.integer? pid, Status.ofWord? word with
    | some pid, some status => some ⟨pid, status, String.ofList (program.takeWhile (· != '|'))⟩
    | _, _ => none
  | _ => none

namespace JobRows

/-- Puts one more line, cut at its tabs, before what was read of the lines behind it: rows whose
label is still to come, and whole jobs. -/
def readLine : List (List Char) → List StageRow × List JobRows →
    Option (List StageRow × List JobRows)
  | [], _ => none
  | [label], (rows, jobs) => (Job.ofLabel? label).map fun id => ([], ⟨id, rows⟩ :: jobs)
  | label :: fields, (rows, jobs) =>
    (StageRow.ofFields? fields).bind fun row =>
      if label = [] then some (row :: rows, jobs)
      else (Job.ofLabel? label).map fun id => ([], ⟨id, row :: rows⟩ :: jobs)

/-- Reads lines that are cut at their tabs, from the last one on. -/
def readLines : List (List (List Char)) → Option (List StageRow × List JobRows)
  | [] => some ([], [])
  | line :: rest => (readLines rest).bind (readLine line)

/-- Reads a text of reports. -/
def readAll (text : String) : Option (List JobRows) :=
  match readLines ((text.toList.splitOn '\n').dropLast.map (·.splitOn '\t')) with
  | some ([], jobs) => some jobs
  | _ => none

/-- Reads a listing: the number of the job and the processes of its stages. -/
def readListing (text : String) : Option (Nat × List Int) :=
  match text.toList.dropLast.splitOn ' ' with
  | [] => none
  | label :: pids =>
    (Job.ofLabel? label).bind fun id => (pids.mapM Text.integer?).map fun pids => (id, pids)

end JobRows

/-! ## Numbers and words -/

namespace Text

theorem isDigit_of_mem_natural {n : Nat} {c : Char} (h : c ∈ (toString n).toList) :
    c.isDigit = true := by
  rw [show toString n = n.repr from rfl, Nat.repr_eq_ofList_toDigits, String.toList_ofList] at h
  exact Nat.isDigit_of_mem_toDigits (by omega) (by omega) h

theorem natural?_toString (n : Nat) : natural? (toString n).toList = some n := by
  have digits : (toString n).toList.all Char.isDigit = true :=
    List.all_eq_true.mpr fun c hc => isDigit_of_mem_natural hc
  rw [natural?, if_pos digits, show toString n = n.repr from rfl, Nat.repr_eq_ofList_toDigits,
    String.toList_ofList, Nat.ofDigitChars_ten_toDigits]

/-- A whole number is written with digits, behind a sign if it is negative. -/
theorem toList_integer (n : Int) :
    (0 ≤ n ∧ (toString n).toList = (toString n.toNat).toList) ∨
      (n < 0 ∧ (toString n).toList = '-' :: (toString (-n).toNat).toList) := by
  rw [show toString n = n.repr from rfl, Int.repr_eq_if]
  split
  case isTrue h => exact Or.inl ⟨h, rfl⟩
  case isFalse h => exact Or.inr ⟨by omega, by rw [String.toList_append]; rfl⟩

theorem integer?_toString (n : Int) : integer? (toString n).toList = some n := by
  rcases toList_integer n with ⟨h, written⟩ | ⟨h, written⟩
  · rw [written]
    unfold integer?
    split
    case h_1 digits signed =>
      have sign : '-' ∈ (toString n.toNat).toList := by
        rw [signed]
        exact List.mem_cons_self
      cases isDigit_of_mem_natural sign
    case h_2 =>
      rw [natural?_toString, Option.map_some]
      apply congrArg some
      show (n.toNat : Int) = n
      omega
  · rw [written, integer?, natural?_toString, Option.map_some]
    apply congrArg some
    omega

end Text

theorem Status.ofWord?_word (s : Status) : ofWord? s.word.toList = some s := by
  cases s <;> decide

theorem Job.toList_label (id : Nat) :
    (label id).toList = '[' :: ((toString id).toList ++ [']']) := by
  simp [label]

theorem Job.ofLabel?_label (id : Nat) : ofLabel? (label id).toList = some id := by
  rw [toList_label, ofLabel?, if_pos List.getLast?_concat, List.dropLast_concat,
    Text.natural?_toString]

/-! ## The layout -/

/-- The characters that keep the fields of a status line apart. -/
def Text.isLayout (c : Char) : Bool :=
  c == '\t' || c == '\n' || c == ' '

namespace Text

theorem isLayout_of_isDigit {c : Char} (h : c.isDigit = true) : isLayout c = false := by
  by_contra layout
  simp only [isLayout, Bool.not_eq_false, Bool.or_eq_true, beq_iff_eq] at layout
  rcases layout with (rfl | rfl) | rfl <;> cases h

theorem isLayout_integer {n : Int} {c : Char} (h : c ∈ (toString n).toList) :
    isLayout c = false := by
  rcases toList_integer n with ⟨-, written⟩ | ⟨-, written⟩
  · rw [written] at h
    exact isLayout_of_isDigit (isDigit_of_mem_natural h)
  · rw [written] at h
    rcases List.mem_cons.mp h with rfl | h
    · rfl
    · exact isLayout_of_isDigit (isDigit_of_mem_natural h)

theorem isLayout_label {id : Nat} {c : Char} (h : c ∈ (Job.label id).toList) :
    isLayout c = false := by
  rw [Job.toList_label, List.mem_cons, List.mem_append, List.mem_singleton] at h
  rcases h with rfl | h | rfl
  · rfl
  · exact isLayout_of_isDigit (isDigit_of_mem_natural h)
  · rfl

theorem isLayout_word {s : Status} {c : Char} (h : c ∈ s.word.toList) : isLayout c = false := by
  have clean : s.word.toList.all (fun c => !isLayout c) = true := by
    cases s <;> decide
  simpa using List.all_eq_true.mp clean c h

end Text

/-! ## Programs -/

/-- A name of a program that the layout leaves whole. -/
structure CleanName (program : String) : Prop where
  no_tab : '\t' ∉ program.toList
  no_newline : '\n' ∉ program.toList
  no_bar : '|' ∉ program.toList

/-- Every program of the job is one that some line names. -/
def Job.Typed (j : Job) : Prop :=
  ∀ s ∈ j.stages, ∃ line job, Job.ofLine line = .ok (some job) ∧
    ∃ t ∈ job.stages, t.program = s.program

/-- **The programs of a line have clean names**, since each is a word between two `|`. -/
theorem Job.clean_of_ofLine {line : String} {job : Job} (h : Job.ofLine line = .ok (some job))
    {s : Stage} (hs : s ∈ job.stages) : CleanName s.program := by
  obtain ⟨_, command, _, stages, read, rfl⟩ := Job.exists_divides_of_ofLine h
  obtain ⟨segments, each, rfl⟩ := Line.stages_eq_ok_iff.mp read
  obtain ⟨segment, hsegment, rfl⟩ := List.mem_map.mp hs
  obtain ⟨text, htext, written⟩ :
      ∃ text ∈ command.splitOn '|', Segment.ofText text = .ok segment := by
    obtain ⟨i, hi, rfl⟩ := List.getElem_of_mem hsegment
    have hi' : i < (command.splitOn '|').length := by rwa [each.length_eq]
    exact ⟨_, List.getElem_mem hi', each.get hi' hi⟩
  obtain ⟨-, behind, tokens, -⟩ := Segment.ofText_eq_ok_iff.mp written
  have token : segment.program.toList ∈ Text.words Text.isSeparator text := by
    show segment.program.toList ∈ Lexeme.tokens text
    rw [tokens, Segment.words]
    simp
  rw [List.splitOn_eq_splitOnP] at htext
  have char : ∀ c ∈ segment.program.toList, Text.isSeparator c = false ∧ (c == '|') = false := by
    intro c hc
    obtain ⟨hc, solid⟩ := Text.mem_of_mem_words token hc
    exact ⟨solid, (Text.mem_of_mem_splitOnP htext hc).2⟩
  constructor
  · intro tab
    cases (char _ tab).1
  · intro newline
    cases (char _ newline).1
  · intro bar
    cases (char _ bar).2

theorem Job.Typed.clean {j : Job} (h : j.Typed) {id : Nat} {r : StageRow}
    (hr : r ∈ (j.rows id).rows) : CleanName r.program := by
  obtain ⟨s, hs, rfl⟩ := List.mem_map.mp hr
  obtain ⟨line, job, read, t, ht, same⟩ := h s hs
  show CleanName s.program
  rw [← same]
  exact Job.clean_of_ofLine read ht

/-! ## The lines of a report -/

/-- The mark at the end of a row, if these rows follow it. -/
def StageRow.mark (rest : List StageRow) : List Char :=
  if rest = [] then [] else ['|']

theorem StageRow.mark_cases (rest : List StageRow) : mark rest = [] ∨ mark rest = ['|'] := by
  unfold mark
  split
  · exact Or.inl rfl
  · exact Or.inr rfl

/-- The fields of the line of a row: what stands before the first tab, and then the row itself, with
a mark at its end. -/
def StageRow.fields (label mark : List Char) (r : StageRow) : List (List Char) :=
  [label, (toString r.pid).toList, r.status.word.toList, r.program.toList ++ mark]

/-- The lines of some rows, the first of them behind a label. -/
def StageRow.lines (label : List Char) : List StageRow → List (List (List Char))
  | [] => []
  | r :: rest => r.fields label (mark rest) :: lines [] rest

/-- The lines of a report that shows these rows. -/
def JobRows.lines (d : JobRows) : List (List (List Char)) :=
  match d.rows with
  | [] => [[(Job.label d.id).toList]]
  | rows => StageRow.lines (Job.label d.id).toList rows

/-- The text of lines, with tabs between the fields. -/
def Text.ofLines (lines : List (List (List Char))) : List Char :=
  lines.flatMap fun line => ['\t'].intercalate line ++ ['\n']

theorem Stage.toList_reportLines (label : List Char) {stages : List Stage}
    (some_stage : stages ≠ []) :
    label ++ (reportLines stages).toList =
      Text.ofLines (StageRow.lines label (stages.map Stage.row)) := by
  induction stages generalizing label with
  | nil => exact absurd rfl some_stage
  | cons s rest ih =>
    have own : s.fields.toList = '\t' :: (toString s.shownPid).toList ++
        '\t' :: s.status.word.toList ++ '\t' :: s.program.toList := by
      simp [fields]
    cases rest with
    | nil =>
      simp [reportLines, StageRow.lines, StageRow.fields, StageRow.mark, row, Text.ofLines, own]
    | cons t more =>
      have behind := ih [] (List.cons_ne_nil t more)
      rw [List.nil_append] at behind
      simp [reportLines, StageRow.lines, StageRow.fields, StageRow.mark, row, Text.ofLines, own,
        behind]

theorem Job.toList_report (id : Nat) (j : Job) :
    (j.report id).toList = Text.ofLines (j.rows id).lines := by
  cases stages : j.stages with
  | nil => simp [report, rows, JobRows.lines, Text.ofLines, stages]
  | cons s rest =>
    have lines := Stage.toList_reportLines (label id).toList (List.cons_ne_nil s rest)
    simp [report, rows, JobRows.lines, stages, lines]

theorem Job.toList_reports (jobs : List (Nat × Job)) :
    (Job.reports jobs).toList = Text.ofLines ((Job.rowsOf jobs).flatMap JobRows.lines) := by
  induction jobs with
  | nil => rfl
  | cons first rest ih =>
    simp only [Job.reports, List.map_cons, String.join_cons, String.toList_append] at ih ⊢
    rw [ih, Job.toList_report]
    simp [Text.ofLines, Job.rowsOf]

/-! ## Reading what was written -/

namespace Text

variable {lines : List (List (List Char))} {field : List Char}

/-- Fields that the layout leaves whole. -/
theorem not_mem_of_isLayout (h : ∀ c ∈ field, isLayout c = false) :
    '\t' ∉ field ∧ '\n' ∉ field ∧ ' ' ∉ field := by
  refine ⟨fun tab => ?_, fun newline => ?_, fun blank => ?_⟩
  · cases h _ tab
  · cases h _ newline
  · cases h _ blank

theorem not_mem_intercalate {c d : Char} {fields : List (List Char)} (other : c ≠ d)
    (clean : ∀ field ∈ fields, c ∉ field) : c ∉ [d].intercalate fields := by
  induction fields with
  | nil => exact List.not_mem_nil
  | cons field rest ih =>
    have first := clean field List.mem_cons_self
    cases rest with
    | nil =>
      rw [List.intercalate_singleton]
      exact first
    | cons next more =>
      have later := ih fun f hf => clean f (List.mem_cons_of_mem field hf)
      simp [List.intercalate_cons_cons, first, other, later]

/-- The lines of a text, before they are cut at their tabs. -/
theorem splitOn_ofLines (clean : ∀ line ∈ lines, '\n' ∉ ['\t'].intercalate line) :
    (ofLines lines).splitOn '\n' = lines.map (['\t'].intercalate ·) ++ [[]] := by
  induction lines with
  | nil => rfl
  | cons line rest ih =>
    have later := ih fun l hl => clean l (List.mem_cons_of_mem line hl)
    have whole : ofLines (line :: rest) = ['\t'].intercalate line ++ '\n' :: ofLines rest := by
      simp [ofLines]
    rw [whole, List.splitOn_append_cons_self_of_not_mem (clean line List.mem_cons_self), later]
    rfl

/-- The lines of a text, cut at their tabs again. -/
theorem cut_ofLines (nonempty : ∀ line ∈ lines, line ≠ [])
    (clean : ∀ line ∈ lines, ∀ field ∈ line, '\t' ∉ field ∧ '\n' ∉ field) :
    (((ofLines lines).splitOn '\n').dropLast.map (·.splitOn '\t')) = lines := by
  have no_newline : ∀ line ∈ lines, '\n' ∉ ['\t'].intercalate line := fun line hline =>
    not_mem_intercalate (by decide) fun field hfield => (clean line hline field hfield).2
  rw [splitOn_ofLines no_newline, List.dropLast_concat, List.map_map]
  refine (List.map_congr_left fun line hline => ?_).trans (List.map_id lines)
  exact List.splitOn_intercalate '\t' (fun field hfield => (clean line hline field hfield).1)
    (nonempty line hline)

end Text

/-- The fields of rows with clean names are left whole by the layout, if the label is. -/
theorem StageRow.clean_lines {rows : List StageRow} {label : List Char}
    (clean : ∀ r ∈ rows, CleanName r.program) (hlabel : ∀ c ∈ label, Text.isLayout c = false) :
    ∀ line ∈ StageRow.lines label rows,
      line ≠ [] ∧ ∀ field ∈ line, '\t' ∉ field ∧ '\n' ∉ field := by
  induction rows generalizing label with
  | nil =>
    intro line hline
    cases hline
  | cons r rest ih =>
    intro line hline
    rcases List.mem_cons.mp hline with rfl | hline
    · refine ⟨List.cons_ne_nil _ _, fun field hfield => ?_⟩
      have name := clean r List.mem_cons_self
      have whole : ∀ {f : List Char}, (∀ c ∈ f, Text.isLayout c = false) → '\t' ∉ f ∧ '\n' ∉ f :=
        fun h => ⟨(Text.not_mem_of_isLayout h).1, (Text.not_mem_of_isLayout h).2.1⟩
      simp only [fields, List.mem_cons, List.not_mem_nil, or_false] at hfield
      rcases hfield with rfl | rfl | rfl | rfl
      · exact whole hlabel
      · exact whole fun _ hc => Text.isLayout_integer hc
      · exact whole fun _ hc => Text.isLayout_word hc
      · have bars : ∀ c ∈ mark rest, c = '|' := by
          rcases mark_cases rest with h | h <;> rw [h] <;> simp
        refine ⟨fun h => ?_, fun h => ?_⟩
        · rcases List.mem_append.mp h with h | h
          · exact name.no_tab h
          · cases bars _ h
        · rcases List.mem_append.mp h with h | h
          · exact name.no_newline h
          · cases bars _ h
    · exact ih (fun r' hr' => clean r' (List.mem_cons_of_mem r hr'))
        (fun _ hc => absurd hc List.not_mem_nil) line hline

theorem JobRows.clean_lines {d : JobRows} (clean : ∀ r ∈ d.rows, CleanName r.program) :
    ∀ line ∈ d.lines, line ≠ [] ∧ ∀ field ∈ line, '\t' ∉ field ∧ '\n' ∉ field := by
  obtain ⟨id, rows⟩ := d
  have label : ∀ c ∈ (Job.label id).toList, Text.isLayout c = false :=
    fun _ hc => Text.isLayout_label hc
  cases rows with
  | nil =>
    intro line hline
    obtain rfl := List.mem_singleton.mp hline
    refine ⟨List.cons_ne_nil _ _, fun field hfield => ?_⟩
    obtain rfl := List.mem_singleton.mp hfield
    exact ⟨(Text.not_mem_of_isLayout label).1, (Text.not_mem_of_isLayout label).2.1⟩
  | cons r rest => exact StageRow.clean_lines clean label

namespace JobRows

variable {rows waiting : List StageRow} {jobs : List JobRows} {behind : List (List (List Char))}

/-- A row is read from its fields, whether another row follows it or not. -/
theorem ofFields?_fields (r : StageRow) (clean : '|' ∉ r.program.toList) (rest : List StageRow) :
    StageRow.ofFields? [(toString r.pid).toList, r.status.word.toList,
      r.program.toList ++ StageRow.mark rest] = some r := by
  have name : (r.program.toList ++ StageRow.mark rest).takeWhile (· != '|') =
      r.program.toList := by
    have inside : ∀ c ∈ r.program.toList, (c != '|') = true := by
      intro c hc
      apply bne_iff_ne.mpr
      rintro rfl
      exact clean hc
    rw [List.takeWhile_append_of_pos inside]
    rcases StageRow.mark_cases rest with h | h <;> rw [h] <;> simp
  rw [StageRow.ofFields?, Text.integer?_toString, Status.ofWord?_word]
  simp only [name, String.ofList_toList]

theorem readLines_rows (clean : ∀ r ∈ rows, '|' ∉ r.program.toList)
    (read : readLines behind = some (waiting, jobs)) :
    readLines (StageRow.lines [] rows ++ behind) = some (rows ++ waiting, jobs) := by
  induction rows with
  | nil => exact read
  | cons r rest ih =>
    have own := ofFields?_fields r (clean r List.mem_cons_self) rest
    have later := ih fun r' hr' => clean r' (List.mem_cons_of_mem r hr')
    rw [StageRow.lines, List.cons_append, readLines, later, Option.bind_some, StageRow.fields,
      readLine, own]
    · rfl
    · simp

theorem readLines_lines (d : JobRows) (clean : ∀ r ∈ d.rows, '|' ∉ r.program.toList)
    (read : readLines behind = some ([], jobs)) :
    readLines (d.lines ++ behind) = some ([], d :: jobs) := by
  obtain ⟨id, rows⟩ := d
  have label := Job.ofLabel?_label id
  cases rows with
  | nil =>
    show readLines ([(Job.label id).toList] :: behind) = _
    rw [readLines, read, Option.bind_some, readLine, label]
    rfl
  | cons r rest =>
    have own := ofFields?_fields r (clean r List.mem_cons_self) rest
    have later := readLines_rows (fun r' hr' => clean r' (List.mem_cons_of_mem r hr')) read
    have labelled : (Job.label id).toList ≠ [] := by
      rw [Job.toList_label]
      exact List.cons_ne_nil _ _
    show readLines (r.fields (Job.label id).toList _ :: StageRow.lines [] rest ++ behind) = _
    rw [List.cons_append, readLines, later, Option.bind_some, StageRow.fields, readLine, own,
      Option.bind_some, if_neg labelled, label, List.append_nil]
    · rfl
    · simp

theorem readLines_reports {shown : List JobRows}
    (clean : ∀ d ∈ shown, ∀ r ∈ d.rows, '|' ∉ r.program.toList) :
    readLines (shown.flatMap lines) = some ([], shown) := by
  induction shown with
  | nil => rfl
  | cons d rest ih =>
    exact readLines_lines d (clean d List.mem_cons_self)
      (ih fun d' hd' => clean d' (List.mem_cons_of_mem d hd'))

/-- **Reports are read back**, one after the other, whatever jobs they are on. -/
theorem readAll_reports {jobs : List (Nat × Job)} (typed : ∀ r ∈ jobs, r.2.Typed) :
    readAll (Job.reports jobs) = some (Job.rowsOf jobs) := by
  have clean : ∀ d ∈ Job.rowsOf jobs, ∀ r ∈ d.rows, CleanName r.program := by
    intro d hd r hr
    obtain ⟨⟨id, job⟩, hjob, rfl⟩ := List.mem_map.mp hd
    exact (typed _ hjob).clean hr
  have whole : ∀ line ∈ (Job.rowsOf jobs).flatMap lines,
      line ≠ [] ∧ ∀ field ∈ line, '\t' ∉ field ∧ '\n' ∉ field := by
    intro line hline
    obtain ⟨d, hd, hline⟩ := List.mem_flatMap.mp hline
    exact clean_lines (clean d hd) line hline
  rw [readAll, Job.toList_reports, Text.cut_ofLines (fun line hline => (whole line hline).1)
    (fun line hline => (whole line hline).2),
    readLines_reports fun d hd r hr => (clean d hd r hr).no_bar]

/-- Reports on jobs whose programs come from lines are the same text exactly if they show the
same. -/
theorem reports_inj {jobs jobs' : List (Nat × Job)} (typed : ∀ r ∈ jobs, r.2.Typed)
    (typed' : ∀ r ∈ jobs', r.2.Typed) :
    Job.reports jobs = Job.reports jobs' ↔ Job.rowsOf jobs = Job.rowsOf jobs' := by
  constructor
  · intro same
    have read := readAll_reports typed
    rw [same, readAll_reports typed'] at read
    exact (Option.some.inj read).symm
  · intro same
    apply String.toList_inj.mp
    rw [Job.toList_reports, Job.toList_reports, same]

theorem toList_listing (j : Job) (id : Nat) :
    (j.listing id).toList = [' '].intercalate ((Job.label id).toList ::
      (j.stages.map Stage.shownPid).map fun pid => (toString pid).toList) ++ ['\n'] := by
  have written : ∀ (label : List Char) (stages : List Stage),
      label ++ stages.flatMap (fun s => ' ' :: (toString s.shownPid).toList) =
        [' '].intercalate (label :: (stages.map Stage.shownPid).map fun pid =>
          (toString pid).toList) := by
    intro label stages
    induction stages generalizing label with
    | nil => simp
    | cons s rest ih =>
      rw [List.map_cons, List.map_cons, List.intercalate_cons_cons, ← ih]
      simp
  rw [← written]
  simp [Job.listing, List.flatMap_map]

/-- **A listing is read back.** -/
theorem readListing_listing (j : Job) (id : Nat) :
    readListing (j.listing id) = some (id, j.stages.map Stage.shownPid) := by
  generalize hpids : j.stages.map Stage.shownPid = pids
  have clean : ∀ field ∈ (Job.label id).toList :: pids.map fun pid => (toString pid).toList,
      ' ' ∉ field := by
    intro field hfield
    rcases List.mem_cons.mp hfield with rfl | hfield
    · exact (Text.not_mem_of_isLayout fun _ hc => Text.isLayout_label hc).2.2
    · obtain ⟨pid, -, rfl⟩ := List.mem_map.mp hfield
      exact (Text.not_mem_of_isLayout fun _ hc => Text.isLayout_integer hc).2.2
  have numbers : (pids.map fun pid => (toString pid).toList).mapM Text.integer? = some pids := by
    rw [List.mapM_map]
    have each : Text.integer? ∘ (fun pid : Int => (toString pid).toList) = pure :=
      funext Text.integer?_toString
    rw [each, List.mapM_pure, List.map_id']
    rfl
  rw [readListing, toList_listing, hpids, List.dropLast_concat,
    List.splitOn_intercalate ' ' clean (List.cons_ne_nil _ _)]
  simp only [Job.ofLabel?_label, numbers, Option.bind_some, Option.map_some]

/-- Listings are the same text exactly if they name the same job and the same processes. -/
theorem listing_inj {j j' : Job} {id id' : Nat} : j.listing id = j'.listing id' ↔
    id = id' ∧ j.stages.map Stage.shownPid = j'.stages.map Stage.shownPid := by
  constructor
  · intro same
    have read := readListing_listing j id
    rw [same, readListing_listing, Option.some.injEq, Prod.mk.injEq] at read
    exact ⟨read.1.symm, read.2.symm⟩
  · rintro ⟨rfl, same⟩
    apply String.toList_inj.mp
    rw [toList_listing, toList_listing, same]

end JobRows

/-! ## What polls report on -/

namespace JobTable

variable {t : JobTable} {P : Job → Prop}

theorem forall_settle (kept : ∀ j change, P j → P (j.apply change)) (all : ∀ e ∈ t.entries, P e.job)
    (change : StatusChange) : ∀ e ∈ (t.settle change).entries, P e.job := by
  intro e he
  rcases settle_eq t change with ⟨-, same⟩ | ⟨own, -, -, -, settled⟩
  · rw [same] at he
    exact all e he
  · rw [settled] at he
    have modified : e ∈ (t.modify own.id fun job => job.apply change).entries := by
      split at he
      case isTrue => exact (mem_erase.mp he).1
      case isFalse => exact he
    obtain ⟨before, hbefore, rfl⟩ := mem_modify.mp modified
    unfold TableEntry.modify
    split
    · exact kept _ _ (all before hbefore)
    · exact all before hbefore

theorem forall_settleAll (kept : ∀ j change, P j → P (j.apply change))
    (all : ∀ e ∈ t.entries, P e.job) (changes : List StatusChange) :
    ∀ e ∈ (t.settleAll changes).entries, P e.job := by
  induction changes generalizing t with
  | nil => exact all
  | cons change rest ih => exact ih (forall_settle kept all change)

theorem forall_endedBy (kept : ∀ j change, P j → P (j.apply change))
    (all : ∀ e ∈ t.entries, P e.job) (change : StatusChange) : ∀ r ∈ t.endedBy change, P r.2 := by
  intro r hr
  cases found : t.findByPid? change.pid with
  | none =>
    simp only [endedBy, record, found, Option.map_none, List.not_mem_nil] at hr
  | some id =>
    obtain ⟨e, he, rfl, -⟩ := findByPid?_eq_some found
    have there := find?_modify (f := fun job => job.apply change) (find?_of_mem he)
    simp only [endedBy, record, found, Option.map_some, there] at hr
    split at hr
    case isTrue =>
      obtain rfl := List.mem_singleton.mp hr
      exact kept _ _ (all e he)
    case isFalse => cases hr

theorem forall_ended (kept : ∀ j change, P j → P (j.apply change))
    (all : ∀ e ∈ t.entries, P e.job) (changes : List StatusChange) :
    ∀ r ∈ t.ended changes, P r.2 := by
  induction changes generalizing t with
  | nil =>
    intro r hr
    cases hr
  | cons change rest ih =>
    intro r hr
    rcases List.mem_append.mp hr with hr | hr
    · exact forall_endedBy kept all change r hr
    · exact ih (forall_settle kept all change) r hr

/-- What holds of the jobs of a table, and stays true of a job that is reported on, holds of every
job that a poll prints. -/
theorem forall_bulletin (kept : ∀ j change, P j → P (j.apply change))
    (all : ∀ e ∈ t.entries, P e.job) (reports : List Notification) :
    ∀ r ∈ (t.bulletin reports).reports, P r.2 := by
  intro ⟨id, job⟩ hr
  rcases List.mem_append.mp hr with ended | stopped
  · exact forall_ended kept all _ _ ended
  · obtain ⟨-, found, -⟩ := Reaping.mem_stops.mp stopped
    obtain ⟨e, he, rfl, rfl⟩ := find?_eq_some_iff.mp found
    rw [table_reap_eq] at he
    exact forall_settleAll kept all _ e he

end JobTable

theorem Job.Typed.advances {j j' : Job} (typed : j.Typed) (h : j.Advances j') : j'.Typed := by
  intro s hs
  have programs := h.map_eq Stage.program fun _ => rfl
  have named : s.program ∈ j.stages.map Stage.program := by
    rw [← programs]
    exact List.mem_map_of_mem hs
  obtain ⟨before, hbefore, same⟩ := List.mem_map.mp named
  rw [← same]
  exact typed before hbefore

/-- The programs of all jobs come from lines. -/
def JobTable.Typed (t : JobTable) : Prop :=
  ∀ e ∈ t.entries, e.job.Typed

namespace JobTable.Typed

variable {t : JobTable}

theorem toList (typed : t.Typed) : ∀ r ∈ t.toList, r.2.Typed := by
  intro r hr
  obtain ⟨e, he, rfl⟩ := List.mem_map.mp hr
  exact typed e he

theorem bulletin (typed : t.Typed) (reports : List Notification) :
    ∀ r ∈ (t.bulletin reports).reports, r.2.Typed :=
  JobTable.forall_bulletin (fun j change h => h.advances (.apply j change)) typed reports

end JobTable.Typed

/-! ## The texts of a session -/

namespace Session

variable {κ κ' : Type} [Kernel κ] [Kernel κ']

/-- What the text of a session's table shows. -/
def shownJobs (s : Session κ) : List JobRows :=
  Job.rowsOf s.shell.jobs.toList

/-- What the text of a poll shows. -/
def shownByPoll (s : Session κ) : List JobRows :=
  Job.rowsOf (s.shell.jobs.bulletin (drain s.kernel).1).reports

omit [Kernel κ] in
/-- The rows of a table are those of its jobs, each once and in order of the numbers. -/
theorem shownJobs_spec (s : Session κ) :
    s.shownJobs.Pairwise (fun d d' => d.id < d'.id) ∧
      ∀ d, d ∈ s.shownJobs ↔ ∃ job, s.shell.jobs.find? d.id = some job ∧ d = job.rows d.id := by
  have each : s.shownJobs = s.shell.jobs.entries.map fun e => e.job.rows e.id := by
    simp [shownJobs, Job.rowsOf, JobTable.toList]
  rw [each]
  refine ⟨List.pairwise_map.mpr s.shell.jobs.ordered, fun d => ?_⟩
  rw [List.mem_map]
  constructor
  · rintro ⟨e, he, rfl⟩
    exact ⟨e.job, JobTable.find?_of_mem he, rfl⟩
  · rintro ⟨job, found, same⟩
    obtain ⟨e, he, hid, rfl⟩ := JobTable.find?_eq_some_iff.mp found
    exact ⟨e, he, by rw [hid, ← same]⟩

theorem poll_eq_reports (s : Session κ) :
    s.poll.1 = Job.reports (s.shell.jobs.bulletin (drain s.kernel).1).reports :=
  JobTable.output_reap s.shell.jobs (drain s.kernel).1

/-- **What a session prints about its jobs can be read back.**  Let the programs of all jobs be such
as lines name.  Then the text of the table is read as its jobs, each once and in order of the
numbers, with process, status and program of every stage; the text of a poll, and any other sequence
of reports, is read as what the reports show, in order.  A listing is read as the number and the
processes.  So texts are equal exactly if they show the same. -/
theorem reads_back (s : Session κ) (s' : Session κ') (typed : s.shell.jobs.Typed)
    (typed' : s'.shell.jobs.Typed) :
    (JobRows.readAll s.listJobs = some s.shownJobs ∧
      s.shownJobs.Pairwise (fun d d' => d.id < d'.id) ∧
      ∀ d, d ∈ s.shownJobs ↔ ∃ job, s.shell.jobs.find? d.id = some job ∧ d = job.rows d.id) ∧
    JobRows.readAll s.poll.1 = some s.shownByPoll ∧
    (∀ jobs : List (Nat × Job), (∀ r ∈ jobs, r.2.Typed) →
      JobRows.readAll (Job.reports jobs) = some (Job.rowsOf jobs)) ∧
    (∀ (j : Job) (id : Nat),
      JobRows.readListing (j.listing id) = some (id, j.stages.map Stage.shownPid)) ∧
    (s.listJobs = s'.listJobs ↔ s.shownJobs = s'.shownJobs) ∧
    (s.poll.1 = s'.poll.1 ↔ s.shownByPoll = s'.shownByPoll) ∧
    ∀ (j j' : Job) (id id' : Nat), j.listing id = j'.listing id' ↔
      id = id' ∧ j.stages.map Stage.shownPid = j'.stages.map Stage.shownPid := by
  have polls := s.poll_eq_reports
  have polls' := s'.poll_eq_reports
  refine ⟨⟨JobRows.readAll_reports typed.toList, s.shownJobs_spec⟩, ?_,
    fun jobs named => JobRows.readAll_reports named, JobRows.readListing_listing, ?_, ?_, ?_⟩
  · rw [polls]
    exact JobRows.readAll_reports (typed.bulletin _)
  · exact JobRows.reports_inj typed.toList typed'.toList
  · rw [polls, polls']
    exact JobRows.reports_inj (typed.bulletin _) (typed'.bulletin _)
  · exact fun _ _ _ _ => JobRows.listing_inj

/-- A job whose programs look like parts of a report.  The second one could not be launched. -/
def lookalikes : JobTable where
  capacity := 1
  entries := [⟨1, 0, ⟨some 1, some 7, .background, "[2] | -1 done",
    [.named "[2]" 7 .suspended, ⟨"-1", ["done"], none, none, none, .terminated⟩]⟩⟩]
  registered := 1
  ordered := by decide
  numbered := by decide

theorem typed_lookalikes : lookalikes.Typed := by
  intro e he
  obtain rfl := List.mem_singleton.mp he
  have read : Job.ofLine "[2] | -1 done &" = .ok (some ⟨none, none, .background, "[2] | -1 done",
      [⟨"[2]", [], none, none, none, .running⟩,
        ⟨"-1", ["done"], none, none, none, .running⟩]⟩) := by
    decide +kernel
  intro s hs
  refine ⟨_, _, read, ?_⟩
  simp only [List.mem_cons, List.not_mem_nil, or_false] at hs
  rcases hs with rfl | rfl
  · exact ⟨_, List.mem_cons_self, rfl⟩
  · exact ⟨_, List.mem_cons_of_mem _ List.mem_cons_self, rfl⟩

/-- The report on such a job is not taken for one on two jobs. -/
theorem reads_back_lookalikes :
    ∃ s : Session Machine, s.listJobs = "[1]\t7\tsuspended\t[2]|\n\t-1\tterminated\t-1\n" ∧
      JobRows.readAll s.listJobs =
        some [⟨1, [⟨7, .suspended, "[2]"⟩, ⟨-1, .terminated, "-1"⟩]⟩] := by
  let s : Session Machine :=
    (start ⟨true, "$ ", 1, false⟩ ⟨"user", "/"⟩
      (Machine.boot .bare FileTree.root .sink)).withJobs lookalikes
  exact ⟨s, by decide +kernel, (reads_back s s typed_lookalikes typed_lookalikes).1.1⟩

end Session

end JobControl
