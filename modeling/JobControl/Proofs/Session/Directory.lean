import JobControl.Machine.System
import JobControl.Proofs.Session.Steps

/-!
# The recorded directory and the real one

The shell records its working directory, and resolves the next change of directory against what it
recorded.  A change that is refused moves nothing (`cd_cases`, with `Kernel.StaysPut` for the
system).  A change to a named directory records what the system reports afterwards.  The way home
records the home directory as it is written, and that may be a relative path, one through a symbolic
link, or one with a slash too many.

So the recorded directory is the real one, except after the way home to a directory that the system
reports under another name (`recordsReal_cdAll_iff`).
-/

set_option autoImplicit false

namespace JobControl

/-- A change of directory that is refused leaves the system where it was. -/
def Kernel.StaysPut (κ : Type) [Kernel κ] : Prop :=
  ∀ (path : String) (k : κ) (e : PathError) (k' : κ),
    Kernel.changeDirectory path k = (.error e, k') →
      Kernel.workingDirectory k' = Kernel.workingDirectory k

theorem Machine.staysPut : Kernel.StaysPut Machine := by
  intro path m e m' refused
  have refused : m.changeDirectory path = (.error e, m') := refused
  unfold Machine.changeDirectory at refused
  split at refused
  · cases refused
    rfl
  · split at refused
    · cases refused
    · cases refused
      rfl

namespace Session

variable {κ : Type} [Kernel κ] {s : Session κ}

/-- The recorded directory is the one that the system reports, if it reports one. -/
def RecordsReal (s : Session κ) : Prop :=
  ∀ path, Kernel.workingDirectory s.kernel = .ok path → s.shell.directory = path

/-- What the first argument of a change of directory comes to when it is resolved against a
directory. -/
def pathFrom (directory argument : String) : String :=
  Directory.resolve directory (String.ofList (Text.trim Text.isWhiteSpace argument.toList))

/-! ## One change -/

/-- What can become of a change of directory: it is refused, or it leads home, or it leads to a named
directory. -/
inductive CdCases (s : Session κ) (arguments : List String) : Prop
  | refused (path : String) (cause : PathError) (e : ShellError) (kernel : κ)
      (answer : Kernel.changeDirectory path s.kernel = (.error cause, kernel))
      (cd : s.cd arguments = (.error e, { s with kernel }))
  | home (kernel : κ) (none : arguments = [])
      (cd : s.cd arguments =
        (.ok "", { shell := { s.shell with directory := s.shell.home }, kernel }))
  | named (argument : String) (rest : List String) (kernel : κ) (directory : String)
      (given : arguments = argument :: rest)
      (reported : ∀ path, Kernel.workingDirectory kernel = .ok path → directory = path)
      (cd : s.cd arguments = (.ok "", { shell := { s.shell with directory }, kernel }))

/-- **The rule for changing the directory.** -/
theorem cd_cases (s : Session κ) (arguments : List String) : s.CdCases arguments := by
  cases arguments with
  | nil =>
    rcases answer : Kernel.changeDirectory s.shell.home s.kernel with ⟨cause | ⟨⟩, kernel⟩
    · exact .refused _ cause _ kernel answer (by simp only [cd, goHome, answer]; rfl)
    · exact .home kernel rfl (by simp only [cd, goHome, answer])
  | cons argument rest =>
    rcases answer : Kernel.changeDirectory (pathFrom s.shell.directory argument) s.kernel with
      ⟨cause | ⟨⟩, kernel⟩
    · let target := String.ofList (Text.trim Text.isWhiteSpace argument.toList)
      refine .refused _ cause (.builtin (.directory target cause)) kernel answer ?_
      rw [pathFrom] at answer
      simp only [cd, answer, target]
    · refine .named argument rest kernel (s.cd (argument :: rest)).2.shell.directory rfl ?_ ?_
      · intro path reported
        rw [pathFrom] at answer
        simp only [cd, answer, reported]
      · rw [pathFrom] at answer
        simp only [cd, answer]

/-! ## Any number of changes -/

/-- Several changes of directory, one after the other, whether they succeed or not. -/
def cdAll (s : Session κ) (commands : List (List String)) : Session κ :=
  commands.foldl (fun s arguments => (s.cd arguments).2) s

/-- The last change of directory that succeeds: its arguments, and the session right after it. -/
def lastMove? (s : Session κ) : List (List String) → Option (List String × Session κ)
  | [] => none
  | arguments :: rest =>
    match s.cd arguments with
    | (.ok _, after) => (after.lastMove? rest).or (some (arguments, after))
    | (.error _, after) => after.lastMove? rest

/-- Only the last change that succeeds decides whether the recorded directory is the real one. -/
theorem recordsReal_cdAll (steady : Kernel.StaysPut κ) (s : Session κ)
    (commands : List (List String)) :
    (s.cdAll commands).RecordsReal ↔
      (((s.lastMove? commands).map Prod.snd).getD s).RecordsReal := by
  induction commands generalizing s with
  | nil => rfl
  | cons arguments rest ih =>
    have later := ih (s.cd arguments).2
    rw [cdAll, List.foldl_cons, ← cdAll, later]
    rcases answer : s.cd arguments with ⟨e | text, after⟩
    · -- a refused change: the session after it stands for the one before it
      have same : after.RecordsReal ↔ s.RecordsReal := by
        cases s.cd_cases arguments with
        | refused path cause e' kernel refused cd =>
          rw [answer] at cd
          cases cd
          rw [RecordsReal, RecordsReal, steady path s.kernel cause kernel refused]
        | home kernel none cd => rw [answer] at cd; cases cd
        | named argument rest kernel directory given reported cd => rw [answer] at cd; cases cd
      simp only [lastMove?, answer]
      cases after.lastMove? rest with
      | none => exact same
      | some move => rfl
    · simp only [lastMove?, answer]
      cases after.lastMove? rest <;> rfl

/-- A change that succeeds last was made from a session with the same home. -/
theorem exists_cd_of_lastMove? {commands : List (List String)} {arguments : List String}
    {after : Session κ} (last : s.lastMove? commands = some (arguments, after)) :
    ∃ (before : Session κ) (text : String), before.cd arguments = (.ok text, after) ∧
      before.shell.home = s.shell.home := by
  induction commands generalizing s with
  | nil => cases last
  | cons first rest ih =>
    have home : (s.cd first).2.shell.home = s.shell.home := by
      cases s.cd_cases first with
      | refused path cause e kernel answer cd => rw [cd]
      | home kernel none cd => rw [cd]
      | named argument rest kernel directory given reported cd => rw [cd]
    rcases answer : s.cd first with ⟨e | text, next⟩
    · rw [answer] at home
      simp only [lastMove?, answer] at last
      obtain ⟨before, text, moved, same⟩ := ih last
      exact ⟨before, text, moved, same.trans home⟩
    · rw [answer] at home
      simp only [lastMove?, answer, Option.or_eq_some_iff] at last
      rcases last with later | ⟨-, own⟩
      · obtain ⟨before, text, moved, same⟩ := ih later
        exact ⟨before, text, moved, same.trans home⟩
      · cases own
        exact ⟨s, text, answer, rfl⟩

/-- **When the recorded directory is the real one.**  It stays so through any changes of directory
exactly if the last one that succeeded was not a way home to a directory that the system reports
under another name.  As long as it is so, an argument is resolved against the directory the shell is
really in. -/
theorem recordsReal_cdAll_iff (steady : Kernel.StaysPut κ) (real : s.RecordsReal)
    (commands : List (List String)) :
    ((s.cdAll commands).RecordsReal ↔
      ∀ after, s.lastMove? commands = some ([], after) →
        ∀ path, Kernel.workingDirectory after.kernel = .ok path → s.shell.home = path) ∧
    ((s.cdAll commands).RecordsReal →
      ∀ path, Kernel.workingDirectory (s.cdAll commands).kernel = .ok path →
        ∀ argument rest, ((s.cdAll commands).cd (argument :: rest)).2.kernel =
          (Kernel.changeDirectory (pathFrom path argument) (s.cdAll commands).kernel).2) := by
  constructor
  · rw [recordsReal_cdAll steady]
    cases last : s.lastMove? commands with
    | none => simpa using real
    | some move =>
      obtain ⟨arguments, after⟩ := move
      obtain ⟨before, text, moved, home⟩ := exists_cd_of_lastMove? last
      simp only [Option.map_some, Option.getD_some, Option.some.injEq, Prod.mk.injEq]
      cases before.cd_cases arguments with
      | refused path cause e kernel answer cd => rw [moved] at cd; cases cd
      | home kernel none cd =>
        rw [moved] at cd
        cases cd
        rw [← home]
        constructor
        · rintro recorded _ ⟨-, rfl⟩
          exact recorded
        · exact fun named => named _ ⟨none, rfl⟩
      | named argument rest kernel directory given reported cd =>
        rw [moved] at cd
        cases cd
        refine iff_of_true reported ?_
        rintro _ ⟨none, -⟩
        rw [given] at none
        cases none
  · intro recorded path reported argument rest
    rw [← recorded path reported]
    simp only [cd, pathFrom]
    split <;> rename_i answer <;> rw [answer]

/-- A tree with a directory `/real/home`, a directory `/there` and a link in it to the first one. -/
def linkedTree : FileTree :=
  ⟨#[.directory [("real", 1), ("there", 3)] 0, .directory [("home", 2)] 0, .directory [] 1,
    .directory [("way", 4)] 0, .link "../real/home"]⟩

/-- A shell whose home directory is named through the link. -/
def linkedHome : Session Machine :=
  start ⟨true, "$ ", 2, false⟩ ⟨"user", "/there/way"⟩
    (Machine.boot linkedTree FileTree.root .sink)

/-- The link leads to the directory. -/
theorem linkedTree_way (directory : NodeId) :
    linkedTree.findDirectory directory "/there/way" = .ok 2 := by
  have path : FileTree.components "/there/way" = ["there", "way"] := by decide +kernel
  have target : FileTree.components "../real/home" = ["..", "real", "home"] := by decide +kernel
  have short : "/there/way".utf8ByteSize = 10 ∧ "there".utf8ByteSize = 5 ∧
      "way".utf8ByteSize = 3 ∧ "..".utf8ByteSize = 2 ∧ "real".utf8ByteSize = 4 ∧
      "home".utf8ByteSize = 4 := by decide +kernel
  simp [FileTree.findDirectory, FileTree.find, FileTree.locate, FileTree.walk, FileTree.entries?,
    FileTree.maxPath, FileTree.maxLinks, FileTree.maxComponent, FileTree.startOf, FileTree.parent,
    FileTree.root, linkedTree, path, target, short]

/-- Following the link succeeds. -/
theorem linkedHome_way :
    Kernel.changeDirectory "/there/way" linkedHome.kernel =
      (.ok (), { linkedHome.kernel with directory := 2 }) := by
  have plain : ("/there/way".toList.contains '\x00') = false := by decide +kernel
  have found := linkedTree_way linkedHome.kernel.directory
  have files : linkedHome.kernel.files = linkedTree := rfl
  change Machine.changeDirectory "/there/way" linkedHome.kernel = _
  simp only [Machine.changeDirectory, plain, Bool.false_eq_true, if_false, files, found]

/-- By the name of the link the shell records where it arrives. -/
theorem recordsReal_after_link :
    linkedHome.RecordsReal ∧ (linkedHome.cdAll [["there/way"]]).RecordsReal := by
  have real : linkedHome.RecordsReal := by
    intro path reported
    have here : Kernel.workingDirectory linkedHome.kernel = .ok "/" := by decide +kernel
    rw [here] at reported
    cases reported
    decide +kernel
  refine ⟨real, (recordsReal_cdAll_iff Machine.staysPut real _).1.mpr fun after last => ?_⟩
  have asked : Directory.resolve linkedHome.shell.directory
      (String.ofList (Text.trim Text.isWhiteSpace "there/way".toList)) = "/there/way" := by
    decide +kernel
  have moved : (linkedHome.cd ["there/way"]).1 = .ok "" := by
    simp only [cd, asked, linkedHome_way]
  -- so the last change that succeeded had an argument
  rcases answer : linkedHome.cd ["there/way"] with ⟨reply, next⟩
  obtain rfl : reply = .ok "" := by rwa [answer] at moved
  simp [lastMove?, answer] at last

/-- **The way home misleads.**  The shell records the name of the link, and `..` then leads to the
directory of the link and not to the parent of the directory the shell was in. -/
theorem misrecorded_after_home :
    linkedHome.RecordsReal ∧ ¬(linkedHome.cdAll [[]]).RecordsReal ∧
      Kernel.workingDirectory (linkedHome.cdAll [[]]).kernel = .ok "/real/home" ∧
      (linkedHome.cdAll [[]]).shell.directory = "/there/way" ∧
      pathFrom (linkedHome.cdAll [[]]).shell.directory ".." = "/there" := by
  have start : Kernel.workingDirectory linkedHome.kernel = .ok "/" := by decide +kernel
  have home : linkedHome.shell.home = "/there/way" := rfl
  have arrived : linkedHome.cdAll [[]] =
      { shell := { linkedHome.shell with directory := "/there/way" }
        kernel := { linkedHome.kernel with directory := 2 } } := by
    simp only [cdAll, List.foldl_cons, List.foldl_nil, cd, goHome, home, linkedHome_way]
  have real : Kernel.workingDirectory (linkedHome.cdAll [[]]).kernel = .ok "/real/home" := by
    rw [arrived]
    decide +kernel
  have recorded : (linkedHome.cdAll [[]]).shell.directory = "/there/way" := by rw [arrived]
  refine ⟨?_, ?_, real, recorded, ?_⟩
  · intro path reported
    rw [start] at reported
    cases reported
    decide +kernel
  · intro same
    have wrong := recorded.symm.trans (same _ real)
    exact absurd wrong (by decide +kernel)
  · rw [recorded]
    decide +kernel

end Session

end JobControl
