import JobControl.Proofs.Session.Directory
import JobControl.Proofs.Text.Words

/-!
# Where a change of directory leads

An absolute path in normal form is a list of names (`Directory.AbsolutePath`): none of them is empty,
`.` or `..`, and none holds a `/`.  An argument leads from one such path to another: it starts at the
root if it begins with `/`, and its components are followed one by one (`AbsolutePath.walk`).  What
this does is said by `Directory.Lexical`, which mentions neither components nor how they are found,
and nothing else does the same (`Lexical.unique`).

The shell works on the text of paths.  There, taking the last component away and adding one agree
with the lists of names (`parent_chars`, `child_chars`), so resolving an argument agrees with
following it (`resolve_text`), and a change of directory asks the system for the path that the
argument leads to (`Session.cd_resolves_lexically`).
-/

set_option autoImplicit false

namespace JobControl

namespace Directory

/-! ## Paths as lists of names -/

/-- A component that names an entry of a directory. -/
structure IsName (component : List Char) : Prop where
  nonempty : component ≠ []
  not_dot : component ≠ ['.']
  not_dots : component ≠ ['.', '.']
  no_slash : '/' ∉ component

theorem isName_iff {component : List Char} :
    IsName component ↔ component ≠ [] ∧ component ≠ ['.'] ∧ component ≠ ['.', '.'] ∧
      '/' ∉ component :=
  ⟨fun h => ⟨h.1, h.2, h.3, h.4⟩, fun ⟨h₁, h₂, h₃, h₄⟩ => ⟨h₁, h₂, h₃, h₄⟩⟩

instance : DecidablePred IsName := fun _ => decidable_of_iff _ isName_iff.symm

/-- A name is not idle. -/
theorem IsName.isIdle_eq_false {name : List Char} (h : IsName name) : isIdle name = false := by
  simp [isIdle, h.nonempty, h.not_dot]

/-- An absolute path in normal form: the names that lead from the root to its end. -/
@[ext] structure AbsolutePath where
  names : List (List Char)
  proper : ∀ name ∈ names, IsName name

namespace AbsolutePath

/-- The root. -/
def root : AbsolutePath :=
  ⟨[], by simp⟩

/-- The characters of the path. -/
def chars (p : AbsolutePath) : List Char :=
  '/' :: ['/'].intercalate p.names

/-- The text of the path. -/
def text (p : AbsolutePath) : String :=
  String.ofList p.chars

/-- The path without its last name; the root stays as it is. -/
def up (p : AbsolutePath) : AbsolutePath :=
  ⟨p.names.dropLast, fun name h => p.proper name (List.dropLast_subset _ h)⟩

/-- The path with a name added. -/
def down (p : AbsolutePath) (name : List Char) (h : IsName name) : AbsolutePath where
  names := p.names ++ [name]
  proper := by
    intro n hn
    rcases List.mem_append.mp hn with hn | hn
    · exact p.proper n hn
    · rwa [List.mem_singleton.mp hn]

/-- Follows one component: a name leads down, two dots lead up, and nothing else leads anywhere. -/
def follow (p : AbsolutePath) (component : List Char) : AbsolutePath :=
  if h : IsName component then p.down component h
  else if component = ['.', '.'] then p.up
  else p

/-- Follows an argument, from the root if it begins with `/`. -/
def walk (p : AbsolutePath) (argument : List Char) : AbsolutePath :=
  (argument.splitOn '/').foldl follow (if argument.head? = some '/' then root else p)

end AbsolutePath

/-! ## Following an argument -/

/-- What it is for an argument to lead from one path to another. -/
structure Lexical (walk : AbsolutePath → List Char → AbsolutePath) : Prop where
  /-- What begins with `/` starts from the root. -/
  absolute : ∀ p a, walk p ('/' :: a) = walk .root a
  /-- Nothing, and one dot, lead nowhere. -/
  idle : ∀ p, walk p [] = p ∧ walk p ['.'] = p
  /-- A name leads to the entry of that name. -/
  name : ∀ p n, IsName n → (walk p n).names = p.names ++ [n]
  /-- Two dots take the last name away, and the root has none. -/
  dots : ∀ p, (walk p ['.', '.']).names = p.names.dropLast
  /-- What stands before a `/` is followed first, and then what stands behind it. -/
  composed : ∀ p a b, a ≠ [] → b.head? ≠ some '/' → walk p (a ++ '/' :: b) = walk (walk p a) b
  /-- A `/` more makes no difference, between components and at the end. -/
  repeated : ∀ p a b, walk p (a ++ '/' :: '/' :: b) = walk p (a ++ '/' :: b)
  trailing : ∀ p a, a ≠ [] → walk p (a ++ ['/']) = walk p a

/-- These properties leave no choice. -/
theorem Lexical.unique {walk walk' : AbsolutePath → List Char → AbsolutePath} (h : Lexical walk)
    (h' : Lexical walk') (p : AbsolutePath) (a : List Char) : walk p a = walk' p a := by
  -- each case but the last ones cuts the argument at a `/`, which makes it shorter
  induction length : a.length using Nat.strong_induction_on generalizing p a with
  | _ n ih =>
    subst length
    by_cases slash : '/' ∈ a
    · obtain ⟨before, after, rfl⟩ := List.append_of_mem slash
      have shorter : ∀ q, walk q after = walk' q after := fun q =>
        ih after.length (by simp; omega) q after rfl
      by_cases start : before = []
      · rw [start, List.nil_append, h.absolute, h'.absolute, shorter]
      · by_cases again : after.head? = some '/'
        · obtain ⟨rest, rfl⟩ := List.head?_eq_some_iff.mp again
          rw [h.repeated, h'.repeated]
          exact ih _ (by simp) p _ rfl
        · rw [h.composed p _ _ start again, h'.composed p _ _ start again, shorter,
            ih before.length (by simp) p before rfl]
    · by_cases name : IsName a
      · exact AbsolutePath.ext ((h.name p a name).trans (h'.name p a name).symm)
      · rw [isName_iff] at name
        have cases : a = [] ∨ a = ['.'] ∨ a = ['.', '.'] := by tauto
        rcases cases with rfl | rfl | rfl
        · rw [(h.idle p).1, (h'.idle p).1]
        · rw [(h.idle p).2, (h'.idle p).2]
        · exact AbsolutePath.ext ((h.dots p).trans (h'.dots p).symm)

namespace AbsolutePath

theorem follow_nil (p : AbsolutePath) : p.follow [] = p := by
  rw [follow, dif_neg (by decide), if_neg (by decide)]

/-- An argument without a `/` is its own only component. -/
theorem walk_component (p : AbsolutePath) {component : List Char} (h : '/' ∉ component) :
    p.walk component = p.follow component := by
  have relative : component.head? ≠ some '/' := fun head => h (List.mem_of_head? head)
  rw [walk, List.splitOn_eq_singleton h, if_neg relative, List.foldl_cons, List.foldl_nil]

theorem walk_of_relative (p : AbsolutePath) {a : List Char} (h : a.head? ≠ some '/') :
    p.walk a = (a.splitOn '/').foldl follow p := by
  rw [walk, if_neg h]

/-- A `/` behind a part of an argument ends a component. -/
theorem walk_append (p : AbsolutePath) {a : List Char} (ha : a ≠ []) (b : List Char) :
    p.walk (a ++ '/' :: b) = (b.splitOn '/').foldl follow (p.walk a) := by
  rw [walk, walk, List.splitOn_append_cons_self, List.foldl_append,
    List.head?_append_of_ne_nil _ ha]

/-- A `/` in front leads nowhere. -/
theorem foldl_follow_slash (p : AbsolutePath) (a : List Char) :
    (('/' :: a).splitOn '/').foldl follow p = (a.splitOn '/').foldl follow p := by
  have pieces : ('/' :: a).splitOn '/' = [] :: a.splitOn '/' :=
    List.splitOn_append_cons_self_of_not_mem List.not_mem_nil a
  rw [pieces, List.foldl_cons, follow_nil]

/-- It only makes the rest of the argument start from the root. -/
theorem walk_cons_slash (p : AbsolutePath) (a : List Char) :
    p.walk ('/' :: a) = (a.splitOn '/').foldl follow root := by
  rw [walk, List.head?_cons, if_pos rfl, foldl_follow_slash]

/-- **Following the components of an argument is lexical.** -/
theorem lexical_walk : Lexical walk where
  absolute p a := by
    rw [walk_cons_slash, walk, ite_self]
  idle p := by
    constructor <;> rw [p.walk_component (by decide), follow, dif_neg (by decide),
      if_neg (by decide)]
  name p n h := by
    rw [p.walk_component h.no_slash, follow, dif_pos h, down]
  dots p := by
    rw [p.walk_component (by decide), follow, dif_neg (by decide), if_pos rfl, up]
  composed p a b ha hb := by
    rw [p.walk_append ha, walk_of_relative _ hb]
  repeated p a b := by
    by_cases ha : a = []
    · rw [ha, List.nil_append, List.nil_append, walk_cons_slash, walk_cons_slash,
        foldl_follow_slash]
    · rw [p.walk_append ha, p.walk_append ha, foldl_follow_slash]
  trailing p a ha := by
    rw [p.walk_append ha, List.splitOn_eq_singleton List.not_mem_nil, List.foldl_cons, follow_nil,
      List.foldl_nil]

end AbsolutePath

/-! ## Paths as text -/

variable {p : AbsolutePath} {components : List (List Char)}

theorem dropIdle_eq_self (h : ∀ c ∈ components, isIdle c = false) :
    dropIdle components = components := by
  have reversed : components.reverse.dropWhile isIdle = components.reverse := by
    cases last : components.reverse with
    | nil => rfl
    | cons c rest =>
      have hc : c ∈ components := List.mem_reverse.mp (last ▸ List.mem_cons_self)
      rw [List.dropWhile_cons_of_neg (by simp [h c hc])]
  rw [dropIdle, reversed, List.reverse_reverse]

theorem AbsolutePath.isIdle_eq_false (p : AbsolutePath) : ∀ name ∈ p.names, isIdle name = false :=
  fun name h => (p.proper name h).isIdle_eq_false

/-- The components of the text of a path are its names. -/
theorem splitOn_names (h : p.names ≠ []) : (['/'].intercalate p.names).splitOn '/' = p.names :=
  List.splitOn_intercalate '/' (fun name hname => (p.proper name hname).no_slash) h

/-- A last component is joined to the others by a `/`. -/
theorem intercalate_concat (h : components ≠ []) (last : List Char) :
    ['/'].intercalate (components ++ [last]) = ['/'].intercalate components ++ '/' :: last := by
  induction components with
  | nil => exact absurd rfl h
  | cons first rest ih =>
    cases rest with
    | nil => simp [List.intercalate_cons_cons]
    | cons second others =>
      have joined := ih (List.cons_ne_nil second others)
      simp only [List.cons_append, List.intercalate_cons_cons] at joined ⊢
      rw [joined, List.append_assoc, List.append_assoc, List.append_assoc]

/-- The text of a path ends in the last character of its last name. -/
theorem getLast?_chars (h : p.names ≠ []) : ∃ c, p.chars.getLast? = some c ∧ c ≠ '/' := by
  obtain ⟨init, last, names⟩ : ∃ init last, p.names = init ++ [last] :=
    ⟨_, _, (List.dropLast_append_getLast h).symm⟩
  have name : IsName last := p.proper last (by simp [names])
  have ends : p.chars.getLast? = last.getLast? := by
    rw [AbsolutePath.chars, names]
    by_cases alone : init = []
    · rw [alone, List.nil_append, List.intercalate_singleton]
      exact List.getLast?_append_of_ne_nil ['/'] name.nonempty
    · rw [intercalate_concat alone, ← List.cons_append,
        List.getLast?_append_of_ne_nil _ (List.cons_ne_nil _ _)]
      exact List.getLast?_append_of_ne_nil ['/'] name.nonempty
  obtain ⟨c, hc⟩ := Option.isSome_iff_exists.mp (List.getLast?_isSome.mpr name.nonempty)
  exact ⟨c, ends.trans hc, fun slash => name.no_slash (slash ▸ List.mem_of_getLast? hc)⟩

theorem parent_chars (p : AbsolutePath) : parent p.chars = p.up.chars := by
  by_cases h : p.names = []
  · simp only [AbsolutePath.chars, AbsolutePath.up, h]
    decide
  · have body : dropIdle p.names = p.names := dropIdle_eq_self p.isIdle_eq_false
    have shorter : dropIdle p.names.dropLast = p.names.dropLast :=
      dropIdle_eq_self p.up.isIdle_eq_false
    have without : withoutLast p.names = some p.names.dropLast := by
      rw [withoutLast, body]
      split
      · contradiction
      · rw [shorter]
    simp only [parent, AbsolutePath.chars, splitOn_names h, without, AbsolutePath.up]

theorem child_chars (p : AbsolutePath) {name : List Char} (h : IsName name) :
    child p.chars name = (p.down name h).chars := by
  by_cases root : p.names = []
  · simp [child, AbsolutePath.chars, AbsolutePath.down, root]
  · obtain ⟨c, last, hc⟩ := getLast?_chars root
    have added : (p.down name h).chars = p.chars ++ '/' :: name := by
      simp only [AbsolutePath.chars, AbsolutePath.down, intercalate_concat root,
        List.cons_append]
    rw [child, last, added]
    split
    · contradiction
    · rename_i slash
      exact absurd (Option.some.inj slash) hc
    · rfl

theorem step_chars (p : AbsolutePath) {component : List Char} (h : '/' ∉ component) :
    step p.chars component = (p.follow component).chars := by
  unfold step AbsolutePath.follow
  by_cases name : IsName component
  · rw [name.isIdle_eq_false, dif_pos name, if_neg (by simp), if_neg (by simp [name.not_dots]),
      child_chars p name]
  · rw [dif_neg name]
    by_cases dots : component = ['.', '.']
    · subst dots
      rw [if_neg (by decide), if_pos (beq_self_eq_true _), if_pos rfl, parent_chars]
    · have idle : isIdle component = true := by
        simp only [isIdle, Bool.or_eq_true, beq_iff_eq]
        by_contra proper
        exact name ⟨fun none => proper (Or.inl none), fun dot => proper (Or.inr dot), dots, h⟩
      rw [if_pos idle, if_neg dots]

theorem foldl_step_chars (p : AbsolutePath) (h : ∀ c ∈ components, '/' ∉ c) :
    components.foldl step p.chars = (components.foldl AbsolutePath.follow p).chars := by
  induction components generalizing p with
  | nil => rfl
  | cons first rest ih =>
    rw [List.foldl_cons, List.foldl_cons, step_chars p (h first List.mem_cons_self)]
    exact ih _ fun c hc => h c (List.mem_cons_of_mem first hc)

/-- **Resolving an argument leads where following it leads.** -/
theorem resolve_text (p : AbsolutePath) (argument : String) :
    resolve p.text argument = (p.walk argument.toList).text := by
  have pieces : ∀ c ∈ argument.toList.splitOn '/', '/' ∉ c := by
    intro c hc slash
    rw [List.splitOn_eq_splitOnP] at hc
    simpa using Text.mem_of_mem_splitOnP hc slash
  unfold resolve AbsolutePath.walk AbsolutePath.text
  rw [← foldl_step_chars _ pieces]
  by_cases absolute : argument.toList.head? = some '/'
  · simp [absolute, AbsolutePath.root, AbsolutePath.chars]
  · simp [absolute]

/-- **Resolving in one go or in two** comes to the same, from any directory. -/
theorem resolve_append (directory : String) {a b : String} (ha : a ≠ "")
    (hb : b.toList.head? ≠ some '/') :
    resolve directory (a ++ "/" ++ b) = resolve (resolve directory a) b := by
  have whole : (a ++ "/" ++ b).toList = a.toList ++ '/' :: b.toList := by simp
  have pieces : (a.toList ++ '/' :: b.toList).splitOn '/' =
      a.toList.splitOn '/' ++ b.toList.splitOn '/' :=
    List.splitOn_append_cons_self a.toList b.toList
  have first : (a.toList ++ '/' :: b.toList).head? = a.toList.head? :=
    List.head?_append_of_ne_nil _ fun none => ha (String.toList_eq_nil_iff.mp none)
  simp only [resolve, whole, pieces, List.foldl_append, first, beq_iff_eq, hb, if_false,
    String.toList_ofList]

end Directory

namespace Session

variable {κ : Type} [Kernel κ] {s : Session κ}

/-- A change to a named directory asks the system for the path that the name is resolved to. -/
theorem kernel_cd_cons (s : Session κ) (argument : String) (rest : List String) :
    (s.cd (argument :: rest)).2.kernel =
      (Kernel.changeDirectory (pathFrom s.shell.directory argument) s.kernel).2 := by
  simp only [cd, pathFrom]
  split <;> rename_i answer <;> rw [answer]

/-- A change of directory leads where following its argument leads, and an argument with a `/` in it
may be followed in two parts. -/
structure ResolvesLexically (s : Session κ) (here : Directory.AbsolutePath) : Prop where
  /-- The system is asked for the path that the argument leads to. -/
  asked : ∀ argument rest, Text.Unpadded Text.isWhiteSpace argument.toList →
    (s.cd (argument :: rest)).2.kernel =
      (Kernel.changeDirectory (here.walk argument.toList).text s.kernel).2
  /-- What stands before the `/` is resolved first, and what stands behind it against the result. -/
  composed : ∀ a b : String, a ≠ "" → b.toList.head? ≠ some '/' →
    Directory.resolve s.shell.directory (a ++ "/" ++ b) =
      Directory.resolve (Directory.resolve s.shell.directory a) b

/-- **Where a change of directory leads.**  From a recorded directory in normal form, the system is
asked for the path that the argument leads to, component by component, and that path is in normal
form again. -/
theorem cd_resolves_lexically (s : Session κ) (here : Directory.AbsolutePath)
    (recorded : s.shell.directory = here.text) :
    s.ResolvesLexically here ∧ Directory.Lexical Directory.AbsolutePath.walk := by
  refine ⟨⟨fun argument rest unpadded => ?_, fun a b => ?_⟩, Directory.AbsolutePath.lexical_walk⟩
  · rw [kernel_cd_cons, pathFrom, Text.trim_eq_self unpadded, String.ofList_toList, recorded,
      Directory.resolve_text]
  · exact Directory.resolve_append s.shell.directory

/-- The shell in the directory `/real/home`. -/
def inHome : Session Machine where
  shell := { linkedHome.shell with directory := "/real/home" }
  kernel := { linkedHome.kernel with directory := 2 }

/-- The path to this directory. -/
def homePath : Directory.AbsolutePath :=
  ⟨["real".toList, "home".toList], by decide⟩

/-- One `..` too many stays at the root, and a name after it leads down again. -/
theorem cd_resolves_lexically_past_root :
    inHome.shell.directory = homePath.text ∧
      (inHome.cd ["../../../there//way/./"]).2.kernel =
        (Kernel.changeDirectory "/there/way" inHome.kernel).2 ∧
      Directory.resolve inHome.shell.directory "../..///../there/" =
        Directory.resolve (Directory.resolve inHome.shell.directory "../..//") "../there/" ∧
      Directory.Lexical Directory.AbsolutePath.walk := by
  have recorded : inHome.shell.directory = homePath.text := by decide
  obtain ⟨⟨asked, composed⟩, lexical⟩ := cd_resolves_lexically inHome homePath recorded
  have path : (homePath.walk "../../../there//way/./".toList).text = "/there/way" := by
    decide +kernel
  refine ⟨recorded, ?_, ?_, lexical⟩
  · rw [← path]
    exact asked _ [] (Or.inr ⟨⟨'.', "./../../there//way/./".toList, by decide, by decide⟩,
      ⟨"../../../there//way/.".toList, '/', by decide, by decide⟩⟩)
  · exact composed "../..//" "../there/" (by decide) (by decide)

end Session

end JobControl
