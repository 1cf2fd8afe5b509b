import JobControl.Machine.System
import JobControl.Proofs.Kernel.Plumbing
import JobControl.Proofs.Launch.Descriptors
import JobControl.Proofs.Launch.Outcome

/-!
# Where the stages read and write

While the shell goes through the stages it holds the input of the next one, and for the time of a
stage its output and the input of the stage behind (`connect_connected`).  It closes them all again,
whatever is refused (`startStages_wired`), so the launch leaves the shell's table as it was, and its
children are wired up as the line says (`launch_wiring`).
-/

set_option autoImplicit false

namespace JobControl.Plumbing

variable {κ : Type} {p q r : Plumbing κ} {t : DescriptorTable} {held : List (Nat × Nat)}
  {a : Option (Nat × Nat)}

/-! ## What the shell holds -/

/-- The shell holds these descriptors besides its own. -/
structure Holds (t : DescriptorTable) (held : List (Nat × Nat)) (p : Plumbing κ) : Prop where
  table : p.table = t.holdAll held
  distinct : (held.map Prod.fst).Nodup
  free : ∀ h ∈ held, t.file? h.1 = none
  known : ∀ h ∈ held, h.2 < p.files.length

theorem Holds.file_eq (h : p.Holds t held) (more : p.files <+: q.files)
    (mine : ∀ h' ∈ a, h' ∈ held) : q.file a = p.file a := by
  cases a with
  | none => rfl
  | some h' =>
    obtain ⟨files, more⟩ := more
    simp [file, ← more, List.getElem?_append_left (h.known h' (mine h' rfl))]

theorem Holds.of_eq (h : p.Holds t held) (table : q.table = p.table) (files : q.files = p.files) :
    q.Holds t held :=
  ⟨table.trans h.table, h.distinct, h.free, files ▸ h.known⟩

theorem Holds.openLowest (h : p.Holds t held) (file : Endpoint) :
    (p.openLowest file).2.Holds t (((p.openLowest file).1, p.files.length) :: held) := by
  obtain ⟨below, absent⟩ := DescriptorTable.free_of_holdAll (t.holdAll held).file?_lowestFree
  simp only [Plumbing.openLowest, h.table, DescriptorTable.openLowest_holdAll]
  refine ⟨rfl, List.nodup_cons.mpr ⟨absent, h.distinct⟩, ?_, ?_⟩
  · intro h' found
    rcases List.mem_cons.mp found with rfl | found
    · exact below
    · exact h.free h' found
  · intro h' found
    simp only [List.length_append, List.length_singleton]
    rcases List.mem_cons.mp found with rfl | found
    · exact Nat.lt_succ_self _
    · exact Nat.lt_succ_of_lt (h.known h' found)

/-! ## A child -/

variable {input output next : Option (Nat × Nat)} {plan : ChildPlan}

/-- Nothing that the shell holds for the launch reaches a child, but what its plan installs. -/
theorem file?_child (standard : t.Standard)
    (h : p.Holds t (output.toList ++ next.toList ++ input.toList))
    (reads : plan.input = input.map Prod.fst) (writes : plan.output = output.map Prod.fst)
    (d : Nat) :
    (p.child plan).table.file? d =
      if d = 0 then (input.map Prod.snd).or (t.start.file? 0)
      else if d = 1 then (output.map Prod.snd).or (t.start.file? 1)
      else t.start.file? d := by
  -- nothing that is held is a standard descriptor, so installing one leaves the rest in place
  have held : ∀ h' ∈ output.toList ++ next.toList ++ input.toList,
      3 ≤ h'.1 ∧ p.table.file? h'.1 = some h'.2 := by
    intro h' found
    rw [h.table]
    exact ⟨standard.le_of_free (h.free h' found), DescriptorTable.file?_of_mem h.distinct found⟩
  have installed : ∀ h' ∈ input, h'.1 ≠ 0 ∧ p.table.file? h'.1 = some h'.2 := by
    intro h' found
    obtain ⟨high, opened⟩ := held h' (by simp [Option.mem_def.mp found])
    exact ⟨by omega, opened⟩
  have installed' : ∀ h' ∈ output, h'.1 ≠ 1 ∧
      (p.table.install (input.map Prod.fst) 0).file? h'.1 = some h'.2 := by
    intro h' found
    obtain ⟨high, opened⟩ := held h' (by simp [Option.mem_def.mp found])
    refine ⟨by omega, ?_⟩
    rw [DescriptorTable.file?_install input installed (by omega), opened]
  have started : p.table.start = t.start := by rw [h.table, DescriptorTable.start_holdAll]
  simp only [child, reads, writes, DescriptorTable.file?_start_install output 1 installed',
    DescriptorTable.file?_start_install input 0 installed, started]
  by_cases zero : d = 0
  · simp [zero]
  · by_cases one : d = 1 <;> simp [zero, one]

/-- So a child reads and writes what was installed, or what a program of the shell would. -/
theorem view_child (standard : t.Standard) (known : p.Known t.start)
    (h : p.Holds t (output.toList ++ next.toList ++ input.toList))
    (reads : plan.input = input.map Prod.fst) (writes : plan.output = output.map Prod.fst) :
    p.Known (p.child plan).table ∧ ∀ d, p.view (p.child plan).table d =
      if d = 0 then (p.file input).or (p.view t.start 0)
      else if d = 1 then (p.file output).or (p.view t.start 1)
      else p.view t.start d := by
  have files := file?_child standard h reads writes
  have inBooks : ∀ a : Option (Nat × Nat), (∀ h' ∈ a, h'.2 < p.files.length) → ∀ d,
      (∀ number, (a.map Prod.snd).or (t.start.file? d) = some number → number < p.files.length) ∧
      ((a.map Prod.snd).or (t.start.file? d)).bind (fun number => p.files[number]?) =
        (p.file a).or (p.view t.start d) := by
    intro a held d
    cases a with
    | none => exact ⟨fun number opened => known d number (by simpa using opened), by simp [file, view]⟩
    | some h' =>
      have below := held h' rfl
      refine ⟨fun number opened => ?_, by simp [file, below]⟩
      cases opened
      exact below
  have first := inBooks input (fun h' found => h.known h' (by simp [Option.mem_def.mp found])) 0
  have second := inBooks output (fun h' found => h.known h' (by simp [Option.mem_def.mp found])) 1
  constructor
  · intro d number opened
    rw [files] at opened
    split at opened
    · exact first.1 number opened
    · split at opened
      · exact second.1 number opened
      · exact known d number opened
  · intro d
    rw [view, files]
    by_cases zero : d = 0
    · rw [if_pos zero, if_pos zero, first.2]
    · rw [if_neg zero, if_neg zero]
      by_cases one : d = 1
      · rw [if_pos one, if_pos one, second.2]
      · rw [if_neg one, if_neg one, view]

/-! ## How the children are wired up -/

/-- What the descriptors of one child stand for.  The first child reads the source, if there is one,
and each other one the pipe before it; the last child writes to the sink, if there is one, and each
other one to the pipe behind it.  The rest is as for any program of the shell. -/
def wires (shell : Nat → Option Endpoint) (source sink : Option Endpoint) (pipe count i d : Nat) :
    Option Endpoint :=
  if d = 0 then if i = 0 then source.or (shell 0) else some (.outlet (pipe + i - 1))
  else if d = 1 then if i + 1 < count then some (.inlet (pipe + i)) else sink.or (shell 1)
  else shell d

/-- The children behind the first one are wired up like those of a pipeline that reads from the
first pipe. -/
theorem wires_succ (shell : Nat → Option Endpoint) (source sink : Option Endpoint)
    (pipe count i : Nat) : wires shell source sink pipe (count + 1) (i + 1) =
      wires shell (some (.outlet pipe)) sink (pipe + 1) count i := by
  have behind : i + 1 + 1 < count + 1 ↔ i + 1 < count := by omega
  have inlet : pipe + (i + 1) = pipe + 1 + i := by omega
  funext d
  unfold wires
  simp only [behind, inlet, if_neg (Nat.succ_ne_zero i)]
  cases i <;> rfl

def lastOutput (stages : List Stage) : Option Output :=
  stages.getLast?.bind Stage.output

/-- The files that are asked for on account of an output redirection, whether or not it leads
anywhere. -/
def sought (output : Option Output) (sink : Option Endpoint) : List (Endpoint × Bool) :=
  (output.map fun file => (.output file, sink.isSome)).toList

theorem exists_of_mem_sought {output : Option Output} {sink : Option Endpoint}
    {request : Endpoint × Bool} (found : request ∈ sought output sink) :
    ∃ file, output = some file ∧ request = (.output file, sink.isSome) := by
  unfold sought at found
  obtain ⟨file, named, rfl⟩ := Option.map_eq_some_iff.mp (Option.mem_toList.mp found)
  exact ⟨file, named, rfl⟩

/-- The stages were started as far as the system goes along.  The shell has its own descriptors and
no others; only the last output file was asked for, and it was if all stages were started; and the
children are wired up. -/
structure Wired (t : DescriptorTable) (source sink : Option Endpoint) (stages : List Stage)
    (p q : Plumbing κ) (born : List Child) : Prop where
  table : q.table = t
  files : p.files <+: q.files
  children : q.children = p.children ++ born
  programs : born.map Child.words <+: stages.map Stage.words
  drains : sink = none ∨ sink = (lastOutput stages).map .output
  asked : q.asked = p.asked ∧ born.length < stages.length ∨
    q.asked = p.asked ++ sought (lastOutput stages) sink
  views : ∀ i child, born[i]? = some child →
    q.view child.table = wires (p.view t.start) source sink p.pipes stages.length i

/-- A stage has got what it writes to, and the next one what it reads from: the ends of a pipe, or
for the last stage its output file if that was opened. -/
structure Connected (t : DescriptorTable) (held : List (Nat × Nat)) (stage : Stage)
    (rest : List Stage) (p q : Plumbing κ) (output next : Option (Nat × Nat))
    (sink : Option Endpoint) : Prop where
  holds : q.Holds t (output.toList ++ next.toList ++ held)
  files : p.files <+: q.files
  children : q.children = p.children
  writes : q.file output = if rest = [] then sink else some (.inlet p.pipes)
  reads : if rest = [] then next = none else q.file next = some (.outlet p.pipes)
  pipes : rest ≠ [] → q.pipes = p.pipes + 1
  asked : q.asked = p.asked ++ if rest = [] then sought stage.output sink else []
  drains : sink = none ∨ sink = stage.output.map .output

/-- A stage has got its child, which is wired up as the first one, and of all that was held for it
the shell holds the input of the next stage. -/
structure Advanced (t : DescriptorTable) (source : Option Endpoint) (stage : Stage)
    (rest : List Stage) (p q : Plumbing κ) (c : Child) (next : Option (Nat × Nat))
    (sink : Option Endpoint) : Prop where
  holds : q.Holds t next.toList
  files : p.files <+: q.files
  children : q.children = p.children ++ [c]
  words : c.words = stage.words
  known : q.Known c.table
  view : ∀ last, (rest = [] → last = sink) → q.view c.table =
    wires (p.view t.start) source last p.pipes (stage :: rest).length 0
  reads : if rest = [] then next = none else q.file next = some (.outlet p.pipes)
  pipes : rest ≠ [] → q.pipes = p.pipes + 1
  asked : q.asked = p.asked ++ if rest = [] then sought stage.output sink else []
  drains : sink = none ∨ sink = stage.output.map .output

variable {stage : Stage} {rest : List Stage} {source sink last : Option Endpoint} {c : Child}
  {born : List Child}

theorem Connected.view_child
    (connected : Connected t input.toList stage rest p q output next sink)
    (standard : t.Standard) (known : p.Known t.start) (h : p.Holds t input.toList)
    (reads : plan.input = input.map Prod.fst) (writes : plan.output = output.map Prod.fst)
    (ends : rest = [] → last = sink) : q.view (q.child plan).table =
      wires (p.view t.start) (p.file input) last p.pipes (stage :: rest).length 0 := by
  have same := view_of_grown known connected.files
  have source : q.file input = p.file input := h.file_eq connected.files (by simp)
  funext d
  rw [(Plumbing.view_child standard (known.mono connected.files) connected.holds reads writes).2 d,
    same, source, connected.writes]
  unfold wires
  by_cases alone : rest = []
  · simp [alone, ends alone]
  · have behind := List.length_pos_iff.mpr alone
    simp [alone, behind]

theorem Advanced.wired_last (advanced : Advanced t source stage [] p q c next sink) :
    Wired t source sink [stage] p q [c] := by
  obtain rfl : next = none := advanced.reads
  refine ⟨advanced.holds.table, advanced.files, advanced.children, ?_, advanced.drains,
    Or.inr advanced.asked, ?_⟩
  · exact List.cons_prefix_cons.mpr ⟨advanced.words, List.nil_prefix⟩
  · intro i child found
    cases i with
    | zero =>
      cases found
      exact advanced.view sink fun _ => rfl
    | succ i => cases found

theorem Advanced.wired_cons (advanced : Advanced t source stage rest p q c next sink)
    (more : rest ≠ []) (known : p.Known t.start)
    (wired : Wired t (q.file next) last rest q r born) :
    Wired t source last (stage :: rest) p r (c :: born) := by
  have lasts : lastOutput (stage :: rest) = lastOutput rest := by
    obtain ⟨behind, rest, rfl⟩ := List.exists_cons_of_ne_nil more
    rfl
  have asked : q.asked = p.asked := by simpa [more] using advanced.asked
  have reads : q.file next = some (.outlet p.pipes) := by simpa [more] using advanced.reads
  refine ⟨wired.table, advanced.files.trans wired.files, ?_, ?_, lasts ▸ wired.drains, ?_, ?_⟩
  · rw [wired.children, advanced.children, List.append_assoc]
    rfl
  · exact List.cons_prefix_cons.mpr ⟨advanced.words, wired.programs⟩
  · simpa [asked, lasts] using wired.asked
  · intro i child found
    cases i with
    | zero =>
      -- the books have only grown since this child was made
      cases found
      rw [view_of_grown advanced.known wired.files]
      exact advanced.view last fun none => absurd none more
    | succ i =>
      rw [wired.views i child found, view_of_grown known advanced.files, reads,
        advanced.pipes more]
      exact (wires_succ _ _ _ _ _ i).symm

/-! ## Stage after stage -/

section

variable [Kernel κ]

theorem Holds.close (before after : List (Nat × Nat)) (h : p.Holds t (before ++ a.toList ++ after)) :
    (closeOptional (a.map Prod.fst) p).Holds t (before ++ after) := by
  cases a with
  | none => simpa [closeOptional] using h
  | some d =>
    have whole : before ++ (some d).toList ++ after = before ++ d :: after := by simp
    rw [whole] at h
    have fewer : before ++ after ⊆ before ++ d :: after := by simp
    have closed := DescriptorTable.close_holdAll_middle h.distinct (h.free d (by simp))
    rw [← h.table] at closed
    exact ⟨closed, h.distinct.sublist (by simp), fun h' found => h.free h' (fewer found),
      fun h' found => h.known h' (fewer found)⟩

/-- **The rule for connecting a stage.** -/
theorem connect_connected (h : p.Holds t held) (stage : Stage) (rest : List Stage) :
    (∃ e q, connect stage rest p = (.error e, q) ∧ rest ≠ [] ∧ p.Keeps q ∧ q.table = p.table) ∨
      ∃ output next q sink, connect stage rest p =
        (.ok (output.map Prod.fst, next.map Prod.fst), q) ∧
        Connected t held stage rest p q output next sink := by
  cases rest with
  | nil =>
    refine Or.inr ?_
    simp only [connect, openOutput]
    cases named : stage.output with
    | none =>
      refine ⟨none, none, p, none, rfl, ?_⟩
      exact ⟨h, List.prefix_rfl, rfl, rfl, rfl, fun more => absurd rfl more,
        by simp [sought, named], Or.inl rfl⟩
    | some file =>
      simp only [Kernel.openOutput, request]
      rcases Kernel.openOutput file p.system with ⟨e | d, system⟩
      · refine ⟨none, none, _, none, rfl, ?_⟩
        exact ⟨⟨h.table, h.distinct, h.free, h.known⟩, List.prefix_rfl, rfl, rfl, rfl,
          fun more => absurd rfl more, by simp [sought, named, Kernel.writeError, Kernel.log],
          Or.inl rfl⟩
      · let asked : Plumbing κ := { p with system, asked := p.asked ++ [(.output file, true)] }
        have opened := Holds.openLowest (p := asked) ⟨h.table, h.distinct, h.free, h.known⟩
          (.output file)
        refine ⟨some ((asked.openLowest (.output file)).1, p.files.length), none,
          (asked.openLowest (.output file)).2, some (.output file), rfl, ?_⟩
        exact ⟨opened, List.prefix_append _ _, rfl, List.getElem?_concat_length, rfl,
          fun more => absurd rfl more, by simp [sought, named, asked, openLowest],
          Or.inr (by rw [named]; rfl)⟩
  | cons behind rest =>
    simp only [connect, Kernel.openPipe, makePipe]
    rcases Kernel.openPipe p.system with ⟨e | d, system⟩
    · exact Or.inl ⟨e, _, rfl, List.cons_ne_nil behind rest, ⟨rfl, rfl, rfl, rfl⟩, rfl⟩
    · refine Or.inr ?_
      let piped : Plumbing κ := { p with system, pipes := p.pipes + 1 }
      let half := piped.openLowest (.outlet p.pipes)
      have first : half.2.Holds t ((half.1, p.files.length) :: held) :=
        Holds.openLowest (p := piped) ⟨h.table, h.distinct, h.free, h.known⟩ _
      -- the end to write to is opened last, and is held on top of the other
      have both := first.openLowest (.inlet p.pipes)
      refine ⟨some ((half.2.openLowest (.inlet p.pipes)).1, half.2.files.length),
        some (half.1, p.files.length), (half.2.openLowest (.inlet p.pipes)).2, none, rfl, ?_⟩
      refine ⟨both, ⟨[.outlet p.pipes, .inlet p.pipes], ?_⟩, rfl, List.getElem?_concat_length, ?_,
        fun _ => rfl, by simp [half, piped, openLowest], Or.inl rfl⟩
      · simp [half, piped, openLowest]
      · simp [half, piped, openLowest, file]

theorem wired_of_refusedPipe (h : p.Holds t input.toList) (keeps : p.Keeps q)
    (same : q.table = p.table) :
    Wired t source none (stage :: rest) p (closeOptional (input.map Prod.fst) q) [] := by
  have held := h.of_eq same keeps.files
  rw [← List.append_nil input.toList] at held
  have closed := Holds.close [] [] held
  have kept := keeps.trans (keeps_closeOptional (input.map Prod.fst) q)
  exact ⟨closed.table, kept.files ▸ List.prefix_rfl, by simp [kept.children], List.nil_prefix,
    Or.inl rfl, Or.inl ⟨kept.asked, by simp⟩, by simp⟩

theorem Connected.wired_of_refusedChild
    (connected : Connected t input.toList stage rest p q output next sink)
    (keeps : q.Keeps r) (same : r.table = q.table) :
    Wired t source (if rest = [] then sink else none) (stage :: rest) p
      (closeOptional (input.map Prod.fst) (closeOptional (next.map Prod.fst)
        (closeOptional (output.map Prod.fst) r))) [] := by
  have kept := keeps.trans ((keeps_closeOptional (output.map Prod.fst) r).trans
    ((keeps_closeOptional (next.map Prod.fst) _).trans
      (keeps_closeOptional (input.map Prod.fst) _)))
  have held := connected.holds.of_eq same keeps.files
  rw [List.append_assoc] at held
  -- first the output is closed, then the input of the next stage, then that of this one
  have first := Holds.close [] (next.toList ++ input.toList) held
  have second := Holds.close [] input.toList first
  rw [← List.append_nil ([] ++ input.toList)] at second
  have closed := Holds.close [] [] second
  have asked := kept.asked.trans connected.asked
  refine ⟨closed.table, ?_, ?_, List.nil_prefix, ?_, ?_, by simp⟩
  · rw [kept.files]
    exact connected.files
  · rw [kept.children, connected.children, List.append_nil]
  · split
    · rename_i alone
      rw [alone]
      exact connected.drains
    · exact Or.inl rfl
  · by_cases alone : rest = []
    · simp only [alone, if_true] at asked ⊢
      exact Or.inr asked
    · simp only [alone, if_false, List.append_nil] at asked ⊢
      exact Or.inl ⟨asked, by simp⟩

theorem Connected.advanced
    (connected : Connected t input.toList stage rest p q output next sink)
    (standard : t.Standard) (known : p.Known t.start) (h : p.Holds t input.toList)
    (reads : plan.input = input.map Prod.fst) (writes : plan.output = output.map Prod.fst)
    (words : plan.words = stage.words) (files : r.files = q.files) (pipes : r.pipes = q.pipes)
    (asked : r.asked = q.asked) (children : r.children = q.children ++ [q.child plan])
    (same : r.table = q.table) (pid group : Pid) (e : Event) :
    Advanced t (p.file input) stage rest p (closeOptional (output.map Prod.fst)
      (closeOptional (input.map Prod.fst) (Kernel.log e (regroup pid group r))))
      (q.child plan) next sink := by
  obtain ⟨regrouped, table⟩ := keeps_regroup pid group r
  have logged := regrouped.trans (keeps_log e _)
  have kept := logged.trans ((keeps_closeOptional (input.map Prod.fst) _).trans
    (keeps_closeOptional (output.map Prod.fst) _))
  have held := connected.holds.of_eq (q := Kernel.log e (regroup pid group r)) (table.trans same)
    (logged.files.trans files)
  rw [← List.append_nil (output.toList ++ next.toList ++ input.toList)] at held
  -- the input of this stage is closed before its output, and the input of the next one stays
  have first := Holds.close (output.toList ++ next.toList) [] held
  rw [List.append_nil] at first
  have books := kept.files.trans files
  have child := Plumbing.view_child standard (known.mono connected.files) connected.holds reads
    writes
  refine ⟨Holds.close [] next.toList first, ?_, ?_, words, ?_, ?_, ?_, ?_, ?_, connected.drains⟩
  · rw [books]
    exact connected.files
  · rw [kept.children, children, connected.children]
  · exact child.1.mono (books ▸ List.prefix_rfl)
  · intro last ends
    rw [view_of_grown child.1 (books ▸ List.prefix_rfl)]
    exact connected.view_child standard known h reads writes ends
  · unfold file
    rw [books]
    exact connected.reads
  · exact fun more => (kept.pipes.trans pipes).trans (connected.pipes more)
  · exact (kept.asked.trans asked).trans connected.asked

/-- **How the stages are wired up**, whatever the system refuses. -/
theorem startStages_wired (modes : Nat → JobMode) (takesTerminal : Bool) (standard : t.Standard)
    (stages : List Stage) (index : Nat) (group : Option Pid) (input : Option (Nat × Nat))
    (p : Plumbing κ) (known : p.Known t.start) (h : p.Holds t input.toList)
    (needed : stages = [] → input = none) :
    ∃ sink born, Wired t (p.file input) sink stages p
      (startStages modes takesTerminal index group (input.map Prod.fst) stages p).2 born := by
  -- all that is held from one stage to the next is the input of the next one
  induction stages generalizing index group input p with
  | nil =>
    cases needed rfl
    refine ⟨none, [], h.table, List.prefix_rfl, (List.append_nil _).symm, List.prefix_rfl,
      Or.inl rfl, Or.inr ?_, by simp⟩
    simp [startStages, sought, lastOutput]
  | cons stage rest ih =>
    rcases connect_connected h stage rest with
      ⟨e, q, hc, more, keeps, same⟩ | ⟨output, next, q, sink, hc, connected⟩
    · simp only [startStages, hc]
      exact ⟨none, [], wired_of_refusedPipe h keeps same⟩
    · rcases hf : Kernel.fork ⟨group, takesTerminal, input.map Prod.fst, output.map Prod.fst,
        stage.words⟩ q with ⟨e | pid, r⟩
      · obtain ⟨system, rfl⟩ := fork_error hf
        simp only [startStages, hc, hf]
        exact ⟨_, [], connected.wired_of_refusedChild ⟨rfl, rfl, rfl, rfl⟩ rfl⟩
      · obtain ⟨system, rfl⟩ := fork_ok hf
        let plan : ChildPlan :=
          ⟨group, takesTerminal, input.map Prod.fst, output.map Prod.fst, stage.words⟩
        have advanced := connected.advanced
          (r := { q with system, children := q.children ++ [q.child plan] }) standard known h rfl rfl
          rfl rfl rfl rfl rfl rfl pid (group.getD pid) (.stageStarted pid (group.getD pid)
            stage.program (modes index))
        simp only [startStages, hc, hf]
        by_cases alone : rest = []
        · subst alone
          exact ⟨sink, _, advanced.wired_last⟩
        · obtain ⟨sink', born, wired⟩ := ih (index + 1) (some (group.getD pid)) next _
            (known.mono advanced.files) advanced.holds (fun none => absurd none alone)
          exact ⟨sink', _, advanced.wired_cons alone known wired⟩

end

/-! ## Before and after -/

/-- A number above those of the open files of a table. -/
def bound (slots : List (Nat × Slot)) : Nat :=
  slots.foldr (fun slot above => max (slot.2.file + 1) above) 0

theorem lt_bound {slots : List (Nat × Slot)} {slot : Nat × Slot} (h : slot ∈ slots) :
    slot.2.file < bound slots := by
  induction slots with
  | nil => cases h
  | cons first slots ih =>
    simp only [bound, List.foldr_cons]
    rcases List.mem_cons.mp h with rfl | h
    · omega
    · have := ih h
      unfold bound at this
      omega

theorem slots_start (t : DescriptorTable) : t.start.slots ⊆ t.slots :=
  List.filter_subset_self _

/-- A shell with these descriptors, before it launches anything. -/
def outset (k : κ) (t : DescriptorTable) : Plumbing κ where
  system := k
  table := t
  files := (List.range (bound t.slots)).map .earlier
  pipes := 0
  asked := []
  children := []

theorem known_outset (k : κ) {t t' : DescriptorTable} (part : t'.slots ⊆ t.slots) :
    (outset k t).Known t' := by
  intro d number opened
  obtain ⟨slot, found, rfl⟩ := DescriptorTable.exists_slot_of_file? opened
  simpa [outset] using lt_bound (part found)

theorem view_outset (k : κ) {t t' : DescriptorTable} (part : t'.slots ⊆ t.slots) (d : Nat) :
    (outset k t).view t' d = (t'.file? d).map .earlier := by
  unfold view
  cases opened : t'.file? d with
  | none => rfl
  | some number =>
    obtain ⟨slot, found, rfl⟩ := DescriptorTable.exists_slot_of_file? opened
    simp [outset, lt_bound (part found)]

def firstInput (stages : List Stage) : Option String :=
  stages.head?.bind Stage.input

/-- The launch of a job by a shell with these descriptors.  The shell has them again and no others;
only the first input and the last output are asked for, and the output is if all stages have a child;
the children are wired up; and a pipe is written to by the child before it alone. -/
structure WiredUp (job : Job) (t : DescriptorTable) (sink : Option Endpoint) (q : Plumbing κ) :
    Prop where
  shell : q.table = t
  programs : q.children.map Child.words <+: job.stages.map Stage.words
  drains : sink = none ∨ sink = (lastOutput job.stages).map .output
  asked : ∀ request ∈ q.asked,
    (∃ path, firstInput job.stages = some path ∧ request.1 = .input path) ∨
      ∃ file, lastOutput job.stages = some file ∧ request = (.output file, sink.isSome)
  opened : q.children.length = job.stages.length →
    ∀ file, lastOutput job.stages = some file → (.output file, sink.isSome) ∈ q.asked
  views : ∀ i child, q.children[i]? = some child → q.view child.table =
    wires (fun d => (t.start.file? d).map .earlier) ((firstInput job.stages).map .input) sink 0
      job.stages.length i
  writers : ∀ pipe, (∀ d, q.view q.table d ≠ some (.inlet pipe)) ∧
    ∀ i child d, q.children[i]? = some child → q.view child.table d = some (.inlet pipe) →
      i = pipe ∧ d = 1

variable {job : Job}

theorem wires_eq_inlet {shell : Nat → Option Nat} {source : Option String} {file : Option Output}
    {pipe count i d : Nat} (drains : sink = none ∨ sink = file.map .output)
    (h : wires (fun d => (shell d).map .earlier) (source.map .input) sink 0 count i d =
      some (.inlet pipe)) : i = pipe ∧ d = 1 := by
  unfold wires at h
  split at h
  · split at h
    · cases source <;> cases hs : shell 0 <;> simp [hs] at h
    · cases h
  · split at h
    · rename_i one
      split at h
      · simp only [Nat.zero_add, Option.some.injEq, Endpoint.inlet.injEq] at h
        exact ⟨h, one⟩
      · rcases drains with rfl | rfl
        · cases hs : shell 1 <;> simp [hs] at h
        · cases file <;> cases hs : shell 1 <;> simp [hs] at h
    · cases hs : shell d <;> simp [hs] at h

/-- Who can write to a pipe follows from how the children are wired up. -/
theorem wiredUp_of_views (k : κ) (shell : q.table = t) (files : (outset k t).files <+: q.files)
    (programs : q.children.map Child.words <+: job.stages.map Stage.words)
    (drains : sink = none ∨ sink = (lastOutput job.stages).map .output)
    (asked : ∀ request ∈ q.asked,
      (∃ path, firstInput job.stages = some path ∧ request.1 = .input path) ∨
        ∃ file, lastOutput job.stages = some file ∧ request = (.output file, sink.isSome))
    (opened : q.children.length = job.stages.length →
      ∀ file, lastOutput job.stages = some file → (.output file, sink.isSome) ∈ q.asked)
    (views : ∀ i child, q.children[i]? = some child → q.view child.table =
      wires (fun d => (t.start.file? d).map .earlier) ((firstInput job.stages).map .input) sink 0
        job.stages.length i) :
    WiredUp job t sink q := by
  refine ⟨shell, programs, drains, asked, opened, views, fun pipe => ⟨fun d => ?_, ?_⟩⟩
  · rw [shell, view_of_grown (known_outset k (List.Subset.refl _)) files,
      view_outset k (List.Subset.refl _)]
    cases t.file? d <;> simp
  · intro i child d found writes
    rw [views i child found] at writes
    exact wires_eq_inlet drains writes

theorem wiredUp_of_childless (k : κ) (shell : q.table = t) (files : (outset k t).files <+: q.files)
    (children : q.children = [])
    (asked : ∀ request ∈ q.asked,
      ∃ path, firstInput job.stages = some path ∧ request.1 = .input path) :
    WiredUp job t none q := by
  refine wiredUp_of_views k shell files (by simp [children]) (Or.inl rfl)
    (fun request found => Or.inl (asked request found)) ?_ (by simp [children])
  intro all file last
  rw [children] at all
  have stages : job.stages = [] := List.eq_nil_of_length_eq_zero all.symm
  rw [stages] at last
  cases last

theorem wiredUp_of_wired (k : κ) (files : (outset k t).files <+: q.files) (none : q.pipes = 0)
    (children : q.children = [])
    (inputs : q.asked = ((firstInput job.stages).map fun path => (.input path, true)).toList)
    (wired : Wired t ((firstInput job.stages).map .input) sink job.stages q r born) :
    WiredUp job t sink r := by
  have all : r.children = born := by
    rw [wired.children, children, List.nil_append]
  have source : ∀ request ∈ q.asked,
      ∃ path, firstInput job.stages = some path ∧ request.1 = .input path := by
    rw [inputs]
    cases firstInput job.stages <;> simp
  have shell : q.view t.start = fun d => (t.start.file? d).map .earlier := by
    rw [view_of_grown (known_outset k (slots_start t)) files]
    exact funext (view_outset k (slots_start t))
  refine wiredUp_of_views k wired.table (files.trans wired.files) ?_ wired.drains ?_ ?_ ?_
  · rw [all]
    exact wired.programs
  · intro request found
    rcases wired.asked with ⟨same, -⟩ | more
    · rw [same] at found
      exact Or.inl (source request found)
    · rw [more] at found
      rcases List.mem_append.mp found with found | found
      · exact Or.inl (source request found)
      · obtain ⟨file, last, same⟩ := exists_of_mem_sought found
        exact Or.inr ⟨file, last, same⟩
  · rw [all]
    intro every file last
    rcases wired.asked with ⟨-, fewer⟩ | asked
    · omega
    · simp [asked, sought, last]
  · rw [all, ← shell, ← none]
    exact wired.views

/-! ## The launch -/

variable [Kernel κ]

theorem openInput_holds (h : p.Holds t []) (stage : Stage) :
    match openInput stage p with
    | (.error _, q) => q.table = t ∧ q.files = p.files ∧ q.children = p.children ∧
        ∃ path, stage.input = some path ∧ q.asked = p.asked ++ [(.input path, false)]
    | (.ok d, q) => q.pipes = p.pipes ∧ p.files <+: q.files ∧ q.children = p.children ∧
        ∃ input, d = input.map Prod.fst ∧ q.Holds t input.toList ∧
          q.file input = stage.input.map .input ∧
          q.asked = p.asked ++ (stage.input.map fun path => (.input path, true)).toList := by
  unfold openInput
  cases stage.input with
  | none => exact ⟨rfl, List.prefix_rfl, rfl, none, rfl, h, rfl, (List.append_nil _).symm⟩
  | some path =>
    simp only [Kernel.openInput, request]
    rcases Kernel.openInput path p.system with ⟨e | d, system⟩
    · exact ⟨h.table, rfl, rfl, path, rfl, rfl⟩
    · let asked : Plumbing κ := { p with system, asked := p.asked ++ [(.input path, true)] }
      have opened := Holds.openLowest (h.of_eq (q := asked) rfl rfl) (.input path)
      exact ⟨rfl, List.prefix_append _ _, rfl, some ((asked.openLowest (.input path)).1,
        p.files.length), rfl, opened, List.getElem?_concat_length, rfl⟩

/-- **How a job is wired up**, whatever opens, pipes and children the system refuses. -/
theorem launch_wiring (job : Job) (terminal : Terminal) (k : κ) (t : DescriptorTable)
    (standard : t.Standard) :
    ∃ failure after q sink, job.launch terminal (outset k t) = (failure, after, q) ∧
      WiredUp job t sink q := by
  rcases stages : job.stages with _ | ⟨first, rest⟩
  · refine ⟨none, job, outset k t, none, by simp only [Job.launch, stages], ?_⟩
    exact wiredUp_of_childless k rfl List.prefix_rfl rfl (by simp [outset])
  · have heads : firstInput job.stages = first.input := by rw [firstInput, stages]; rfl
    have begun : (outset k t).Holds t [] := ⟨rfl, List.nodup_nil, by simp, by simp⟩
    obtain ⟨kept, table⟩ := keeps_logAll (ignoredRedirections 0 job.stages) (outset k t)
    have opening := openInput_holds (begun.of_eq table kept.files) first
    cases job.launch_cases terminal (outset k t) stages with
    | nul stage found launch =>
      refine ⟨_, _, _, none, launch, ?_⟩
      exact wiredUp_of_childless k rfl List.prefix_rfl rfl (by simp [outset])
    | input e q none answer launch =>
      rw [answer] at opening
      obtain ⟨same, files, children, path, named, asked⟩ := opening
      rw [kept.asked] at asked
      refine ⟨_, _, _, Option.none, launch, wiredUp_of_childless k same ?_
        (children.trans kept.children) ?_⟩
      · exact (files.trans kept.files) ▸ List.prefix_rfl
      · rw [asked]
        simp [outset, heads, named]
    | started d q none answer launch =>
      rw [answer] at opening
      obtain ⟨pipes, files, children, input, rfl, held, source, asked⟩ := opening
      rw [kept.files] at files
      have known : q.Known t.start := (known_outset k (slots_start t)).mono files
      obtain ⟨sink, born, wired⟩ := startStages_wired job.stageMode
        (job.mode == .foreground && terminal.enabled) standard job.stages 0 job.group input q
        known held (by simp [stages])
      rw [source, ← heads] at wired
      rw [kept.asked, ← heads] at asked
      exact ⟨_, _, _, sink, launch, wiredUp_of_wired k files (pipes.trans kept.pipes)
        (children.trans kept.children) asked wired⟩

/-- Two stages that both name an output file, and the second one an input file. -/
def crossed : Job where
  id := none
  group := none
  mode := .foreground
  command := "ls > a | wc < a >> b"
  stages :=
    [⟨"ls", [], none, some ⟨"a", .truncate⟩, none, .running⟩,
      ⟨"wc", [], some "a", some ⟨"b", .append⟩, none, .running⟩]

/-- Only the last output file is asked for.  With descriptors for a pipe alone it is refused, and the
second child writes where the shell does. -/
theorem launch_wiring_crossed :
    let machine := { Machine.boot .bare FileTree.root .sink with spare := some 2 }
    machine.descriptors.Standard ∧ ∃ failure after q sink,
      crossed.launch (.detached machine) (outset machine machine.descriptors) =
        (failure, after, q) ∧
      q.children.map (fun child => (child.words, q.view child.table 0, q.view child.table 1)) =
        [(["ls"], some (.earlier 0), some (.inlet 0)),
          (["wc"], some (.outlet 0), some (.earlier 1))] ∧
      q.asked = [(.output ⟨"b", .append⟩, false)] ∧ WiredUp crossed machine.descriptors sink q := by
  intro machine
  have standard : machine.descriptors.Standard := by decide
  obtain ⟨failure, after, q, sink, launch, wired⟩ := launch_wiring crossed
    (Terminal.detached machine) machine machine.descriptors standard
  refine ⟨standard, failure, after, q, sink, launch, ?_, ?_, wired⟩
  · rw [← show (crossed.launch _ _).2.2 = q from congrArg (·.2.2) launch]
    decide +kernel
  · rw [← show (crossed.launch _ _).2.2 = q from congrArg (·.2.2) launch]
    decide +kernel

end JobControl.Plumbing
