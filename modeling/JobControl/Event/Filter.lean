import JobControl.Event.Basic
import JobControl.Text.Blank

/-!
# Log filters

A filter is a list of directives between commas.  A directive is a level, or the beginning of a
target, with or without `=` and a level; without a level it admits everything.  The directive with
the longest target that an event's target begins with decides on the event, and of two directives
with the same target the later one counts.
-/

set_option autoImplicit false

namespace JobControl

/-- How much a directive admits: nothing, or a level and the more important ones. -/
abbrev Threshold := Option Level

/-- The threshold of a level name, in any mixture of cases, or of a digit from 0 to 5. -/
def Threshold.ofWord? (word : List Char) : Option Threshold :=
  match String.ofList (word.map Char.toLower) with
  | "off" | "0" => some none
  | "error" | "1" => some (some .error)
  | "warn" | "2" => some (some .warn)
  | "info" | "3" => some (some .info)
  | "debug" | "4" => some (some .debug)
  | "trace" | "5" => some (some .trace)
  | _ => none

/-- One directive of a filter.  A *bracketed* one names spans of work in brackets; the shell opens no
span, so it admits nothing. -/
structure Directive where
  target : List Char
  bracketed : Bool
  threshold : Threshold
deriving Repr

namespace Directive

/-- The characters of a target. -/
def isTargetChar (c : Char) : Bool :=
  c.isAlphanum || c == '_' || c == ':' || c == '-' || 0x80 ≤ c.toNat

/-- A part in brackets at the beginning of the text, and the rest. -/
def dropBrackets? : List Char → Option (List Char)
  | '[' :: rest =>
    match rest.dropWhile (· != ']') with
    | _ :: after => some after
    | [] => none
  | _ => none

/-- Splits a directive into its target, whether brackets stand beside it, and the rest. -/
def head? (text : List Char) : Option (List Char × Bool × List Char) :=
  match text.takeWhile isTargetChar, text.dropWhile isTargetChar with
  | [], rest =>
    (dropBrackets? rest).map fun after =>
      match dropBrackets? after with
      | some last => ([], true, last)
      | none => (after.takeWhile isTargetChar, true, after.dropWhile isTargetChar)
  | target, rest =>
    match dropBrackets? rest with
    | some after => some (target, true, after)
    | none => some (target, false, rest)

/-- Reads one directive. -/
def ofText? (text : List Char) : Option Directive :=
  match Threshold.ofWord? text with
  | some threshold => some ⟨[], false, threshold⟩
  | none => do
    let (target, bracketed, rest) ← head? text
    let target := if (Threshold.ofWord? target).isSome then [] else target
    match rest with
    | [] => some ⟨target, bracketed, some .trace⟩
    | ['='] => some ⟨target, bracketed, some .trace⟩
    | '=' :: level => (Threshold.ofWord? level).map fun threshold => ⟨target, bracketed, threshold⟩
    | _ => none

/-- The directive speaks about events from a target. -/
def covers (d : Directive) (target : List Char) : Bool :=
  !d.bracketed && d.target.isPrefixOf target

end Directive

/-- The directives of a log filter. -/
structure Filter where
  directives : List Directive
deriving Repr

namespace Filter

/-- A filter without directives admits errors only. -/
def ofDirectives : List Directive → Filter
  | [] => ⟨[⟨[], false, some .error⟩]⟩
  | directives => ⟨directives⟩

/-- The texts between the commas. -/
def pieces (text : String) : List (List Char) :=
  Text.words (· == ',') text.toList

/-- Reads a filter; a piece that is no directive is skipped. -/
def ofText (text : String) : Filter :=
  ofDirectives ((pieces text).filterMap Directive.ofText?)

/-- Reads a filter; a piece that is no directive makes the whole text invalid. -/
def ofText? (text : String) : Option Filter :=
  ((pieces text).mapM Directive.ofText?).map ofDirectives

/-- The directive that decides on events from a target. -/
def decisive? (f : Filter) (target : List Char) : Option Directive :=
  (f.directives.filter fun d => d.covers target).foldl
    (fun best d =>
      match best with
      | none => some d
      | some b => if d.target.length < b.target.length then some b else some d)
    none

/-- The filter admits the event. -/
def admits (f : Filter) (e : Event) : Bool :=
  match f.decisive? e.target.toList with
  | some ⟨_, _, some level⟩ => e.level.rank ≤ level.rank
  | _ => false

end Filter

end JobControl
