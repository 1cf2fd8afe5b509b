import JobControl.Line.Lexeme

/-!
# Segments

A segment is a non-empty list of plain words, program first, followed by complete redirections.
`Segment.ofText` reads one and names the first fault from the left.
-/

set_option autoImplicit false

namespace JobControl

/-- An operator with its file name. -/
structure Redirection where
  op : RedirectOp
  path : String
deriving DecidableEq, Repr

namespace Redirection

/-- Reads a redirection section: operators, each followed by a file name that is attached to it or
is the next word, and does not begin like an operator. -/
def ofLexemes : List Lexeme → Except LineFault (List Redirection)
  | [] => .ok []
  | .operator op :: .attached path :: rest =>
    if Lexeme.startsOperator path then .error (.missingTarget op)
    else (ofLexemes rest).map (⟨op, String.ofList path⟩ :: ·)
  | .operator op :: .word path :: rest =>
    (ofLexemes rest).map (⟨op, String.ofList path⟩ :: ·)
  | .operator op :: _ => .error (.missingTarget op)
  | .word text :: _ => .error (.unexpectedWord (String.ofList text))
  | .attached text :: _ => .error (.unexpectedWord (String.ofList text))

end Redirection

/-- What one segment of a line says. -/
structure Segment where
  program : String
  arguments : List String
  redirections : List Redirection
deriving DecidableEq, Repr

namespace Segment

/-- Reads the lexemes of a segment. -/
def ofLexemes (lexemes : List Lexeme) : Except LineFault Segment :=
  match (lexemes.takeWhile Lexeme.isWord).filterMap Lexeme.wordText?, lexemes with
  | [], [] => .error .emptyCommand
  | [], _ => .error .missingProgram
  | program :: arguments, lexemes =>
    (Redirection.ofLexemes (lexemes.dropWhile Lexeme.isWord)).map
      fun redirections =>
        ⟨String.ofList program, arguments.map String.ofList, redirections⟩

/-- Reads the text of a segment. -/
def ofText (text : List Char) : Except LineFault Segment :=
  ofLexemes (Lexeme.ofTokens (Lexeme.tokens text))

/-- The file of the last input redirection. -/
def input? (s : Segment) : Option String :=
  (s.redirections.reverse.find? fun r => r.op == .input).map Redirection.path

/-- The last output redirection. -/
def output? (s : Segment) : Option Redirection :=
  s.redirections.reverse.find? fun r => r.op != .input

end Segment

end JobControl
