import JobControl.Line.Fault
import JobControl.Text.Blank

/-!
# Lexemes of a pipeline segment

A segment of a command line is cut at the separators into tokens.  A token that begins with `<` or
`>` starts a redirection: the operator, and possibly text that is attached to it.  Two tokens of
which the first is exactly `>` and the second begins with `>` spell the append operator together.
Every other token is a plain word.
-/

set_option autoImplicit false

namespace JobControl

/-- A piece of a segment: a plain word, an operator, or the text that follows an operator without a
separator. -/
inductive Lexeme
  | word (text : List Char)
  | operator (op : RedirectOp)
  | attached (text : List Char)
deriving DecidableEq, Repr

namespace Lexeme

/-- The text begins with the first character of an operator. -/
def startsOperator : List Char → Bool
  | '<' :: _ => true
  | '>' :: _ => true
  | _ => false

/-- The lexeme for the text behind an operator; none for an operator that stands alone. -/
def attachment : List Char → List Lexeme
  | [] => []
  | text => [attached text]

/-- The lexemes of a list of tokens. -/
def ofTokens : List (List Char) → List Lexeme
  | [] => []
  | ('<' :: text) :: rest => operator .input :: attachment text ++ ofTokens rest
  | ('>' :: '>' :: text) :: rest => operator .append :: attachment text ++ ofTokens rest
  | ['>'] :: ('>' :: text) :: rest => operator .append :: attachment text ++ ofTokens rest
  | ('>' :: text) :: rest => operator .truncate :: attachment text ++ ofTokens rest
  | token :: rest => word token :: ofTokens rest

/-- The tokens of a segment. -/
def tokens (segment : List Char) : List (List Char) :=
  Text.words Text.isSeparator segment

/-- The lexeme is a plain word. -/
def isWord : Lexeme → Bool
  | word _ => true
  | _ => false

/-- The text of a plain word. -/
def wordText? : Lexeme → Option (List Char)
  | word text => some text
  | _ => none

end Lexeme

end JobControl
