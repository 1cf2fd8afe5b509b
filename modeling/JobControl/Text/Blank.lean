/-!
# Blanks and pieces of text

Two classes of blank characters matter to the shell.  A command line is cut into words at its
*separators*; the front end and the directory built-in look at text through the wider class of
Unicode white space.  Text is handled as a list of characters; both ways of cutting it are instances
of `words` and `trim` below.
-/

set_option autoImplicit false

namespace JobControl.Text

/-- The characters between the words of a command line: blank, tab, carriage return, line feed and
bell. -/
def isSeparator (c : Char) : Bool :=
  c == ' ' || c == '\t' || c == '\r' || c == '\n' || c == '\x07'

/-- The characters with the Unicode property `White_Space`. -/
def isWhiteSpace (c : Char) : Bool :=
  ('\t' ≤ c && c ≤ '\r') || c == ' ' || c == '\u0085' || c == '\u00a0' || c == '\u1680' ||
  ('\u2000' ≤ c && c ≤ '\u200a') || c == '\u2028' || c == '\u2029' || c == '\u202f' ||
  c == '\u205f' || c == '\u3000'

/-- Drops the leading characters of a class. -/
def trimStart (p : Char → Bool) (text : List Char) : List Char :=
  text.dropWhile p

/-- Drops the trailing characters of a class. -/
def trimEnd (p : Char → Bool) (text : List Char) : List Char :=
  (text.reverse.dropWhile p).reverse

/-- Drops the characters of a class at both ends. -/
def trim (p : Char → Bool) (text : List Char) : List Char :=
  trimEnd p (trimStart p text)

/-- The maximal runs of characters outside a class, in order. -/
def words (p : Char → Bool) (text : List Char) : List (List Char) :=
  (text.splitOnP p).filter fun piece => !piece.isEmpty

end JobControl.Text
