import JobControl.Line.Fault
import JobControl.Text.Blank

/-!
# Scripts

The small command language that `sh` reads: simple commands with redirections, one per line or
between semicolons, chained by `&&` and `||`, and `if … then … else … fi`.  Words may be quoted; they
may hold parameters, variables and `$(…)` around one simple command.
-/

set_option autoImplicit false

namespace JobControl

/-- A piece of a script word. -/
inductive ScriptPart
  | literal (text : List Char)
  | processId
  | lastCode
  | parameterCount
  | allParameters
  | parameter (index : Nat)
  | named (name : List Char)
  /-- The output of a simple command, given by its words. -/
  | output (words : List (List Char))
deriving Repr

/-- A word of a script; a quoted one is not split at blanks. -/
structure ScriptWord where
  parts : List ScriptPart
  quoted : Bool
deriving Repr

/-- A redirection of a descriptor: to a file, or to where another descriptor leads. -/
inductive ScriptRedirect
  | file (op : RedirectOp) (descriptor : Nat) (path : ScriptWord)
  | copy (source descriptor : Nat)
deriving Repr

/-- A script.  `either` runs its second part if the first one ended as the flag says: well or not. -/
inductive Script
  | done
  | simple (line : Nat) (words : List ScriptWord) (redirects : List ScriptRedirect)
  | sequence (first second : Script)
  | either (afterSuccess : Bool) (first second : Script)
  | branch (condition yes no : Script)
deriving Repr

namespace Script

/-! ## Words -/

/-- The characters of a variable's name. -/
def isNameChar (c : Char) : Bool :=
  c.isAlphanum || c == '_'

/-- The parts of an unquoted or double-quoted stretch of text.  The number bounds its length. -/
def parts : Nat → List Char → List ScriptPart
  | 0, _ => []
  | _, [] => []
  | n + 1, '$' :: '$' :: rest => .processId :: parts n rest
  | n + 1, '$' :: '?' :: rest => .lastCode :: parts n rest
  | n + 1, '$' :: '#' :: rest => .parameterCount :: parts n rest
  | n + 1, '$' :: '@' :: rest => .allParameters :: parts n rest
  | n + 1, '$' :: '*' :: rest => .allParameters :: parts n rest
  | n + 1, '$' :: '(' :: rest =>
    .output (Text.words Text.isSeparator (rest.takeWhile (· != ')'))) ::
      parts n ((rest.dropWhile (· != ')')).drop 1)
  | n + 1, '$' :: c :: rest =>
    if c.isDigit then .parameter (c.toNat - '0'.toNat) :: parts n rest
    else if isNameChar c then
      .named (c :: rest.takeWhile isNameChar) :: parts n (rest.dropWhile isNameChar)
    else .literal ['$', c] :: parts n rest
  | n + 1, c :: rest => .literal [c] :: parts n rest

/-- A word of a script from the way it is written. -/
def wordOf (text : List Char) : ScriptWord :=
  match text with
  | '\'' :: rest => ⟨[.literal (rest.takeWhile (· != '\''))], true⟩
  | '"' :: rest => ⟨parts rest.length (rest.takeWhile (· != '"')), true⟩
  | _ => ⟨parts text.length text, false⟩

/-! ## Tokens -/

/-- A token of a script line: a word as it is written, or the end of a command. -/
inductive Token
  | word (text : List Char)
  | endOfCommand
deriving DecidableEq, Repr

/-- Reads the rest of a word: up to a blank, a semicolon or the end, but past quotes and the
parentheses of `$(…)`. -/
def scanWord : List Char → Option Char → List Char × List Char
  | [], _ => ([], [])
  | c :: rest, some close =>
    let (word, after) := scanWord rest (if c == close then none else some close)
    (c :: word, after)
  | c :: rest, none =>
    if c == ' ' || c == '\t' || c == ';' then ([], c :: rest)
    else
      let inside :=
        if c == '\'' || c == '"' then some c
        else if c == '(' then some ')'
        else none
      let (word, after) := scanWord rest inside
      (c :: word, after)

/-- The tokens of one line.  The number bounds its length. -/
def tokens : Nat → List Char → List Token
  | 0, _ => []
  | _, [] => []
  | _, '#' :: _ => []
  | n + 1, c :: rest =>
    if c == ' ' || c == '\t' || c == '\r' then tokens n rest
    else if c == ';' then .endOfCommand :: tokens n rest
    else
      let (word, after) := scanWord (c :: rest) none
      .word word :: tokens n after

/-! ## Commands -/

/-- The operator a word begins with, and the rest of the word. -/
def operator? : List Char → Option (RedirectOp × List Char)
  | '<' :: rest => some (.input, rest)
  | '>' :: '>' :: rest => some (.append, rest)
  | '>' :: rest => some (.truncate, rest)
  | _ => none

/-- The operator a word begins with, after the number of a descriptor if there is one. -/
def numberedOperator? (word : List Char) : Option (RedirectOp × Nat × List Char) :=
  match word with
  | c :: rest =>
    if c.isDigit then (operator? rest).map fun (op, text) => (op, c.toNat - '0'.toNat, text)
    else
      (operator? word).map fun (op, text) =>
        (op, match op with
          | .input => 0
          | _ => 1, text)
  | [] => none

/-- The words and redirections of a simple command. -/
def commandOf : List (List Char) → List ScriptWord × List ScriptRedirect
  | [] => ([], [])
  | word :: rest =>
    match numberedOperator? word, rest with
    | some (_, d, ['&', c]), rest =>
      let (words, redirects) := commandOf rest
      (words, .copy (c.toNat - '0'.toNat) d :: redirects)
    | some (op, d, []), path :: rest =>
      let (words, redirects) := commandOf rest
      (words, .file op d (wordOf path) :: redirects)
    | some (op, d, path), rest =>
      let (words, redirects) := commandOf rest
      (words, .file op d (wordOf path) :: redirects)
    | none, rest =>
      let (words, redirects) := commandOf rest
      (wordOf word :: words, redirects)

/-- A command as a list of written words, with the number of its line. -/
structure Written where
  line : Nat
  words : List (List Char)
deriving Repr

/-- The commands of one line. -/
def commandsOfLine (line : Nat) (text : List Char) : List Written :=
  ((tokens text.length text).splitOn .endOfCommand).filterMap fun tokens =>
    match tokens.filterMap fun t => match t with
        | .word text => some text
        | .endOfCommand => none with
    | [] => none
    | words => some ⟨line, words⟩

/-- The keywords that begin a command without being one. -/
def keywords : List (List Char) :=
  ["if".toList, "then".toList, "else".toList, "fi".toList]

/-- Cuts a keyword off the command it stands before. -/
def splitKeyword (c : Written) : List Written :=
  match c.words with
  | word :: rest =>
    if keywords.contains word ∧ rest ≠ [] then [⟨c.line, [word]⟩, ⟨c.line, rest⟩] else [c]
  | [] => []

/-- The command that words spell, with those chained to it.  `sofar` holds the words of the present
link, in reverse order. -/
def chain (line : Nat) (link : Script → Script) (sofar : List (List Char)) :
    List (List Char) → Script
  | [] => link (ofWords line sofar.reverse)
  | word :: rest =>
    if word = ['&', '&'] then
      chain line (.either true (link (ofWords line sofar.reverse))) [] rest
    else if word = ['|', '|'] then
      chain line (.either false (link (ofWords line sofar.reverse))) [] rest
    else chain line link (word :: sofar) rest
where
  /-- A simple command. -/
  ofWords (line : Nat) (words : List (List Char)) : Script :=
    let (words, redirects) := commandOf words
    .simple line words redirects

/-- Builds a script from commands up to a keyword that ends it; gives the commands from that keyword
on.  The number bounds the commands. -/
def build : Nat → List Written → Script × List Written
  | 0, commands => (.done, commands)
  | _, [] => (.done, [])
  | n + 1, c :: rest =>
    if c.words = [['i', 'f']] then
      let (condition, afterCondition) := build n rest
      let (yes, afterYes) := build n (afterCondition.drop 1)
      let (no, afterNo) :=
        match afterYes with
        | ⟨_, ['e', 'l', 's', 'e'] :: _⟩ :: more => build n more
        | _ => (.done, afterYes)
      let (after, last) := build n (afterNo.drop 1)
      (.sequence (.branch condition yes no) after, last)
    else if c.words.length = 1 ∧ c.words.all keywords.contains then (.done, c :: rest)
    else
      let (after, last) := build n rest
      (.sequence (chain c.line id [] c.words) after, last)

/-- Reads a script. -/
def ofText (text : String) : Script :=
  let numbered := (text.toList.splitOn '\n').zipIdx 1
  let commands := (numbered.flatMap fun (line, n) => commandsOfLine n line).flatMap splitKeyword
  (build (4 * commands.length + 1) commands).1

end Script

end JobControl
