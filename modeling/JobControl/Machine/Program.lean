import JobControl.Machine.Basic
import JobControl.Machine.Script.Interpreter

/-!
# Starting a program

A program name without `/` is looked for in the directories of the search path; any other name is a
path.  An executable file that is no installed program is run by the interpreter its first line
names, or as a script.  The start closes the descriptors marked for it.  A child that cannot start its
program says why and ends with 127 if there is no such program and with 126 otherwise.
-/

set_option autoImplicit false

namespace JobControl

/-- A program that was found: an installed one, or a file to be run by another program. -/
inductive Executable
  | installed (name : String)
  | script (path : String) (content : ByteArray)

namespace Machine

/-- The directories that programs are looked for in. -/
def searchPath : List String :=
  ["/usr/local/bin", "/usr/bin", "/bin"]

/-- The program a path leads to. -/
def executableAt (m : Machine) (directory : NodeId) (path : String) : Except Errno Executable :=
  match m.files.find directory path with
  | .error e => .error e
  | .ok node =>
    match m.files.nodes[node]? with
    | some (.program name) => .ok (.installed name)
    | some (.file content true) => .ok (.script path content)
    | _ => .error .eacces

/-- Looks through directories; one that has no such program is passed over, and if one of them
refused, that is what is reported. -/
def searchIn (m : Machine) (directory : NodeId) (name : String) (refusal : Option Errno) :
    List String → Except Errno Executable
  | [] => .error (refusal.getD .enoent)
  | place :: rest =>
    match m.executableAt directory (place ++ "/" ++ name) with
    | .ok program => .ok program
    | .error e =>
      if e = .eacces then m.searchIn directory name (some e) rest
      else if e = .enoent ∨ e = .enotdir then m.searchIn directory name refusal rest
      else .error e

/-- Finds a program by its name or path. -/
def findExecutable (m : Machine) (directory : NodeId) (name : String) :
    Except Errno Executable :=
  if name = "" then .error .enoent
  else if name.toList.contains '/' then m.executableAt directory name
  else if FileTree.maxComponent < name.utf8ByteSize then .error .enametoolong
  else m.searchIn directory name none searchPath

/-- The interpreter named in a script's first line, and its argument if it has one. -/
def interpreterOf? (content : ByteArray) : Option (List String) :=
  match (Script.textOf content).toList with
  | '#' :: '!' :: rest =>
    match Text.words Text.isSeparator (rest.takeWhile (· != '\n')) with
    | [] => none
    | interpreter :: arguments =>
      some (String.ofList interpreter ::
        if arguments.isEmpty then []
        else [" ".intercalate (arguments.map String.ofList)])
  | _ => none

/-- The last component of a path. -/
def baseName (path : String) : String :=
  String.ofList ((path.toList.splitOn '/').getLastD [])

/-- What an installed program does in a child. -/
def installedActivity (pid : Pid) (name : String) (words : List String) : Activity :=
  if name = "sh" then Script.interpreter pid (words.headD name) (words.drop 1)
  else
    match Utility.named? name with
    | some run => run (words.headD name) (words.drop 1) .standard .exit
    | none => .exit 0

/-- What a child does that is told to start a program: its activity and the name it goes by.
`depth` bounds the interpreters on the way. -/
def activityOf (m : Machine) (c : Child) (words : List String) :
    Nat → Except Errno (String × Activity)
  | 0 => .error .eloop
  | depth + 1 =>
    match m.findExecutable c.directory (words.headD "") with
    | .error e => .error e
    | .ok (.installed name) => .ok (baseName (words.headD ""), installedActivity c.pid name words)
    | .ok (.script path content) =>
      let named (result : Except Errno (String × Activity)) : Except Errno (String × Activity) :=
        result.map fun (_, activity) => (baseName path, activity)
      match interpreterOf? content with
      | some interpreter =>
        named (m.activityOf c (interpreter ++ path :: words.drop 1) depth)
      | none => named (m.activityOf c ("/bin/sh" :: path :: words.drop 1) depth)

/-- The complaint of a child whose program cannot be started, and its end. -/
def refuse (name : String) (cause : Errno) : Activity :=
  if cause = .enoent then .say 2 (name ++ ": command not found\n") (.exit 127)
  else .say 2 (name ++ ": " ++ cause.description ++ "\n") (.exit 126)

/-- A child starts a program. -/
def startProgram (m : Machine) (c : Child) (words : List String) : Child :=
  match m.activityOf c words 6 with
  | .ok (name, activity) => { c with name, activity, descriptors := c.descriptors.start }
  | .error e => { c with activity := refuse (words.headD "") e }

end Machine

end JobControl
