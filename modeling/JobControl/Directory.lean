/-!
# Lexical path resolution

The directory built-in turns its argument into a path by looking at the text alone: the argument's
components are applied one by one to the recorded directory, or to the root if the argument begins
with `/`.  An empty component and `.` change nothing, `..` takes the last component away, and any
other component is added.
-/

set_option autoImplicit false

namespace JobControl.Directory

/-- A component that names nothing: empty, or `.`. -/
def isIdle (component : List Char) : Bool :=
  component == [] || component == ['.']

/-- Drops idle components at the end. -/
def dropIdle (components : List (List Char)) : List (List Char) :=
  (components.reverse.dropWhile isIdle).reverse

/-- The components of a path without its leading `/`, or of a relative path.  A relative path may
begin with `.`, which counts as a component there. -/
def withoutLast (components : List (List Char)) : Option (List (List Char)) :=
  match dropIdle components with
  | [] => none
  | body => some (dropIdle body.dropLast)

/-- The path without its last component; the root and the empty path stay as they are. -/
def parent (path : List Char) : List Char :=
  match path with
  | '/' :: rest =>
    match withoutLast (rest.splitOn '/') with
    | some components => '/' :: ['/'].intercalate components
    | none => path
  | '.' :: '/' :: rest =>
    match withoutLast (rest.splitOn '/') with
    | some components => ['/'].intercalate (['.'] :: components)
    | none => []
  | ['.'] => []
  | _ =>
    match withoutLast (path.splitOn '/') with
    | some components => ['/'].intercalate components
    | none => path

/-- The path with a component added. -/
def child (path component : List Char) : List Char :=
  match path.getLast? with
  | none => component
  | some '/' => path ++ component
  | some _ => path ++ '/' :: component

/-- Applies one component of an argument. -/
def step (path component : List Char) : List Char :=
  if isIdle component then path
  else if component == ['.', '.'] then parent path
  else child path component

/-- Applies an argument to a directory. -/
def resolve (directory argument : String) : String :=
  let start := if argument.toList.head? == some '/' then ['/'] else directory.toList
  String.ofList ((argument.toList.splitOn '/').foldl step start)

end JobControl.Directory
