import JobControl.Errno

/-!
# File trees

A tree of directories, files, symbolic links, programs and the empty device.  Nodes are numbered; a
directory names its entries and knows its parent, and node 0 is the root.  A directory that is
removed while a process works in it keeps its node but has no name any more.

`FileTree.locate` follows a path component by component, with symbolic links expanded on the way, and
gives the node it ends at or the directory in which its last component is missing.
-/

set_option autoImplicit false

namespace JobControl

/-- The number of a node. -/
abbrev NodeId := Nat

/-- A node of the tree. -/
inductive Node
  | directory (entries : List (String × NodeId)) (parent : NodeId)
  | file (content : ByteArray) (executable : Bool)
  | link (target : String)
  /-- The device that is always empty and takes everything. -/
  | sink
  /-- An installed program. -/
  | program (name : String)

/-- A tree of nodes, the root first. -/
structure FileTree where
  nodes : Array Node

namespace FileTree

/-- The root directory. -/
def root : NodeId := 0

/-- A tree that holds an empty root. -/
def bare : FileTree :=
  ⟨#[.directory [] root]⟩

/-- The longest component of a path, in bytes. -/
def maxComponent : Nat := 255

/-- The longest path, in bytes, with the NUL at its end. -/
def maxPath : Nat := 4096

/-- How many symbolic links one path may lead through. -/
def maxLinks : Nat := 40

/-- The entries of a directory. -/
def entries? (t : FileTree) (id : NodeId) : Option (List (String × NodeId)) :=
  match t.nodes[id]? with
  | some (.directory entries _) => some entries
  | _ => none

/-- The parent of a directory. -/
def parent (t : FileTree) (id : NodeId) : NodeId :=
  match t.nodes[id]? with
  | some (.directory _ parent) => parent
  | _ => root

/-- A directory that still has a name in its parent. -/
def isLinked (t : FileTree) (id : NodeId) : Bool :=
  id == root || ((t.entries? (t.parent id)).getD []).any fun (_, child) => child == id

/-- Where a path ends. -/
inductive Place
  | existing (node : NodeId)
  /-- The last component is missing in this directory. -/
  | missing (directory : NodeId) (name : String)

/-- The names between the slashes of a path. -/
def names (path : String) : List String :=
  ((path.toList.splitOn '/').map String.ofList).filter fun part => part ≠ ""

/-- The path ends in a slash. -/
def endsInSlash (path : String) : Bool :=
  path.toList.getLast? == some '/'

/-- The components of a path; a final `/` asks for a directory. -/
def components (path : String) : List String :=
  if endsInSlash path && !(names path).isEmpty then names path ++ ["."] else names path

/-- The directory a path starts from: the root for an absolute path, else the working directory. -/
def startOf (directory : NodeId) (path : String) : NodeId :=
  if path.toList.head? == some '/' then root else directory

/-- Follows components from a node.  `follow` tells whether a link at the very end is followed too,
and `links` how many links may still be expanded. -/
def walk (t : FileTree) (follow : Bool) (links : Nat) (current : NodeId) :
    List String → Except Errno Place
  | [] => .ok (.existing current)
  | name :: rest =>
    match t.entries? current with
    | none => .error .enotdir
    | some entries =>
      if name.utf8ByteSize > maxComponent then .error .enametoolong
      else if name = "." then t.walk follow links current rest
      else if name = ".." then t.walk follow links (t.parent current) rest
      else
        match entries.find? fun entry => entry.1 == name with
        | none => if rest = [] then .ok (.missing current name) else .error .enoent
        | some (_, node) =>
          match t.nodes[node]? with
          | some (.link target) =>
            if rest = [] ∧ ¬ follow then .ok (.existing node)
            else
              match links with
              | 0 => .error .eloop
              | left + 1 =>
                t.walk follow left (startOf current target) (components target ++ rest)
          | _ => t.walk follow links node rest
termination_by names => (links, names.length)

/-- Follows a path from a working directory; `follow` tells whether a link at its end is followed. -/
def locate (t : FileTree) (directory : NodeId) (path : String) (follow : Bool) :
    Except Errno Place :=
  if path = "" then .error .enoent
  else if maxPath ≤ path.utf8ByteSize then .error .enametoolong
  else t.walk follow maxLinks (startOf directory path) (components path)

/-- The node a path ends at. -/
def find (t : FileTree) (directory : NodeId) (path : String) : Except Errno NodeId :=
  match t.locate directory path true with
  | .ok (.existing node) => .ok node
  | .ok (.missing _ _) => .error .enoent
  | .error e => .error e

/-- The directory a path ends at. -/
def findDirectory (t : FileTree) (directory : NodeId) (path : String) : Except Errno NodeId :=
  match t.find directory path with
  | .ok node => if (t.entries? node).isSome then .ok node else .error .enotdir
  | .error e => .error e

/-- The names on the way from the root to a directory, innermost first, if every one of them still
exists.  The number bounds how far up to look. -/
def namesUp (t : FileTree) : Nat → NodeId → Option (List String)
  | 0, _ => none
  | depth + 1, id =>
    if id = root then some []
    else do
      let (name, _) ← ((t.entries? (t.parent id)).getD []).find? fun (_, child) => child == id
      let above ← t.namesUp depth (t.parent id)
      return name :: above

/-- The absolute path of a directory. -/
def pathOf (t : FileTree) (id : NodeId) : Except Errno String :=
  match t.namesUp t.nodes.size id with
  | some [] => .ok "/"
  | some names => .ok (String.join (names.reverse.map fun name => "/" ++ name))
  | none => .error .enoent

/-- Replaces a node. -/
def setNode (t : FileTree) (id : NodeId) (node : Node) : FileTree :=
  ⟨t.nodes.setIfInBounds id node⟩

/-- Adds a node under a name; gives its number. -/
def add (t : FileTree) (directory : NodeId) (name : String) (node : Node) : NodeId × FileTree :=
  let id := t.nodes.size
  let t : FileTree := ⟨t.nodes.push node⟩
  match t.nodes[directory]? with
  | some (.directory entries parent) =>
    (id, t.setNode directory (.directory (entries ++ [(name, id)]) parent))
  | _ => (id, t)

/-- Makes a directory in another one, unless it is there. -/
def addDirectory (t : FileTree) (directory : NodeId) (name : String) : NodeId × FileTree :=
  match ((t.entries? directory).getD []).find? fun entry => entry.1 == name with
  | some (_, node) => (node, t)
  | none => t.add directory name (.directory [] directory)

/-- Makes the directories on a path. -/
def makeDirectories (t : FileTree) (directory : NodeId) (path : String) : NodeId × FileTree :=
  (components path).foldl
    (fun (current, t) name =>
      match t.findDirectory current name with
      | .ok node => (node, t)
      | .error _ => t.addDirectory current name)
    (startOf directory path, t)

/-- Why a path that ends in a slash names no file: the directory before its last name cannot be
reached, or else the path asks for a directory. -/
def noFile (t : FileTree) (directory : NodeId) (path : String) : Errno :=
  if maxPath ≤ path.utf8ByteSize then .enametoolong
  else
    match t.walk true maxLinks (startOf directory path) ((names path).dropLast ++ ["."]) with
    | .ok (.existing _) => .eisdir
    | .ok (.missing _ _) => .enoent
    | .error e => e

/-- The file a path names, made if it is missing. -/
def create (t : FileTree) (directory : NodeId) (path : String) :
    Except Errno (NodeId × FileTree) :=
  if endsInSlash path then .error (t.noFile directory path)
  else
    match t.locate directory path true with
    | .ok (.existing node) =>
      if (t.entries? node).isSome then .error .eisdir else .ok (node, t)
    | .ok (.missing parent name) =>
      if t.isLinked parent then .ok (t.add parent name (.file .empty false)) else .error .enoent
    | .error e => .error e

/-- The bytes of a file. -/
def content (t : FileTree) (id : NodeId) : ByteArray :=
  match t.nodes[id]? with
  | some (.file content _) => content
  | _ => .empty

/-- Replaces the bytes of a file. -/
def setContent (t : FileTree) (id : NodeId) (content : ByteArray) : FileTree :=
  match t.nodes[id]? with
  | some (.file _ executable) => t.setNode id (.file content executable)
  | _ => t

/-- Sets whether a file may be run as a program. -/
def setExecutable (t : FileTree) (id : NodeId) (executable : Bool) : FileTree :=
  match t.nodes[id]? with
  | some (.file content _) => t.setNode id (.file content executable)
  | _ => t

/-- Writes a file as a whole, and makes it if it is missing. -/
def write (t : FileTree) (directory : NodeId) (path : String) (content : ByteArray) :
    Except Errno FileTree :=
  match t.create directory path with
  | .ok (node, t) => .ok (t.setContent node content)
  | .error e => .error e

/-- Makes a symbolic link. -/
def addLink (t : FileTree) (directory : NodeId) (path target : String) : Except Errno FileTree :=
  match t.locate directory path false with
  | .ok (.missing parent name) => .ok (t.add parent name (.link target)).2
  | .ok (.existing _) => .error ⟨17⟩
  | .error e => .error e

/-- Takes the name of a node away. -/
def unlink (t : FileTree) (directory : NodeId) (node : NodeId) : FileTree :=
  match t.nodes[directory]? with
  | some (.directory entries parent) =>
    t.setNode directory (.directory (entries.filter fun entry => entry.2 != node) parent)
  | _ => t

/-- Removes what a path names; a directory goes with all it holds. -/
def remove (t : FileTree) (directory : NodeId) (path : String) : Except Errno FileTree :=
  match t.locate directory path false with
  | .ok (.existing node) =>
    let holder := (List.range t.nodes.size).find? fun id =>
      ((t.entries? id).getD []).any fun entry => entry.2 == node
    match holder with
    | some id => .ok (t.unlink id node)
    | none => .error .enoent
  | .ok (.missing _ _) => .error .enoent
  | .error e => .error e

end FileTree

end JobControl
