import JobControl.Machine.FileTree
import JobControl.Machine.Utility

/-!
# The file tree of a new machine

The directories every machine has, with the installed programs and the empty device.
-/

set_option autoImplicit false

namespace JobControl.FileTree

/-- The directories at the top, apart from those that are links. -/
def topDirectories : List String :=
  ["boot", "dev", "etc", "home", "media", "mnt", "opt", "proc", "root", "run", "srv", "sys", "tmp",
   "usr", "var"]

/-- The directories under `/usr`. -/
def systemDirectories : List String :=
  ["/usr/bin", "/usr/lib", "/usr/local/bin", "/usr/sbin", "/usr/share", "/var/log", "/var/tmp"]

/-- The links at the top. -/
def topLinks : List (String × String) :=
  [("bin", "usr/bin"), ("lib", "usr/lib"), ("sbin", "usr/sbin")]

/-- The programs in `/usr/bin`. -/
def programs : List String :=
  "sh" :: Utility.names

/-- The tree of a new machine. -/
def installed : FileTree :=
  let tree := (topDirectories.map ("/" ++ ·) ++ systemDirectories).foldl
    (fun (t : FileTree) path => (t.makeDirectories root path).2) bare
  let tree := topLinks.foldl (fun (t : FileTree) (name, target) => (t.add root name (.link target)).2)
    tree
  let place (t : FileTree) (directory name : String) (node : Node) : FileTree :=
    match t.findDirectory root directory with
    | .ok id => (t.add id name node).2
    | .error _ => t
  let tree := place tree "/dev" "null" .sink
  programs.foldl (fun t name => place t "/usr/bin" name (.program name)) tree

end JobControl.FileTree
