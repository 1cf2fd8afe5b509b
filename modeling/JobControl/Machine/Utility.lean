import JobControl.Machine.Utility.Counting
import JobControl.Machine.Utility.Replacing
import JobControl.Machine.Utility.Sorting
import JobControl.Machine.Utility.Words

/-!
# Utilities by name

The installed programs, apart from the script interpreter: `true`, `false`, `echo`, `cat`, `sort`,
`tr`, `wc`, `pwd` and `sleep`.
-/

set_option autoImplicit false

namespace JobControl.Utility

/-- The utility of a name. -/
def named? : String → Option Run
  | "true" => some fun _ _ _ done => done 0
  | "false" => some fun _ _ _ done => done 1
  | "echo" => some echo
  | "cat" => some cat
  | "sort" => some sort
  | "tr" => some tr
  | "wc" => some wc
  | "pwd" => some pwd
  | "sleep" => some sleep
  | _ => none

/-- The names of the utilities. -/
def names : List String :=
  ["true", "false", "echo", "cat", "sort", "tr", "wc", "pwd", "sleep"]

end JobControl.Utility
