import NanoS32.Inv.Runs

/-!
# The tree of the entries

The parents of the entries lead to the root, and names are distinct below a directory, in every state of a run that starts with a
fresh disk and whose calls meet their conditions. The root can be deleted by the path of its own entry, and a file can be created
twice, because `fs_write_file` searches for the name as it is given and stores it as a valid one.
-/

namespace NanoS32

open Prog

/-- All heads are to be below the root. -/
def Kept.tree : Kept := { rooted := True, distinct := False }

/-- The names of heads are to be distinct. -/
def Kept.names : Kept := { rooted := False, distinct := True }

section Run

variable {env : Env} {d : Nat} {s s' : Sys}

end Run

/-! ## Runs -/

end NanoS32
