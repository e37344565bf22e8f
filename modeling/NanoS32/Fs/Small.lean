import NanoS32.Fs.Dir

/-!
# A small machine

Two disks of 50 blocks, the first of them the system disk and formatted with nothing on it.
-/

namespace NanoS32

/-- The two disks are `hd0` and `hd1`; a disk of 50 sectors gets a table of 5 entries and 43 data blocks. -/
def smallEnv : Env where
  systemDisk := 2
  diskInfo d := if d = 2 ∨ d = 3 then { sectors := 50, sides := 1, cylinders := 1, size := 1 }
    else { sectors := 0, sides := 0, cylinders := 0, size := 0 }
  fuel := 130
  stray _ := 0

/-- The system disk after a format. -/
def smallSys : Sys :=
  ((formatEmpty smallEnv 2).run { disk := fun _ _ => Block.zero, faults := [], clock := fun _ => 7 }).after

/-- The small machine, with a bound on loops that no call reaches. -/
def sampleEnv : Env := { smallEnv with fuel := 33554432 }

/-- The system disk with a file `f` of three bytes. -/
def sampleSys : Sys := ((fsWriteFile smallEnv [10, 20, 30] [102] 0 wfCreate).run smallSys).after

end NanoS32
