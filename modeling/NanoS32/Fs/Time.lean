import Mathlib.Tactic.Common

/-!
# File times

The two functions of `fs.c` between the time of the system and the time of an entry: a word with the months since January 2017
in its upper 10 bits and the seconds of the month in its lower 22. Both are computed in 32-bit arithmetic.
-/

namespace NanoS32

/-- `time_t`. -/
structure Time where
  year : UInt32
  month : UInt32
  day : UInt32
  hour : UInt32
  minute : UInt32
  second : UInt32
  deriving DecidableEq

/-- `fs_fstime_to_systime`: the time it stores. -/
def fstimeToSystime (fst : UInt32) : Time :=
  { year := ((fst >>> 22) &&& 0x3FF) / 12 + 2017
    month := ((fst >>> 22) &&& 0x3FF) % 12 + 1
    day := (fst &&& 0x3FFFFF) / 86400 + 1
    hour := ((fst &&& 0x3FFFFF) / 3600) % 24
    minute := ((fst &&& 0x3FFFFF) / 60) % 60
    second := (fst &&& 0x3FFFFF) % 60 }

/-- `fs_systime_to_fstime`. -/
def systimeToFstime (syst : Time) : UInt32 :=
  let fst := syst.second
  let fst := fst + syst.minute * 60
  let fst := fst + syst.hour * 60 * 60
  let fst := fst + (syst.day - 1) * 24 * 60 * 60
  let fst := fst &&& 0x3FFFFF
  fst ||| (((syst.year - 2017) * 12 + (syst.month - 1)) <<< 22)

end NanoS32
