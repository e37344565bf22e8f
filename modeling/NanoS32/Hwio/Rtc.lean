import Mathlib.Data.UInt
import NanoS32.Fs.Time

/-!
# The real-time clock

`io_getdatetime` of `hwio.c`. The registers of the clock change by themselves: `cmos k r` is what read `k` gives when it is for
register `r`.
-/

namespace NanoS32

/-- `CMOS_UIP`, in register 0x0A: an update is in progress. -/
def cmosUip : UInt8 := 0x80

/-- `BCD_to_int`, on a signed char. The result is a 32-bit unsigned number. -/
def bcdToInt (bcd : UInt8) : UInt32 := UInt32.ofInt ((bcd.toInt8.toInt >>> (4 : Nat)) * 10) + (bcd &&& 0xF).toUInt32

section Clock

variable (cmos : Nat → UInt8 → UInt8)

/-- A field read from its register, and the check for an update after it: go on, or start again. -/
def readField (reg : UInt8) (k : Nat) (next : UInt32 → Nat → Nat ⊕ Time × Nat) : Nat ⊕ Time × Nat :=
  if cmos (k + 1) 0x0A &&& cmosUip ≠ 0 then .inl (k + 2) else next (cmos k reg).toUInt32 (k + 2)

/-- The fields, one after the other. -/
def readFields (k : Nat) : Nat ⊕ Time × Nat :=
  readField cmos 0x09 k fun year k =>
  readField cmos 0x08 k fun month k =>
  readField cmos 0x07 k fun day k =>
  readField cmos 0x04 k fun hour k =>
  readField cmos 0x02 k fun minute k =>
  readField cmos 0x00 k fun second k =>
    .inr ({ year := year, month := month, day := day, hour := hour, minute := minute, second := second }, k)

/-- The loop that reads the fields between two updates, from read `k` on. -/
def readClock : Nat → Nat → Option (Time × Nat)
  | 0, _ => none
  | fuel + 1, k =>
    if cmos k 0x0A &&& cmosUip ≠ 0 then readClock fuel (k + 1)
    else
      match readFields cmos (k + 1) with
      | .inl k => readClock fuel k
      | .inr r => some r

/-- "Convert from BCD if needed". -/
def fromBcd (statusB : UInt8) (t : Time) : Time :=
  if statusB &&& 0x04 = 0 then
    { year := bcdToInt t.year.toUInt8
      month := bcdToInt t.month.toUInt8
      day := bcdToInt t.day.toUInt8
      hour := bcdToInt t.hour.toUInt8
      minute := bcdToInt t.minute.toUInt8
      second := bcdToInt t.second.toUInt8 }
  else t

/-- "Convert to 24 hour format if needed". -/
def to24Hours (statusB : UInt8) (hour : UInt32) : UInt32 :=
  if statusB &&& 0x02 = 0 ∧ hour &&& 0x80 ≠ 0 then ((hour &&& 0x7F) + 12) % 24 else hour

/-- The time that the fields stand for. -/
def convertTime (statusB : UInt8) (t : Time) : Time :=
  let t := fromBcd statusB t
  { t with hour := to24Hours statusB t.hour, year := t.year + 2000 }

/-- `io_getdatetime`, with a bound for its loop. -/
def ioGetdatetime (fuel : Nat) : Option Time :=
  match readClock cmos fuel 0 with
  | none => none
  | some (t, k) => some (convertTime (cmos k 0x0B) t)

end Clock

end NanoS32
