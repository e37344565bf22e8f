import Mathlib.Data.UInt

/-!
# The timer

The interrupt timer of `hwio.c`, and `wait` of `ulib.c`. The timer is calibrated against the seconds of the real-time clock: the
interrupts of one whole second are counted, and the interval is set to a hundredth of it. `second k` is what the clock shows at
interrupt `k` from now on.
-/

namespace NanoS32

/-- The static variables of the timer, with the last interval that was written to the interrupt controller. -/
structure Timer where
  clockInts : UInt32
  intsPerSecond : UInt32
  s0 : UInt32
  s1 : UInt32
  s2 : UInt32
  ticr : UInt32

namespace Timer

/-- The variables before the first interrupt. -/
def boot : Timer :=
  { clockInts := 0xFFFFFFFF, intsPerSecond := 5000000, s0 := 0xFFFF, s1 := 0xFFFE, s2 := 0xFFFD, ticr := 5000000 }

/-- `timer_handler`, when the clock shows `second`. -/
def timerHandler (t : Timer) (second : UInt8) : Timer :=
  let t := { t with clockInts := t.clockInts + 1 }
  if t.s0 = 0xFFFF then { t with s0 := second.toUInt32, s1 := second.toUInt32 }
  else if t.s1 = t.s0 then
    if second.toUInt32 ≠ t.s0 then { t with s1 := second.toUInt32, s2 := second.toUInt32, clockInts := 0 }
    else { t with s1 := second.toUInt32 }
  else if t.s2 = t.s1 then
    if second.toUInt32 ≠ t.s1 then
      { t with s2 := second.toUInt32, ticr := (t.clockInts * t.intsPerSecond) / 100, intsPerSecond := 100 }
    else { t with s2 := second.toUInt32 }
  else t

/-- `io_gettimer`. -/
def ioGettimer (t : Timer) : UInt32 := (t.clockInts * 1000) / t.intsPerSecond

/-- The variables after `n` interrupts. -/
def after (t : Timer) (second : Nat → UInt8) : Nat → Timer
  | 0 => t
  | n + 1 => (t.after second n).timerHandler (second n)

/-- The condition of the loop of `wait(ms)`, called at `t`, when it reads the timer at `t'`. -/
def waiting (t t' : Timer) (ms : UInt32) : Bool :=
  let startTime := t.ioGettimer
  let finishTime := startTime + ms
  t'.ioGettimer < finishTime

end Timer

end NanoS32
