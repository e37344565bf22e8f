import NanoS32.Fs.Table
import NanoS32.Hwio.Geometry
import NanoS32.Ulib.Mem

/-!
# The boot sector

`boot.s` with the variables that its loop uses. The BIOS is a parameter: it answers the call for the parameters of the disk, and a
read may fail any number of times, with anything in the buffer. The stack and the variables themselves, which lie around 0x7C00, are
not part of the memory.
-/

namespace NanoS32

/-- The address that the system is loaded to. -/
def stageLoc : Nat := 0x8000

/-- What a BIOS read of one sector comes to: the carry flag, and what has been stored in the buffer, if anything. -/
structure BiosAnswer where
  carry : Bool
  stored : Option Block

/-- The BIOS calls for the boot disk: the registers after function 8, the answer to the `n`-th read at the given `ch`, `cl` and
`dh`, and whether a reset after it succeeds. -/
structure BootBios where
  params : Regs16
  read : Nat → UInt8 → UInt8 → UInt8 → BiosAnswer
  reset : Nat → Bool

/-- The maximum sector number that the boot sector keeps in `SECTORS`. -/
def BootBios.sectors (bios : BootBios) : Nat := bios.params.cx.toNat &&& 0x3F

/-- The number of heads that the boot sector keeps in `SIDES`. -/
def BootBios.sides (bios : BootBios) : Nat := 1 + (bios.params.dx.toNat &&& 0xFF00) >>> 8

/-- The registers that `disk_lba_to_hts` sets. -/
structure Hts where
  ch : UInt8
  cl : UInt8
  dh : UInt8
  deriving DecidableEq

/-- The state of the boot sector: the block in `ax`, `BUFFER` and `LASTBLOCK`, the number of reads so far, and the memory. -/
structure Boot where
  ax : UInt16
  buffer : UInt16
  lastblock : UInt16
  calls : Nat
  mem : Mem

/-- How the boot sector stays out of the stage: the message of a disk error, a division by zero, or a loop that goes on after the
given number of passes. -/
inductive BootStop
  | error
  | divide
  | running
  deriving DecidableEq

/-- The state at the first `.read_next`. -/
def Boot.init (mem : Mem) : Boot := { ax := 1, buffer := 0, lastblock := 240, calls := 0, mem := mem }

/-- What a read leaves. -/
def Boot.answered (st : Boot) (answer : BiosAnswer) : Boot :=
  { st with
    calls := st.calls + 1
    mem := match answer.stored with
      | some b => st.mem.store (stageLoc + st.buffer.toNat) b.bytes
      | none => st.mem }

/-- `.read_loop`: a read that fails is tried again after a reset, unless that fails too. -/
def Boot.readLoop (bios : BootBios) (hts : Hts) : Nat → Boot → Except BootStop Boot
  | 0, _ => .error .running
  | tries + 1, st =>
    let answer := bios.read st.calls hts.ch hts.cl hts.dh
    if answer.carry then
      if bios.reset st.calls then readLoop bios hts tries (st.answered answer) else .error .error
    else .ok (st.answered answer)

end NanoS32
