import NanoS32.Hwio.Disk
import NanoS32.Ulib.Mem

/-!
# Transfers between disks and memory

`io_disk_read` and `io_disk_write` of `hwio.c` with the memory they work on: the caller's buffer and `disk_buff`, the buffer of one
sector through which a BIOS disk is read and written, and any disk where a sector is only in part in the request. `Hwio.Disk`
has the same functions on the bytes of the buffer alone.
-/

namespace NanoS32

/-- What the transfers use besides the sizes of the disks: which of them are ATA disks, and the address of `disk_buff`. -/
structure Driver where
  isATA : Nat → Bool
  diskBuff : Nat

/-- The disks and the memory. -/
structure Bus where
  sys : Sys
  mem : Mem

namespace Bus

/-- A program that leaves the memory alone. -/
def onSys {α : Type} (x : FsM α) : Prog Bus α := ⟨fun s =>
  match x.run s.sys with
  | .ok a t => .ok a { s with sys := t }
  | .error code t => .error code { s with sys := t }
  | .stuck t => .stuck { s with sys := t }⟩

/-- A change of the memory. -/
def onMem (f : Mem → Mem) : Prog Bus Unit := Prog.update fun s => { s with mem := f s.mem }

/-- The transfer of one sector to memory. -/
def readTo (disk sector p : Nat) : Prog Bus Nat := do
  let (result, b) ← onSys (readSector disk sector)
  onMem fun m => m.store p b.bytes
  pure result

/-- The transfer of one sector from memory. -/
def writeFrom (disk sector p : Nat) : Prog Bus Nat := do
  let s ← Prog.get
  onSys (writeSector disk sector (Block.ofBytes fun i => s.mem (p + i)))

/-- `ATA_PIO_readsector`: the sectors go straight to memory, up to the first that fails. -/
def ataPioReadsector (disk : Nat) : Nat → Nat → Nat → Prog Bus Nat
  | _, 0, _ => pure noError
  | sector, n + 1, p => do
    let result ← readTo disk sector p
    if result ≠ noError then pure result
    else ataPioReadsector disk (wrap32 (sector + 1)) n (p + diskSectorSize)

/-- `ATA_PIO_writesector`: the sectors come straight from memory, up to the first that fails. -/
def ataPioWritesector (disk : Nat) : Nat → Nat → Nat → Prog Bus Nat
  | _, 0, _ => pure noError
  | sector, n + 1, p => do
    let result ← writeFrom disk sector p
    if result ≠ noError then pure result
    else ataPioWritesector disk (wrap32 (sector + 1)) n (p + diskSectorSize)

/-- The loop of `disk_read_sector` and `disk_write_sector` on an ATA disk, over groups of up to 255 sectors, of which there are
no more than the first argument. -/
def ataGroups (transfer : Nat → Nat → Nat → Prog Bus Nat) : Nat → Nat → Nat → Nat → Prog Bus Nat
  | 0, _, _, _ => pure noError
  | groups + 1, sector, n, buff =>
    if n > 0 then do
      let nSectors := min n 255
      let result ← transfer sector nSectors buff
      if result ≠ noError then pure result
      else ataGroups transfer groups (wrap32 (sector + nSectors)) (n - nSectors) (buff + nSectors * diskSectorSize)
    else pure noError

/-- The loop of `disk_read_sector` on a BIOS disk, with `n` sectors left from number `i` on: each goes through `disk_buff`. -/
def biosReadLoop (drv : Driver) (disk sector buff : Nat) : Nat → Nat → Prog Bus Nat
  | 0, _ => pure noError
  | n + 1, i => do
    let result ← readTo disk (wrap32 (sector + i)) drv.diskBuff
    if result ≠ noError then pure result
    else do
      onMem fun m => if buff ≠ drv.diskBuff then m.memcpy (buff + i * diskSectorSize) drv.diskBuff diskSectorSize else m
      biosReadLoop drv disk sector buff n (i + 1)

/-- The loop of `disk_write_sector` on a BIOS disk. -/
def biosWriteLoop (drv : Driver) (disk sector buff : Nat) : Nat → Nat → Prog Bus Nat
  | 0, _ => pure noError
  | n + 1, i => do
    onMem fun m => if buff ≠ drv.diskBuff then m.memcpy drv.diskBuff (buff + diskSectorSize * i) diskSectorSize else m
    let result ← writeFrom disk (wrap32 (sector + i)) drv.diskBuff
    if result ≠ noError then pure result
    else biosWriteLoop drv disk sector buff n (i + 1)

/-- `disk_read_sector`. -/
def diskReadSector (drv : Driver) (disk sector n buff : Nat) : Prog Bus Nat :=
  if drv.isATA disk then ataGroups (ataPioReadsector disk) n sector n buff
  else biosReadLoop drv disk sector buff n 0

/-- `disk_write_sector`. -/
def diskWriteSector (drv : Driver) (disk sector n buff : Nat) : Prog Bus Nat :=
  if drv.isATA disk then ataGroups (ataPioWritesector disk) n sector n buff
  else biosWriteLoop drv disk sector buff n 0

/-- `io_disk_read`. -/
def ioDiskRead (drv : Driver) (env : Env) (disk sector offset size buff : Nat) : Prog Bus Nat :=
  if buff = 0 then pure errorIo
  else if (env.diskInfo disk).size = 0 then pure errorIo
  else do
    let sector := wrap32 (sector + offset / diskSectorSize)
    let offset := offset % diskSectorSize
    let (result, i, sector, size) ←
      if offset ≠ 0 then do
        let result ← diskReadSector drv disk sector 1 drv.diskBuff
        let i := min (diskSectorSize - offset) size
        onMem fun m => m.memcpy buff (drv.diskBuff + offset) i
        pure (result, i, wrap32 (sector + 1), size - i)
      else pure (noError, 0, sector, size)
    let nSectors := size / diskSectorSize
    let (result, i, sector, size) ←
      if nSectors ≠ 0 ∧ result = noError then do
        let result ← diskReadSector drv disk sector nSectors (buff + i)
        pure (result, i + nSectors * diskSectorSize, wrap32 (sector + nSectors), size - nSectors * diskSectorSize)
      else pure (result, i, sector, size)
    if size ≠ 0 ∧ result = noError then do
      let result ← diskReadSector drv disk sector 1 drv.diskBuff
      onMem fun m => m.memcpy (buff + i) drv.diskBuff size
      pure result
    else pure result

/-- `io_disk_write`. -/
def ioDiskWrite (drv : Driver) (env : Env) (disk sector offset size buff : Nat) : Prog Bus Nat :=
  if buff = 0 then pure errorIo
  else if (env.diskInfo disk).size = 0 then pure errorIo
  else do
    let sector := wrap32 (sector + offset / diskSectorSize)
    let offset := offset % diskSectorSize
    let (result, i, sector, size) ←
      if offset ≠ 0 then do
        let r1 ← diskReadSector drv disk sector 1 drv.diskBuff
        let i := min (diskSectorSize - offset) size
        onMem fun m => m.memcpy (drv.diskBuff + offset) buff i
        let r2 ← diskWriteSector drv disk sector 1 drv.diskBuff
        pure (wrap32 (r1 + r2), i, wrap32 (sector + 1), size - i)
      else pure (noError, 0, sector, size)
    let nSectors := size / diskSectorSize
    let (result, i, sector, size) ←
      if nSectors ≠ 0 ∧ result = noError then do
        let result ← diskWriteSector drv disk sector nSectors (buff + i)
        pure (result, i + nSectors * diskSectorSize, wrap32 (sector + nSectors), size - nSectors * diskSectorSize)
      else pure (result, i, sector, size)
    if size ≠ 0 ∧ result = noError then do
      let r1 ← diskReadSector drv disk sector 1 drv.diskBuff
      onMem fun m => m.memcpy drv.diskBuff (buff + i) size
      let r2 ← diskWriteSector drv disk sector 1 drv.diskBuff
      pure (wrap32 (r1 + r2))
    else pure result

end Bus

end NanoS32
