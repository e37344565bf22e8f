import NanoS32.Lib.Prog
import NanoS32.Ulib.Str
import Mathlib.Data.List.GetD
import Mathlib.Algebra.Group.Nat.Defs

/-!
# Disks

The disks of the machine and the sector transfers of `hwio.c`. `BLOCK_SIZE`, `DISK_SECTOR_SIZE` and `sizeof(sfs_entry_t)` are
all 512 in this repository, so a sector holds one block, and the fields of an `sfs_entry_t` take up a block with no padding.
A `Block` is kept under that layout, and `Block.byte` and `Block.ofBytes` are its view as 512 bytes.
-/

namespace NanoS32

def blockSize : Nat := 512
def diskSectorSize : Nat := 512
def sfsNameSize : Nat := 15
def sfsEntryRefs : Nat := 120
def maxDisk : Nat := 4

/-- A block of a disk, under the layout of `sfs_entry_t`. -/
structure Block where
  flags : UInt8
  name : Fin 15 → UInt8
  time : UInt32
  size : UInt32
  parent : UInt32
  next : UInt32
  ref : Fin 120 → UInt32

/-- `sfs_entry_t`: a block, read as an entry of the table. -/
abbrev SfsEntry : Type := Block

/-- A block of zeros. -/
def Block.zero : Block :=
  { flags := 0, name := fun _ => 0, time := 0, size := 0, parent := 0, next := 0, ref := fun _ => 0 }

/-- Byte `k` of a little-endian 32-bit word. -/
def wordByte (w : UInt32) (k : Nat) : UInt8 := UInt8.ofNat (w.toNat / 256 ^ k)

/-- The little-endian 32-bit word at byte `i`. -/
def word (f : Nat → UInt8) (i : Nat) : UInt32 :=
  UInt32.ofNat ((f i).toNat + 256 * ((f (i + 1)).toNat + 256 * ((f (i + 2)).toNat + 256 * (f (i + 3)).toNat)))

/-- Byte `i` of a block. -/
def Block.byte (b : Block) (i : Nat) : UInt8 :=
  if i = 0 then b.flags
  else if h : i < 16 then b.name ⟨i - 1, by omega⟩
  else if i < 20 then wordByte b.time (i - 16)
  else if i < 24 then wordByte b.size (i - 20)
  else if i < 28 then wordByte b.parent (i - 24)
  else if i < 32 then wordByte b.next (i - 28)
  else if h : i < 512 then wordByte (b.ref ⟨(i - 32) / 4, by omega⟩) (i % 4)
  else 0

/-- The block with the given bytes. -/
def Block.ofBytes (f : Nat → UInt8) : Block :=
  { flags := f 0, name := fun k => f (k + 1), time := word f 16, size := word f 20, parent := word f 24,
    next := word f 28, ref := fun k => word f (32 + 4 * k) }

/-- The bytes of a block, as a buffer. -/
def Block.bytes (b : Block) : List UInt8 := (List.range 512).map b.byte

/-- The block with `buff` copied into it at `offset`. -/
def Block.splice (b : Block) (offset : Nat) (buff : List UInt8) : Block :=
  Block.ofBytes fun i => if offset ≤ i ∧ i < offset + buff.length then buff.getD (i - offset) 0 else b.byte i

/-- The fields of `disk_info_t` that the disk and file system code reads. -/
structure DiskInfo where
  sectors : Nat
  sides : Nat
  cylinders : Nat
  size : Nat

/-- What does not change while file system calls run: the disks the machine was started with, the bound given to loops that
need not end, and what memory holds past the end of a reference array. -/
structure Env where
  systemDisk : Nat
  diskInfo : Nat → DiskInfo
  fuel : Nat
  stray : Nat → Nat

/-- A transfer of one sector that has failed after its retries: its status, what the buffer of a read is left with, and whether
a write has reached the sector all the same. -/
structure Fault where
  status : Nat
  buff : Block
  stored : Bool

/-- The machine: the sectors of each disk, how the coming sector transfers end (when the list is used up, or where it holds
status 0, they succeed), and the coming readings of the clock, in file system time. -/
structure Sys where
  disk : Nat → Nat → Block
  faults : List Fault
  clock : Nat → Nat

/-- A program of the kernel. -/
abbrev FsM : Type → Type := Prog Sys

/-- Store a block in a sector. -/
def Sys.setBlock (s : Sys) (disk sector : Nat) (b : Block) : Sys :=
  { s with disk := Function.update s.disk disk (Function.update (s.disk disk) sector b) }

/-- Read one sector. -/
def readSector (disk sector : Nat) : FsM (Nat × Block) := ⟨fun s =>
  match s.faults with
  | [] => .ok (noError, s.disk disk sector) s
  | f :: rest =>
    if f.status = noError then .ok (noError, s.disk disk sector) { s with faults := rest }
    else .ok (f.status, f.buff) { s with faults := rest }⟩

/-- Write one sector. -/
def writeSector (disk sector : Nat) (b : Block) : FsM Nat := ⟨fun s =>
  match s.faults with
  | [] => .ok noError (s.setBlock disk sector b)
  | f :: rest =>
    if f.status = noError then .ok noError (Sys.setBlock { s with faults := rest } disk sector b)
    else if f.stored then .ok f.status (Sys.setBlock { s with faults := rest } disk sector b)
    else .ok f.status { s with faults := rest }⟩

/-- `disk_read_sector`: read `n` sectors, up to the first that fails. -/
def diskReadSector (disk : Nat) : Nat → Nat → FsM (Nat × List UInt8)
  | _, 0 => pure (noError, [])
  | sector, n + 1 => do
    let (result, b) ← readSector disk sector
    if result ≠ noError then
      pure (result, b.bytes)
    else do
      let (result, rest) ← diskReadSector disk (wrap32 (sector + 1)) n
      pure (result, b.bytes ++ rest)

/-- `disk_write_sector`: write `n` sectors, up to the first that fails. -/
def diskWriteSector (disk : Nat) : Nat → Nat → List UInt8 → FsM Nat
  | _, 0, _ => pure noError
  | sector, n + 1, buff => do
    let result ← writeSector disk sector (Block.ofBytes fun i => buff.getD i 0)
    if result ≠ noError then pure result
    else diskWriteSector disk (wrap32 (sector + 1)) n (buff.drop diskSectorSize)

/-- `io_disk_read`: an unaligned start is read through a whole sector, then the aligned sectors, then what is left of the
last one. -/
def ioDiskRead (env : Env) (disk sector offset size : Nat) : FsM (Nat × List UInt8) := do
  if (env.diskInfo disk).size = 0 then
    pure (errorIo, [])
  else do
    let sector := wrap32 (sector + offset / diskSectorSize)
    let offset := offset % diskSectorSize
    let i := if offset = 0 then 0 else min (diskSectorSize - offset) size
    let (result, head) ←
      if offset = 0 then pure (noError, [])
      else do
        let (result, buff) ← diskReadSector disk sector 1
        pure (result, (buff.drop offset).take i)
    let sector := if offset = 0 then sector else wrap32 (sector + 1)
    let n := (size - i) / diskSectorSize
    let (result, body) ←
      if n ≠ 0 ∧ result = noError then diskReadSector disk sector n
      else pure (result, [])
    let left := size - i - n * diskSectorSize
    if left ≠ 0 ∧ result = noError then do
      let (result, buff) ← diskReadSector disk (wrap32 (sector + n)) 1
      pure (result, head ++ body ++ buff.take left)
    else pure (result, head ++ body)

/-- `io_disk_write`: a sector that is overwritten in part is read, changed and written, whether or not the read succeeded. -/
def ioDiskWrite (env : Env) (disk sector offset : Nat) (buff : List UInt8) : FsM Nat := do
  let size := buff.length
  if (env.diskInfo disk).size = 0 then
    pure errorIo
  else do
    let sector := wrap32 (sector + offset / diskSectorSize)
    let offset := offset % diskSectorSize
    let i := if offset = 0 then 0 else min (diskSectorSize - offset) size
    let result ←
      if offset = 0 then pure noError
      else do
        let (r1, b) ← readSector disk sector
        let r2 ← writeSector disk sector (b.splice offset (buff.take i))
        pure (wrap32 (r1 + r2))
    let sector := if offset = 0 then sector else wrap32 (sector + 1)
    let n := (size - i) / diskSectorSize
    let result ←
      if n ≠ 0 ∧ result = noError then diskWriteSector disk sector n (buff.drop i)
      else pure result
    let left := size - i - n * diskSectorSize
    if left ≠ 0 ∧ result = noError then do
      let (r1, b) ← readSector disk (wrap32 (sector + n))
      let r2 ← writeSector disk (wrap32 (sector + n)) (b.splice 0 (buff.drop (i + n * diskSectorSize)))
      pure (wrap32 (r1 + r2))
    else pure result

/-- `io_disk_read` of one whole sector into a structure that takes up a sector (`ioDiskRead_block`). -/
def ioDiskReadBlock (env : Env) (disk sector : Nat) : FsM (Nat × Block) :=
  if (env.diskInfo disk).size = 0 then pure (errorIo, Block.zero) else readSector disk sector

/-- `io_disk_write` of one whole sector from a structure that takes up a sector (`ioDiskWrite_block`). -/
def ioDiskWriteBlock (env : Env) (disk sector : Nat) (b : Block) : FsM Nat :=
  if (env.diskInfo disk).size = 0 then pure errorIo else writeSector disk sector b

end NanoS32
