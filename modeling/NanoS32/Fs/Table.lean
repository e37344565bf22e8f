import NanoS32.Hwio.Disk

/-!
# The entry table

The on-disk format of `fs.h` and the functions of `fs.c` that read and search the table of entries: access to one entry, the
search by parent and name, the search for a free entry and for a free block. A function that returns a code fails with it; the
value of a function with an output parameter is what the function returns and what it stores there.
-/

namespace NanoS32

def sfsTypeId : Nat := 0x05F50010

def tDir : UInt8 := 0x01
def tFile : UInt8 := 0x02
def fUsed : UInt8 := tDir ||| tFile

/-- `ROOT_DIR_NAME`: `"."`. -/
def rootDirName : CStr := [46]

/-- `PATH_SEPARATOR`: `'/'`. -/
def pathSeparator : UInt8 := 47

/-- `disk_info[i].name`: fd0, fd1, hd0, hd1, and `"unk"` past the last disk (`disk_to_string`). -/
def diskToString : Nat → CStr
  | 0 => [102, 100, 48]
  | 1 => [102, 100, 49]
  | 2 => [104, 100, 48]
  | 3 => [104, 100, 49]
  | _ => [117, 110, 107]

/-- `string_to_disk`: the first disk with this name. -/
def stringToDisk (str : CStr) : Nat :=
  ((List.range maxDisk).find? fun index => str == diskToString index).getD errorNotFound

/-- `string_is_disk`. -/
def stringIsDisk (str : CStr) : Bool := (List.range maxDisk).any fun index => str == diskToString index

/-- The characters `string_to_name` keeps. -/
def nameChar (c : UInt8) : Bool :=
  (48 ≤ c && c ≤ 57) || (65 ≤ c && c ≤ 90) || (97 ≤ c && c ≤ 122) ||
    c == 46 || c == 45 || c == 95 || c == 40 || c == 41 || c == 91 || c == 93

/-- `string_to_name`: other characters become `'_'`, and the length is clamped to `SFS_NAMESIZE-1`. -/
def stringToName (str : CStr) : CStr := (str.take (sfsNameSize - 1)).map fun c => if nameChar c then c else 95

namespace Block

def used (e : SfsEntry) : Bool := e.flags &&& fUsed != 0
def isFile (e : SfsEntry) : Bool := e.flags &&& tFile != 0
def isDir (e : SfsEntry) : Bool := e.flags &&& tDir != 0

/-- The name of an entry, as a string. -/
def nameStr (e : SfsEntry) : CStr := (List.ofFn e.name).takeWhile (· != 0)

/-- `memset(name, 0, SFS_NAMESIZE)` and `strncpy(name, str, SFS_NAMESIZE)`. -/
def setName (e : SfsEntry) (str : CStr) : SfsEntry :=
  { e with name := fun k => (strncpy str sfsNameSize).getD k 0 }

/-- `entry.time = v`, and the like for the other words. -/
def setTime (e : SfsEntry) (v : Nat) : SfsEntry := { e with time := UInt32.ofNat v }
def setSize (e : SfsEntry) (v : Nat) : SfsEntry := { e with size := UInt32.ofNat v }
def setParent (e : SfsEntry) (v : Nat) : SfsEntry := { e with parent := UInt32.ofNat v }
def setNext (e : SfsEntry) (v : Nat) : SfsEntry := { e with next := UInt32.ofNat v }

/-- `entry.ref[i]`, for an index inside the array. -/
def refAt (e : SfsEntry) (i : Nat) : Nat := if h : i < 120 then (e.ref ⟨i, h⟩).toNat else 0

/-- `entry.ref[i] = v`, for an index inside the array. -/
def setRef (e : SfsEntry) (i v : Nat) : SfsEntry :=
  { e with ref := fun k => if k.val = i then UInt32.ofNat v else e.ref k }

/-- Set to 0 the references from index `i` on. -/
def clearRefs (e : SfsEntry) (i : Nat) : SfsEntry := { e with ref := fun k => if k.val < i then e.ref k else 0 }

end Block

/-- `sfs_superblock_t`. -/
structure SfsSuperblock where
  type : Nat
  size : Nat
  nentries : Nat
  bootstart : Nat
  deriving DecidableEq, Repr

/-- A block, read as the superblock. -/
def Block.super (b : Block) : SfsSuperblock :=
  { type := (word b.byte 0).toNat, size := (word b.byte 4).toNat, nentries := (word b.byte 8).toNat,
    bootstart := (word b.byte 12).toNat }

/-- A block of zeros with a superblock in front. -/
def Block.ofSuper (sb : SfsSuperblock) : Block :=
  Block.ofBytes fun i =>
    if i < 4 then wordByte (UInt32.ofNat sb.type) i
    else if i < 8 then wordByte (UInt32.ofNat sb.size) (i - 4)
    else if i < 12 then wordByte (UInt32.ofNat sb.nentries) (i - 8)
    else if i < 16 then wordByte (UInt32.ofNat sb.bootstart) (i - 12)
    else 0

section Access

variable (env : Env)

/-- The sector `read_disk` and `write_disk` compute for a block, in 32-bit arithmetic. -/
def sectorOf (block : Nat) : Nat := wrap32 (block * blockSize) / diskSectorSize

/-- `read_disk`. -/
def readDisk (disk block offset size : Nat) : FsM (Nat × List UInt8) :=
  ioDiskRead env disk (wrap32 (sectorOf block + offset / diskSectorSize)) (offset % diskSectorSize) size

/-- `write_disk`. -/
def writeDisk (disk block offset : Nat) (buff : List UInt8) : FsM Nat :=
  ioDiskWrite env disk (wrap32 (sectorOf block + offset / diskSectorSize)) (offset % diskSectorSize) buff

/-- The block that holds entry `n` (`sizeof(sfs_entry_t)` is `BLOCK_SIZE`, so the offset in it is 0). -/
def entryBlock (n : Nat) : Nat := 2 + wrap32 (n * blockSize) / blockSize

/-- Read the superblock; every caller answers a failed read with `ERROR_IO`. -/
def readSuper (disk : Nat) : FsM SfsSuperblock := do
  let (result, b) ← ioDiskReadBlock env disk (sectorOf 1)
  Prog.failIf (result ≠ noError) errorIo
  pure b.super

/-- `get_entry_n`: the entry with index `n`. Its callers take a return value from `ERROR_ANY` on for an error, also when it is
the index they asked for. -/
def getEntryN (disk n : Nat) : FsM SfsEntry := do
  let (result, entry) ← ioDiskReadBlock env disk (sectorOf (entryBlock n))
  Prog.failIf (result ≠ noError) errorIo
  Prog.failIf (errorAny ≤ n) n
  pure entry

/-- `write_entry`. -/
def writeEntry (disk n : Nat) (entry : SfsEntry) : FsM Unit := do
  let result ← ioDiskWriteBlock env disk (sectorOf (entryBlock n)) entry
  Prog.failIf (result ≠ noError) errorIo

/-- The search of `fs_get_entry`, over `k` entries from index `n`. -/
def findEntryFrom (disk parent : Nat) (name : CStr) : Nat → Nat → FsM (Nat × SfsEntry)
  | 0, _ => Prog.fail errorNotFound
  | k + 1, n => do
    let entry ← getEntryN env disk n
    if entry.used ∧ entry.parent.toNat = parent ∧ entry.nameStr = name then pure (n, entry)
    else findEntryFrom disk parent name k (n + 1)

/-- The part of `fs_get_entry` after the path has been taken apart: the first used entry with this parent and name. -/
def findEntry (disk parent : Nat) (name : CStr) : FsM (Nat × SfsEntry) := do
  let sb ← readSuper env disk
  findEntryFrom env disk parent name sb.nentries 0

/-- The search of `find_free_entry`, over `k` entries from index `n`. -/
def findFreeEntryFrom (disk : Nat) : Nat → Nat → FsM Nat
  | 0, _ => Prog.fail errorNoSpace
  | k + 1, n => do
    let entry ← getEntryN env disk n
    if entry.used then findFreeEntryFrom disk k (n + 1) else pure n

/-- `find_free_entry`. -/
def findFreeEntry (disk : Nat) : FsM Nat := do
  let sb ← readSuper env disk
  findFreeEntryFrom env disk sb.nentries 0

/-- `needed_blocks`. -/
def neededBlocks (size : Nat) : Nat := if size % blockSize ≠ 0 then size / blockSize + 1 else size / blockSize

/-- The references of an entry that `find_free_block` compares with a block. -/
def Block.liveRefs (e : SfsEntry) : List Nat :=
  if e.isFile then (List.range (min (neededBlocks e.size.toNat) sfsEntryRefs)).map e.refAt else []

/-- The inner search of `find_free_block`: is there an entry, among `k` from index `n` on, that references the block? -/
def blockFoundFrom (disk block : Nat) : Nat → Nat → FsM Bool
  | 0, _ => pure false
  | k + 1, n => do
    let entry ← getEntryN env disk n
    if block ∈ entry.liveRefs then pure true else blockFoundFrom disk block k (n + 1)

/-- The outer search of `find_free_block`, over `k` blocks from `block`. -/
def findFreeBlockFrom (disk nentries : Nat) : Nat → Nat → FsM Nat
  | 0, _ => Prog.fail errorNoSpace
  | k + 1, block => do
    let found ← blockFoundFrom env disk block nentries 0
    if found then findFreeBlockFrom disk nentries k (block + 1) else pure block

/-- `find_free_block`. -/
def findFreeBlock (disk : Nat) : FsM Nat := do
  let sb ← readSuper env disk
  let firstDataBlock := 2 + wrap32 (sb.nentries * blockSize) / blockSize
  findFreeBlockFrom env disk sb.nentries (sb.size - firstDataBlock) firstDataBlock

end Access

end NanoS32
