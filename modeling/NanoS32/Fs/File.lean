import NanoS32.Fs.Chain

/-!
# Reading and writing files

`fs_read_file` and `fs_write_file`. The loops over the bytes of a call make progress on every turn, so the byte count bounds
them.
-/

namespace NanoS32

def wfCreate : Nat := 0x0001
def wfTruncate : Nat := 0x0002

variable (env : Env)

/-- The loop of `fs_read_file`: read `count` bytes from byte `offset` of block `block` of the file. -/
def readLoop (disk nentry : Nat) (entry : SfsEntry) : Nat → Nat → Nat → Nat → FsM (List UInt8)
  | 0, _, _, _ => pure []
  | fuel + 1, block, offset, count =>
    if count = 0 then pure []
    else do
      let (_, tentry) ← getNrefEntryFromEntry env disk nentry entry block
      let n := min (blockSize - offset) count
      let (result, bytes) ← readDisk env disk (tentry.refAt (block % sfsEntryRefs)) offset n
      Prog.failIf (result ≠ noError) errorIo
      let rest ← readLoop disk nentry entry fuel (block + 1) 0 (count - n)
      pure (bytes ++ rest)

/-- `fs_read_file`: the bytes stored in the buffer, as many as it returns. -/
def fsReadFile (path : CStr) (offset count : Nat) : FsM (List UInt8) := do
  let (nentry, entry) ← fsGetEntry env path unknownValue unknownValue
  Prog.failIf (¬entry.isFile) errorNotFound
  let offset := min offset entry.size.toNat
  let count := min count (entry.size.toNat - offset)
  readLoop env (pathGetDisk env path) nentry entry count (offset / blockSize) (offset % blockSize) count

/-- The inner loop of the allocation in `fs_write_file`: write back the entry in memory and go on to the next of the chain,
`k` times. -/
def growSkip (disk : Nat) : Nat → Nat → SfsEntry → FsM (Nat × SfsEntry)
  | 0, ntentry, tentry => pure (ntentry, tentry)
  | k + 1, ntentry, tentry => do
    writeEntry env disk ntentry tentry
    let next ← getEntryN env disk tentry.next.toNat
    growSkip disk k tentry.next.toNat next

/-- The allocation loop of `fs_write_file`: find a block for `n` references, from reference `current` of the entry in memory
on. The entry in memory is written back only when the loop goes on to the next one. -/
def growLoop (disk : Nat) : Nat → Nat → Nat → SfsEntry → FsM (Nat × SfsEntry)
  | 0, _, ntentry, tentry => pure (ntentry, tentry)
  | n + 1, current, ntentry, tentry => do
    let (ntentry, tentry) ← growSkip env disk (current / sfsEntryRefs) ntentry tentry
    let block ← findFreeBlock env disk
    Prog.failIf (errorAny ≤ block) block
    let current := current % sfsEntryRefs
    growLoop disk n (current + 1) ntentry (tentry.setRef current block)

/-- "Resize: grow if needed" of `fs_write_file`: make the file `size` bytes long. -/
def growFile (disk nentry : Nat) (entry : SfsEntry) (size : Nat) : FsM SfsEntry := do
  let currentNumBlocks := neededBlocks entry.size.toNat
  let requiredNumBlocks := neededBlocks size
  setEntryRefcount env disk nentry requiredNumBlocks
  setEntrySize env disk nentry size
  let tentry ← getEntryN env disk nentry
  let (ntentry, tentry) ← growLoop env disk (requiredNumBlocks - currentNumBlocks) currentNumBlocks nentry tentry
  writeEntry env disk ntentry tentry
  getEntryN env disk nentry

/-- "Resize: shrink if needed" of `fs_write_file`: cut the file to `size` bytes. -/
def shrinkFile (disk nentry size : Nat) : FsM SfsEntry := do
  setEntryRefcount env disk nentry (neededBlocks size)
  setEntrySize env disk nentry size
  getEntryN env disk nentry

/-- The walk along the chain in the data loop of `fs_write_file`: `k` entries further, with the offset and the block taken
down to that entry. -/
def writeSkip (disk : Nat) : Nat → SfsEntry → Nat → Nat → FsM (SfsEntry × Nat × Nat)
  | 0, entry, offset, currentBlock => pure (entry, offset, currentBlock)
  | k + 1, entry, offset, currentBlock =>
    if entry.next.toNat = 0 then Prog.fail errorIo
    else do
      let entry ← getEntryN env disk entry.next.toNat
      writeSkip disk k entry (sub32 offset (sfsEntryRefs * blockSize)) (currentBlock - sfsEntryRefs)

/-- The data loop of `fs_write_file`. When a transfer of data fails, `fs_write_file` returns its status: the value is this
status, and none when all data has been written. -/
def writeLoop (disk : Nat) : Nat → SfsEntry → Nat → List UInt8 → FsM (Option Nat)
  | 0, _, _, _ => pure none
  | fuel + 1, entry, offset, buff =>
    if buff = [] then pure none
    else do
      let toCopy := min buff.length (blockSize - offset % blockSize)
      let currentBlock := sub32 (neededBlocks (wrap32 (offset + 1))) 1
      let (entry, offset, currentBlock) ←
        writeSkip env disk (currentBlock / sfsEntryRefs) entry offset currentBlock
      Prog.failIf (entry.refAt currentBlock = 0 ∨ entry.refAt currentBlock = 1) errorIo
      let result ← writeDisk env disk (entry.refAt currentBlock) (offset % blockSize) (buff.take toCopy)
      if result ≠ noError then pure (some result)
      else writeLoop disk fuel entry (wrap32 (offset + toCopy)) (buff.drop toCopy)

/-- The resizing part of `fs_write_file`, for the bytes up to `last`: the first entry of the file as it is then. -/
def resizeFile (disk nentry : Nat) (entry : SfsEntry) (last flags : Nat) : FsM SfsEntry := do
  let entry ← if entry.size.toNat < last then growFile env disk nentry entry last else pure entry
  if last < entry.size.toNat ∧ flags &&& wfTruncate ≠ 0 then shrinkFile env disk nentry last else pure entry

/-- The part of `fs_write_file` after the file has been found or created: resize it, write the data, set the time. -/
def writeFileAt (buff : List UInt8) (disk nentry : Nat) (entry : SfsEntry) (offset flags : Nat) : FsM Nat := do
  let entry ← resizeFile env disk nentry entry (wrap32 (offset + buff.length)) flags
  let status ← writeLoop env disk buff.length entry offset buff
  match status with
  | some result => pure result
  | none => do
    setEntryTimeToCurrent env disk nentry
    pure buff.length

/-- The entry of a new file or directory. -/
def newEntry (flags : UInt8) (parent : Nat) (name : CStr) : SfsEntry :=
  ({ Block.zero with flags := flags }.setParent parent).setName name

/-- "Create file if needed" of `fs_write_file`: the disk, the index and the entry of the new file, and the path with the name
made valid in the caller's buffer. -/
def createFile (path : CStr) : FsM (Nat × Nat × SfsEntry × CStr) := do
  let p ← pathParseDiskParentName env path
  let name := stringToName (path.drop p.name)
  let nentry ← findFreeEntry env p.disk
  let entry := newEntry tFile p.parent name
  writeEntry env p.disk nentry entry
  addRefInEntry env p.disk entry.parent.toNat nentry
  pure (p.disk, nentry, entry, renamedPath path p.name)

/-- The part of `fs_write_file` that finds the file, or creates it: the disk, the index and the entry of the file, and the path
left in the caller's buffer. -/
def openFile (path : CStr) (flags : Nat) : FsM (Nat × Nat × SfsEntry × CStr) := do
  let found ← (fsGetEntry env path unknownValue unknownValue).attempt
  match found with
  | .ok (nentry, entry) => do
    Prog.failIf entry.isDir errorNotFound
    pure (pathGetDisk env path, nentry, entry, path)
  | .error code => do
    Prog.failIf (code ≠ errorNotFound ∨ flags &&& wfCreate = 0) code
    createFile env path

/-- `fs_write_file`: the value it returns, and the path left in the caller's buffer. -/
def fsWriteFile (buff : List UInt8) (path : CStr) (offset flags : Nat) : FsM (Nat × CStr) := do
  let (disk, nentry, entry, path) ← openFile env path flags
  let written ← writeFileAt env buff disk nentry entry offset flags
  pure (written, path)

end NanoS32
