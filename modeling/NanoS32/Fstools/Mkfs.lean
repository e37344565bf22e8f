import NanoS32.Fs.File

/-!
# The image builder

`main` of `mkfs.c`, from the boot sector and the input files to the blocks of the image. It runs on the development machine, whose
`int` and `unsigned` have 32 bits and whose `size_t` has 64. The table of entries is an array, and an entry has 120 references: where the
program would write past them, or is not given a file, the model has no image.
-/

namespace NanoS32

/-- An input file: the path it is given by, and its bytes. -/
structure HostFile where
  path : CStr
  data : List UInt8

/-- The name in a path: what follows the last separator. -/
def HostFile.baseName (file : HostFile) : CStr := (file.path.reverse.takeWhile (· != pathSeparator)).reverse

/-- The variables of `main`: the blocks of the output file, the buffer, the table, the entry of the file, the next data block and the
next reference. -/
structure MkfsState where
  image : Nat → Block
  buf : List UInt8
  table : Nat → SfsEntry
  e : Nat
  b : Nat
  i : Nat

/-- `wblock`: the position of the block in the output file is computed in 32 bits. -/
def wblock (image : Nat → Block) (bindex : Nat) (buf : List UInt8) : Nat → Block :=
  Function.update image (wrap32 (bindex * blockSize) / blockSize) (Block.ofBytes fun i => buf.getD i 0)

/-- `read(fd, buf, BLOCK_SIZE)`, which leaves the rest of the buffer as it was. -/
def readInto (buf chunk : List UInt8) : List UInt8 := chunk ++ buf.drop chunk.length

/-- `numentries`: the size in bytes is an `int`, and what it is divided by next is a `size_t`. -/
def mkfsEntries (fssizeBlocks : Nat) : Nat :=
  let bytes := wrap32 (fssizeBlocks * blockSize)
  min (if bytes < 2147483648 then bytes / 10 / blockSize else (18446744073709551616 - (4294967296 - bytes) / 10) / blockSize) 4096

/-- `strncpy(name, str, SFS_NAMESIZE-1)`: the last byte of the name is not written. -/
def Block.copyName (entry : SfsEntry) (str : CStr) : SfsEntry :=
  { entry with name := fun k => if k.val < sfsNameSize - 1 then (str.take (sfsNameSize - 1)).getD k 0 else entry.name k }

/-- The fields that `main` sets in an entry of a file. -/
def Block.setFile (entry : SfsEntry) (name : CStr) (parent : Nat) : SfsEntry :=
  (({ entry.copyName name with flags := tFile, time := 0 }.setSize 0).setParent parent).setNext 0

/-- The loop that adds to the sizes of the entries of a file, from the last of `k` entries down to the first. -/
def addSizes (e cc : Nat) : Nat → (Nat → SfsEntry) → Nat → SfsEntry
  | 0, table => table
  | k + 1, table => addSizes e cc k (Function.update table (e + k) ((table (e + k)).setSize ((table (e + k)).size.toNat + cc)))

/-- The new entry that the loop chains to a file when the last one has no room for another reference. -/
def chainEntry (st : MkfsState) (ec : Nat) : MkfsState :=
  if st.e ≠ ec ∧ (st.table ec).name 0 = 0 then
    let table := Function.update st.table (ec - 1) ((st.table (ec - 1)).setNext ec)
    { st with table := Function.update table ec ((table ec).setFile (table st.e).nameStr (ec - 1)), i := 0 }
  else st

/-- The body of the loop over the blocks of a file. -/
def mkfsChunk (numentries : Nat) (st : MkfsState) (chunk : List UInt8) : Option MkfsState :=
  let ec := st.e + (st.table st.e).size.toNat / (sfsEntryRefs * blockSize)
  let st := chainEntry { st with buf := readInto st.buf chunk } ec
  if numentries ≤ ec ∨ sfsEntryRefs ≤ st.i then none
  else
    let table := Function.update st.table ec ((st.table ec).setRef st.i st.b)
    some
      { st with
        image := wblock st.image st.b st.buf
        table := addSizes st.e chunk.length (ec + 1 - st.e) table
        i := st.i + 1
        b := st.b + 1 }

/-- The loop over the blocks of a file. Each takes at least one byte of it. -/
def mkfsRead (numentries : Nat) : Nat → List UInt8 → MkfsState → Option MkfsState
  | 0, _, st => some st
  | fuel + 1, data, st =>
    if data.take blockSize = [] then some st
    else do
      let st ← mkfsChunk numentries st (data.take blockSize)
      mkfsRead numentries fuel (data.drop blockSize) st

/-- The loop that looks for an entry with no name, in the `k` entries of the table from `e` on. The memory after the table has
`past` names before it has none. -/
def skipNamed (past : Nat) (table : Nat → SfsEntry) : Nat → Nat → Nat
  | 0, e => e + past
  | k + 1, e => if (table e).name 0 = 0 then e else skipNamed past table k (e + 1)

/-- The body of the loop over the files, for the one with index `f`. -/
def mkfsFile (numentries past f : Nat) (file : HostFile) (st : MkfsState) : Option MkfsState :=
  if numentries ≤ st.e ∨ sfsEntryRefs ≤ f then none
  else do
    let table := Function.update st.table 0 ((st.table 0).setRef f st.e)
    let table := Function.update table st.e ((table st.e).setFile file.baseName 0)
    let st ← mkfsRead numentries file.data.length file.data { st with table := table, i := 0 }
    pure { st with e := skipNamed past st.table (numentries - st.e) st.e }

/-- The loop over the files. -/
def mkfsFiles (numentries past : Nat) : Nat → List HostFile → MkfsState → Option MkfsState
  | _, [], st => some st
  | f, file :: files, st => do
    let st ← mkfsFile numentries past f file st
    mkfsFiles numentries past (f + 1) files st

/-- The superblock of an image. -/
def mkfsSuper (fssizeBlocks : Nat) : SfsSuperblock :=
  { type := sfsTypeId, size := fssizeBlocks, nentries := mkfsEntries fssizeBlocks,
    bootstart := 2 + mkfsEntries fssizeBlocks * blockSize / blockSize }

/-- The variables before the loop over the files: the boot sector and the superblock are written, the other blocks are zeros, and the
table has the root only. -/
def mkfsStart (fssizeBlocks : Nat) (boot : List UInt8) (nfiles : Nat) : MkfsState :=
  let zeros := List.replicate blockSize 0
  let image := wblock (fun _ => Block.zero) 0 (readInto zeros (boot.take blockSize))
  let image := (List.range' 1 (fssizeBlocks - 1)).foldl (fun image i => wblock image i zeros) image
  let buf := (Block.ofSuper (mkfsSuper fssizeBlocks)).bytes
  { image := wblock image 1 buf
    buf := buf
    table := Function.update (fun _ => Block.zero) 0 (({ Block.zero.copyName rootDirName with flags := tDir }.setSize nfiles).setParent 0)
    e := 1
    b := (mkfsSuper fssizeBlocks).bootstart
    i := 0 }

/-- `main`: the blocks of the image. -/
def mkfs (fssizeBlocks : Nat) (boot : List UInt8) (files : List HostFile) (past : Nat) : Option (Nat → Block) :=
  let numentries := mkfsEntries fssizeBlocks
  if files = [] ∨ numentries = 0 then none
  else do
    let st ← mkfsFiles numentries past 0 files (mkfsStart fssizeBlocks boot files.length)
    pure fun k => if 2 ≤ k ∧ k < 2 + numentries then st.table (k - 2) else st.image k

end NanoS32
