import NanoS32.Fs.File

/-!
# Directories

The calls of `fs.c` on the tree: `fs_delete`, `fs_create_directory`, `fs_move`, `fs_copy`, `fs_list` and `fs_format`.
`delete_n` and `fs_copy` call themselves; the depth of the calls is bounded by their first argument.
-/

namespace NanoS32

variable (env : Env)

/-- `delete_n`. -/
def deleteN : Nat → Nat → Nat → FsM Unit
  | 0, _, _ => Prog.noReturn
  | fuel + 1, disk, n => do
    let entry ← getEntryN env disk n
    removeRefInEntry env disk entry.parent.toNat n
    if entry.isDir then
      Prog.each (deleteN fuel disk) ((List.range (min entry.size.toNat sfsEntryRefs)).map entry.refAt)
    else pure ()
    if entry.next.toNat ≠ 0 then deleteN fuel disk entry.next.toNat else pure ()
    writeEntry env disk n Block.zero

/-- `fs_delete`. -/
def fsDelete (path : CStr) : FsM Nat := do
  let disk := pathGetDisk env path
  let (nentry, _) ← fsGetEntry env path unknownValue unknownValue
  deleteN env env.fuel disk nentry
  pure noError

/-- The check of a destination: fail with `ERROR_EXISTS` when the parent has an entry of this name. -/
def checkNotExists (disk parent : Nat) (name : CStr) : FsM Unit := do
  let found ← (fsGetEntry env name parent disk).attempt
  match found with
  | .ok _ => Prog.fail errorExists
  | .error code => Prog.failIf (code ≠ errorNotFound) code

/-- `fs_create_directory`: the index it returns, and the path left in the caller's buffer. -/
def fsCreateDirectory (path : CStr) : FsM (Nat × CStr) := do
  let p ← pathParseDiskParentName env path
  let name := stringToName (path.drop p.name)
  checkNotExists env p.disk p.parent name
  let nentry ← findFreeEntry env p.disk
  let entry := newEntry tDir p.parent name
  writeEntry env p.disk nentry entry
  setEntryTimeToCurrent env p.disk nentry
  if nentry ≠ entry.parent.toNat then addRefInEntry env p.disk entry.parent.toNat nentry else pure ()
  pure (nentry, renamedPath path p.name)

/-- `path_parse_disk_parent_name`, `string_to_name` and the checks that `fs_move` and `fs_copy` both start with: where the
destination goes, its name, the disk and index of the source, and its entry. -/
def checkSrcDst (srcpath dstpath : CStr) : FsM (ParsedPath × CStr × Nat × Nat × SfsEntry) := do
  let p ← pathParseDiskParentName env dstpath
  let dstname := stringToName (dstpath.drop p.name)
  checkNotExists env p.disk p.parent dstname
  let (nentry, entry) ← fsGetEntry env srcpath unknownValue unknownValue
  pure (p, dstname, pathGetDisk env srcpath, nentry, entry)

/-- The two calls `fs_copy` makes to write its destination. -/
structure CopyCalls where
  writeFile : List UInt8 → CStr → Nat → Nat → FsM (Nat × CStr)
  createDirectory : CStr → FsM (Nat × CStr)

/-- `fs_write_file` and `fs_create_directory`. -/
def fsCopyCalls : CopyCalls := { writeFile := fsWriteFile env, createDirectory := fsCreateDirectory env }

/-- The loop of `fs_copy` over the blocks of a file: copy what is left of the source from byte `offset` on. -/
def copyFileLoop (calls : CopyCalls) (srcpath : CStr) : Nat → Nat → CStr → FsM Unit
  | 0, _, _ => Prog.noReturn
  | fuel + 1, offset, dstpath => do
    let buff ← fsReadFile env srcpath offset blockSize
    if buff = [] then pure ()
    else do
      let (_, dstpath) ← calls.writeFile buff dstpath offset wfCreate
      copyFileLoop calls srcpath fuel (wrap32 (offset + buff.length)) dstpath

/-- The path of an item below a directory, in the 64-byte buffers of `fs_copy`. -/
def childPath (path name : CStr) : CStr := strncat (strncat (strncpy path 64) [pathSeparator] 64) name 64

/-- `entry.ref[i]`, where the index may be past the end of the array. -/
def Block.refOrStray (e : SfsEntry) (i : Nat) : Nat := if i < sfsEntryRefs then e.refAt i else env.stray i

/-- `fs_copy`, with the calls that write the destination given. -/
def fsCopyWith (calls : CopyCalls) : Nat → CStr → CStr → FsM Unit
  | 0, _, _ => Prog.noReturn
  | fuel + 1, srcpath, dstpath => do
    let (p, _, srcDisk, _, entry) ← checkSrcDst env srcpath dstpath
    let dstpath := renamedPath dstpath p.name
    if entry.isFile then copyFileLoop env calls srcpath env.fuel 0 dstpath
    else if entry.isDir then do
      let (_, dstpath) ← calls.createDirectory dstpath
      Prog.each (fun r => do
          let tentry ← getEntryN env srcDisk (entry.refOrStray env r)
          fsCopyWith calls fuel (childPath srcpath tentry.nameStr) (childPath dstpath tentry.nameStr))
        (List.range entry.size.toNat)
    else Prog.fail errorNotFound

/-- `fs_copy`: on success it returns `NO_ERROR`. -/
def fsCopy (srcpath dstpath : CStr) : FsM Unit := fsCopyWith env (fsCopyCalls env) env.fuel srcpath dstpath

/-- `fs_move`, with the calls that write the destination of a move between disks given. -/
def fsMoveWith (calls : CopyCalls) (srcpath dstpath : CStr) : FsM Nat := do
  let (p, dstname, srcdisk, nentry, entry) ← checkSrcDst env srcpath dstpath
  if srcdisk ≠ p.disk then do
    fsCopyWith env calls env.fuel srcpath (renamedPath dstpath p.name)
    deleteN env env.fuel srcdisk nentry
  else do
    removeRefInEntry env srcdisk entry.parent.toNat nentry
    let entry := (entry.setName dstname).setParent p.parent
    writeEntry env p.disk nentry entry
    addRefInEntry env p.disk entry.parent.toNat nentry
  pure nentry

/-- `fs_move`. -/
def fsMove (srcpath dstpath : CStr) : FsM Nat := fsMoveWith env (fsCopyCalls env) srcpath dstpath

/-- `fs_list`: the number of items it returns, and the entry it stores. -/
def fsList (path : CStr) (n : Nat) : FsM (Nat × SfsEntry) := do
  let (nentry, direntry) ← fsGetEntry env path unknownValue unknownValue
  Prog.failIf (¬direntry.isDir) errorNotFound
  if n < direntry.size.toNat then do
    let disk := pathGetDisk env path
    let (_, direntry) ← getNrefEntryFromEntry env disk nentry direntry n
    let entry ← getEntryN env disk (direntry.refOrStray env n)
    pure (direntry.size.toNat, entry)
  else pure (direntry.size.toNat, Block.zero)

/-- The superblock `fs_format` computes for a disk. -/
def formatSuper (info : DiskInfo) : SfsSuperblock :=
  let size := wrap32 (info.sectors * info.sides * info.cylinders) / (blockSize / diskSectorSize)
  let nentries := min (wrap32 (size * blockSize) / 10 / blockSize) 1024
  { type := sfsTypeId, size := size, nentries := nentries, bootstart := 2 + nentries * blockSize / blockSize }

/-- The root directory `fs_format` creates. -/
def formatRoot : SfsEntry := { Block.zero with flags := tDir }.setName rootDirName

/-- The part of `fs_format` that writes the empty file system: boot block, superblock, root directory, empty entries. -/
def formatEmpty (disk : Nat) : FsM Unit := do
  let (result, boot) ← ioDiskReadBlock env env.systemDisk (sectorOf 0)
  Prog.failIf (result ≠ noError) errorIo
  let result ← ioDiskWriteBlock env disk (sectorOf 0) boot
  Prog.failIf (result ≠ noError) errorIo
  let sb := formatSuper (env.diskInfo disk)
  let result ← ioDiskWriteBlock env disk (sectorOf 1) (Block.ofSuper sb)
  Prog.failIf (result ≠ noError) errorIo
  writeEntry env disk 0 formatRoot
  setEntryTimeToCurrent env disk 0
  Prog.each (fun e => writeEntry env disk e Block.zero) (List.range' 1 (sb.nentries - 1))

/-- `fs_format`, with the calls that write the copy of the boot program given. The paths of the boot program are kept in
32-byte buffers. -/
def fsFormatWith (calls : CopyCalls) (disk : Nat) : FsM Unit := do
  formatEmpty env disk
  let entry ← getEntryN env env.systemDisk 1
  let bootPath := fun d =>
    strncat (strncat (strncpy (diskToString d) 32) [pathSeparator] 32) entry.nameStr 32
  fsCopyWith env calls env.fuel (bootPath env.systemDisk) (bootPath disk)

/-- `fs_format`. -/
def fsFormat (disk : Nat) : FsM Unit := fsFormatWith env (fsCopyCalls env) disk

end NanoS32
