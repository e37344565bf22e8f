import NanoS32.Fs.Table

/-!
# Paths

The functions of `fs.c` that take a path apart. They work on a copy of at most 63 bytes of the path (`char tokpath[64]`), but
the name they hand out is a position in the path itself.
-/

namespace NanoS32

variable (env : Env)

/-- The copy of a path that `strtok` works on. -/
def tokPath (path : CStr) : CStr := strncpy path 64

/-- `path_get_disk`. -/
def pathGetDisk (path : CStr) : Nat :=
  let (_, tok, _) := strtok (tokPath path) pathSeparator
  if tok ≠ [] ∧ stringIsDisk tok then stringToDisk tok else env.systemDisk

/-- What `path_parse_disk_parent_name` computes: the disk, the parent entry, and where the name starts in the path. -/
structure ParsedPath where
  disk : Nat
  parent : Nat
  name : Nat
  deriving DecidableEq, Repr

/-- The loop of `path_parse_disk_parent_name`, at position `pos` of the copy, where `rest` is left of it; `n` is 0 until the
first token has been looked at. A token holds no separator and the disk is known, so `fs_get_entry` searches the table at
once (`findEntry`). Every turn but the last shortens `rest`, so its length bounds the loop. -/
def pathParseLoop : Nat → Nat → Nat → CStr → ParsedPath → FsM ParsedPath
  | 0, _, _, _, p => pure p
  | fuel + 1, n, pos, rest, p =>
    if rest = [] then pure p
    else
      let (skipped, tok, nexttok) := strtok rest pathSeparator
      let p := { p with name := pos + skipped }
      let pos' := pos + skipped + tok.length + 1
      if tok ≠ [] ∧ n = 0 ∧ stringIsDisk tok then
        pathParseLoop fuel (n + 1) pos' nexttok { p with disk := stringToDisk tok }
      else if tok ≠ [] ∧ nexttok ≠ [] then do
        let (parent, _) ← findEntry env p.disk p.parent tok
        pathParseLoop fuel (n + 1) pos' nexttok { p with parent := parent }
      else pure p

/-- `path_parse_disk_parent_name`. -/
def pathParseDiskParentName (path : CStr) : FsM ParsedPath :=
  pathParseLoop env (tokPath path).length 0 0 (tokPath path) { disk := env.systemDisk, parent := 0, name := 0 }

/-- `fs_get_entry`: the index of the entry, and the entry. -/
def fsGetEntry (path : CStr) (parent disk : Nat) : FsM (Nat × SfsEntry) := do
  let (disk, path) :=
    if disk = unknownValue ∧ stringIsDisk path then (stringToDisk path, rootDirName) else (disk, path)
  let parent := if parent = unknownValue then 0 else parent
  let disk := if disk = unknownValue then env.systemDisk else disk
  if parent = 0 ∧ pathSeparator ∈ path then do
    let p ← pathParseDiskParentName env path
    findEntry env p.disk p.parent (path.drop p.name)
  else findEntry env disk parent path

/-- The path left in the caller's buffer when `string_to_name` has been applied to the name in it. -/
def renamedPath (path : CStr) (name : Nat) : CStr := path.take name ++ stringToName (path.drop name)

end NanoS32
