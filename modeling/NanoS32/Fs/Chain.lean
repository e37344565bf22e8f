import NanoS32.Fs.Path

/-!
# Chains of entries

A file or directory that needs more than `SFS_ENTRYREFS` references goes on in chained entries. Here are the functions of
`fs.c` that walk, lengthen, shorten and update a chain. A `do`-`while` loop along `next` need not end on a broken disk: it is
bounded by `env.fuel`.
-/

namespace NanoS32

variable (env : Env)

/-- The loop of `get_nref_entry_from_entry`, `k` entries before the one that holds the reference. -/
def advanceEntry (disk : Nat) : Nat → Nat → SfsEntry → FsM (Nat × SfsEntry)
  | 0, nentry, entry => pure (nentry, entry)
  | k + 1, _, entry =>
    if entry.next.toNat ≠ 0 then do
      let next ← getEntryN env disk entry.next.toNat
      advanceEntry disk k entry.next.toNat next
    else Prog.fail errorNotFound

/-- `get_nref_entry_from_entry`: the entry of the chain that holds reference `nref`, and its index. -/
def getNrefEntryFromEntry (disk nentry : Nat) (entry : SfsEntry) (nref : Nat) : FsM (Nat × SfsEntry) :=
  advanceEntry env disk (nref / sfsEntryRefs) nentry entry

/-- The current time, in file system time. -/
def getDatetime : FsM Nat := ⟨fun s => .ok (s.clock 0) { s with clock := fun k => s.clock (k + 1) }⟩

/-- The loop of `set_entry_time_to_current`. -/
def setTimeLoop (disk fstime : Nat) : Nat → Nat → FsM Unit
  | 0, _ => Prog.noReturn
  | fuel + 1, nentry => do
    let entry ← getEntryN env disk nentry
    let entry := entry.setTime fstime
    writeEntry env disk nentry entry
    Prog.failIf (nentry = entry.next.toNat ∧ nentry ≠ 0) errorIo
    if entry.next.toNat ≠ 0 then setTimeLoop disk fstime fuel entry.next.toNat else pure ()

/-- `set_entry_time_to_current`. -/
def setEntryTimeToCurrent (disk nentry : Nat) : FsM Unit := do
  let fstime ← getDatetime
  setTimeLoop env disk fstime env.fuel nentry

/-- The chained entry that `set_entry_refcount` puts after `entry`, which has index `nentry`. -/
def Block.chained (entry : SfsEntry) (nentry : Nat) : SfsEntry :=
  (((entry.setParent nentry).setNext 0).setSize 0).clearRefs 0

/-- The first loop of `set_entry_refcount`: go `k` entries along the chain, creating those that are missing. -/
def extendChain (disk : Nat) : Nat → Nat → SfsEntry → FsM (Nat × SfsEntry)
  | 0, nentry, entry => pure (nentry, entry)
  | k + 1, nentry, entry =>
    if entry.next.toNat ≠ 0 then do
      let next ← getEntryN env disk entry.next.toNat
      extendChain disk k entry.next.toNat next
    else do
      let free ← findFreeEntry env disk
      let entry := entry.setNext free
      writeEntry env disk nentry entry
      let next := entry.chained nentry
      writeEntry env disk free next
      extendChain disk k free next

/-- The last loop of `set_entry_refcount`: clear the entries of the chain from `next` on. -/
def deleteChain (disk : Nat) : Nat → Nat → FsM Unit
  | 0, _ => Prog.noReturn
  | fuel + 1, next => do
    let entry ← getEntryN env disk next
    writeEntry env disk next Block.zero
    if entry.next.toNat ≠ 0 then deleteChain disk fuel entry.next.toNat else pure ()

/-- The entries `set_entry_refcount` needs. -/
def neededEntries (refcount : Nat) : Nat :=
  if refcount % sfsEntryRefs ≠ 0 then refcount / sfsEntryRefs + 1 else refcount / sfsEntryRefs

/-- `set_entry_refcount`: on success its value is `NO_ERROR`. -/
def setEntryRefcount (disk nentry refcount : Nat) : FsM Unit := do
  let entry ← getEntryN env disk nentry
  let (nentry, entry) ← extendChain env disk (neededEntries refcount - 1) nentry entry
  let firstUnused := min (sfsEntryRefs - 1) refcount % sfsEntryRefs
  let entry := entry.clearRefs firstUnused
  writeEntry env disk nentry entry
  if entry.next.toNat ≠ 0 then do
    writeEntry env disk nentry (entry.setNext 0)
    deleteChain env disk env.fuel entry.next.toNat
  else pure ()

/-- The loop of `set_entry_size`. -/
def setSizeLoop (disk : Nat) : Nat → Nat → Nat → FsM Unit
  | 0, _, _ => Prog.noReturn
  | fuel + 1, nentry, size => do
    let entry ← getEntryN env disk nentry
    let entry := entry.setSize size
    let size :=
      if entry.isFile then size - min size (sfsEntryRefs * blockSize)
      else if entry.isDir then size - min size sfsEntryRefs
      else size
    writeEntry env disk nentry entry
    Prog.failIf ((0 < size ∧ entry.next.toNat = 0) ∨ (size = 0 ∧ entry.next.toNat ≠ 0)) errorIo
    if entry.next.toNat ≠ 0 then setSizeLoop disk fuel entry.next.toNat size else pure ()

/-- `set_entry_size`. -/
def setEntrySize (disk nentry size : Nat) : FsM Unit := setSizeLoop env disk env.fuel nentry size

/-- `get_entry_refcount`. -/
def getEntryRefcount (entry : SfsEntry) : Nat :=
  if entry.isFile then neededBlocks entry.size.toNat
  else if entry.isDir then entry.size.toNat
  else 0

/-- `add_ref_in_entry`. When the chain has to be lengthened, the return value of `set_entry_refcount`, `NO_ERROR`, is taken
for the index of the new chained entry. -/
def addRefInEntry (disk nentry ref : Nat) : FsM Unit := do
  let entry ← getEntryN env disk nentry
  let refcount := getEntryRefcount entry
  let found ← (getNrefEntryFromEntry env disk nentry entry refcount).attempt
  let (nrefentry, refentry) ←
    match found with
    | .ok p => pure p
    | .error code => do
      Prog.failIf (code ≠ errorNotFound) code
      setEntryRefcount env disk nentry (wrap32 (refcount + 1))
      let refentry ← getEntryN env disk noError
      pure (noError, refentry)
  writeEntry env disk nrefentry (refentry.setRef (refcount % sfsEntryRefs) ref)
  if entry.isDir then setEntrySize env disk nentry (wrap32 (entry.size.toNat + 1)) else pure ()

/-- Where the loop of `remove_ref_in_entry` is: the entry whose references are being moved up and its index, the entry after
it, the references to go through, and whether the reference has been found. -/
structure RemoveState where
  currentry : SfsEntry
  ncurrentry : Nat
  nextentry : SfsEntry
  refcount : Nat
  found : Bool

/-- The loop of `remove_ref_in_entry`, at reference `r`. -/
def removeRefLoop (disk ref : Nat) : Nat → Nat → RemoveState → FsM RemoveState
  | 0, _, _ => Prog.noReturn
  | fuel + 1, r, st =>
    if r < st.refcount then do
      let (r, st) ←
        if r = sfsEntryRefs then do
          writeEntry env disk st.ncurrentry st.currentry
          let e ← getEntryN env disk st.currentry.next.toNat
          pure (0, { st with currentry := e, ncurrentry := st.currentry.next.toNat, refcount := getEntryRefcount e })
        else if r + 1 = sfsEntryRefs then
          if st.nextentry.next.toNat ≠ 0 then do
            let e ← getEntryN env disk st.nextentry.next.toNat
            pure (r, { st with nextentry := e })
          else pure (r, { st with nextentry := Block.zero })
        else pure (r, st)
      let found := st.found || st.currentry.refAt r == ref
      let currentry :=
        if found then st.currentry.setRef r (st.nextentry.refAt ((r + 1) % sfsEntryRefs)) else st.currentry
      removeRefLoop disk ref fuel (r + 1) { st with found := found, currentry := currentry }
    else pure st

/-- `remove_ref_in_entry`. -/
def removeRefInEntry (disk nentry ref : Nat) : FsM Unit := do
  let entry ← getEntryN env disk nentry
  let st ← removeRefLoop env disk ref env.fuel 0
    { currentry := entry, ncurrentry := nentry, nextentry := entry, refcount := getEntryRefcount entry, found := false }
  if st.found then do
    writeEntry env disk st.ncurrentry st.currentry
    setEntryRefcount env disk nentry (sub32 st.refcount 1)
    if entry.isDir then setEntrySize env disk nentry (sub32 st.refcount 1) else pure ()
  else pure ()

end NanoS32
