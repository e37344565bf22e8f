import NanoS32.Fs.Table
import Mathlib.Data.List.Perm.Subperm

/-!
# What the access functions do on a disk whose transfers succeed

`Vol` is the contents of one disk. A call on disk `d` runs from a state `s.withVol d V` to a state `s.withVol d V'`, and the
lemmas here say what `V'` and the value are: each search of the table is a `List.find?` over the indices it tries.
-/

namespace NanoS32

/-- The blocks of one disk. -/
abbrev Vol : Type := Nat → Block

/-- Entry `n` of the table. -/
def Vol.ent (V : Vol) (n : Nat) : SfsEntry := V (2 + n)

/-- Replace entry `n` of the table. -/
def Vol.setEnt (V : Vol) (n : Nat) (e : SfsEntry) : Vol := Function.update V (2 + n) e

/-- The number of entries, from the superblock. -/
def Vol.nent (V : Vol) : Nat := (V 1).super.nentries

/-- The number of blocks, from the superblock. -/
def Vol.nblk (V : Vol) : Nat := (V 1).super.size

/-- The first data block. -/
def Vol.firstData (V : Vol) : Nat := 2 + V.nent

/-- The end of the data blocks that can be addressed: from block 2^23 on, the byte address of a block wraps in 32 bits. -/
def Vol.dataEnd (V : Vol) : Nat := min V.nblk 8388608

/-- A superblock a file system can have: there is a root entry, the table fits, and there are less than 2^23 blocks in the
table and in the references it has room for. -/
structure Vol.Geo (V : Vol) : Prop where
  root : 0 < V.nent
  table : V.firstData ≤ V.nblk
  small : V.firstData + 120 * V.nent < 8388608

/-- The state with the blocks of disk `d` replaced. -/
def Sys.withVol (s : Sys) (d : Nat) (V : Vol) : Sys := { s with disk := Function.update s.disk d V }

/-- The machine is ready for a call on disk `d`: the disk is there, no transfer is to fail, and the bound on loops is past
what a file of 2^32 bytes needs. -/
structure Ready (env : Env) (s : Sys) (d : Nat) : Prop where
  disk : d < maxDisk
  present : (env.diskInfo d).size ≠ 0
  faults : s.faults = []
  fuel : 33554432 ≤ env.fuel

/-! ## Volumes -/

@[simp] theorem Sys.withVol_disk (s : Sys) (d : Nat) (V : Vol) : (s.withVol d V).disk d = V := by
  simp [Sys.withVol]

@[simp] theorem Sys.withVol_faults (s : Sys) (d : Nat) (V : Vol) : (s.withVol d V).faults = s.faults := rfl

@[simp] theorem Sys.withVol_withVol (s : Sys) (d : Nat) (V V' : Vol) : (s.withVol d V).withVol d V' = s.withVol d V' := by
  simp [Sys.withVol]

@[simp] theorem Sys.withVol_self (s : Sys) (d : Nat) : s.withVol d (s.disk d) = s := by
  simp [Sys.withVol]

theorem Sys.setBlock_eq (s : Sys) (d k : Nat) (b : Block) :
    s.setBlock d k b = s.withVol d (Function.update (s.disk d) k b) := rfl

theorem Vol.ent_setEnt (V : Vol) (n m : Nat) (e : SfsEntry) :
    (V.setEnt n e).ent m = if m = n then e else V.ent m := by
  simp [Vol.ent, Vol.setEnt, Function.update_apply]

@[simp] theorem Vol.ent_setEnt_self (V : Vol) (n : Nat) (e : SfsEntry) : (V.setEnt n e).ent n = e := by
  simp [Vol.ent_setEnt]

theorem Vol.ent_setEnt_ne (V : Vol) {n m : Nat} (e : SfsEntry) (h : m ≠ n) : (V.setEnt n e).ent m = V.ent m := by
  simp [Vol.ent_setEnt, h]

@[simp] theorem Vol.setEnt_setEnt (V : Vol) (n : Nat) (e e' : SfsEntry) :
    (V.setEnt n e).setEnt n e' = V.setEnt n e' := by
  simp [Vol.setEnt]

@[simp] theorem Vol.setEnt_ent (V : Vol) (n : Nat) : V.setEnt n (V.ent n) = V := by
  simp [Vol.setEnt, Vol.ent]

@[simp] theorem Vol.nent_setEnt (V : Vol) (n : Nat) (e : SfsEntry) : (V.setEnt n e).nent = V.nent := by
  have h : (1 : Nat) ≠ 2 + n := by omega
  simp [Vol.nent, Vol.setEnt, h]

@[simp] theorem Vol.nblk_setEnt (V : Vol) (n : Nat) (e : SfsEntry) : (V.setEnt n e).nblk = V.nblk := by
  have h : (1 : Nat) ≠ 2 + n := by omega
  simp [Vol.nblk, Vol.setEnt, h]

@[simp] theorem Vol.firstData_setEnt (V : Vol) (n : Nat) (e : SfsEntry) : (V.setEnt n e).firstData = V.firstData := by
  simp [Vol.firstData]

@[simp] theorem Vol.dataEnd_setEnt (V : Vol) (n : Nat) (e : SfsEntry) : (V.setEnt n e).dataEnd = V.dataEnd := by
  simp [Vol.dataEnd]

theorem Vol.Geo.setEnt {V : Vol} (h : V.Geo) (n : Nat) (e : SfsEntry) : (V.setEnt n e).Geo :=
  ⟨by simpa using h.root, by simpa using h.table, by simpa using h.small⟩

theorem Vol.Geo.of_super {V V' : Vol} (h : V.Geo) (hs : V' 1 = V 1) : V'.Geo := by
  have hnent : V'.nent = V.nent := by rw [Vol.nent, hs, Vol.nent]
  have hnblk : V'.nblk = V.nblk := by rw [Vol.nblk, hs, Vol.nblk]
  have hfd : V'.firstData = V.firstData := by rw [Vol.firstData, hnent, Vol.firstData]
  exact ⟨hnent ▸ h.root, by rw [hfd, hnblk]; exact h.table, by rw [hfd, hnent]; exact h.small⟩

theorem Vol.Geo.nent_lt {V : Vol} (h : V.Geo) : V.nent < 8388606 := by
  have h2 := h.small
  simp only [Vol.firstData] at h2
  omega

theorem Ready.withVol {env : Env} {s : Sys} {d : Nat} (h : Ready env s d) (d' : Nat) (V : Vol) :
    Ready env (s.withVol d' V) d := ⟨h.disk, h.present, h.faults, h.fuel⟩

/-! ## Access to one entry -/

theorem wrap32_of_lt {n : Nat} (h : n < 4294967296) : wrap32 n = n := Nat.mod_eq_of_lt h

theorem sectorOf_of_lt {n : Nat} (h : n < 8388608) : sectorOf n = n := by
  simp only [sectorOf, wrap32, blockSize, diskSectorSize]
  omega

theorem entryBlock_of_lt {n : Nat} (h : n < 8388608) : entryBlock n = 2 + n := by
  simp only [entryBlock, wrap32, blockSize]
  omega

theorem neededBlocks_eq (n : Nat) : neededBlocks n = (n + 511) / 512 := by
  unfold neededBlocks
  by_cases h : n % blockSize = 0
  · rw [if_neg (not_not.2 h)]
    simp only [blockSize] at h ⊢
    omega
  · rw [if_pos h]
    simp only [blockSize] at h ⊢
    omega

section Access

variable {env : Env} {s : Sys} {d : Nat}

theorem ioDiskReadBlock_run (hr : Ready env s d) (V : Vol) (k : Nat) :
    (ioDiskReadBlock env d k).run (s.withVol d V) = .ok (noError, V k) (s.withVol d V) := by
  simp [ioDiskReadBlock, hr.present, readSector, hr.faults]

theorem ioDiskWriteBlock_run (hr : Ready env s d) (V : Vol) (k : Nat) (b : Block) :
    (ioDiskWriteBlock env d k b).run (s.withVol d V) = .ok noError (s.withVol d (Function.update V k b)) := by
  simp [ioDiskWriteBlock, hr.present, writeSector, hr.faults, Sys.setBlock_eq]

theorem readSuper_run (hr : Ready env s d) (V : Vol) :
    (readSuper env d).run (s.withVol d V) = .ok (V 1).super (s.withVol d V) := by
  have h1 : sectorOf 1 = 1 := sectorOf_of_lt (by omega)
  rw [readSuper, Prog.bind_ok (ioDiskReadBlock_run hr V _)]
  simp [Prog.run_bind, Prog.failIf, h1]

theorem getEntryN_run (hr : Ready env s d) (V : Vol) {n : Nat} (hn : n < 8388606) :
    (getEntryN env d n).run (s.withVol d V) = .ok (V.ent n) (s.withVol d V) := by
  have h1 : sectorOf (entryBlock n) = 2 + n := by
    rw [entryBlock_of_lt (by omega), sectorOf_of_lt (by omega)]
  have h2 : ¬ errorAny ≤ n := by simp only [errorAny]; omega
  rw [getEntryN, Prog.bind_ok (ioDiskReadBlock_run hr V _)]
  simp [Prog.run_bind, Prog.failIf, h1, h2, Vol.ent]

theorem writeEntry_run (hr : Ready env s d) (V : Vol) {n : Nat} (hn : n < 8388606) (e : SfsEntry) :
    (writeEntry env d n e).run (s.withVol d V) = .ok () (s.withVol d (V.setEnt n e)) := by
  have h1 : sectorOf (entryBlock n) = 2 + n := by
    rw [entryBlock_of_lt (by omega), sectorOf_of_lt (by omega)]
  rw [writeEntry, Prog.bind_ok (ioDiskWriteBlock_run hr V _ _)]
  simp [Prog.failIf, h1, Vol.setEnt]

/-! ## Searches -/

/-- The entry a search by parent and name looks for. -/
def Block.matches (e : SfsEntry) (parent : Nat) (name : CStr) : Bool :=
  e.used && e.parent.toNat == parent && e.nameStr == name

/-- The first used entry with this parent and name. -/
def Vol.lookup (V : Vol) (parent : Nat) (name : CStr) : Option Nat :=
  (List.range V.nent).find? fun n => (V.ent n).matches parent name

/-- The first unused entry. -/
def Vol.freeEntry (V : Vol) : Option Nat := (List.range V.nent).find? fun n => !(V.ent n).used

/-- Does a file entry reference the block among its live references? -/
def Vol.referenced (V : Vol) (block : Nat) : Bool :=
  (List.range V.nent).any fun n => (V.ent n).liveRefs.contains block

/-- The first data block that is not referenced. -/
def Vol.freeBlock (V : Vol) : Option Nat :=
  (List.range' V.firstData (V.nblk - V.firstData)).find? fun block => !V.referenced block

theorem findEntryFrom_run (hr : Ready env s d) (V : Vol) (parent : Nat) (name : CStr) :
    ∀ k n, n + k ≤ 8388606 → (findEntryFrom env d parent name k n).run (s.withVol d V) =
      match (List.range' n k).find? fun n => (V.ent n).matches parent name with
      | some n => .ok (n, V.ent n) (s.withVol d V)
      | none => .error errorNotFound (s.withVol d V) := by
  intro k
  induction k with
  | zero => intro n _; rfl
  | succ k ih =>
    intro n hn
    rw [findEntryFrom, Prog.bind_ok (getEntryN_run hr V (by omega)), List.range'_succ]
    by_cases hm : (V.ent n).matches parent name = true
    · have hc : (V.ent n).used = true ∧ (V.ent n).parent.toNat = parent ∧ (V.ent n).nameStr = name := by
        simpa [Block.matches, and_assoc] using hm
      simp [hm, hc]
    · have hc : ¬((V.ent n).used = true ∧ (V.ent n).parent.toNat = parent ∧ (V.ent n).nameStr = name) := by
        simpa [Block.matches, and_assoc] using hm
      simp [hm, hc, ih (n + 1) (by omega)]

theorem findEntry_run (hr : Ready env s d) {V : Vol} (hg : V.Geo) (parent : Nat) (name : CStr) :
    (findEntry env d parent name).run (s.withVol d V) =
      match V.lookup parent name with
      | some n => .ok (n, V.ent n) (s.withVol d V)
      | none => .error errorNotFound (s.withVol d V) := by
  have hn := hg.nent_lt
  rw [findEntry, Prog.bind_ok (readSuper_run hr V)]
  rw [findEntryFrom_run hr V parent name _ 0 (by simp only [Vol.nent] at hn; omega)]
  simp only [Vol.lookup, List.range_eq_range', Vol.nent]

theorem findFreeEntryFrom_run (hr : Ready env s d) (V : Vol) :
    ∀ k n, n + k ≤ 8388606 → (findFreeEntryFrom env d k n).run (s.withVol d V) =
      match (List.range' n k).find? fun n => !(V.ent n).used with
      | some n => .ok n (s.withVol d V)
      | none => .error errorNoSpace (s.withVol d V) := by
  intro k
  induction k with
  | zero => intro n _; rfl
  | succ k ih =>
    intro n hn
    rw [findFreeEntryFrom, Prog.bind_ok (getEntryN_run hr V (by omega)), List.range'_succ]
    cases hu : (V.ent n).used with
    | true => simp [hu, ih (n + 1) (by omega)]
    | false => simp [hu]

theorem findFreeEntry_run (hr : Ready env s d) {V : Vol} (hg : V.Geo) :
    (findFreeEntry env d).run (s.withVol d V) =
      match V.freeEntry with
      | some n => .ok n (s.withVol d V)
      | none => .error errorNoSpace (s.withVol d V) := by
  have hn := hg.nent_lt
  rw [findFreeEntry, Prog.bind_ok (readSuper_run hr V)]
  rw [findFreeEntryFrom_run hr V _ 0 (by simp only [Vol.nent] at hn; omega)]
  simp only [Vol.freeEntry, List.range_eq_range', Vol.nent]

theorem blockFoundFrom_run (hr : Ready env s d) (V : Vol) (block : Nat) :
    ∀ k n, n + k ≤ 8388606 → (blockFoundFrom env d block k n).run (s.withVol d V) =
      .ok ((List.range' n k).any fun n => (V.ent n).liveRefs.contains block) (s.withVol d V) := by
  intro k
  induction k with
  | zero => intro n _; rfl
  | succ k ih =>
    intro n hn
    rw [blockFoundFrom, Prog.bind_ok (getEntryN_run hr V (by omega)), List.range'_succ]
    by_cases hb : block ∈ (V.ent n).liveRefs
    · simp [hb]
    · simp [hb, ih (n + 1) (by omega)]

theorem findFreeBlockFrom_run (hr : Ready env s d) {V : Vol} (hn : V.nent < 8388606) :
    ∀ k block, (findFreeBlockFrom env d V.nent k block).run (s.withVol d V) =
      match (List.range' block k).find? fun block => !V.referenced block with
      | some block => .ok block (s.withVol d V)
      | none => .error errorNoSpace (s.withVol d V) := by
  intro k
  induction k with
  | zero => intro block; rfl
  | succ k ih =>
    intro block
    rw [findFreeBlockFrom, Prog.bind_ok (blockFoundFrom_run hr V block _ 0 (by omega)), List.range'_succ,
      ← List.range_eq_range']
    rw [show ((List.range V.nent).any fun n => (V.ent n).liveRefs.contains block) = V.referenced block from rfl]
    cases hb : V.referenced block with
    | true => simp [hb, ih]
    | false => simp [hb]

theorem findFreeBlock_run (hr : Ready env s d) {V : Vol} (hn : V.nent < 8388606) :
    (findFreeBlock env d).run (s.withVol d V) =
      match V.freeBlock with
      | some block => .ok block (s.withVol d V)
      | none => .error errorNoSpace (s.withVol d V) := by
  have hf : 2 + wrap32 ((V 1).super.nentries * blockSize) / blockSize = V.firstData := by
    simp only [Vol.firstData, Vol.nent, wrap32, blockSize] at hn ⊢
    omega
  rw [findFreeBlock, Prog.bind_ok (readSuper_run hr V)]
  simp only [hf]
  exact findFreeBlockFrom_run hr hn _ _

end Access

/-! ## What a search finds -/

theorem Vol.lookup_eq_some {V : Vol} {parent n : Nat} {name : CStr} :
    V.lookup parent name = some n ↔ n < V.nent ∧ (V.ent n).matches parent name ∧
      ∀ m < n, ¬(V.ent m).matches parent name := by
  simp only [Vol.lookup, List.find?_range_eq_some, List.mem_range]
  simp
  tauto

theorem Vol.lookup_eq_none {V : Vol} {parent : Nat} {name : CStr} :
    V.lookup parent name = none ↔ ∀ n < V.nent, ¬(V.ent n).matches parent name := by
  simp [Vol.lookup]

theorem Vol.freeEntry_eq_some {V : Vol} {n : Nat} :
    V.freeEntry = some n ↔ n < V.nent ∧ (V.ent n).used = false ∧ ∀ m < n, (V.ent m).used = true := by
  simp only [Vol.freeEntry, List.find?_range_eq_some, List.mem_range]
  simp
  tauto

theorem Vol.freeEntry_eq_none {V : Vol} : V.freeEntry = none ↔ ∀ n < V.nent, (V.ent n).used = true := by
  simp [Vol.freeEntry]

theorem Vol.referenced_iff {V : Vol} {b : Nat} : V.referenced b = true ↔ ∃ n < V.nent, b ∈ (V.ent n).liveRefs := by
  simp [Vol.referenced]

theorem Vol.freeBlock_eq_some {V : Vol} {b : Nat} (h : V.freeBlock = some b) :
    V.firstData ≤ b ∧ b < V.nblk ∧ ∀ n < V.nent, b ∉ (V.ent n).liveRefs := by
  have h1 := List.mem_of_find?_eq_some h
  have h2 := List.find?_some h
  simp only [List.mem_range'_1] at h1
  refine ⟨h1.1, by omega, fun n hn hb => ?_⟩
  have h3 : V.referenced b = true := Vol.referenced_iff.2 ⟨n, hn, hb⟩
  simp [h3] at h2

theorem Block.length_liveRefs_le (e : SfsEntry) : e.liveRefs.length ≤ 120 := by
  rw [Block.liveRefs]
  split_ifs
  · rw [List.length_map, List.length_range]
    exact Nat.min_le_right _ _
  · exact Nat.zero_le _

/-- The data blocks before the first free one are referenced. -/
theorem Vol.freeBlock_least {V : Vol} {b k : Nat} (h : V.freeBlock = some b) (hlo : V.firstData ≤ k) (hk : k < b) :
    ∃ n < V.nent, k ∈ (V.ent n).liveRefs := by
  obtain ⟨-, i, hi, hib, hnot⟩ := List.find?_eq_some_iff_getElem.1 h
  rw [List.getElem_range', Nat.one_mul] at hib
  have hki := hnot (k - V.firstData) (by omega)
  rw [List.getElem_range', Nat.one_mul, show V.firstData + (k - V.firstData) = k by omega, Bool.not_not] at hki
  exact Vol.referenced_iff.1 hki

/-- The first free block is below the end of the data: the blocks before it are live references of the table, which has room
for 120 in each entry. -/
theorem Vol.Geo.freeBlock_lt {V : Vol} (hg : V.Geo) {b : Nat} (h : V.freeBlock = some b) : b < V.dataEnd := by
  obtain ⟨hlo, hhi, -⟩ := Vol.freeBlock_eq_some h
  have hbefore : List.range' V.firstData (b - V.firstData) ⊆ (List.range V.nent).flatMap fun n => (V.ent n).liveRefs := by
    intro k hk
    rw [List.mem_range'_1] at hk
    obtain ⟨n, hn, hmem⟩ := Vol.freeBlock_least h hk.1 (by omega)
    exact List.mem_flatMap.2 ⟨n, List.mem_range.2 hn, hmem⟩
  have hlen := (List.Nodup.subperm List.nodup_range' hbefore).length_le
  have hsum : ((List.range V.nent).flatMap fun n => (V.ent n).liveRefs).length ≤ 120 * V.nent := by
    generalize V.nent = k
    induction k with
    | zero => simp
    | succ k ih =>
      have h1 := (V.ent k).length_liveRefs_le
      rw [List.range_succ, List.flatMap_append, List.length_append, List.flatMap_singleton]
      omega
  rw [List.length_range'] at hlen
  have hsmall := hg.small
  rw [Vol.dataEnd]
  omega

theorem Vol.freeBlock_eq_none {V : Vol} :
    V.freeBlock = none ↔ ∀ b, V.firstData ≤ b → b < V.nblk → ∃ n < V.nent, b ∈ (V.ent n).liveRefs := by
  simp only [Vol.freeBlock, List.find?_eq_none, List.mem_range'_1, Bool.not_eq_true, Bool.not_eq_false',
    Vol.referenced_iff]
  constructor
  · intro h b h1 h2
    simpa [Vol.referenced_iff] using h b ⟨h1, by omega⟩
  · intro h b hb
    simpa [Vol.referenced_iff] using h b hb.1 (by omega)

end NanoS32
