import NanoS32.Inv.WellFormed
import NanoS32.Lemmas.Fresh
import NanoS32.Lemmas.Mkfs

/-!
# The format of an image

The image that `mkfs` writes for files that fit has the format of a disk: its files are items of the root, in the order in which
they are given, and take entries and blocks that follow each other.
-/

namespace NanoS32

/-- The places of the files in an image of so many blocks. -/
def imagePlacements (fssizeBlocks : Nat) (files : List HostFile) : List Placed :=
  placements 1 (2 + mkfsEntries fssizeBlocks) files

/-- What `mkfs` writes for the files. -/
structure Vol.ImageOf (V : Vol) (fssizeBlocks : Nat) (files : List HostFile) : Prop where
  super : (V 1).super = mkfsSuper fssizeBlocks
  root : V.ent 0 = (({ Block.zero.copyName rootDirName with flags := tDir }.setSize files.length).setParent 0).listRefs 0
    ((imagePlacements fssizeBlocks files).map Placed.e)
  entries : ∀ p ∈ imagePlacements fssizeBlocks files, ∀ k < p.entries,
    V.ent (p.e + k) = imageEntry p.file.name p.e p.b p.file.data.length k
  free : ∀ n, 1 + totalEntries files ≤ n → n < mkfsEntries fssizeBlocks → V.ent n = Block.zero
  bytes : ∀ p ∈ imagePlacements fssizeBlocks files, ∀ i < p.file.data.length,
    (V (p.b + i / 512)).byte (i % 512) = p.file.data.getD i 0

/-- The files fit: there are at most 120 of them, and there are entries and data blocks for all of them. -/
structure Fits (fssizeBlocks : Nat) (files : List HostFile) : Prop where
  size : fssizeBlocks < 2147483648
  nonempty : files ≠ []
  count : files.length ≤ 120
  named : ∀ file ∈ files, file.Named
  entries : 1 + totalEntries files ≤ mkfsEntries fssizeBlocks
  blocks : 2 + mkfsEntries fssizeBlocks + totalBlocks files ≤ fssizeBlocks

theorem mkfsEntries_le (fssizeBlocks : Nat) : mkfsEntries fssizeBlocks ≤ 4096 := Nat.min_le_right _ _

/-- The blocks of files have room in the references of their entries. -/
theorem totalBlocks_le (files : List HostFile) : totalBlocks files ≤ 120 * totalEntries files := by
  induction files with
  | nil => exact Nat.zero_le _
  | cons file files ih =>
    rw [totalBlocks, totalEntries]
    have hfile : fileBlocks file.data.length ≤ 120 * fileEntries file.data.length := by
      unfold fileEntries
      omega
    omega

/-- `mkfs` makes the image of files that fit. -/
theorem mkfs_image {fssizeBlocks : Nat} {files : List HostFile} (hfits : Fits fssizeBlocks files) (boot : List UInt8) (past : Nat) :
    ∃ V : Vol, mkfs fssizeBlocks boot files past = some V ∧ V.ImageOf fssizeBlocks files := by
  have hle := mkfsEntries_le fssizeBlocks
  have hblocks := totalBlocks_le files
  have hentries := hfits.entries
  have hboot : (mkfsSuper fssizeBlocks).bootstart = 2 + mkfsEntries fssizeBlocks := by
    simp only [mkfsSuper, blockSize]
    omega
  have hzero : ∀ n, n ≠ 0 → (mkfsStart fssizeBlocks boot files.length).table n = Block.zero := by
    intro n hn
    rw [mkfsStart]
    dsimp only
    rw [Function.update_of_ne hn]
  obtain ⟨st, hrun, hroot, htable, himage, hplaced⟩ := mkfsFiles_spec (mkfsEntries fssizeBlocks) past files 0 1
    (2 + mkfsEntries fssizeBlocks) (mkfsStart fssizeBlocks boot files.length) hfits.named (Or.inl rfl) hboot Nat.one_pos
    (by have := hfits.count; omega) (fun n hn => hzero n (by omega)) (by omega) (by omega)
  refine ⟨fun k => if 2 ≤ k ∧ k < 2 + mkfsEntries fssizeBlocks then st.table (k - 2) else st.image k, ?_, ?_⟩
  · rw [mkfs, if_neg (by rintro (h | h); exacts [hfits.nonempty h, by omega]), hrun]
    rfl
  · have hsmall : ∀ n, n < mkfsEntries fssizeBlocks → Vol.ent (fun k => if 2 ≤ k ∧ k < 2 + mkfsEntries fssizeBlocks then st.table (k - 2)
        else st.image k) n = st.table n := fun n hn => by
      rw [Vol.ent, if_pos (by omega), Nat.add_sub_cancel_left]
    refine ⟨?_, ?_, fun p hp k hk => ?_, fun n h1 h2 => ?_, fun p hp i hi => ?_⟩
    · have hsuper : (mkfsStart fssizeBlocks boot files.length).image 1 = Block.ofSuper (mkfsSuper fssizeBlocks) := by
        rw [mkfsStart]
        dsimp only
        rw [wblock_eq (by decide), Function.update_self]
        exact Block.ext_bytes fun i hi => by rw [Block.byte_ofBytes _ hi, Block.getD_bytes _ hi]
      have hsize := hfits.size
      rw [if_neg (by omega), himage 1 (Or.inl (by omega)), hsuper]
      refine super_ofSuper (show sfsTypeId < 4294967296 by decide) ?_ ?_ (by rw [hboot]; omega)
      · exact Nat.lt_trans hsize (by decide)
      · exact Nat.lt_of_le_of_lt hle (by decide)
    · rw [hsmall 0 (by omega), hroot]
      rfl
    · obtain ⟨-, -, hend, -, -⟩ := mem_placements hp
      rw [hsmall _ (by omega)]
      exact (hplaced p hp).1 k hk
    · rw [hsmall n h2, htable n (by omega) (Or.inr h1), hzero n (by omega)]
    · obtain ⟨-, -, -, hstart, -⟩ := mem_placements hp
      rw [if_neg (by omega)]
      exact (hplaced p hp).2 i hi

/-- The items of a directory whose references are listed. -/
theorem Block.items_listRefs (entry : SfsEntry) {l : List Nat} (hsize : entry.size.toNat = l.length) (hcount : l.length ≤ 120)
    (hl : ∀ n ∈ l, n < 4294967296) : (entry.listRefs 0 l).items = l := by
  have hsize' : (entry.listRefs 0 l).size.toNat = l.length := hsize
  refine List.ext_getElem (by rw [Block.items, List.length_map, List.length_range, hsize']) fun i h1 h2 => ?_
  have hat : (entry.listRefs 0 l).refAt i = (UInt32.ofNat (l.getD i 0)).toNat := by
    have hin : 0 ≤ i ∧ i < 0 + l.length := by omega
    rw [Block.refAt, dif_pos (by omega)]
    simp only [Block.listRefs]
    rw [if_pos hin, Nat.sub_zero]
  simp only [Block.items, List.getElem_map, List.getElem_range]
  rw [hat, List.getD_eq_getElem _ _ h2, UInt32.toNat_ofNat_of_lt' (hl _ (List.getElem_mem h2))]

/-! ## Chains -/

/-- The chains of an image: the root by itself, and the entries of each file. -/
def imageChains (ps : List Placed) (h : Nat) : List Nat :=
  if h = 0 then [0]
  else match ps.find? fun p => p.e == h with
    | some p => List.range' p.e p.entries
    | none => []

section Image

variable {V : Vol} {fssizeBlocks : Nat} {files : List HostFile}

theorem imageChains_zero (ps : List Placed) : imageChains ps 0 = [0] := if_pos rfl

/-- The chain of a file. -/
theorem imageChains_of_mem {e b : Nat} (he : 0 < e) {p : Placed} (hp : p ∈ placements e b files) :
    imageChains (placements e b files) p.e = List.range' p.e p.entries := by
  obtain ⟨-, hle, -⟩ := mem_placements hp
  rw [imageChains, if_neg (by omega)]
  cases hfind : (placements e b files).find? fun q => q.e == p.e with
  | none => exact absurd (beq_self_eq_true p.e) (by simpa using List.find?_eq_none.1 hfind p hp)
  | some q =>
    have hq := List.mem_of_find?_eq_some hfind
    have heq : q.e = p.e := by simpa using List.find?_some hfind
    have hpos := p.entries_pos
    have hpos' := q.entries_pos
    obtain rfl : q = p := (placements_apart hq hp).resolve_right (by omega)
    rfl

/-- The heads of an image are the root and the first entries of the files. -/
theorem imageChains_ne_nil {e b : Nat} (he : 0 < e) {h : Nat} :
    imageChains (placements e b files) h ≠ [] ↔ h = 0 ∨ ∃ p ∈ placements e b files, p.e = h := by
  constructor
  · intro hne
    by_cases h0 : h = 0
    · exact Or.inl h0
    · rw [imageChains, if_neg h0] at hne
      cases hfind : (placements e b files).find? fun q => q.e == h with
      | none =>
        rw [hfind] at hne
        exact absurd rfl hne
      | some q => exact Or.inr ⟨q, List.mem_of_find?_eq_some hfind, by simpa using List.find?_some hfind⟩
  · rintro (rfl | ⟨p, hp, rfl⟩)
    · rw [imageChains_zero]
      exact List.cons_ne_nil _ _
    · rw [imageChains_of_mem he hp]
      exact fun h => absurd (List.range'_eq_nil_iff.1 h) (Nat.ne_of_gt p.entries_pos)

/-- An entry in a chain is the root, or one of the entries of a file. -/
theorem mem_imageChains {e b : Nat} (he : 0 < e) {h n : Nat} (hn : n ∈ imageChains (placements e b files) h) :
    (h = 0 ∧ n = 0) ∨ ∃ p ∈ placements e b files, p.e = h ∧ ∃ k < p.entries, n = p.e + k := by
  rcases (imageChains_ne_nil he).1 (List.ne_nil_of_mem hn) with rfl | ⟨p, hp, rfl⟩
  · rw [imageChains_zero] at hn
    exact Or.inl ⟨rfl, List.mem_singleton.1 hn⟩
  · rw [imageChains_of_mem he hp, List.mem_range'_1] at hn
    exact Or.inr ⟨p, hp, rfl, n - p.e, by omega, by omega⟩

/-! ## Entries -/

variable (hi : V.ImageOf fssizeBlocks files) (hfits : Fits fssizeBlocks files)

include hi in
theorem Vol.ImageOf.geometry : V.nent = mkfsEntries fssizeBlocks ∧ V.nblk = fssizeBlocks := by
  rw [Vol.nent, Vol.nblk, hi.super]
  exact ⟨rfl, rfl⟩

include hfits in
/-- The bounds of a file that fits. -/
theorem Fits.bounds {p : Placed} (hp : p ∈ imagePlacements fssizeBlocks files) :
    0 < p.e ∧ p.e + p.entries ≤ mkfsEntries fssizeBlocks ∧ 2 + mkfsEntries fssizeBlocks ≤ p.b ∧ p.b + p.blocks ≤ fssizeBlocks ∧
      p.b + p.blocks ≤ 8388608 ∧ p.file.data.length ≤ 512 * p.blocks ∧ p.file.Named := by
  obtain ⟨hmem, h1, h2, h3, h4⟩ := mem_placements hp
  have hle := mkfsEntries_le fssizeBlocks
  have hentries := hfits.entries
  have hblocks := hfits.blocks
  have htotal := totalBlocks_le files
  refine ⟨h1, by omega, h3, by omega, by omega, ?_, hfits.named _ hmem⟩
  rw [Placed.blocks, fileBlocks]
  omega

include hi hfits in
/-- The fields of entry `k` of a file. -/
theorem Vol.ImageOf.entry {p : Placed} (hp : p ∈ imagePlacements fssizeBlocks files) {k : Nat} (hk : k < p.entries) :
    (V.ent (p.e + k)).flags = tFile ∧ (V.ent (p.e + k)).nameStr = p.file.name ∧
      (V.ent (p.e + k)).size.toNat = p.file.data.length - 61440 * k ∧ V.par (p.e + k) = (if k = 0 then 0 else p.e + k - 1) ∧
      V.next (p.e + k) = (if k + 1 < p.entries then p.e + k + 1 else 0) ∧
      ∀ i < 120, (V.ent (p.e + k)).refAt i = if 120 * k + i < p.blocks then p.b + 120 * k + i else 0 := by
  obtain ⟨h1, h2, h3, h4, h5, h6, hnamed⟩ := hfits.bounds hp
  have hle := mkfsEntries_le fssizeBlocks
  obtain ⟨hlen, hzero, hne⟩ := hnamed.name
  rw [Vol.par, Vol.next, hi.entries p hp k hk]
  refine ⟨rfl, nameStr_imageEntry hlen hzero _ _ _ _, ?_, ?_, ?_, fun i hi' => ?_⟩
  · exact UInt32.toNat_ofNat_of_lt' (show p.file.data.length - 61440 * k < 4294967296 by omega)
  · exact UInt32.toNat_ofNat_of_lt' (show (if k = 0 then 0 else p.e + k - 1) < 4294967296 by split_ifs <;> omega)
  · exact UInt32.toNat_ofNat_of_lt' (show (if k + 1 < p.entries then p.e + k + 1 else 0) < 4294967296 by split_ifs <;> omega)
  · rw [Block.refAt, dif_pos hi']
    exact UInt32.toNat_ofNat_of_lt' (show (if 120 * k + i < p.blocks then p.b + 120 * k + i else 0) < 4294967296 by
      split_ifs <;> omega)

include hi hfits in
/-- The references of a file. -/
theorem Vol.ImageOf.fref {p : Placed} (hp : p ∈ imagePlacements fssizeBlocks files) (i : Nat) :
    V.fref (List.range' p.e p.entries) i = if i < p.blocks then p.b + i else 0 := by
  by_cases hi' : i / 120 < p.entries
  · have hget : (List.range' p.e p.entries)[i / 120]? = some (p.e + i / 120) := by
      rw [List.getElem?_range' hi', Nat.one_mul]
    have href := V.fref_of_get hget (i % 120) (Nat.mod_lt _ (by decide))
    have hat := (hi.entry hfits hp hi').2.2.2.2.2 (i % 120) (Nat.mod_lt _ (by decide))
    rw [Nat.div_add_mod] at href hat
    rw [href, hat, Nat.add_assoc, Nat.div_add_mod]
  · have hentries : p.blocks ≤ 120 * p.entries := by
      rw [Placed.entries, fileEntries, ← Placed.blocks]
      omega
    rw [Vol.fref_of_le V (by rw [List.length_range']; omega), if_neg (by omega)]

include hi hfits in
/-- The root has the files as its items. -/
theorem Vol.ImageOf.root_entry : (V.ent 0).flags = tDir ∧ V.par 0 = 0 ∧ V.next 0 = 0 ∧ (V.ent 0).nameStr = rootDirName ∧
    (V.ent 0).size.toNat = files.length ∧ (V.ent 0).items = (imagePlacements fssizeBlocks files).map Placed.e := by
  have hcount := hfits.count
  have hlen : ((imagePlacements fssizeBlocks files).map Placed.e).length = files.length := by
    rw [List.length_map, imagePlacements, ← List.length_map Placed.file, map_file_placements]
  have hsize : (V.ent 0).size.toNat = files.length := by
    rw [hi.root]
    exact UInt32.toNat_ofNat_of_lt' (show files.length < 4294967296 by omega)
  rw [Vol.par, Vol.next]
  refine ⟨by rw [hi.root]; rfl, by rw [hi.root]; rfl, by rw [hi.root]; rfl, ?_, hsize, ?_⟩
  · rw [hi.root]
    exact show ({ Block.zero.copyName rootDirName with flags := tDir } : SfsEntry).nameStr = rootDirName by decide +kernel
  · rw [hi.root]
    refine Block.items_listRefs _ ?_ (by omega) fun n hn => ?_
    · rw [hlen]
      exact UInt32.toNat_ofNat_of_lt' (show files.length < 4294967296 by omega)
    · obtain ⟨p, hp, rfl⟩ := List.mem_map.1 hn
      have hle := mkfsEntries_le fssizeBlocks
      have hbound := hfits.bounds hp
      omega

include hi hfits in
/-- The references of the root, and zeros after them. -/
theorem Vol.ImageOf.root_ref {i : Nat} (h : i < 120) :
    (V.ent 0).refAt i = ((imagePlacements fssizeBlocks files).map Placed.e).getD i 0 := by
  rw [Block.refAt, dif_pos h, hi.root]
  simp only [Block.listRefs, Nat.zero_le, true_and, Nat.zero_add, Nat.sub_zero]
  by_cases hin : i < ((imagePlacements fssizeBlocks files).map Placed.e).length
  · rw [if_pos hin, List.getD_eq_getElem _ _ hin]
    obtain ⟨p, hp, hpe⟩ := List.mem_map.1 (List.getElem_mem hin)
    have hle := mkfsEntries_le fssizeBlocks
    have hbound := hfits.bounds hp
    exact UInt32.toNat_ofNat_of_lt' (show _ < 4294967296 by omega)
  · rw [if_neg hin, List.getD_eq_default _ _ (Nat.le_of_not_lt hin)]
    rfl

include hi hfits in
/-- The chain of a file is linked. -/
theorem Vol.ImageOf.chain {p : Placed} (hp : p ∈ imagePlacements fssizeBlocks files) : V.IsChain (List.range' p.e p.entries) := by
  obtain ⟨hnent, -⟩ := hi.geometry
  obtain ⟨h1, h2, -⟩ := hfits.bounds hp
  obtain ⟨m, hm⟩ : ∃ m, p.entries = m + 1 := ⟨p.entries - 1, by have := p.entries_pos; omega⟩
  refine ⟨?_, List.nodup_range', fun n hn => ?_⟩
  · rw [hm]
    refine Linked.range' (fun k hk => ⟨?_, ?_⟩) ?_
    · rw [(hi.entry hfits hp (k := k) (by omega)).2.2.2.2.1, if_pos (by omega)]
    · rw [Nat.add_assoc, (hi.entry hfits hp (k := k + 1) (by omega)).2.2.2.1, if_neg (Nat.succ_ne_zero k)]
      omega
    · rw [(hi.entry hfits hp (k := m) (by omega)).2.2.2.2.1, if_neg (by omega)]
  · rw [List.mem_range'_1] at hn
    omega

include hi hfits in
/-- An image has the format. -/
theorem Vol.ImageOf.format : V.Format (imageChains (imagePlacements fssizeBlocks files)) fun _ => False := by
  obtain ⟨hnent, hnblk⟩ := hi.geometry
  obtain ⟨hdir, hpar0, hnext0, hname0, hsize0, hitems0⟩ := hi.root_entry hfits
  have hle := mkfsEntries_le fssizeBlocks
  have hentries := hfits.entries
  have hblocks := hfits.blocks
  have hcount := hfits.count
  have hne : ∀ {h}, imageChains (imagePlacements fssizeBlocks files) h ≠ [] ↔
      h = 0 ∨ ∃ p ∈ imagePlacements fssizeBlocks files, p.e = h := imageChains_ne_nil Nat.one_pos
  have hmem : ∀ {h n}, n ∈ imageChains (imagePlacements fssizeBlocks files) h → (h = 0 ∧ n = 0) ∨
      ∃ p ∈ imagePlacements fssizeBlocks files, p.e = h ∧ ∃ k < p.entries, n = p.e + k := mem_imageChains Nat.one_pos
  have hroot : imageChains (imagePlacements fssizeBlocks files) 0 = [0] := imageChains_zero _
  have hfile : ∀ {p}, p ∈ imagePlacements fssizeBlocks files →
      imageChains (imagePlacements fssizeBlocks files) p.e = List.range' p.e p.entries := imageChains_of_mem Nat.one_pos
  have hent := fun {p} (hp : p ∈ imagePlacements fssizeBlocks files) {k} (hk : k < p.entries) => hi.entry hfits hp hk
  have hheadent := fun {p} (hp : p ∈ imagePlacements fssizeBlocks files) => hi.entry hfits hp p.entries_pos
  simp only [Nat.add_zero, if_true, Nat.mul_zero, Nat.sub_zero] at hheadent
  have hnotfile : ∀ {h}, imageChains (imagePlacements fssizeBlocks files) h ≠ [] → (V.ent h).flags = tDir → h = 0 := by
    intro h hh hk
    rcases hne.1 hh with h0 | ⟨p, hp, rfl⟩
    · exact h0
    · exact absurd (hk.symm.trans (hheadent hp).1) Vol.Format.tDir_ne_tFile
  refine
    { geo := ⟨by omega, by rw [Vol.firstData]; omega, by rw [Vol.firstData]; omega⟩
      head := fun h hh => ?_
      chain := fun h hh => ?_
      disjoint := fun h h' n hn hn' => ?_
      used := fun n hn hu => ?_
      flags := fun h n hn => ?_
      kind := fun h hh => ?_
      sizes := fun h k n hn => ?_
      fits := fun h hh hk => ?_
      refs := fun h hh hk => ?_
      single := fun h hh hk => ?_
      root := ⟨by rw [hroot]; exact List.cons_ne_nil _ _, hdir, hpar0, hname0⟩
      parent := fun h hh => ?_
      nodup := fun h hh hk => ?_
      items := fun h hh hk m => ?_ }
  · rcases hne.1 hh with rfl | ⟨p, hp, rfl⟩
    · rw [hroot, List.head?_cons]
    · obtain ⟨m, hm⟩ : ∃ m, p.entries = m + 1 := ⟨p.entries - 1, by have := p.entries_pos; omega⟩
      rw [hfile hp, hm, List.range'_succ, List.head?_cons]
  · rcases hne.1 hh with rfl | ⟨p, hp, rfl⟩
    · rw [hroot]
      refine ⟨hnext0, List.nodup_singleton 0, fun n hn => ?_⟩
      rw [List.mem_singleton.1 hn]
      omega
    · rw [hfile hp]
      exact hi.chain hfits hp
  · rcases hmem hn with ⟨rfl, rfl⟩ | ⟨p, hp, rfl, k, hk, rfl⟩
    · rcases hmem hn' with ⟨rfl, -⟩ | ⟨q, hq, rfl, k', hk', hkk⟩
      · rfl
      · have hpos := (hfits.bounds hq).1
        omega
    · rcases hmem hn' with ⟨rfl, hkk⟩ | ⟨q, hq, rfl, k', hk', hkk⟩
      · have hpos := (hfits.bounds hp).1
        omega
      · obtain rfl : p = q := (placements_apart hp hq).resolve_right (by omega)
        rfl
  · by_cases hn0 : n = 0
    · exact ⟨0, by rw [hroot, hn0]; exact List.mem_singleton_self 0⟩
    · by_cases hlt : n < 1 + totalEntries files
      · obtain ⟨p, hp, h1, h2⟩ := placements_cover (b := 2 + mkfsEntries fssizeBlocks) (Nat.one_le_iff_ne_zero.2 hn0) hlt
        exact ⟨p.e, by rw [hfile hp, List.mem_range'_1]; exact ⟨h1, h2⟩⟩
      · rw [hi.free n (Nat.le_of_not_lt hlt) (hnent ▸ hn)] at hu
        cases hu
  · rcases hmem hn with ⟨rfl, rfl⟩ | ⟨p, hp, rfl, k, hk, rfl⟩
    · rfl
    · rw [(hent hp hk).1, (hheadent hp).1]
  · rcases hne.1 hh with rfl | ⟨p, hp, rfl⟩
    · exact Or.inl hdir
    · exact Or.inr (hheadent hp).1
  · rcases hne.1 (List.ne_nil_of_mem (List.mem_of_getElem? hn)) with rfl | ⟨p, hp, rfl⟩
    · rw [hroot] at hn
      cases k with
      | zero =>
        obtain rfl : 0 = n := Option.some.inj hn
        rfl
      | succ k => cases hn
    · rw [hfile hp] at hn
      obtain ⟨hk, hget⟩ := List.getElem?_eq_some_iff.1 hn
      rw [List.length_range'] at hk
      rw [List.getElem_range', Nat.one_mul] at hget
      rw [← hget, (hent hp hk).2.2.1, (hheadent hp).2.2.1]
  · rcases hne.1 hh with rfl | ⟨p, hp, rfl⟩
    · exact absurd (hdir.symm.trans hk) Vol.Format.tDir_ne_tFile
    · obtain ⟨-, -, -, -, -, h6, -⟩ := hfits.bounds hp
      have hroom : p.blocks ≤ 120 * p.entries := by
        rw [Placed.entries, fileEntries, ← Placed.blocks]
        omega
      rw [(hheadent hp).2.2.1, hfile hp, List.length_range']
      omega
  · rcases hne.1 hh with rfl | ⟨p, hp, rfl⟩
    · exact absurd (hdir.symm.trans hk) Vol.Format.tDir_ne_tFile
    · obtain ⟨-, -, h3, h4, h5, -⟩ := hfits.bounds hp
      intro i
      rw [hfile hp, hi.fref hfits hp, Vol.firstData, Vol.dataEnd, hnent, hnblk]
      by_cases hi' : i < p.blocks
      · rw [if_pos hi']
        omega
      · rw [if_neg hi']
        exact Or.inl rfl
  · obtain rfl := hnotfile hh hk
    exact ⟨hroot, by omega⟩
  · have hzero : V.par h = 0 := by
      rcases hne.1 hh with rfl | ⟨p, hp, rfl⟩
      · exact hpar0
      · exact (hheadent hp).2.2.2.1
    rw [hzero, hroot]
    exact ⟨List.cons_ne_nil _ _, hdir⟩
  · obtain rfl := hnotfile hh hk
    rw [hitems0]
    exact (pairwise_placements _ _ _).imp Nat.ne_of_lt
  · obtain rfl := hnotfile hh hk
    rw [hitems0, List.mem_map]
    constructor
    · rintro ⟨p, hp, rfl⟩
      exact ⟨hne.2 (Or.inr ⟨p, hp, rfl⟩), Nat.ne_of_gt (hfits.bounds hp).1, (hheadent hp).2.2.2.1, not_false⟩
    · rintro ⟨hm, hm0, -, -⟩
      obtain ⟨p, hp, hpe⟩ := (hne.1 hm).resolve_left hm0
      exact ⟨p, hp, hpe⟩

end Image

end NanoS32
