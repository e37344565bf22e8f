import NanoS32.Fs.Small
import NanoS32.Inv.Calls
import NanoS32.Inv.Image
import NanoS32.Lemmas.Path

/-!
# The image builder and the kernel

The image that `mkfs` writes has the format of `fs.h`, and the kernel reads the files from it by their names. A name that is the name
of a disk is taken for the disk.
-/

namespace NanoS32

open Prog

/-- The number of references of an entry from its size. -/
def Block.refs (e : SfsEntry) : Nat := if e.flags = tFile then neededBlocks e.size.toNat else e.size.toNat

/-- The references of each head are used up to the number its size says, and 0 after it. -/
def Vol.Packed (V : Vol) (C : Nat → List Nat) : Prop := ∀ h, C h ≠ [] → ∀ i, V.fref (C h) i ≠ 0 ↔ i < (V.ent h).refs

/-- No two references of files are the same block. -/
def Vol.Separate (V : Vol) (C : Nat → List Nat) : Prop :=
  ∀ h h', C h ≠ [] → C h' ≠ [] → (V.ent h).flags = tFile → (V.ent h').flags = tFile → ∀ i < (V.ent h).refs, ∀ i' < (V.ent h').refs,
    V.fref (C h) i = V.fref (C h') i' → h = h' ∧ i = i'

/-- The names of the files can be searched for: they are distinct, and none of them is too long or the name of a disk or the root. -/
structure Searchable (files : List HostFile) : Prop where
  distinct : (files.map HostFile.baseName).Nodup
  short : ∀ file ∈ files, file.baseName.length ≤ 14
  notDisk : ∀ file ∈ files, stringIsDisk file.baseName = false
  notRoot : ∀ file ∈ files, file.baseName ≠ rootDirName

/-- The invariants that `fs.h` describes: besides the format, a chained entry has the time of its head, references are packed, and
files have no block in common. -/
structure Vol.FsInvariants (V : Vol) (C : Nat → List Nat) : Prop where
  wellFormed : V.WellFormed C
  times : ∀ h n, n ∈ C h → (V.ent n).time = (V.ent h).time
  packed : V.Packed C
  separate : V.Separate C

section Image

variable {V : Vol} {fssizeBlocks : Nat} {files : List HostFile} (hi : V.ImageOf fssizeBlocks files) (hfits : Fits fssizeBlocks files)

/-- The name of a file has no separator. -/
theorem HostFile.sep_not_mem (file : HostFile) : pathSeparator ∉ file.baseName := by
  intro h
  have hmem := List.mem_takeWhile_imp (List.mem_reverse.1 h)
  simp at hmem

include hi hfits in
/-- The head of a file. -/
theorem Vol.ImageOf.head {p : Placed} (hp : p ∈ imagePlacements fssizeBlocks files) :
    (V.ent p.e).flags = tFile ∧ (V.ent p.e).nameStr = p.file.name ∧ (V.ent p.e).size.toNat = p.file.data.length ∧ V.par p.e = 0 := by
  obtain ⟨h1, h2, h3, h4, -⟩ := hi.entry hfits hp p.entries_pos
  exact ⟨h1, h2, h3, h4⟩

include hi hfits in
/-- The references of an image are packed. -/
theorem Vol.ImageOf.packed : V.Packed (imageChains (imagePlacements fssizeBlocks files)) := by
  intro h hh i
  rcases (imageChains_ne_nil Nat.one_pos).1 hh with rfl | ⟨p, hp, rfl⟩
  · obtain ⟨hdir, -, -, -, hsize, hitems⟩ := hi.root_entry hfits
    have hrefs : (V.ent 0).refs = files.length := by
      rw [Block.refs, if_neg (fun h => Vol.Format.tDir_ne_tFile (hdir.symm.trans h)), hsize]
    have hlen : ((imagePlacements fssizeBlocks files).map Placed.e).length = files.length := by
      rw [List.length_map, imagePlacements, ← List.length_map Placed.file, map_file_placements]
    have hcount := hfits.count
    rw [imageChains_zero, hrefs, Vol.fref_cons]
    split_ifs with hi'
    · rw [hi.root_ref hfits hi']
      by_cases hin : i < files.length
      · rw [List.getD_eq_getElem _ _ (by omega)]
        obtain ⟨p, hp, hpe⟩ := List.mem_map.1 (List.getElem_mem (by omega : i < ((imagePlacements fssizeBlocks files).map Placed.e).length))
        have hpos := (hfits.bounds hp).1
        exact iff_of_true (by omega) hin
      · rw [List.getD_eq_default _ _ (by omega)]
        exact iff_of_false (fun h => h rfl) hin
    · exact iff_of_false (fun h => h rfl) (by omega)
  · obtain ⟨hfile, -, hsize, -⟩ := hi.head hfits hp
    obtain ⟨-, -, h3, -⟩ := hfits.bounds hp
    have hrefs : (V.ent p.e).refs = p.blocks := by rw [Block.refs, if_pos hfile, hsize, neededBlocks_eq, Placed.blocks, fileBlocks]
    rw [imagePlacements, imageChains_of_mem Nat.one_pos hp, hi.fref hfits hp, hrefs]
    split_ifs with hi'
    · exact iff_of_true (by omega) hi'
    · exact iff_of_false (fun h => h rfl) hi'

include hi hfits in
/-- The number of references of a file. -/
theorem Vol.ImageOf.refs {p : Placed} (hp : p ∈ imagePlacements fssizeBlocks files) : (V.ent p.e).refs = p.blocks := by
  obtain ⟨hfile, -, hsize, -⟩ := hi.head hfits hp
  rw [Block.refs, if_pos hfile, hsize, neededBlocks_eq, Placed.blocks, fileBlocks]

include hi hfits in
/-- A head with the flags of a file is the first entry of one. -/
theorem Vol.ImageOf.file_of_head {h : Nat} (hh : imageChains (imagePlacements fssizeBlocks files) h ≠ [])
    (hk : (V.ent h).flags = tFile) : ∃ p ∈ imagePlacements fssizeBlocks files, p.e = h := by
  refine ((imageChains_ne_nil Nat.one_pos).1 hh).resolve_left ?_
  rintro rfl
  exact Vol.Format.tDir_ne_tFile ((hi.root_entry hfits).1.symm.trans hk)

include hi hfits in
theorem Vol.ImageOf.separate : V.Separate (imageChains (imagePlacements fssizeBlocks files)) := by
  intro h h' hh hh' hk hk' i h₁ i' h₂ heq
  obtain ⟨p, hp, rfl⟩ := hi.file_of_head hfits hh hk
  obtain ⟨q, hq, rfl⟩ := hi.file_of_head hfits hh' hk'
  have hpc : imageChains (imagePlacements fssizeBlocks files) p.e = List.range' p.e p.entries := imageChains_of_mem Nat.one_pos hp
  have hqc : imageChains (imagePlacements fssizeBlocks files) q.e = List.range' q.e q.entries := imageChains_of_mem Nat.one_pos hq
  rw [hi.refs hfits hp] at h₁
  rw [hi.refs hfits hq] at h₂
  rw [hpc, hqc, hi.fref hfits hp, hi.fref hfits hq, if_pos h₁, if_pos h₂] at heq
  obtain rfl : p = q := (placements_apart hp hq).resolve_right (by omega)
  exact ⟨rfl, by omega⟩

/-- Files with the same name are the same. -/
theorem Searchable.placed_inj (hs : Searchable files) {p q : Placed} (hp : p ∈ imagePlacements fssizeBlocks files)
    (hq : q ∈ imagePlacements fssizeBlocks files) (h : p.file.baseName = q.file.baseName) : p = q := by
  have hnodup := hs.distinct
  rw [← map_file_placements files 1 (2 + mkfsEntries fssizeBlocks), List.map_map] at hnodup
  exact List.inj_on_of_nodup_map hnodup hp hq h

/-- The name of a file in an image is the one that it is searched for. -/
theorem Searchable.name (hs : Searchable files) {p : Placed} (hp : p ∈ imagePlacements fssizeBlocks files) :
    p.file.name = p.file.baseName := List.take_of_length_le (hs.short _ (mem_placements hp).1)

include hi hfits in
/-- An image is well-formed. -/
theorem Vol.ImageOf.wellFormed (hs : Searchable files) : V.WellFormed (imageChains (imagePlacements fssizeBlocks files)) := by
  obtain ⟨-, hpar0, -, hname0, -⟩ := hi.root_entry hfits
  have hne : ∀ {h}, imageChains (imagePlacements fssizeBlocks files) h ≠ [] →
      h = 0 ∨ ∃ p ∈ imagePlacements fssizeBlocks files, p.e = h := fun hh => (imageChains_ne_nil Nat.one_pos).1 hh
  have hname : ∀ {p}, p ∈ imagePlacements fssizeBlocks files → (V.ent p.e).nameStr = p.file.baseName := fun hp =>
    (hi.head hfits hp).2.1.trans (hs.name hp)
  have hnotRoot : ∀ {p}, p ∈ imagePlacements fssizeBlocks files → p.file.baseName ≠ rootDirName := fun hp =>
    hs.notRoot _ (mem_placements hp).1
  refine (hi.format hfits).wellFormed (fun h n hn => ?_) (fun h hh => ?_) (fun h hh => ?_) fun h h' hh hh' _ heq => ?_
  · rcases mem_imageChains Nat.one_pos hn with ⟨rfl, rfl⟩ | ⟨p, hp, rfl, k, hk, rfl⟩
    · rfl
    · rw [(hi.entry hfits hp hk).2.1, (hi.head hfits hp).2.1]
  · rcases hne hh with rfl | ⟨p, hp, rfl⟩
    · exact Forest.Under.refl _ _
    · refine Forest.Under.step ?_
      rw [(hi.head hfits hp).2.2.2]
      exact Forest.Under.refl _ _
  · rcases hne hh with rfl | ⟨p, hp, rfl⟩
    · rw [hname0]
      decide
    · rw [hname hp]
      exact ⟨(hfits.bounds hp).2.2.2.2.2.2.nonempty, Nat.lt_of_le_of_lt (hs.short _ (mem_placements hp).1) (by decide),
        p.file.sep_not_mem⟩
  · rcases hne hh with rfl | ⟨p, hp, rfl⟩
    · rcases hne hh' with rfl | ⟨q, hq, rfl⟩
      · rfl
      · exact absurd ((hname hq).symm.trans (heq.symm.trans hname0)) (hnotRoot hq)
    · rcases hne hh' with rfl | ⟨q, hq, rfl⟩
      · exact absurd ((hname hp).symm.trans (heq.trans hname0)) (hnotRoot hp)
      · rw [hname hp, hname hq] at heq
        rw [hs.placed_inj hp hq heq]

include hi hfits in
/-- An image has the invariants that `fs.h` describes. -/
theorem Vol.ImageOf.invariants (hs : Searchable files) : V.FsInvariants (imageChains (imagePlacements fssizeBlocks files)) := by
  refine ⟨hi.wellFormed hfits hs, fun h n hn => ?_, hi.packed hfits, hi.separate hfits⟩
  rcases mem_imageChains Nat.one_pos hn with ⟨rfl, rfl⟩ | ⟨p, hp, rfl, k, hk, rfl⟩
  · rfl
  · have hhead := hi.entries p hp 0 p.entries_pos
    rw [Nat.add_zero] at hhead
    rw [hi.entries p hp k hk, hhead]
    rfl

include hi hfits in
/-- The contents of a file. -/
theorem Vol.ImageOf.contents {p : Placed} (hp : p ∈ imagePlacements fssizeBlocks files) :
    V.fileBytes (List.range' p.e p.entries) 0 p.file.data.length = p.file.data := by
  refine List.ext_getElem (V.length_fileBytes _ _ _) fun i h1 h2 => ?_
  have hblock : i / 512 < p.blocks := by
    rw [Placed.blocks, fileBlocks]
    omega
  simp only [Vol.fileBytes, List.getElem_map, List.getElem_range]
  rw [Nat.zero_add, Vol.fileByte, hi.fref hfits hp, if_pos hblock, hi.bytes p hp i h2, List.getD_eq_getElem _ _ h2]

include hi hfits in
/-- `fs_read_file` finds a file of the image by its name, and reads what is in it. -/
theorem Vol.ImageOf.read (hs : Searchable files) {env : Env} {s : Sys} (hr : Ready env s env.systemDisk)
    (hV : s.disk env.systemDisk = V) {p : Placed} (hp : p ∈ imagePlacements fssizeBlocks files) (offset count : Nat) :
    (fsReadFile env p.file.baseName offset count).run s = .ok ((p.file.data.drop offset).take count) s := by
  have hw := hi.wellFormed hfits hs
  have hf := hi.format hfits
  have hchain : imageChains (imagePlacements fssizeBlocks files) p.e = List.range' p.e p.entries :=
    imageChains_of_mem Nat.one_pos hp
  have hhead : imageChains (imagePlacements fssizeBlocks files) p.e ≠ [] := (imageChains_ne_nil Nat.one_pos).2 (Or.inr ⟨p, hp, rfl⟩)
  obtain ⟨hfile, hname, hsize, hpar⟩ := hi.head hfits hp
  rw [hs.name hp] at hname
  have hdisk := hs.notDisk _ (mem_placements hp).1
  have hsep := p.file.sep_not_mem
  have hd : pathGetDisk env p.file.baseName = env.systemDisk := pathGetDisk_of_not_mem env hdisk hsep
  -- the name is found below the root, and only there
  have hlook : V.lookup 0 p.file.baseName = some p.e := by
    cases hl : V.lookup 0 p.file.baseName with
    | none => exact absurd hname (hf.free_of_lookup hl p.e hhead hpar)
    | some n =>
      obtain ⟨hn, hnpar, hnname⟩ := hf.head_of_lookup hf.root.2.1 hl
      rw [hw.unique n p.e hn hhead (hnpar.trans hpar.symm) (hnname.trans hname.symm)]
  have hres : V.resolve env p.file.baseName = some p.e := by
    rw [Vol.resolve, hdisk, if_neg Bool.false_ne_true, if_neg hsep, hlook]
  have hget := fsGetEntry_run hr hf.geo hd
  rw [hres] at hget
  obtain ⟨l, hl⟩ := hf.cons hhead
  have hread := fsReadFile_run hr hf.geo (hl ▸ hf.chain _ hhead) (hl ▸ hf.refs _ hhead hfile) hd hget (Block.isFile_of_flags hfile).1
    (by have := hf.fits _ hhead hfile; rw [hl, List.length_cons] at this; exact this) offset count
  rw [← hl, hsize, hchain, hi.contents hfits hp, ← hV, Sys.withVol_self] at hread
  exact hread

end Image

/-- The image that `mkfs` makes of files that fit and can be searched for has the invariants of `fs.h`, the kernel reads each file from
it by its name, and the first file is entry 1, in blocks that follow each other from the first boot block on. -/
theorem mkfs_readable {fssizeBlocks : Nat} {files : List HostFile} (hfits : Fits fssizeBlocks files) (hs : Searchable files)
    (boot : List UInt8) (past : Nat) :
    ∃ (V : Vol) (C : Nat → List Nat), mkfs fssizeBlocks boot files past = some V ∧ V.FsInvariants C ∧
      (∀ (env : Env) (s : Sys), Ready env s env.systemDisk → s.disk env.systemDisk = V → ∀ file ∈ files, ∀ offset count,
        (fsReadFile env file.baseName offset count).run s = .ok ((file.data.drop offset).take count) s) ∧
      ∀ file rest, files = file :: rest → C 1 ≠ [] ∧ (V.ent 1).nameStr = file.baseName ∧
        ∀ i < (V.ent 1).refs, V.fref (C 1) i = (V 1).super.bootstart + i := by
  obtain ⟨V, hrun, hi⟩ := mkfs_image hfits boot past
  refine ⟨V, imageChains (imagePlacements fssizeBlocks files), hrun, hi.invariants hfits hs, ?_, ?_⟩
  · intro env s hr hV file hfile offset count
    rw [← map_file_placements files 1 (2 + mkfsEntries fssizeBlocks)] at hfile
    obtain ⟨p, hp, rfl⟩ := List.mem_map.1 hfile
    exact hi.read hfits hs hr hV hp offset count
  · rintro file rest rfl
    obtain ⟨p, hpeq⟩ : ∃ p : Placed, p = { file := file, e := 1, b := 2 + mkfsEntries fssizeBlocks } := ⟨_, rfl⟩
    have hp : p ∈ imagePlacements fssizeBlocks (file :: rest) := hpeq ▸ List.mem_cons_self
    have hchain : imageChains (imagePlacements fssizeBlocks (file :: rest)) p.e = List.range' p.e p.entries :=
      imageChains_of_mem Nat.one_pos hp
    have hboot : (V 1).super.bootstart = p.b := by
      rw [hi.super, hpeq]
      simp only [mkfsSuper, blockSize]
      omega
    have hfirst : imageChains (imagePlacements fssizeBlocks (file :: rest)) p.e ≠ [] ∧ (V.ent p.e).nameStr = p.file.baseName ∧
        ∀ i < (V.ent p.e).refs, V.fref (imageChains (imagePlacements fssizeBlocks (file :: rest)) p.e) i =
          (V 1).super.bootstart + i := by
      refine ⟨(imageChains_ne_nil Nat.one_pos).2 (Or.inr ⟨p, hp, rfl⟩), ?_, fun i h => ?_⟩
      · rw [(hi.head hfits hp).2.1, hs.name hp]
      · rw [hi.refs hfits hp] at h
        rw [hchain, hi.fref hfits hp, if_pos h, hboot]
    rw [hpeq] at hfirst
    exact hfirst

/-- A kernel of three bytes and an empty file. -/
def sampleFiles : List HostFile := [{ path := [98, 47, 107], data := [10, 20, 30] }, { path := [103], data := [] }]

theorem sampleFiles_fit : Fits 50 sampleFiles ∧ Searchable sampleFiles := by
  have hnamed : ∀ file ∈ sampleFiles, file.baseName ≠ [] ∧ 0 ∉ file.baseName := by decide +kernel
  exact ⟨⟨by decide, by decide, by decide, fun file h => ⟨(hnamed file h).1, (hnamed file h).2⟩, by decide, by decide⟩,
    ⟨by decide +kernel, by decide +kernel, by decide +kernel, by decide +kernel⟩⟩

theorem mkfs_readable_sample : ∃ (V : Vol) (C : Nat → List Nat), mkfs 50 [] sampleFiles 0 = some V ∧ V.FsInvariants C := by
  obtain ⟨V, C, hrun, hinv, -⟩ := mkfs_readable sampleFiles_fit.1 sampleFiles_fit.2 [] 0
  exact ⟨V, C, hrun, hinv⟩

/-- A file of one byte with the name `hd0`. -/
def diskFile : HostFile := { path := [104, 100, 48], data := [7] }

/-- A system disk with this image. -/
def imageSys (V : Vol) : Sys := { disk := fun _ => V, faults := [], clock := fun _ => 7 }

/-- The kernel takes the name of the file for its disk, and does not find the file. -/
theorem mkfs_disk_unreadable : Fits 50 [diskFile] ∧ 1 ≤ diskFile.baseName.length ∧ diskFile.baseName.length ≤ 14 ∧
    ∃ V : Vol, mkfs 50 [] [diskFile] 0 = some V ∧ Ready sampleEnv (imageSys V) 2 ∧
      ((fsReadFile sampleEnv diskFile.baseName 0 1).run (imageSys V)).value = none := by
  have hnamed : ∀ file ∈ [diskFile], file.baseName ≠ [] ∧ 0 ∉ file.baseName := by decide +kernel
  have hfits : Fits 50 [diskFile] :=
    ⟨by decide, by decide, by decide, fun file h => ⟨(hnamed file h).1, (hnamed file h).2⟩, by decide, by decide⟩
  have hread : (mkfs 50 [] [diskFile] 0).map (fun V => (fsReadFile sampleEnv diskFile.baseName 0 1).run (imageSys V) |>.value) =
      some none := by decide +kernel
  obtain ⟨V, hrun, -⟩ := mkfs_image hfits [] 0
  rw [hrun] at hread
  exact ⟨hfits, by decide +kernel, by decide +kernel, V, hrun, ⟨by decide, by decide, rfl, Nat.le_refl _⟩, Option.some.inj hread⟩

end NanoS32
