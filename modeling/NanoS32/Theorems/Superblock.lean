import NanoS32.Hwio.Geometry
import NanoS32.Lemmas.Fresh
import NanoS32.Fs.Small

/-!
# The superblock of a new file system

What `fs_format` writes into block 1, for every geometry. The size of the disk in bytes is computed in 32 bits before it is
divided, so a disk of 4 GB or more gets the table of a disk that is 4 GB smaller.
-/

namespace NanoS32

open Prog

/-- The superblock that belongs to a geometry: the table takes a tenth of the disk and at most 1024 entries, and there is a data
block after it. -/
structure DiskInfo.Proper (info : DiskInfo) (sb : SfsSuperblock) : Prop where
  size : sb.size = info.total
  nentries : sb.nentries = min (info.total / 10) 1024
  root : 2 ≤ sb.nentries
  bootstart : sb.bootstart = 2 + sb.nentries
  data : sb.bootstart < sb.size

/-! ## The numbers in it -/

/-- The largest geometry has less than 2^24 sectors. -/
theorem DiskInfo.Reported.total_lt {info : DiskInfo} (h : info.Reported) : info.total < 16777216 := by
  have h1 : info.sectors * info.sides ≤ 63 * 256 := Nat.mul_le_mul h.sectors.2 h.sides.2
  have h2 : info.sectors * info.sides * info.cylinders ≤ 63 * 256 * 1024 := Nat.mul_le_mul h1 h.cylinders.2
  unfold DiskInfo.total
  omega

/-- The number of entries is computed from the size modulo 2^23 blocks. -/
theorem formatSuper_eq {info : DiskInfo} (h : info.total < 16777216) :
    formatSuper info =
      { type := sfsTypeId
        size := info.total
        nentries := min (info.total % 8388608 / 10) 1024
        bootstart := 2 + min (info.total % 8388608 / 10) 1024 } := by
  have hsize : wrap32 (info.sectors * info.sides * info.cylinders) / (blockSize / diskSectorSize) = info.total := by
    have hdiv : blockSize / diskSectorSize = 1 := rfl
    have hlt : info.sectors * info.sides * info.cylinders < 4294967296 := h.trans (by decide)
    rw [hdiv, Nat.div_one, wrap32_of_lt hlt, DiskInfo.total]
  have hnentries : wrap32 (info.total * blockSize) / 10 / blockSize = info.total % 8388608 / 10 := by
    have hwrap : wrap32 (info.total * blockSize) = info.total % 8388608 * blockSize :=
      Nat.mul_mod_mul_right blockSize info.total 8388608
    rw [hwrap, Nat.div_div_eq_div_mul]
    exact Nat.mul_div_mul_right _ _ (by decide)
  have hboot : ∀ n, n * blockSize / blockSize = n := fun n => Nat.mul_div_cancel n (by decide)
  unfold formatSuper
  simp only [hsize, hnentries, hboot]

/-- The superblock is the one of the geometry just when the disk is smaller than 4 GB, or larger by what a full table needs. -/
theorem formatSuper_proper {info : DiskInfo} (h : info.Reported) (h40 : 40 ≤ info.total) :
    info.Proper (formatSuper info) ↔ info.total < 8388608 ∨ 8398848 ≤ info.total := by
  have hlt := h.total_lt
  rw [formatSuper_eq hlt]
  constructor
  · intro hp
    have hn := hp.nentries
    simp only at hn
    omega
  · intro hc
    exact ⟨rfl, by simp only; omega, by simp only; omega, rfl, by simp only; omega⟩

/-- `fs_format` writes the superblock of the geometry just when the disk has less than 2^23 sectors, or at least 10240 more. -/
theorem fs_format_superblock {env : Env} {disk : Nat} {s s' : Sys} {u : Unit} (hgeo : (env.diskInfo disk).Reported)
    (h40 : 40 ≤ (env.diskInfo disk).total) (hrun : (formatEmpty env disk).run s = .ok u s') :
    (env.diskInfo disk).Proper (s'.disk disk 1).super ↔
      (env.diskInfo disk).total < 8388608 ∨ 8398848 ≤ (env.diskInfo disk).total := by
  have hlt := hgeo.total_lt
  have hread : (Block.ofSuper (formatSuper (env.diskInfo disk))).super = formatSuper (env.diskInfo disk) := by
    rw [formatSuper_eq hlt]
    exact super_ofSuper (show sfsTypeId < 4294967296 by decide) (by simp only; omega) (by simp only; omega) (by simp only; omega)
  rw [(formatEmpty_eq_ok hrun).1, hread]
  exact formatSuper_proper hgeo h40

/-- A disk of exactly 4 GB: 32 sectors, 256 heads, 1024 cylinders. -/
def fourGbEnv : Env :=
  { smallEnv with
    diskInfo := fun d => if d = 3 then { sectors := 32, sides := 256, cylinders := 1024, size := 4096 } else smallEnv.diskInfo d }

/-- The superblock that a format of a disk of zeros leaves. -/
def formattedSuper (env : Env) (disk : Nat) : SfsSuperblock :=
  (((formatEmpty env disk).run { disk := fun _ _ => Block.zero, faults := [], clock := fun _ => 7 }).after.disk disk 1).super

theorem fs_format_superblock_small : (smallEnv.diskInfo 2).Proper (smallSys.disk 2 1).super ↔
    (smallEnv.diskInfo 2).total < 8388608 ∨ 8398848 ≤ (smallEnv.diskInfo 2).total := by
  have hrun : (match (formatEmpty smallEnv 2).run { disk := fun _ _ => Block.zero, faults := [], clock := fun _ => 7 } with
      | .ok _ _ => true
      | _ => false) = true := by decide +kernel
  cases h : (formatEmpty smallEnv 2).run { disk := fun _ _ => Block.zero, faults := [], clock := fun _ => 7 } with
  | ok u s' =>
    have hs : smallSys = s' := by rw [smallSys, h]; rfl
    rw [hs]
    exact fs_format_superblock ⟨by decide, by decide, by decide⟩ (by decide) h
  | error code s' =>
    rw [h] at hrun
    cases hrun
  | stuck s' =>
    rw [h] at hrun
    cases hrun

/-- The table of a disk of exactly 4 GB has no entries. -/
theorem fs_format_superblock_wraps : (fourGbEnv.diskInfo 3).Reported ∧ 40 ≤ (fourGbEnv.diskInfo 3).total ∧
    formattedSuper fourGbEnv 3 = { type := sfsTypeId, size := 8388608, nentries := 0, bootstart := 2 } ∧
      ¬(fourGbEnv.diskInfo 3).Proper (formattedSuper fourGbEnv 3) := by
  have hs : formattedSuper fourGbEnv 3 = { type := sfsTypeId, size := 8388608, nentries := 0, bootstart := 2 } := by
    decide +kernel
  refine ⟨⟨by decide, by decide, by decide⟩, by decide, hs, fun hp => ?_⟩
  have hroot := hp.root
  rw [hs] at hroot
  exact absurd hroot (by decide)

end NanoS32
