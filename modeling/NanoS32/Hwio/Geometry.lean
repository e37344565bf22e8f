import NanoS32.Hwio.Disk
import Mathlib.Data.Nat.Bitwise

/-!
# Geometries

What `disk_get_info` reports of a disk: the geometry that the BIOS returns in the registers, which `io_disks_init_info` keeps.
-/

namespace NanoS32

/-- The registers of `regs16_t` that a BIOS call for the parameters of a disk returns them in. -/
structure Regs16 where
  cx : UInt16
  dx : UInt16
  eflags : UInt16

def eflagCf : Nat := 0x001

/-- `diskinfo_t`. -/
structure DiskGeometry where
  cylinderNum : Nat
  headNum : Nat
  sectorNum : Nat
  deriving DecidableEq

/-- `disk_get_info`, from the registers after the BIOS call: what it returns, and what it stores. -/
def diskGetInfo (regs : Regs16) : Nat × DiskGeometry :=
  if regs.eflags.toNat &&& eflagCf = 0 then
    (noError,
      { headNum := 1 + (regs.dx.toNat &&& 0xFF00) >>> 8
        sectorNum := regs.cx.toNat &&& 0x3F
        cylinderNum := 1 + ((regs.cx.toNat &&& 0xFF00) >>> 8 ||| (regs.cx.toNat &&& 0xC0) <<< 2) })
  else (errorIo, { cylinderNum := 0, headNum := 0, sectorNum := 0 })

/-- The information that `io_disks_init_info` keeps of disk `i`, when `ATA_detect` finds a disk of `ataSectors` sectors, or
finds none and returns 0. -/
def initDiskInfo (i : Nat) (regs : Regs16) (ataSectors : Nat) : DiskInfo :=
  let (result, dinfo) := diskGetInfo regs
  if result = noError then
    { sectors := dinfo.sectorNum, sides := dinfo.headNum, cylinders := dinfo.cylinderNum
      size :=
        if 2 ≤ i ∧ 0 < ataSectors then wrap32 (ataSectors * diskSectorSize) / (1024 * 1024)
        else wrap32 (dinfo.sectorNum * dinfo.headNum * dinfo.cylinderNum) / (1048576 / diskSectorSize) }
  else { sectors := 0, sides := 0, cylinders := 0, size := 0 }

/-- `isATA`, as `io_disks_init_info` sets it. -/
def initIsATA (i : Nat) (regs : Regs16) (ataSectors : Nat) : Bool :=
  (diskGetInfo regs).1 = noError && 2 ≤ i && 0 < ataSectors

/-- `chs_t`. -/
structure Chs where
  cylinder : Nat
  head : Nat
  sector : Nat
  deriving DecidableEq

/-- `lba_to_chs`, or nothing when it divides by zero. -/
def lbaToChs (lba spt nh : Nat) : Option Chs :=
  if spt = 0 ∨ nh = 0 then none
  else
    let temp := lba / spt
    some { sector := 1 + lba % spt, head := temp % nh, cylinder := temp / nh }

/-- The value of `regs.cx` in a BIOS transfer of a sector. -/
def Chs.cx (chs : Chs) : UInt16 :=
  UInt16.ofNat (((chs.cylinder &&& 0xFF) <<< 8 ||| chs.sector &&& 0x3F) ||| (chs.cylinder &&& 0x300) >>> 2)

/-- The value of `regs.dx` in a BIOS transfer of a sector. -/
def Chs.dx (chs : Chs) (hwdisk : Nat) : UInt16 := UInt16.ofNat (chs.head <<< 8 ||| hwdisk)

/-- The ranges of a geometry. -/
structure DiskInfo.Reported (info : DiskInfo) : Prop where
  sectors : 1 ≤ info.sectors ∧ info.sectors ≤ 63
  sides : 1 ≤ info.sides ∧ info.sides ≤ 256
  cylinders : 1 ≤ info.cylinders ∧ info.cylinders ≤ 1024

/-- The total number of sectors. -/
def DiskInfo.total (info : DiskInfo) : Nat := info.sectors * info.sides * info.cylinders

theorem and_ff00_shiftRight (n : Nat) : (n &&& 0xFF00) >>> 8 = n / 256 % 256 := by
  have h : (0xFF00 : Nat) >>> 8 = 0xFF := rfl
  have hmask : ∀ m : Nat, m &&& 0xFF = m % 256 := fun m => Nat.and_two_pow_sub_one_eq_mod m 8
  rw [Nat.shiftRight_and_distrib, h, hmask, Nat.shiftRight_eq_div_pow]

/-- A geometry that `disk_get_info` returns is within what the registers can hold. -/
theorem diskGetInfo_ranges (regs : Regs16) :
    (diskGetInfo regs).2.sectorNum ≤ 63 ∧ (diskGetInfo regs).2.headNum ≤ 256 ∧ (diskGetInfo regs).2.cylinderNum ≤ 1024 := by
  have hsectors : regs.cx.toNat &&& 0x3F ≤ 63 := Nat.and_le_right
  have hlow : (regs.cx.toNat &&& 0xFF00) >>> 8 < 2 ^ 10 := by
    rw [and_ff00_shiftRight]
    omega
  have hhigh : (regs.cx.toNat &&& 0xC0) <<< 2 < 2 ^ 10 := by
    have h : regs.cx.toNat &&& 0xC0 ≤ 0xC0 := Nat.and_le_right
    rw [Nat.shiftLeft_eq]
    omega
  have hcylinders : 1 + ((regs.cx.toNat &&& 0xFF00) >>> 8 ||| (regs.cx.toNat &&& 0xC0) <<< 2) ≤ 1024 := by
    have hor := Nat.or_lt_two_pow hlow hhigh
    omega
  have hsides : 1 + (regs.dx.toNat &&& 0xFF00) >>> 8 ≤ 256 := by
    rw [and_ff00_shiftRight]
    omega
  unfold diskGetInfo
  split
  · exact ⟨hsectors, hsides, hcylinders⟩
  · exact ⟨Nat.zero_le _, Nat.zero_le _, Nat.zero_le _⟩

/-- What is kept of a disk that answers the call with a sector count is in the ranges. -/
theorem initDiskInfo_reported {i : Nat} {regs : Regs16} {ataSectors : Nat}
    (h : (initDiskInfo i regs ataSectors).sectors ≠ 0) : (initDiskInfo i regs ataSectors).Reported := by
  obtain ⟨hsectors, hsides, hcylinders⟩ := diskGetInfo_ranges regs
  rw [initDiskInfo] at h ⊢
  unfold diskGetInfo at h hsectors hsides hcylinders ⊢
  by_cases hcf : regs.eflags.toNat &&& eflagCf = 0
  · simp only [if_pos hcf, if_true] at h hsectors hsides hcylinders ⊢
    exact ⟨⟨Nat.one_le_iff_ne_zero.2 h, hsectors⟩, ⟨Nat.le_add_right 1 _, hsides⟩, ⟨Nat.le_add_right 1 _, hcylinders⟩⟩
  · have hne : errorIo ≠ noError := by decide
    simp only [if_neg hcf, if_neg hne] at h
    exact absurd rfl h

end NanoS32
