import NanoS32.Hwio.Geometry
import NanoS32.Lemmas.Mem

/-!
# Sector addresses

The BIOS path of the sector transfers turns a sector number into a cylinder, a head and a sector, and packs them into two
registers. With the layout that `disk_get_info` reads its reply by, the registers give back the sector number.
-/

namespace NanoS32

/-! ## The layout of the registers -/

/-- The sector in `regs.cx`. -/
def cxSector (cx : UInt16) : Nat := cx.toNat &&& 0x3F

/-- The cylinder in `regs.cx`, under the layout of `disk_get_info`. -/
def cxCylinder (cx : UInt16) : Nat := (cx.toNat &&& 0xFF00) >>> 8 ||| (cx.toNat &&& 0xC0) <<< 2

/-- The head and the disk in `regs.dx`. -/
def dxHead (dx : UInt16) : Nat := (dx.toNat &&& 0xFF00) >>> 8
def dxDisk (dx : UInt16) : Nat := dx.toNat &&& 0xFF

theorem and_3f (n : Nat) : n &&& 0x3F = n % 64 := Nat.and_two_pow_sub_one_eq_mod n 6

theorem and_ff (n : Nat) : n &&& 0xFF = n % 256 := Nat.and_two_pow_sub_one_eq_mod n 8

theorem and_c0 (n : Nat) : n &&& 0xC0 = n / 64 % 4 * 64 := by
  have hbyte : ∀ y < 256, y &&& 0xC0 = y / 64 * 64 := by decide +kernel
  have hmask : n &&& 0xC0 = n % 256 &&& 0xC0 := by
    rw [← and_ff, Nat.and_assoc]
    rfl
  rw [hmask, hbyte _ (Nat.mod_lt _ (by decide))]
  omega

theorem and_300_shiftRight (n : Nat) : (n &&& 0x300) >>> 2 = n / 256 % 4 * 64 := by
  have hmask : (0x300 : Nat) >>> 2 = 0xC0 := rfl
  rw [Nat.shiftRight_and_distrib, hmask, and_c0, Nat.shiftRight_eq_div_pow]
  omega

/-- `regs.cx`, as a number: the low byte of the cylinder, its high bits, and the sector. -/
theorem Chs.cx_toNat {chs : Chs} (hc : chs.cylinder < 1024) (hs : chs.sector < 64) :
    chs.cx.toNat = chs.cylinder % 256 * 256 + chs.cylinder / 256 * 64 + chs.sector := by
  have hhigh : chs.cylinder / 256 % 4 = chs.cylinder / 256 := Nat.mod_eq_of_lt (by omega)
  have hlow : chs.sector ||| chs.cylinder / 256 * 64 = chs.cylinder / 256 * 64 + chs.sector := by
    have hsum := Nat.shiftLeft_add_eq_or_of_lt (i := 6) hs (chs.cylinder / 256)
    rw [Nat.shiftLeft_eq] at hsum
    rw [Nat.or_comm]
    exact hsum.symm
  have hlt : chs.cylinder / 256 * 64 + chs.sector < 2 ^ 8 := by omega
  have hall := Nat.shiftLeft_add_eq_or_of_lt hlt (chs.cylinder % 256)
  rw [Chs.cx, and_ff, and_3f, and_300_shiftRight, Nat.mod_eq_of_lt hs, hhigh, Nat.or_assoc, hlow, ← hall, Nat.shiftLeft_eq,
    UInt16.toNat_ofNat']
  omega

/-- `regs.dx`, as a number: the head and the disk. -/
theorem Chs.dx_toNat {chs : Chs} {hwdisk : Nat} (hh : chs.head < 256) (hd : hwdisk < 256) :
    (chs.dx hwdisk).toNat = chs.head * 256 + hwdisk := by
  have hsum := Nat.shiftLeft_add_eq_or_of_lt (i := 8) hd chs.head
  rw [Chs.dx, ← hsum, Nat.shiftLeft_eq, UInt16.toNat_ofNat']
  omega

/-- The registers give back what was packed into them. -/
theorem Chs.decode (chs : Chs) {hwdisk : Nat} (hc : chs.cylinder < 1024) (hs : chs.sector < 64) (hh : chs.head < 256)
    (hd : hwdisk < 256) :
    cxCylinder chs.cx = chs.cylinder ∧ cxSector chs.cx = chs.sector ∧ dxHead (chs.dx hwdisk) = chs.head ∧
      dxDisk (chs.dx hwdisk) = hwdisk := by
  have hcx := Chs.cx_toNat hc hs
  have hdx := Chs.dx_toNat hh hd
  have hlow : chs.cylinder % 256 < 256 := Nat.mod_lt _ (by decide)
  have hhigh : chs.cylinder / 256 < 4 := by omega
  refine ⟨?_, ?_, ?_, ?_⟩
  · have hdiv : chs.cx.toNat / 256 = chs.cylinder % 256 := by omega
    have hbyte : chs.cx.toNat / 256 % 256 = chs.cylinder % 256 := by rw [hdiv, Nat.mod_eq_of_lt hlow]
    have htop : chs.cx.toNat / 64 % 4 = chs.cylinder / 256 := by omega
    have hsum := Nat.shiftLeft_add_eq_or_of_lt (i := 8) hlow (chs.cylinder / 256)
    rw [Nat.shiftLeft_eq] at hsum
    rw [cxCylinder, and_ff00_shiftRight, and_c0, hbyte, htop, Nat.shiftLeft_eq, Nat.or_comm, Nat.mul_assoc]
    refine hsum.symm.trans ?_
    omega
  · rw [cxSector, and_3f]
    omega
  · rw [dxHead, and_ff00_shiftRight]
    omega
  · rw [dxDisk, and_ff]
    omega

/-! ## The coordinates -/

/-- The coordinates of a sector of a disk are in its geometry, and number it. -/
theorem lbaToChs_spec {lba spt nh cyls : Nat} (h : lba < spt * nh * cyls) :
    ∃ chs, lbaToChs lba spt nh = some chs ∧ chs.cylinder < cyls ∧ chs.head < nh ∧ (1 ≤ chs.sector ∧ chs.sector ≤ spt) ∧
      (chs.cylinder * nh + chs.head) * spt + chs.sector - 1 = lba := by
  have hspt : 0 < spt := Nat.pos_of_ne_zero fun h0 => by simp [h0] at h
  have hnh : 0 < nh := Nat.pos_of_ne_zero fun h0 => by simp [h0] at h
  have htrap : ¬(spt = 0 ∨ nh = 0) := by omega
  refine ⟨_, if_neg htrap, ?_, Nat.mod_lt _ hnh, ⟨Nat.le_add_right 1 _, ?_⟩, ?_⟩
  · rw [Nat.div_div_eq_div_mul]
    exact Nat.div_lt_of_lt_mul h
  · have hmod := Nat.mod_lt lba hspt
    dsimp only
    omega
  · have hcoord : lba / spt / nh * nh + lba / spt % nh = lba / spt := Nat.div_add_mod' (lba / spt) nh
    have hlba : lba / spt * spt + lba % spt = lba := Nat.div_add_mod' lba spt
    dsimp only
    rw [hcoord]
    omega

/-- A disk that is accepted and is not transferred to by the ATA path has no zero in its geometry. -/
theorem accepted_geometry {i : Nat} {regs : Regs16} {ataSectors : Nat} (h : (initDiskInfo i regs ataSectors).size ≠ 0)
    (hbios : initIsATA i regs ataSectors = false) :
    (initDiskInfo i regs ataSectors).sectors ≠ 0 ∧ (initDiskInfo i regs ataSectors).sides ≠ 0 := by
  rw [initDiskInfo] at h ⊢
  by_cases hresult : (diskGetInfo regs).1 = noError
  · have hata : ¬(2 ≤ i ∧ 0 < ataSectors) := by
      intro hata
      simp [initIsATA, hresult, hata] at hbios
    simp only [if_pos hresult, if_neg hata] at h ⊢
    constructor
    · intro h0
      rw [h0, Nat.zero_mul, Nat.zero_mul] at h
      exact h rfl
    · intro h0
      rw [h0, Nat.mul_zero, Nat.zero_mul] at h
      exact h rfl
  · simp only [if_neg hresult] at h
    exact absurd rfl h

/-! ## Addresses -/

/-- The number of sectors of a geometry. -/
def DiskGeometry.total (g : DiskGeometry) : Nat := g.sectorNum * g.headNum * g.cylinderNum

/-- The registers address a sector inside a geometry. -/
structure DiskGeometry.Holds (g : DiskGeometry) (cx dx : UInt16) : Prop where
  cylinder : cxCylinder cx < g.cylinderNum
  head : dxHead dx < g.headNum
  sector : 1 ≤ cxSector cx ∧ cxSector cx ≤ g.sectorNum

/-- The number of the sector that the registers address. -/
def DiskGeometry.sectorNumber (g : DiskGeometry) (cx dx : UInt16) : Nat :=
  (cxCylinder cx * g.headNum + dxHead dx) * g.sectorNum + cxSector cx - 1

/-- The registers of a transfer address its sector. -/
theorem lbaToChs_address (regs : Regs16) {hwdisk lba : Nat} (hd : hwdisk < 256) (h : lba < (diskGetInfo regs).2.total) :
    ∃ chs, lbaToChs lba (diskGetInfo regs).2.sectorNum (diskGetInfo regs).2.headNum = some chs ∧
      (diskGetInfo regs).2.Holds chs.cx (chs.dx hwdisk) ∧
      (diskGetInfo regs).2.sectorNumber chs.cx (chs.dx hwdisk) = lba ∧ dxDisk (chs.dx hwdisk) = hwdisk := by
  obtain ⟨hsectors, hsides, hcylinders⟩ := diskGetInfo_ranges regs
  obtain ⟨chs, hchs, hc, hh, hs, hnum⟩ := lbaToChs_spec h
  obtain ⟨h1, h2, h3, h4⟩ := Chs.decode chs (by omega) (by omega) (by omega) hd
  refine ⟨chs, hchs, ⟨?_, ?_, ?_⟩, ?_, h4⟩
  · rwa [h1]
  · rwa [h3]
  · rwa [h2]
  · rw [DiskGeometry.sectorNumber, h1, h2, h3, hnum]

/-- For every geometry that `disk_get_info` returns, the registers of a BIOS transfer of one of its sectors decode to coordinates
inside the geometry that number this sector, and to the disk; so different sectors have different registers. And `lba_to_chs`
does not divide by zero for a disk that the transfers accept. -/
theorem chs_addresses :
    (∀ (regs : Regs16) (hwdisk lba : Nat), hwdisk < 256 → lba < (diskGetInfo regs).2.total →
      ∃ chs, lbaToChs lba (diskGetInfo regs).2.sectorNum (diskGetInfo regs).2.headNum = some chs ∧
        (diskGetInfo regs).2.Holds chs.cx (chs.dx hwdisk) ∧
        (diskGetInfo regs).2.sectorNumber chs.cx (chs.dx hwdisk) = lba ∧ dxDisk (chs.dx hwdisk) = hwdisk) ∧
    (∀ (regs : Regs16) (hwdisk lba lba' : Nat) (chs chs' : Chs), hwdisk < 256 → lba < (diskGetInfo regs).2.total →
      lba' < (diskGetInfo regs).2.total → lba ≠ lba' →
      lbaToChs lba (diskGetInfo regs).2.sectorNum (diskGetInfo regs).2.headNum = some chs →
      lbaToChs lba' (diskGetInfo regs).2.sectorNum (diskGetInfo regs).2.headNum = some chs' →
      (chs.cx, chs.dx hwdisk) ≠ (chs'.cx, chs'.dx hwdisk)) ∧
    ∀ (i : Nat) (regs : Regs16) (ataSectors lba : Nat), (initDiskInfo i regs ataSectors).size ≠ 0 →
      initIsATA i regs ataSectors = false →
      lbaToChs lba (initDiskInfo i regs ataSectors).sectors (initDiskInfo i regs ataSectors).sides ≠ none := by
  refine ⟨fun regs _ _ hd h => lbaToChs_address regs hd h, ?_, ?_⟩
  · intro regs hwdisk lba lba' chs chs' hd h h' hne hchs hchs' heq
    obtain ⟨a, ha, _, hnum, _⟩ := lbaToChs_address regs hd h
    obtain ⟨b, hb, _, hnum', _⟩ := lbaToChs_address regs hd h'
    obtain rfl : chs = a := Option.some.inj (hchs.symm.trans ha)
    obtain rfl : chs' = b := Option.some.inj (hchs'.symm.trans hb)
    obtain ⟨hcx, hdx⟩ := Prod.mk.inj heq
    rw [hcx, hdx, hnum'] at hnum
    exact hne hnum.symm
  · intro i regs ataSectors lba h hbios
    obtain ⟨hsectors, hsides⟩ := accepted_geometry h hbios
    have htrap : ¬((initDiskInfo i regs ataSectors).sectors = 0 ∨ (initDiskInfo i regs ataSectors).sides = 0) := by
      rintro (h0 | h0)
      · exact hsectors h0
      · exact hsides h0
    rw [lbaToChs, if_neg htrap]
    exact Option.some_ne_none _

/-- The reply of a floppy disk of 80 cylinders, 2 heads and 18 sectors. -/
def floppyRegs : Regs16 := { cx := 0x4F12, dx := 0x0101, eflags := 0 }

theorem chs_addresses_floppy :
    ∃ chs, lbaToChs 2879 18 2 = some chs ∧ (diskGetInfo floppyRegs).2.Holds chs.cx (chs.dx 0) ∧
      (diskGetInfo floppyRegs).2.sectorNumber chs.cx (chs.dx 0) = 2879 ∧ dxDisk (chs.dx 0) = 0 :=
  chs_addresses.1 floppyRegs 0 2879 (by decide) (by decide)

end NanoS32
