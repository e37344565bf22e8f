import NanoS32.Boot.Loader
import NanoS32.Inv.Image
import NanoS32.Lemmas.Mem

/-!
# Booting

The boot sector reads single sectors through the BIOS, into a fixed part of the memory, and knows of the file system only where the
image starts. Whatever reads fail on the way, what it jumps to is the start of the first file that `mkfs` was given.
-/

namespace NanoS32

/-- The sector that a BIOS read at `ch`, `cl` and `dh` is for: the upper two bits of `cl` belong to the cylinder. -/
def BootBios.lba (bios : BootBios) (ch cl dh : UInt8) : Nat :=
  ((ch.toNat + 256 * (cl.toNat / 64)) * bios.sides + dh.toNat) * bios.sectors + (cl.toNat % 64 - 1)

/-- The registers are an address in the geometry of the disk. -/
structure BootBios.Address (bios : BootBios) (hts : Hts) : Prop where
  first : 1 ≤ hts.cl.toNat % 64
  sector : hts.cl.toNat % 64 ≤ bios.sectors
  head : hts.dh.toNat < bios.sides

section Boot

variable {bios : BootBios} {V : Vol}

/-- What the tries of a block have in common: they change nothing but the sector's part of the memory. -/
structure Boot.Retried (st st' : Boot) : Prop where
  ax : st'.ax = st.ax
  buffer : st'.buffer = st.buffer
  lastblock : st'.lastblock = st.lastblock
  mem : ∀ a, a < stageLoc + st.buffer.toNat ∨ stageLoc + st.buffer.toNat + 512 ≤ a → st'.mem a = st.mem a

theorem Boot.Retried.trans {st st' st'' : Boot} (h : st.Retried st') (h' : st'.Retried st'') : st.Retried st'' := by
  refine ⟨h'.ax.trans h.ax, h'.buffer.trans h.buffer, h'.lastblock.trans h.lastblock, fun a ha => ?_⟩
  rw [h'.mem a (by rw [h.buffer]; exact ha), h.mem a ha]

/-- The first `k` blocks from `start` on are in memory, and nothing is changed outside the part that 127 blocks take. -/
structure Boot.Loaded (V : Vol) (start : Nat) (mem : Mem) (k : Nat) (st : Boot) : Prop where
  ax : st.ax.toNat = start + k
  buffer : st.buffer.toNat = 512 * k
  lastblock : st.lastblock.toNat = start + 127
  bytes : ∀ i < 512 * k, st.mem (stageLoc + i) = (V (start + i / 512)).byte (i % 512)
  frame : ∀ a, a < stageLoc ∨ stageLoc + 65024 ≤ a → st.mem a = mem a

variable {start : Nat} {mem : Mem}

/-- One more block. -/
theorem Boot.Loaded.next {k : Nat} {st st' : Boot} (h : st.Loaded V start mem k) (hk : k < 127) (hstart : start + 127 < 65536)
    (hretried : st.Retried st') (hbytes : ∀ i < 512, st'.mem (stageLoc + st.buffer.toNat + i) = (V (start + k)).byte i) :
    Boot.Loaded V start mem (k + 1) { st' with ax := st'.ax + 1, buffer := st'.buffer + 512 } := by
  have hax := h.ax
  have hbuffer := h.buffer
  refine ⟨?_, ?_, ?_, fun i hi => ?_, fun a ha => ?_⟩
  · simp only [hretried.ax, UInt16.toNat_add, hax, UInt16.reduceToNat]
    omega
  · simp only [hretried.buffer, UInt16.toNat_add, hbuffer, UInt16.reduceToNat]
    omega
  · simp only [hretried.lastblock, h.lastblock]
  · by_cases hlast : i < 512 * k
    · simp only [hretried.mem (stageLoc + i) (Or.inl (by omega)), h.bytes i hlast]
    · have hi' := hbytes (i - 512 * k) (by omega)
      rw [hbuffer, show stageLoc + 512 * k + (i - 512 * k) = stageLoc + i by omega] at hi'
      rw [show i / 512 = k by omega, show i % 512 = i - 512 * k by omega]
      exact hi'
  · simp only [hretried.mem a (by omega), h.frame a ha]

end Boot

/-- A BIOS without failures, for a disk of 63 sectors on a track and two sides. -/
def Vol.bios (V : Vol) : BootBios where
  params := { cx := 0x003F, dx := 0x0100, eflags := 0 }
  read _ ch cl dh := { carry := false, stored := some (V (((ch.toNat + 256 * (cl.toNat / 64)) * 2 + dh.toNat) * 63 + (cl.toNat % 64 - 1))) }
  reset _ := true

end NanoS32
