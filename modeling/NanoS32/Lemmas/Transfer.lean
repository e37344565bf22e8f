import NanoS32.Hwio.Transfer
import NanoS32.Lemmas.Bytes
import NanoS32.Lemmas.Mem
import NanoS32.Lemmas.Sector

/-!
# Transfers through memory

`io_disk_read` and `io_disk_write` on the memory do to the disks what they do on the bytes of the buffer, in the order of the
transfers and with every failure, and to the memory what the bytes say.
-/

namespace NanoS32

/-! ## Parts of sectors -/

/-- The bytes that a request has in its first sector when that is read and changed. -/
def headSize (offset size : Nat) : Nat :=
  if offset % diskSectorSize = 0 then 0 else min (diskSectorSize - offset % diskSectorSize) size

namespace Mem

/-- The `n` bytes at `p`, as a list. -/
def load (m : Mem) (p n : Nat) : List UInt8 := (List.range n).map fun i => m (p + i)

@[simp] theorem length_load (m : Mem) (p n : Nat) : (m.load p n).length = n := by simp [load]

theorem load_add (m : Mem) (p n k : Nat) : m.load p (n + k) = m.load p n ++ m.load (p + n) k := by
  simp only [load, List.range_add, List.map_append, List.map_map]
  congr 1
  refine List.map_congr_left fun i _ => ?_
  simp only [Function.comp_apply, Nat.add_assoc]

theorem load_congr {m m' : Mem} {p n : Nat} (h : ∀ a, p ≤ a → a < p + n → m a = m' a) : m.load p n = m'.load p n := by
  refine List.map_congr_left fun i hi => ?_
  rw [List.mem_range] at hi
  exact h _ (by omega) (by omega)

end Mem

/-- A block depends on the first 512 bytes of a list. -/
theorem ofBytes_take (buff : List UInt8) :
    (Block.ofBytes fun i => (buff.take 512).getD i 0) = Block.ofBytes fun i => buff.getD i 0 := by
  refine Block.ext_bytes fun i hi => ?_
  rw [Block.byte_ofBytes _ hi, Block.byte_ofBytes _ hi]
  simp only [List.getD_eq_getElem?_getD, List.getElem?_take, if_pos hi]

namespace Driver

/-- An address of `disk_buff`. -/
def Own (drv : Driver) (a : Nat) : Prop := drv.diskBuff ≤ a ∧ a < drv.diskBuff + diskSectorSize

/-- A buffer that does not overlap `disk_buff`. -/
def Apart (drv : Driver) (p n : Nat) : Prop := ∀ a, p ≤ a → a < p + n → ¬drv.Own a

theorem Apart.sub {drv : Driver} {p n q k : Nat} (h : drv.Apart p n) (hq : p ≤ q) (hk : q + k ≤ p + n) : drv.Apart q k :=
  fun a ha ha' => h a (Nat.le_trans hq ha) (Nat.lt_of_lt_of_le ha' hk)

end Driver

namespace Bus

/-- The program `x` does to the disks what `y` does with some `n` bytes, and changes no memory but `disk_buff`. The bytes are
those at `p` if `A` holds. -/
def Copies (drv : Driver) (A : Prop) (x : Prog Bus Nat) (y : List UInt8 → FsM Nat) (s : Bus) (p n : Nat) : Prop :=
  ∃ data r t, data.length = n ∧ (A → data = s.mem.load p n) ∧ x.run s = .ok r t ∧ (y data).run s.sys = .ok r t.sys ∧
    ∀ a, ¬drv.Own a → t.mem a = s.mem a

section Copies

variable {drv : Driver} {A : Prop}

theorem Copies.pure (r : Nat) (s : Bus) (p n : Nat) : Copies drv A (Pure.pure r) (fun _ => Pure.pure r) s p n :=
  ⟨s.mem.load p n, r, s, Mem.length_load .., fun _ => rfl, rfl, rfl, fun _ _ => rfl⟩

/-- One program after the other copies what is behind what the first copies. -/
theorem Copies.bind {x : Prog Bus Nat} {x' : Nat → Prog Bus Nat} {y : List UInt8 → FsM Nat} (y' : Nat → List UInt8 → FsM Nat)
    {s : Bus} {p n k : Nat} (hA : A → drv.Apart (p + n) k) (hx : Copies drv A x y s p n)
    (hx' : ∀ r t, x.run s = .ok r t → Copies drv A (x' r) (y' r) t (p + n) k) :
    Copies drv A (x >>= x') (fun data => y (data.take n) >>= fun r => y' r (data.drop n)) s p (n + k) := by
  obtain ⟨data, r, t, hlen, hdata, hrun, hsim, hmem⟩ := hx
  obtain ⟨data', r', t', hlen', hdata', hrun', hsim', hmem'⟩ := hx' r t hrun
  refine ⟨data ++ data', r', t', by rw [List.length_append, hlen, hlen'], fun ha => ?_, ?_, ?_, fun a ha => ?_⟩
  · rw [hdata ha, hdata' ha, Mem.load_add]
    congr 1
    exact Mem.load_congr fun a h h' => hmem a (hA ha a h h')
  · rw [Prog.bind_ok hrun, hrun']
  · have htake : (data ++ data').take n = data := by rw [← hlen, List.take_left]
    have hdrop : (data ++ data').drop n = data' := by rw [← hlen, List.drop_left]
    dsimp only
    rw [htake, hdrop, Prog.bind_ok hsim, hsim']
  · rw [hmem' a ha, hmem a ha]

theorem Copies.congr {x : Prog Bus Nat} {y y' : List UInt8 → FsM Nat} {s : Bus} {p n : Nat} (h : Copies drv A x y s p n)
    (hy : ∀ data : List UInt8, data.length = n → y data = y' data) : Copies drv A x y' s p n := by
  obtain ⟨data, r, t, hlen, hdata, hrun, hsim, hmem⟩ := h
  exact ⟨data, r, t, hlen, hdata, hrun, hy data hlen ▸ hsim, hmem⟩

/-- Writing sectors, taken apart into two groups. -/
theorem diskWriteSector_add (disk k : Nat) : ∀ (n sector : Nat) (data : List UInt8), sector < 4294967296 →
    (NanoS32.diskWriteSector disk sector n (data.take (512 * n)) >>= fun result =>
        if result ≠ noError then pure result
        else NanoS32.diskWriteSector disk (wrap32 (sector + n)) k (data.drop (512 * n))) =
      NanoS32.diskWriteSector disk sector (n + k) data
  | 0, sector, data, h => by
    rw [Nat.add_zero, wrap32_of_lt h, Nat.zero_add]
    rfl
  | n + 1, sector, data, h => by
    have hblock : (Block.ofBytes fun i => (data.take (512 * (n + 1))).getD i 0) = Block.ofBytes fun i => data.getD i 0 := by
      rw [← ofBytes_take (data.take (512 * (n + 1))), List.take_take, Nat.min_eq_left (by omega), ofBytes_take]
    have hrest : (data.take (512 * (n + 1))).drop 512 = (data.drop 512).take (512 * n) := by
      rw [List.drop_take, show 512 * (n + 1) - 512 = 512 * n by omega]
    have hdrop : data.drop (512 * (n + 1)) = (data.drop 512).drop (512 * n) := by
      rw [List.drop_drop]
      congr 1
      omega
    have hnext : wrap32 (sector + (n + 1)) = wrap32 (wrap32 (sector + 1) + n) := by
      simp only [wrap32]
      omega
    rw [show n + 1 + k = (n + k) + 1 by omega, NanoS32.diskWriteSector, NanoS32.diskWriteSector, hblock, Prog.bind_assoc]
    congr 1
    funext result
    by_cases hr : result = noError
    · simp only [hr, ne_eq, not_true_eq_false, if_false]
      rw [diskSectorSize, hrest, hdrop, hnext]
      exact diskWriteSector_add disk k n _ _ (Nat.mod_lt _ (by decide))
    · rw [if_pos hr, if_pos hr]
      exact if_pos hr

/-- A program that writes some sectors, and then others unless a transfer has failed. -/
theorem Copies.sectors {x x' : Prog Bus Nat} {disk sector n k p : Nat} {s : Bus} (hs : sector < 4294967296)
    (hA : A → drv.Apart p (512 * (n + k)))
    (hx : (A → drv.Apart p (512 * n)) → Copies drv A x (NanoS32.diskWriteSector disk sector n) s p (512 * n))
    (hx' : ∀ t, (A → drv.Apart (p + 512 * n) (512 * k)) →
      Copies drv A x' (NanoS32.diskWriteSector disk (wrap32 (sector + n)) k) t (p + 512 * n) (512 * k)) :
    Copies drv A (x >>= fun r => if r ≠ noError then Pure.pure r else x') (NanoS32.diskWriteSector disk sector (n + k)) s p
      (512 * (n + k)) := by
  have hfirst : A → drv.Apart p (512 * n) := fun ha => (hA ha).sub (Nat.le_refl _) (by omega)
  have hrest : A → drv.Apart (p + 512 * n) (512 * k) := fun ha => (hA ha).sub (by omega) (by omega)
  rw [Nat.mul_add]
  refine Copies.congr (Copies.bind (fun result data => if result ≠ noError then Pure.pure result
    else NanoS32.diskWriteSector disk (wrap32 (sector + n)) k data) hrest (hx hfirst) fun r t _ => ?_)
    fun data _ => diskWriteSector_add disk k n sector data hs
  by_cases hr : r = noError
  · simp only [hr, ne_eq, not_true_eq_false, if_false]
    exact hx' t hrest
  · simp only [ne_eq, hr, not_false_eq_true, if_true]
    exact Copies.pure r t _ _

end Copies

end Bus

/-! ## Reading -/

namespace Mem

end Mem

namespace Bus

/-- The program `x` does to the disks what `y` does, and changes no memory but the `n` bytes at `p` and `disk_buff`. If `A` holds
and no transfer fails, the bytes are those that `y` returns. -/
def Fetches (drv : Driver) (A : Prop) (x : Prog Bus Nat) (y : FsM (Nat × List UInt8)) (s : Bus) (p n : Nat) : Prop :=
  ∃ r bytes t, x.run s = .ok r t ∧ y.run s.sys = .ok (r, bytes) t.sys ∧
    (∀ a, ¬(p ≤ a ∧ a < p + n) → ¬drv.Own a → t.mem a = s.mem a) ∧ (A → r = noError → bytes = t.mem.load p n)

section Fetches

variable {drv : Driver} {A : Prop}

/-- A program that returns a status and reads nothing. -/
theorem Fetches.pure {r n : Nat} (h : r = noError → n = 0) (s : Bus) (p : Nat) :
    Fetches drv A (Pure.pure r) (Pure.pure (r, [])) s p n := by
  refine ⟨r, [], s, rfl, rfl, fun _ _ _ => rfl, fun _ hr => ?_⟩
  rw [h hr]
  rfl

/-- One program after the other fetches what is behind what the first fetches. The second does not hide a failure. -/
theorem Fetches.bind {x : Prog Bus Nat} {x' : Nat → Prog Bus Nat} {y : FsM (Nat × List UInt8)}
    (y' : Nat → FsM (Nat × List UInt8)) {s : Bus} {p n k : Nat} (hA : A → drv.Apart p n) (hx : Fetches drv A x y s p n)
    (hx' : ∀ r t, Fetches drv A (x' r) (y' r) t (p + n) k)
    (hfail : ∀ r t t', (x' r).run t = .ok noError t' → r = noError) :
    Fetches drv A (x >>= x') (y >>= fun q => y' q.1 >>= fun q' => Pure.pure (q'.1, q.2 ++ q'.2)) s p (n + k) := by
  obtain ⟨r, bytes, t, hrun, hsim, hmem, hbytes⟩ := hx
  obtain ⟨r', bytes', t', hrun', hsim', hmem', hbytes'⟩ := hx' r t
  refine ⟨r', bytes ++ bytes', t', by rw [Prog.bind_ok hrun, hrun'], by rw [Prog.bind_ok hsim, Prog.bind_ok hsim']; rfl,
    fun a ha hown => ?_, fun ha hr => ?_⟩
  · rw [hmem' a (by omega) hown, hmem a (by omega) hown]
  · have hfirst : r = noError := by
      rw [hr] at hrun'
      exact hfail r t t' hrun'
    rw [hbytes ha hfirst, hbytes' ha hr, Mem.load_add]
    congr 1
    exact Mem.load_congr fun a h h' => (hmem' a (by omega) (hA ha a h h')).symm

theorem Fetches.congr {x : Prog Bus Nat} {y y' : FsM (Nat × List UInt8)} {s : Bus} {p n : Nat} (h : Fetches drv A x y s p n)
    (hy : y = y') : Fetches drv A x y' s p n := hy ▸ h

/-- What is read up to the first failure, and then nothing. -/
theorem fails_of_unless {r : Nat} {x : Prog Bus Nat} {t t' : Bus}
    (h : (if r ≠ noError then Pure.pure r else x : Prog Bus Nat).run t = .ok noError t') : r = noError := by
  by_cases hr : r = noError
  · exact hr
  · rw [if_pos hr] at h
    cases h
    rfl

/-- Reading sectors, taken apart into two groups. -/
theorem diskReadSector_add (disk k : Nat) : ∀ (n sector : Nat), sector < 4294967296 →
    (NanoS32.diskReadSector disk sector n >>= fun q =>
        (if q.1 ≠ noError then pure (q.1, []) else NanoS32.diskReadSector disk (wrap32 (sector + n)) k) >>= fun q' =>
          Pure.pure (q'.1, q.2 ++ q'.2)) =
      NanoS32.diskReadSector disk sector (n + k)
  | 0, sector, h => by
    rw [Nat.add_zero, wrap32_of_lt h, Nat.zero_add]
    exact Prog.bind_pure _
  | n + 1, sector, h => by
    have hnext : wrap32 (sector + (n + 1)) = wrap32 (wrap32 (sector + 1) + n) := by
      simp only [wrap32]
      omega
    have ih := diskReadSector_add disk k n (wrap32 (sector + 1)) (Nat.mod_lt _ (by decide))
    rw [show n + 1 + k = (n + k) + 1 by omega, NanoS32.diskReadSector, NanoS32.diskReadSector, ← ih, hnext]
    simp only [Prog.bind_assoc, Prog.pure_bind]
    congr 1
    funext q
    by_cases hr : q.1 = noError
    · simp only [hr, ne_eq, not_true_eq_false, if_false, Prog.bind_assoc, Prog.pure_bind, List.append_assoc]
    · simp only [ne_eq, hr, not_false_eq_true, if_true, Prog.pure_bind, List.append_nil]

/-- A program that reads some sectors, and then others unless a transfer has failed. -/
theorem Fetches.sectors {x x' : Prog Bus Nat} {disk sector n k p : Nat} {s : Bus} (hs : sector < 4294967296)
    (hA : A → drv.Apart p (512 * (n + k)))
    (hx : (A → drv.Apart p (512 * n)) → Fetches drv A x (NanoS32.diskReadSector disk sector n) s p (512 * n))
    (hx' : ∀ t, (A → drv.Apart (p + 512 * n) (512 * k)) →
      Fetches drv A x' (NanoS32.diskReadSector disk (wrap32 (sector + n)) k) t (p + 512 * n) (512 * k)) :
    Fetches drv A (x >>= fun r => if r ≠ noError then Pure.pure r else x') (NanoS32.diskReadSector disk sector (n + k)) s p
      (512 * (n + k)) := by
  have hfirst : A → drv.Apart p (512 * n) := fun ha => (hA ha).sub (Nat.le_refl _) (by omega)
  have hrest : A → drv.Apart (p + 512 * n) (512 * k) := fun ha => (hA ha).sub (by omega) (by omega)
  rw [Nat.mul_add]
  refine Fetches.congr (Fetches.bind (fun result => if result ≠ noError then Pure.pure (result, [])
    else NanoS32.diskReadSector disk (wrap32 (sector + n)) k) hfirst (hx hfirst) (fun r t => ?_)
    fun r t t' => fails_of_unless) (diskReadSector_add disk k n sector hs)
  by_cases hr : r = noError
  · rw [if_neg (not_not.2 hr), if_neg (not_not.2 hr)]
    exact hx' t hrest
  · rw [if_pos hr, if_pos hr]
    exact Fetches.pure (fun h => absurd h hr) t _

end Fetches

end Bus

end NanoS32
