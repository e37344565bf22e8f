import NanoS32.Lemmas.Table

/-!
# The bytes of a block, and transfers of bytes

A block under its layout and a block as 512 bytes are the same thing, and `read_disk` and `write_disk` inside one block read and
replace a range of its bytes.
-/

namespace NanoS32

/-! ## Words and bytes -/

theorem toNat_wordByte (w : UInt32) (k : Nat) : (wordByte w k).toNat = w.toNat / 256 ^ k % 256 := by
  simp [wordByte]

theorem toNat_word (f : Nat → UInt8) (i : Nat) :
    (word f i).toNat =
      (f i).toNat + 256 * ((f (i + 1)).toNat + 256 * ((f (i + 2)).toNat + 256 * (f (i + 3)).toNat)) := by
  have h0 := UInt8.toNat_lt (f i)
  have h1 := UInt8.toNat_lt (f (i + 1))
  have h2 := UInt8.toNat_lt (f (i + 2))
  have h3 := UInt8.toNat_lt (f (i + 3))
  rw [word, UInt32.toNat_ofNat']
  exact Nat.mod_eq_of_lt (by omega)

theorem wordByte_word (f : Nat → UInt8) (i : Nat) {k : Nat} (hk : k < 4) : wordByte (word f i) k = f (i + k) := by
  have h0 := UInt8.toNat_lt (f i)
  have h1 := UInt8.toNat_lt (f (i + 1))
  have h2 := UInt8.toNat_lt (f (i + 2))
  have h3 := UInt8.toNat_lt (f (i + 3))
  apply UInt8.toNat_inj.1
  rw [toNat_wordByte, toNat_word]
  match k, hk with
  | 0, _ => simp only [Nat.pow_zero, Nat.add_zero]; omega
  | 1, _ => simp only [Nat.pow_one]; omega
  | 2, _ => simp only [Nat.reducePow]; omega
  | 3, _ => simp only [Nat.reducePow]; omega

theorem word_wordByte (w : UInt32) {f : Nat → UInt8} {i : Nat} (h : ∀ k < 4, f (i + k) = wordByte w k) :
    word f i = w := by
  have hw := UInt32.toNat_lt w
  apply UInt32.toNat_inj.1
  have h0 := h 0 (by omega)
  rw [Nat.add_zero] at h0
  rw [toNat_word, h0, h 1 (by omega), h 2 (by omega), h 3 (by omega)]
  simp only [toNat_wordByte, Nat.pow_zero, Nat.pow_one, Nat.reducePow]
  omega

namespace Block

/-- The layout is the bytes: a block is determined by them. -/
theorem ofBytes_byte (b : Block) : ofBytes b.byte = b := by
  obtain ⟨flags, name, time, size, parent, next, ref⟩ := b
  simp only [ofBytes, mk.injEq]
  refine ⟨rfl, ?_, ?_, ?_, ?_, ?_, ?_⟩
  · funext k
    have h1 : ¬ k.val + 1 = 0 := by omega
    have h2 : k.val + 1 < 16 := by omega
    simp [byte, h2]
  · refine word_wordByte _ fun k hk => ?_
    match k, hk with
    | 0, _ => rfl
    | 1, _ => rfl
    | 2, _ => rfl
    | 3, _ => rfl
  · refine word_wordByte _ fun k hk => ?_
    match k, hk with
    | 0, _ => rfl
    | 1, _ => rfl
    | 2, _ => rfl
    | 3, _ => rfl
  · refine word_wordByte _ fun k hk => ?_
    match k, hk with
    | 0, _ => rfl
    | 1, _ => rfl
    | 2, _ => rfl
    | 3, _ => rfl
  · refine word_wordByte _ fun k hk => ?_
    match k, hk with
    | 0, _ => rfl
    | 1, _ => rfl
    | 2, _ => rfl
    | 3, _ => rfl
  · funext i
    refine word_wordByte _ fun k hk => ?_
    have h0 : ¬ 32 + 4 * i.val + k = 0 := by omega
    have h1 : ¬ 32 + 4 * i.val + k < 16 := by omega
    have h2 : ¬ 32 + 4 * i.val + k < 20 := by omega
    have h3 : ¬ 32 + 4 * i.val + k < 24 := by omega
    have h4 : ¬ 32 + 4 * i.val + k < 28 := by omega
    have h5 : ¬ 32 + 4 * i.val + k < 32 := by omega
    have h6 : 32 + 4 * i.val + k < 512 := by omega
    have h7 : (32 + 4 * i.val + k - 32) / 4 = i.val := by omega
    have h8 : (32 + 4 * i.val + k) % 4 = k := by omega
    simp only [byte, h0, h1, h2, h3, h4, h5, h6, if_false, dite_false, dite_true, h7, h8]

/-- And any 512 bytes are the bytes of a block. -/
theorem byte_ofBytes (f : Nat → UInt8) {i : Nat} (hi : i < 512) : (ofBytes f).byte i = f i := by
  unfold byte
  split_ifs with h0 h1 h2 h3 h4 h5
  · rw [h0]; rfl
  · simp only [ofBytes]
    rw [show i - 1 + 1 = i by omega]
  · simp only [ofBytes]
    rw [wordByte_word _ _ (by omega), show 16 + (i - 16) = i by omega]
  · simp only [ofBytes]
    rw [wordByte_word _ _ (by omega), show 20 + (i - 20) = i by omega]
  · simp only [ofBytes]
    rw [wordByte_word _ _ (by omega), show 24 + (i - 24) = i by omega]
  · simp only [ofBytes]
    rw [wordByte_word _ _ (by omega), show 28 + (i - 28) = i by omega]
  · simp only [ofBytes]
    rw [wordByte_word _ _ (by omega), show 32 + 4 * ((i - 32) / 4) + i % 4 = i by omega]

theorem ext_bytes {b b' : Block} (h : ∀ i < 512, b.byte i = b'.byte i) : b = b' := by
  have hb : ∀ b : Block, ∀ i, ¬ i < 512 → b.byte i = 0 := by
    intro b i hi
    unfold byte
    split_ifs <;> first | rfl | omega
  rw [← ofBytes_byte b, ← ofBytes_byte b']
  congr 1
  funext i
  by_cases hi : i < 512
  · exact h i hi
  · rw [hb b i hi, hb b' i hi]

theorem byte_splice (b : Block) (offset : Nat) (buff : List UInt8) {i : Nat} (hi : i < 512) :
    (b.splice offset buff).byte i =
      if offset ≤ i ∧ i < offset + buff.length then buff.getD (i - offset) 0 else b.byte i := by
  rw [splice, byte_ofBytes _ hi]

@[simp] theorem length_bytes (b : Block) : b.bytes.length = 512 := by simp [bytes]

theorem getD_bytes (b : Block) {i : Nat} (hi : i < 512) : b.bytes.getD i 0 = b.byte i := by
  simp [bytes, List.getD_eq_getElem?_getD, hi]

/-- Replacing all the bytes of a block. -/
theorem splice_all (b : Block) {buff : List UInt8} (h : buff.length = 512) :
    b.splice 0 buff = ofBytes fun i => buff.getD i 0 := by
  apply ext_bytes
  intro i hi
  rw [byte_splice b _ _ hi, byte_ofBytes _ hi, if_pos (by omega), Nat.sub_zero]

end Block

/-! ## Transfers inside one block -/

section Run

variable {env : Env} {s : Sys} {d : Nat}

theorem readSector_run (hr : Ready env s d) (V : Vol) (k : Nat) :
    (readSector d k).run (s.withVol d V) = .ok (noError, V k) (s.withVol d V) := by
  simp [readSector, hr.faults]

theorem writeSector_run (hr : Ready env s d) (V : Vol) (k : Nat) (b : Block) :
    (writeSector d k b).run (s.withVol d V) = .ok noError (s.withVol d (Function.update V k b)) := by
  simp [writeSector, hr.faults, Sys.setBlock_eq]

theorem diskReadSector_run (hr : Ready env s d) (V : Vol) (k : Nat) :
    (diskReadSector d k 1).run (s.withVol d V) = .ok (noError, (V k).bytes) (s.withVol d V) := by
  rw [diskReadSector, Prog.bind_ok (readSector_run hr V k)]
  simp [diskReadSector, Prog.run_bind]

theorem diskWriteSector_run (hr : Ready env s d) (V : Vol) (k : Nat) (buff : List UInt8) :
    (diskWriteSector d k 1 buff).run (s.withVol d V) =
      .ok noError (s.withVol d (Function.update V k (Block.ofBytes fun i => buff.getD i 0))) := by
  rw [diskWriteSector, Prog.bind_ok (writeSector_run hr V k _)]
  simp [diskWriteSector]

theorem sector_of_ref {ref offset : Nat} (hb : ref < 8388608) (ho : offset < 512) :
    wrap32 (wrap32 (sectorOf ref + offset / diskSectorSize) + offset % diskSectorSize / diskSectorSize) = ref := by
  rw [sectorOf_of_lt hb]
  simp only [wrap32, diskSectorSize]
  omega

/-- Reading inside one block. -/
theorem readDisk_run (hr : Ready env s d) (V : Vol) {ref offset n : Nat} (hb : ref < 8388608) (ho : offset < 512)
    (hn : offset + n ≤ 512) (hpos : 0 < n) :
    (readDisk env d ref offset n).run (s.withVol d V) =
      .ok (noError, ((V ref).bytes.drop offset).take n) (s.withVol d V) := by
  have hsec := sector_of_ref hb ho
  have hself : wrap32 ref = ref := wrap32_of_lt (by omega)
  have hmod : offset % diskSectorSize = offset := by simp only [diskSectorSize]; omega
  rw [hmod] at hsec
  simp only [readDisk, ioDiskRead, hr.present, if_false, hmod, hsec]
  by_cases h0 : offset = 0
  · subst h0
    simp only [if_true, diskSectorSize, Nat.sub_zero, List.drop_zero]
    rw [Prog.bind_ok (Prog.run_pure _ _)]
    by_cases hfull : n = 512
    · subst hfull
      simp only [Nat.reduceDiv, ne_eq, Nat.one_ne_zero, not_false_eq_true, true_and, if_true, Nat.one_mul, Nat.sub_self,
        not_true_eq_false, false_and, if_false]
      rw [Prog.bind_ok (diskReadSector_run hr V ref)]
      simp [List.take_of_length_le]
    · have hd : n / 512 = 0 := by omega
      simp only [hd, ne_eq, not_true_eq_false, false_and, if_false, Nat.zero_mul, Nat.sub_zero, Nat.add_zero, hself]
      rw [Prog.bind_ok (Prog.run_pure _ _), if_pos ⟨by omega, rfl⟩, Prog.bind_ok (diskReadSector_run hr V ref)]
      simp
  · have hmin : min (diskSectorSize - offset) n = n := by simp only [diskSectorSize]; omega
    simp only [h0, if_false, hmin, Nat.sub_self, Nat.zero_div, ne_eq, not_true_eq_false, false_and, Nat.zero_mul]
    rw [Prog.bind_ok (diskReadSector_run hr V ref)]
    simp [Prog.run_bind]

/-- Writing inside one block. -/
theorem writeDisk_run (hr : Ready env s d) (V : Vol) {ref offset : Nat} {buff : List UInt8} (hb : ref < 8388608)
    (ho : offset < 512) (hn : offset + buff.length ≤ 512) (hpos : 0 < buff.length) :
    (writeDisk env d ref offset buff).run (s.withVol d V) =
      .ok noError (s.withVol d (Function.update V ref ((V ref).splice offset buff))) := by
  have hsec := sector_of_ref hb ho
  have hself : wrap32 ref = ref := wrap32_of_lt (by omega)
  have hmod : offset % diskSectorSize = offset := by simp only [diskSectorSize]; omega
  have h00 : wrap32 (noError + noError) = noError := rfl
  rw [hmod] at hsec
  simp only [writeDisk, ioDiskWrite, hr.present, if_false, hmod, hsec]
  by_cases h0 : offset = 0
  · subst h0
    simp only [if_true, diskSectorSize, Nat.sub_zero, List.drop_zero]
    rw [Prog.bind_ok (Prog.run_pure _ _)]
    by_cases hfull : buff.length = 512
    · simp only [hfull, Nat.reduceDiv, ne_eq, Nat.one_ne_zero, not_false_eq_true, true_and, if_true, Nat.one_mul,
        Nat.sub_self, not_true_eq_false, false_and, if_false]
      rw [Prog.bind_ok (diskWriteSector_run hr V ref buff), Block.splice_all _ hfull]
      rfl
    · have hd : buff.length / 512 = 0 := by omega
      simp only [hd, ne_eq, not_true_eq_false, false_and, if_false, Nat.zero_mul, Nat.sub_zero, Nat.add_zero,
        List.drop_zero, hself]
      rw [Prog.bind_ok (Prog.run_pure _ _), if_pos ⟨by omega, rfl⟩, Prog.bind_ok (readSector_run hr V ref),
        Prog.bind_ok (writeSector_run hr V ref _)]
      simp [h00]
  · have hmin : min (diskSectorSize - offset) buff.length = buff.length := by simp only [diskSectorSize]; omega
    simp only [h0, if_false, hmin, Nat.sub_self, Nat.zero_div, ne_eq, not_true_eq_false, false_and, Nat.zero_mul,
      List.take_length]
    rw [Prog.bind_ok (readSector_run hr V ref), Prog.bind_ok (writeSector_run hr V ref _)]
    simp [Prog.run_bind, h00]

end Run

/-! ## The block form of the transfers -/

/-- `io_disk_read` of one sector is the read of a block. -/
theorem ioDiskRead_block (env : Env) (disk : Nat) {sector : Nat} (h : sector < 4294967296) (s : Sys)
    (hf : s.faults = []) (hp : (env.diskInfo disk).size ≠ 0) :
    (ioDiskRead env disk sector 0 512).run s = .ok (noError, (s.disk disk sector).bytes) s ∧
      (ioDiskReadBlock env disk sector).run s = .ok (noError, s.disk disk sector) s := by
  have hsec : wrap32 sector = sector := wrap32_of_lt h
  have hread : (readSector disk sector).run s = .ok (noError, s.disk disk sector) s := by simp [readSector, hf]
  refine ⟨?_, ?_⟩
  · have hsec1 : (diskReadSector disk sector 1).run s = .ok (noError, (s.disk disk sector).bytes) s := by
      rw [diskReadSector, Prog.bind_ok hread]
      simp [diskReadSector, Prog.run_bind]
    simp only [ioDiskRead, hp, if_false, diskSectorSize, Nat.zero_mod, Nat.zero_div, Nat.add_zero, hsec, if_true,
      Nat.sub_zero, Nat.reduceDiv]
    rw [Prog.bind_ok (Prog.run_pure _ _)]
    simp only [ne_eq, Nat.one_ne_zero, not_false_eq_true, true_and, if_true, Nat.one_mul, Nat.sub_self,
      not_true_eq_false, false_and, if_false]
    rw [Prog.bind_ok hsec1]
    simp
  · simp [ioDiskReadBlock, hp, hread]

/-- `io_disk_write` of one sector is the write of a block. -/
theorem ioDiskWrite_block (env : Env) (disk : Nat) {sector : Nat} (h : sector < 4294967296) (b : Block) :
    (ioDiskWrite env disk sector 0 b.bytes).run = (ioDiskWriteBlock env disk sector b).run := by
  have hsec : wrap32 sector = sector := wrap32_of_lt h
  have hb : (Block.ofBytes fun i => b.bytes.getD i 0) = b := by
    apply Block.ext_bytes
    intro i hi
    rw [Block.byte_ofBytes _ hi, Block.getD_bytes b hi]
  funext s
  by_cases hp : (env.diskInfo disk).size = 0
  · simp [ioDiskWrite, ioDiskWriteBlock, hp]
  · simp only [ioDiskWrite, ioDiskWriteBlock, hp, if_false, diskSectorSize, Nat.zero_mod, Nat.zero_div, Nat.add_zero, hsec,
      if_true, Nat.sub_zero, Block.length_bytes, Nat.reduceDiv]
    rw [Prog.bind_ok (Prog.run_pure _ _)]
    simp only [ne_eq, Nat.one_ne_zero, not_false_eq_true, true_and, if_true, Nat.one_mul, Nat.sub_self,
      not_true_eq_false, false_and, if_false, List.drop_zero, diskWriteSector, hb, Prog.run_bind]
    cases (writeSector disk sector b).run s with
    | ok r s' => by_cases hr : r = noError <;> simp [hr]
    | error c s' => rfl
    | stuck _ => rfl

end NanoS32
