import NanoS32.Lib.Crc
import NanoS32.Lib.Ones
import NanoS32.Lemmas.Mem
import NanoS32.Net.Send
import Mathlib.Data.Fin.VecNotation

/-!
# Checksums

The checksums of `net.c` and their definitions. `crc32_byte` takes a byte at a time from its table; the definition takes a bit at
a time. `net_checksum` sums little-endian words and adds the carries once; the definition is the one's complement of a
one's-complement sum of big-endian words.
-/

namespace NanoS32

/-! ## The CRC of a frame -/

/-- The bits of a byte string in memory, each byte lowest bit first. -/
def messageBits (m : Mem) (p len : Nat) : List Bool :=
  (List.range len).flatMap fun k => (List.range 8).map fun i => (m (p + k)).toNat.testBit i

/-- CRC-32, bit by bit: the reflected polynomial `0xEDB88320`, and `0xFFFFFFFF` as the initial value and as the final
complement. -/
def crc32Bits (m : Mem) (p len : Nat) : UInt32 :=
  ⟨~~~Crc.run 0xEDB88320#32 0xFFFFFFFF#32 (messageBits m p len)⟩

theorem low_bit (v : UInt32) : v &&& 1 = 1 ↔ v.toBitVec.getLsbD 0 = true := by
  have h : (v &&& 1).toBitVec = (BitVec.ofBool (v.toBitVec.getLsbD 0)).setWidth 32 := by
    rw [UInt32.toBitVec_and]
    exact BitVec.and_one_eq_setWidth_ofBool_getLsbD
  rw [← UInt32.toBitVec_inj, h]
  cases v.toBitVec.getLsbD 0 <;> decide

theorem toBitVec_polyStep (v : UInt32) : (polyStep v).toBitVec = Crc.step 0xEDB88320#32 v.toBitVec := by
  unfold polyStep Crc.step
  by_cases h : v &&& 1 = 1
  · rw [if_pos h, if_pos ((low_bit v).1 h)]
    rfl
  · rw [if_neg h, if_neg fun hb => h ((low_bit v).2 hb)]
    rfl

theorem toBitVec_polyStep_iterate (n : Nat) (v : UInt32) :
    (polyStep^[n] v).toBitVec = (Crc.step 0xEDB88320#32)^[n] v.toBitVec := by
  induction n generalizing v with
  | zero => rfl
  | succ n ih => rw [Function.iterate_succ_apply, Function.iterate_succ_apply, ih, toBitVec_polyStep]

/-- An entry of the table is eight steps of its index. -/
theorem poly8Lookup_getD (b : UInt8) : poly8Lookup.getD b.toNat 0 = polyStep^[8] b.toUInt32 := by
  have hlt : b.toNat < 256 := b.toNat_lt
  have hofNat : UInt32.ofNat b.toNat = b.toUInt32 := UInt32.toNat_inj.1 (by simp)
  rw [poly8Lookup_eq, List.getD_eq_getElem?_getD, List.getElem?_map, List.getElem?_range hlt, Option.map_some, Option.getD_some,
    hofNat]

/-- What a byte does to the register is what its bits do. -/
theorem crc32Loop_step (crc : UInt32) (b : UInt8) :
    (poly8Lookup.getD ((crc &&& 0xFF).toUInt8 ^^^ b).toNat 0 ^^^ (crc >>> 8)).toBitVec =
      Crc.run 0xEDB88320#32 crc.toBitVec ((List.range 8).map fun i => b.toNat.testBit i) := by
  have hlen : ((List.range 8).map fun i => b.toNat.testBit i).length = 8 := rfl
  have hbits : Crc.ofBits 32 ((List.range 8).map fun i => b.toNat.testBit i) = b.toUInt32.toBitVec := by
    apply BitVec.eq_of_getLsbD_eq
    intro i hi
    rw [Crc.getLsbD_ofBits, decide_eq_true hi, Bool.true_and, UInt8.toBitVec_toUInt32, BitVec.getLsbD_setWidth,
      decide_eq_true hi, Bool.true_and, List.getD_eq_getElem?_getD, List.getElem?_map]
    by_cases hi8 : i < 8
    · rw [List.getElem?_range hi8]
      rfl
    · rw [List.getElem?_eq_none (by simpa using hi8), BitVec.getLsbD_of_ge _ _ (Nat.le_of_not_lt hi8)]
      rfl
  -- the index is the low byte of the register with the byte in it
  have hbyte : (crc &&& 0xFF).toUInt8 = crc.toUInt8 := by
    apply UInt8.toNat_inj.1
    rw [UInt32.toNat_toUInt8, UInt32.toNat_toUInt8, UInt32.toNat_and]
    exact (congrArg (· % 2 ^ 8) (Nat.and_two_pow_sub_one_eq_mod crc.toNat 8)).trans (Nat.mod_mod _ _)
  have hlow : ((crc &&& 0xFF).toUInt8 ^^^ b).toUInt32.toBitVec = Crc.low 8 (crc.toBitVec ^^^ b.toUInt32.toBitVec) := by
    have hback : (b.toBitVec.setWidth 32).setWidth 8 = b.toBitVec := BitVec.setWidth_setWidth_of_le _ (by decide)
    rw [hbyte, Crc.low, BitVec.setWidth_xor, UInt8.toBitVec_toUInt32, UInt8.toBitVec_toUInt32, hback]
    rfl
  have hhigh : (crc >>> 8).toBitVec = (crc.toBitVec ^^^ b.toUInt32.toBitVec) >>> 8 := by
    apply BitVec.eq_of_getLsbD_eq
    intro i hi
    have hout : b.toBitVec.getLsbD (8 + i) = false := BitVec.getLsbD_of_ge _ _ (Nat.le_add_right 8 i)
    simp
  rw [Crc.run_eq_iterate _ _ _ (by rw [hlen]; decide), hlen, hbits, Crc.iterate_step_table, ← hlow, ← hhigh, UInt32.toBitVec_xor,
    poly8Lookup_getD, toBitVec_polyStep_iterate]

theorem messageBits_succ (m : Mem) (p k : Nat) :
    messageBits m p (k + 1) = ((List.range 8).map fun i => (m p).toNat.testBit i) ++ messageBits m (p + 1) k := by
  have hshift : ∀ k' : Nat, p + (k' + 1) = p + 1 + k' := fun k' => by omega
  rw [messageBits, messageBits, List.range_succ_eq_map (n := k), List.flatMap_cons, List.flatMap_map, Nat.add_zero]
  refine congrArg _ (List.flatMap_congr fun k' _ => ?_)
  rw [Nat.succ_eq_add_one, hshift]

/-- The loop from byte `p` on is the register's run over the bits from there. -/
theorem crc32Loop_eq (m : Mem) : ∀ (k p : Nat) (crc : UInt32),
    (crc32Loop m p k crc).toBitVec = Crc.run 0xEDB88320#32 crc.toBitVec (messageBits m p k) := by
  intro k
  induction k with
  | zero => exact fun _ _ => rfl
  | succ k ih =>
    intro p crc
    rw [crc32Loop, ih, crc32Loop_step, messageBits_succ, Crc.run_append]

/-- `crc32_byte` is CRC-32. -/
theorem crc32_definition (m : Mem) (p len : Nat) : crc32Byte m p len = crc32Bits m p len := by
  apply UInt32.toBitVec_inj.1
  rw [crc32Byte, UInt32.toBitVec_not, crc32Loop_eq]
  rfl

/-! ## The Internet checksum -/

/-- The 16-bit words of a byte string as the host reads them, an odd last byte followed by a zero. -/
def leWords (m : Mem) : Nat → Nat → List Nat
  | _, 0 => []
  | p, 1 => [(m p).toNat]
  | p, len + 2 => m.get16 p :: leWords m (p + 2) len

/-- The 16-bit words of a byte string in network order, an odd last byte followed by a zero. -/
def beWords (m : Mem) : Nat → Nat → List Nat
  | _, 0 => []
  | p, 1 => [256 * (m p).toNat]
  | p, len + 2 => (256 * (m p).toNat + (m (p + 1)).toNat) :: beWords m (p + 2) len

/-- The one's-complement sum of the words of a byte string. -/
def onesSum (m : Mem) (p len : Nat) : Nat := Ones.sum (256 * 256) (beWords m p len)

/-- The Internet checksum of RFC 1071. -/
def rfc1071 (m : Mem) (p len : Nat) : Nat := Ones.complement (256 * 256) (onesSum m p len)

/-- Adding the carries of a sum of words to it leaves no other carry. -/
def OneCarry (total : Nat) : Prop := total % 65536 + total / 65536 < 65536

instance (total : Nat) : Decidable (OneCarry total) := inferInstanceAs (Decidable (_ < _))

theorem leWords_lt (m : Mem) : ∀ (len p : Nat), ∀ x ∈ leWords m p len, x < 256 * 256
  | 0, _, x, hx => absurd hx List.not_mem_nil
  | 1, p, x, hx => by
    have hb := (m p).toNat_lt
    rw [leWords, List.mem_singleton] at hx
    omega
  | len + 2, p, x, hx => by
    have hb := (m p).toNat_lt
    have hb' := (m (p + 1)).toNat_lt
    rw [leWords, List.mem_cons] at hx
    rcases hx with hx | hx
    · rw [hx, Mem.get16]
      omega
    · exact leWords_lt m len (p + 2) x hx

/-- Words in network order are the host's with their bytes swapped. -/
theorem beWords_eq (m : Mem) : ∀ (len p : Nat), beWords m p len = (leWords m p len).map (Ones.swap 256)
  | 0, _ => rfl
  | 1, p => by
    have hb := (m p).toNat_lt
    rw [beWords, leWords, List.map_singleton, Ones.swap, Nat.mod_eq_of_lt hb, Nat.div_eq_of_lt hb, Nat.add_zero, Nat.mul_comm]
  | len + 2, p => by
    have hb := (m p).toNat_lt
    have hb' := (m (p + 1)).toNat_lt
    have hmod : m.get16 p % 256 = (m p).toNat := by
      rw [Mem.get16]
      omega
    have hdiv : m.get16 p / 256 = (m (p + 1)).toNat := by
      rw [Mem.get16]
      omega
    rw [beWords, leWords, List.map_cons, beWords_eq m len (p + 2), Ones.swap, hmod, hdiv, Nat.mul_comm]

/-- A word is at most 65535, so the words of up to 65535 bytes are summed without a carry out of 32 bits. -/
theorem leWords_sum_le (m : Mem) : ∀ (len p : Nat), 2 * (leWords m p len).sum ≤ 65535 * (len + 1)
  | 0, _ => by simp [leWords]
  | 1, p => by
    have hb := (m p).toNat_lt
    rw [leWords, List.sum_singleton]
    omega
  | len + 2, p => by
    have ih := leWords_sum_le m len (p + 2)
    have hword : m.get16 p < 256 * 256 := leWords_lt m (len + 2) p _ (by rw [leWords]; exact List.mem_cons_self)
    rw [leWords, List.sum_cons]
    omega

/-- What `net_checksum_acc` accumulates. -/
theorem netChecksumAcc_toNat (m : Mem) : ∀ (len p : Nat), (leWords m p len).sum < 4294967296 →
    (netChecksumAcc m p len).toNat = (leWords m p len).sum
  | 0, _, _ => rfl
  | 1, p, _ => by
    rw [netChecksumAcc, leWords, List.sum_singleton]
    rfl
  | len + 2, p, h => by
    rw [leWords, List.sum_cons] at h
    have hword : (UInt32.ofNat (m.get16 p)).toNat = m.get16 p := UInt32.toNat_ofNat_of_lt' (by
      have hb := (m p).toNat_lt
      have hb' := (m (p + 1)).toNat_lt
      rw [Mem.get16, UInt32.size]
      omega)
    rw [netChecksumAcc, leWords, List.sum_cons, UInt32.toNat_add, hword, netChecksumAcc_toNat m len (p + 2) (by omega)]
    exact Nat.mod_eq_of_lt h

/-- `BSWAP_16` swaps the two bytes of a word. -/
theorem bswap16_eq_swap {v : Nat} (hv : v < 256 * 256) : bswap16 v = Ones.swap 256 v := by
  have hdiv : v / 256 % 256 = v / 256 := Nat.mod_eq_of_lt (Nat.div_lt_of_lt_mul hv)
  rw [bswap16_eq, hdiv, Ones.swap]

/-- The bytes of a 16-bit word swapped. -/
theorem swap_toNat (t : UInt16) : (((t &&& 0x00FF) <<< 8) ||| ((t &&& 0xFF00) >>> 8)).toNat = Ones.swap 256 t.toNat := by
  have ht := t.toNat_lt
  have hlow : t.toNat &&& 0xFF = t.toNat % 256 := Nat.and_two_pow_sub_one_eq_mod t.toNat 8
  have hshift : (t.toNat &&& 0xFF) <<< 8 % 2 ^ 16 = (t.toNat &&& 0xFF) <<< 8 := by
    rw [hlow, Nat.shiftLeft_eq]
    omega
  have hbswap : (((t &&& 0x00FF) <<< 8) ||| ((t &&& 0xFF00) >>> 8)).toNat = bswap16 t.toNat := by
    rw [UInt16.toNat_or, UInt16.toNat_shiftLeft, UInt16.toNat_shiftRight, UInt16.toNat_and, UInt16.toNat_and]
    exact congrArg (· ||| _) hshift
  rw [hbswap, bswap16_eq_swap ht]

/-- `net_checksum_final`: the complement of the sum with its carries added once, swapped. -/
theorem netChecksumFinal_toNat (total : UInt32) :
    (netChecksumFinal total).toNat = Ones.swap 256 (Ones.complement (256 * 256) (Ones.fold 65536 total.toNat % 65536)) := by
  have hsize := total.toNat_lt
  have hlow : total.toNat &&& 0xFFFF = total.toNat % 65536 := Nat.and_two_pow_sub_one_eq_mod total.toNat 16
  have hsum : ((total &&& (0xFFFF : UInt32)) + (total >>> (16 : UInt32))).toNat = Ones.fold 65536 total.toNat := by
    rw [UInt32.toNat_add, UInt32.toNat_and, UInt32.toNat_shiftRight, Ones.fold]
    change ((total.toNat &&& 0xFFFF) + total.toNat >>> 16) % 2 ^ 32 = _
    rw [hlow, Nat.shiftRight_eq_div_pow]
    omega
  rw [netChecksumFinal]
  generalize hs : (total &&& (0xFFFF : UInt32)) + (total >>> (16 : UInt32)) = folded at hsum
  have htemp : (~~~folded).toUInt16.toNat = Ones.complement (256 * 256) (Ones.fold 65536 total.toNat % 65536) := by
    have hf := folded.toNat_lt
    rw [UInt32.toNat_toUInt16, UInt32.toNat_not, hsum, Ones.complement, UInt32.size]
    rw [hsum] at hf
    omega
  rw [← htemp]
  exact swap_toNat _

/-- `net_checksum` of a string. -/
theorem netChecksum_toNat {m : Mem} {p len : Nat} (hlen : len ≤ 65535) :
    (netChecksum m p len).toNat =
      Ones.swap 256 (Ones.complement (256 * 256) (Ones.fold 65536 (leWords m p len).sum % 65536)) := by
  have hle := leWords_sum_le m len p
  rw [netChecksum, netChecksumFinal_toNat, netChecksumAcc_toNat m len p (by omega)]

theorem two_le_words : 2 ≤ 256 * 256 := by decide

/-- The one's-complement sum of a string, from the host's words. -/
theorem onesSum_eq (m : Mem) (p len : Nat) :
    onesSum m p len = Ones.swap 256 (Ones.rep (256 * 256) (leWords m p len).sum) := by
  rw [onesSum, beWords_eq, Ones.sum_swap (by decide) (leWords_lt m len p), Ones.sum_eq_rep two_le_words (leWords_lt m len p)]

/-- The complement of a swapped word is the swapped complement. -/
theorem complement_swap {x : Nat} (hx : x < 256 * 256) :
    Ones.complement (256 * 256) (Ones.swap 256 x) = Ones.swap 256 (Ones.complement (256 * 256) x) := by
  unfold Ones.complement Ones.swap
  omega

/-- Adding the carries once gives the one's-complement sum exactly when it leaves no other. -/
theorem fold_eq_rep {total : Nat} (h : total < 256 * 256 * (256 * 256 - 1)) :
    Ones.fold 65536 total % 65536 = Ones.rep (256 * 256) total ↔ OneCarry total :=
  Ones.fold_mod_eq_rep two_le_words h

/-- `net_checksum` is the Internet checksum exactly of the strings whose words need one addition of the carries. -/
theorem netChecksum_eq_rfc1071 {m : Mem} {p len : Nat} (hlen : len ≤ 65535) :
    (netChecksum m p len).toNat = rfc1071 m p len ↔ OneCarry (leWords m p len).sum := by
  have hle := leWords_sum_le m len p
  have hfold : Ones.fold 65536 (leWords m p len).sum % 65536 < 256 * 256 := Nat.mod_lt _ (by decide)
  have hrep : Ones.rep (256 * 256) (leWords m p len).sum < 256 * 256 := Ones.rep_lt two_le_words _
  rw [netChecksum_toNat hlen, rfc1071, onesSum_eq, complement_swap hrep, ← fold_eq_rep (by omega)]
  constructor
  · intro h
    have hswap := congrArg (Ones.swap 256) h
    rw [Ones.swap_swap (by unfold Ones.complement; omega), Ones.swap_swap (by unfold Ones.complement; omega)] at hswap
    exact (Ones.complement_inj hfold hrep).1 hswap
  · intro h
    rw [h]

/-! ## The header of a packet -/

/-- The host's words of an address. -/
def addressWords (ip : Ip) : List Nat := leWords (Mem.put (fun _ => 0) 0 ip) 0 4

theorem addressWords_eq (ip : Ip) :
    addressWords ip = [(ip 0).toNat + 256 * (ip 1).toNat, (ip 2).toNat + 256 * (ip 3).toNat] := by
  unfold addressWords
  rw [leWords, leWords, leWords, Mem.get16_put_low, Mem.get16_put_high]

/-- The host's words of the header that `ip_send` builds, its checksum left out. -/
def ipHeaderWords (s : NetState) (id : UInt32) (dstIp : Ip) (protocol : UInt8) (len : Nat) : List Nat :=
  [0x0045, bswap16 (len + IpHdr.size), bswap16 id.toNat, 0, 128 + 256 * protocol.toNat] ++ addressWords s.localIp ++
    addressWords dstIp

/-- What `ip_send` builds is a header whose checksum is zero, and then its checksum. -/
theorem ipBuild_header (s : NetState) (id : UInt32) (dstIp : Ip) (protocol : UInt8) (data len : Nat) :
    ∃ m : Mem, s.ipBuild id dstIp protocol data len =
        m.put16 (IpHdr.checksum data) (bswap16 (netChecksum m data IpHdr.size).toNat) ∧
      m.get16 (IpHdr.checksum data) = 0 ∧
      (leWords m data IpHdr.size).sum = (ipHeaderWords s id dstIp protocol len).sum := by
  refine ⟨_, rfl, ?_, ?_⟩
  · simp only [IpHdr.checksum, IpHdr.dst, IpHdr.src]
    rw [Mem.get16_put_ne _ _ (by omega), Mem.get16_put_ne _ _ (by omega), Mem.get16_put16 _ _ (by decide)]
  · have hver : (((4 : UInt8) <<< (4 : UInt8)) ||| (5 : UInt8)).toNat = 0x45 := rfl
    have hzero : bswap16 0 = 0 := rfl
    simp only [IpHdr.size, leWords, List.sum_cons, List.sum_nil, IpHdr.verIhl, IpHdr.tos, IpHdr.len, IpHdr.id, IpHdr.offset,
      IpHdr.ttl, IpHdr.protocol, IpHdr.checksum, IpHdr.src, IpHdr.dst, Nat.add_assoc, Nat.reduceAdd]
    simp (disch := first | omega | exact bswap16_lt _) only [Mem.get16_put_ne, Mem.get16_put16_ne, Mem.get16_set_ne,
      Mem.get16_put16, Mem.get16_set_set, Mem.get16_put_low, Mem.get16_put_high]
    rw [hver, hzero]
    simp [ipHeaderWords, addressWords_eq, IpHdr.size]

/-- The words of a header once its checksum is stored. -/
theorem leWords_put16_checksum (m : Mem) (data : Nat) {v : Nat} (hv : v < 65536)
    (h0 : m.get16 (IpHdr.checksum data) = 0) :
    (leWords (m.put16 (IpHdr.checksum data) v) data IpHdr.size).sum = (leWords m data IpHdr.size).sum + v := by
  unfold IpHdr.checksum at h0 ⊢
  simp only [IpHdr.size, leWords, List.sum_cons, List.sum_nil, Nat.add_assoc, Nat.reduceAdd]
  rw [h0]
  simp (disch := omega) only [Mem.get16_put16_ne, Mem.get16_put16]
  omega

theorem ipHeaderWords_sum_lt (s : NetState) (id : UInt32) (dstIp : Ip) (protocol : UInt8) (len : Nat) :
    (ipHeaderWords s id dstIp protocol len).sum < 9 * 65536 := by
  have h1 := bswap16_lt (len + IpHdr.size)
  have h2 := bswap16_lt id.toNat
  have hp := protocol.toNat_lt
  have hs := fun i => (s.localIp i).toNat_lt
  have hd := fun i => (dstIp i).toNat_lt
  have hs0 := hs 0
  have hs1 := hs 1
  have hs2 := hs 2
  have hs3 := hs 3
  have hd0 := hd 0
  have hd1 := hd 1
  have hd2 := hd 2
  have hd3 := hd 3
  simp only [ipHeaderWords, addressWords_eq, List.sum_append, List.sum_cons, List.sum_nil]
  omega

/-- The one's-complement sum of a sum and of the complement of its folded carries is all ones exactly when the carries were
folded completely. -/
theorem rep_add_complement {total : Nat} (h : total < 256 * 256 * (256 * 256 - 1)) :
    Ones.rep (256 * 256) (total + Ones.complement (256 * 256) (Ones.fold 65536 total % 65536)) = 65535 ↔ OneCarry total := by
  have heq := Nat.div_add_mod total 65536
  have hlow : total % 65536 < 65536 := Nat.mod_lt _ (by decide)
  have hhigh : total / 65536 < 65535 := by omega
  unfold Ones.fold OneCarry
  generalize total % 65536 = b at *
  generalize total / 65536 = a at *
  by_cases hcarry : b + a < 65536
  · have hsum : total + Ones.complement (256 * 256) ((b + a) % 65536) = 65535 * a + 65534 + 1 := by
      rw [Nat.mod_eq_of_lt hcarry, Ones.complement]
      omega
    have hmod : (65535 * a + 65534) % 65535 = 65534 := by omega
    rw [hsum, Ones.rep, if_neg (Nat.succ_ne_zero _)]
    exact iff_of_true (congrArg (· + 1) hmod) hcarry
  · have hred : (b + a) % 65536 = b + a - 65536 := by
      rw [Nat.mod_eq_sub_mod (Nat.le_of_not_lt hcarry), Nat.mod_eq_of_lt (by omega)]
    have hsum : total + Ones.complement (256 * 256) ((b + a) % 65536) = 65535 * (a + 2) + 1 := by
      rw [hred, Ones.complement]
      omega
    have hmod : 65535 * (a + 2) % 65535 = 0 := Nat.mul_mod_right _ _
    rw [hsum, Ones.rep, if_neg (Nat.succ_ne_zero _), Nat.add_sub_cancel]
    have hone : 65535 * (a + 2) % (256 * 256 - 1) + 1 = 1 := congrArg (· + 1) hmod
    rw [hone]
    exact iff_of_false (by decide) hcarry

/-- The one's-complement sum of a header, its checksum included. -/
theorem ipBuild_onesSum (s : NetState) (id : UInt32) (dstIp : Ip) (protocol : UInt8) (data len : Nat) :
    onesSum (s.ipBuild id dstIp protocol data len) data IpHdr.size = 65535 ↔
      OneCarry (ipHeaderWords s id dstIp protocol len).sum := by
  obtain ⟨m, hbuild, h0, hwords⟩ := ipBuild_header s id dstIp protocol data len
  have hlt := ipHeaderWords_sum_lt s id dstIp protocol len
  have hchecksum : bswap16 (netChecksum m data IpHdr.size).toNat =
      Ones.complement (256 * 256) (Ones.fold 65536 (leWords m data IpHdr.size).sum % 65536) := by
    have hc : Ones.complement (256 * 256) (Ones.fold 65536 (leWords m data IpHdr.size).sum % 65536) < 256 * 256 := by
      unfold Ones.complement
      omega
    rw [netChecksum_toNat (by decide), bswap16_eq_swap (Ones.swap_lt hc)]
    exact Ones.swap_swap hc
  have hswap : ∀ x < 256 * 256, Ones.swap 256 x = 65535 ↔ x = 65535 := by
    intro x hx
    unfold Ones.swap
    omega
  rw [onesSum_eq, hswap _ (Ones.rep_lt two_le_words _), hbuild, leWords_put16_checksum m data (bswap16_lt _) h0, hchecksum, hwords]
  exact rep_add_complement (by omega)

/-- `net_checksum` of a string of at most 65535 bytes is the Internet checksum, and the header that `ip_send` builds sums to all
ones, exactly when the carries of the words need to be added only once. -/
theorem internet_checksum (m : Mem) (p n : Nat) (s : NetState) (id : UInt32) (dstIp : Ip) (protocol : UInt8) (data len : Nat) :
    (n ≤ 65535 → ((netChecksum m p n).toNat = rfc1071 m p n ↔ OneCarry (leWords m p n).sum)) ∧
    (onesSum (s.ipBuild id dstIp protocol data len) data IpHdr.size = 65535 ↔
      OneCarry (ipHeaderWords s id dstIp protocol len).sum) :=
  ⟨fun hlen => netChecksum_eq_rfc1071 hlen, ipBuild_onesSum s id dstIp protocol data len⟩

/-- Six bytes whose words add up to `0x1FFFF`: adding the carry to the sum leaves another one. -/
def carryBytes : Mem := fun i => [0xFF, 0xFF, 0xFF, 0xFF, 0x01, 0x00].getD i 0

theorem internet_checksum_two_bytes :
    (netChecksum carryBytes 3 2).toNat = rfc1071 carryBytes 3 2 ↔ OneCarry (leWords carryBytes 3 2).sum :=
  (internet_checksum carryBytes 3 2 NetState.boot 0 ![0, 0, 0, 0] ipProtocolUdp 12 18).1 (by decide)

theorem internet_checksum_carry :
    ¬((∀ (m : Mem) (p len : Nat), len ≤ 65535 → (netChecksum m p len).toNat = rfc1071 m p len) ∧
      ∀ (s : NetState) (id : UInt32) (dstIp : Ip) (protocol : UInt8) (data len : Nat),
        onesSum (s.ipBuild id dstIp protocol data len) data IpHdr.size = 65535) ∧
    (netChecksum carryBytes 0 6).toNat = 0xFFFF ∧ rfc1071 carryBytes 0 6 = 0xFEFF ∧
    onesSum (NetState.boot.ipBuild 46675 ![192, 168, 2, 20] ipProtocolUdp 12 18) 12 IpHdr.size ≠ 65535 := by
  have hsum : (netChecksum carryBytes 0 6).toNat = 0xFFFF ∧ rfc1071 carryBytes 0 6 = 0xFEFF := by decide
  refine ⟨fun h => ?_, hsum.1, hsum.2, by decide +kernel⟩
  have heq := h.1 carryBytes 0 6 (by decide)
  rw [hsum.1, hsum.2] at heq
  exact absurd heq (by decide)

end NanoS32
