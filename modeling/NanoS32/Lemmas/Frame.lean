import NanoS32.Net.Udp
import NanoS32.Lemmas.Mem

/-!
# What sending reads and writes of `snd_buff`

For each function that builds a part of a frame: which bytes it can change, and that what it leaves in the first bytes depends on
nothing past them. Apart from `snd_buff`, what the driver does with a packet does not depend on the content of `snd_buff`.
-/

namespace NanoS32

namespace Mem

/-- Two memories have the same first `n` bytes. -/
def Agree (n : Nat) (m m' : Mem) : Prop := ∀ j < n, m j = m' j

namespace Agree

variable {n : Nat} {m m' : Mem}

theorem set (h : Agree n m m') (i : Nat) (v : UInt8) : Agree n (m.set i v) (m'.set i v) := by
  intro j hj
  unfold Mem.set
  rw [h j hj]

theorem put16 (h : Agree n m m') (p v : Nat) : Agree n (m.put16 p v) (m'.put16 p v) := (h.set p _).set (p + 1) _

theorem put16_eq (h : Agree n m m') (p : Nat) {v v' : Nat} (hv : v = v') : Agree n (m.put16 p v) (m'.put16 p v') :=
  hv ▸ h.put16 p v

theorem put (h : Agree n m m') (p : Nat) {k : Nat} (src : Fin k → UInt8) : Agree n (m.put p src) (m'.put p src) := by
  intro j hj
  unfold Mem.put
  rw [h j hj]

/-- A copy whose source is in the common part. -/
theorem memcpy (h : Agree n m m') (dst : Nat) {src len : Nat} (hsrc : src + len ≤ n) :
    Agree n (m.memcpy dst src len) (m'.memcpy dst src len) := by
  intro j hj
  rw [memcpy_apply, memcpy_apply]
  split
  · exact h _ (by omega)
  · exact h j hj

/-- Buffers that are cleared agree. -/
theorem memset (m m' : Mem) (v : UInt8) (n : Nat) : Agree n (m.memset 0 v n) (m'.memset 0 v n) := by
  intro j hj
  rw [memset_apply, memset_apply, if_pos (by omega), if_pos (by omega)]

theorem get16 (h : Agree n m m') {p : Nat} (hp : p + 2 ≤ n) : m.get16 p = m'.get16 p :=
  get16_congr (h p (by omega)) (h (p + 1) (by omega))

theorem netChecksumAcc (h : Agree n m m') : ∀ (len p : Nat), p + len ≤ n →
    NanoS32.netChecksumAcc m p len = NanoS32.netChecksumAcc m' p len
  | 0, _, _ => rfl
  | 1, p, hp => by rw [NanoS32.netChecksumAcc, NanoS32.netChecksumAcc, h p (by omega)]
  | len + 2, p, hp => by
    rw [NanoS32.netChecksumAcc, NanoS32.netChecksumAcc, h.get16 (by omega), netChecksumAcc h len (p + 2) (by omega)]

theorem netChecksum (h : Agree n m m') (p len : Nat) (hp : p + len ≤ n) :
    NanoS32.netChecksum m p len = NanoS32.netChecksum m' p len := by
  rw [NanoS32.netChecksum, NanoS32.netChecksum, h.netChecksumAcc len p hp]

theorem crc32Loop (h : Agree n m m') : ∀ (k p : Nat) (crc : UInt32), p + k ≤ n →
    NanoS32.crc32Loop m p k crc = NanoS32.crc32Loop m' p k crc := by
  intro k
  induction k with
  | zero => exact fun _ _ _ => rfl
  | succ k ih =>
    intro p crc hp
    rw [NanoS32.crc32Loop, NanoS32.crc32Loop, h p (by omega)]
    exact ih (p + 1) _ (by omega)

theorem crc32Byte (h : Agree n m m') (p len : Nat) (hp : p + len ≤ n) :
    NanoS32.crc32Byte m p len = NanoS32.crc32Byte m' p len := by
  rw [NanoS32.crc32Byte, NanoS32.crc32Byte, h.crc32Loop len p _ hp]

end Agree

end Mem

namespace NetState

/-! ## What each function can change -/

/-- `eth_send` writes the header, the packet and the checksum. -/
theorem ethBuild_past (s : NetState) (dstMac : Mac) (type : Nat) {data len j : Nat}
    (hj : data + EthHdr.size + len + ethCrcLen ≤ j) : s.ethBuild dstMac type data len j = s.sndBuff j := by
  simp only [EthHdr.size, ethCrcLen] at hj
  simp only [ethBuild, EthHdr.data, EthHdr.type, EthHdr.src, EthHdr.dst]
  rw [Mem.put_of_not_mem _ _ (by omega), Mem.put16_of_ne _ _ (by omega), Mem.put_of_not_mem _ _ (by omega),
    Mem.put_of_not_mem _ _ (by omega), Mem.memcpy_apply, if_neg (by omega)]

/-- `ip_send` writes the header and the packet. -/
theorem ipBuild_past (s : NetState) (id : UInt32) (dstIp : Ip) (protocol : UInt8) {data len j : Nat}
    (hj : data + IpHdr.size + len ≤ j) : s.ipBuild id dstIp protocol data len j = s.sndBuff j := by
  simp only [IpHdr.size] at hj
  simp only [ipBuild, IpHdr.checksum, IpHdr.dst, IpHdr.src, IpHdr.protocol, IpHdr.ttl, IpHdr.offset, IpHdr.id, IpHdr.len,
    IpHdr.tos, IpHdr.verIhl, IpHdr.size]
  rw [Mem.put16_of_ne _ _ (by omega), Mem.put_of_not_mem _ _ (by omega), Mem.put_of_not_mem _ _ (by omega),
    Mem.put16_of_ne _ _ (by omega), Mem.set_ne _ _ (by omega), Mem.set_ne _ _ (by omega), Mem.put16_of_ne _ _ (by omega),
    Mem.put16_of_ne _ _ (by omega), Mem.put16_of_ne _ _ (by omega), Mem.set_ne _ _ (by omega), Mem.set_ne _ _ (by omega),
    Mem.memcpy_apply, if_neg (by omega)]

/-- `udp_send` clears the buffer, and writes the two headers and the data. -/
theorem udpBuild_past (s : NetState) (dstIp : Ip) (srcPort dstPort : UInt16) (payload : Mem) {len j : Nat}
    (hlen : UdpIpHdr.size + UdpHdr.size + len ≤ netBuffSize) (hj : netBuffSize ≤ j) :
    s.udpBuild dstIp srcPort dstPort payload len j = s.sndBuff j := by
  simp only [UdpIpHdr.size, UdpHdr.size, netBuffSize] at hlen hj
  simp only [udpBuild, UdpHdr.checksum, UdpIpHdr.len, UdpIpHdr.protocol, UdpIpHdr.zero, UdpIpHdr.recver, UdpIpHdr.sender,
    UdpHdr.len, UdpHdr.dstPort, UdpHdr.srcPort, UdpIpHdr.size, UdpHdr.size, netBuffSize]
  rw [Mem.put16_of_ne _ _ (by omega), Mem.put16_of_ne _ _ (by omega), Mem.set_ne _ _ (by omega), Mem.set_ne _ _ (by omega),
    Mem.put_of_not_mem _ _ (by omega), Mem.put_of_not_mem _ _ (by omega), Mem.put16_of_ne _ _ (by omega),
    Mem.put16_of_ne _ _ (by omega), Mem.put16_of_ne _ _ (by omega), Mem.put_of_not_mem _ _ (by omega), Mem.memset_apply,
    if_neg (by omega)]

/-- `arp_request` and `arp_reply` write a frame of 46 bytes. -/
theorem arpSend_past (s : NetState) (op : Nat) (dha : Mac) (dpa : Ip) {j : Nat} (hj : netBuffSize ≤ j) :
    (s.arpSend op dha dpa).sndBuff j = s.sndBuff j := by
  simp only [netBuffSize] at hj
  unfold arpSend
  refine (ethBuild_past _ dha ethTypeArp (by simp only [EthHdr.size, ArpHdr.size, ethCrcLen]; omega)).trans ?_
  simp only [setSnd, ArpHdr.hrd, ArpHdr.pro, ArpHdr.hln, ArpHdr.pln, ArpHdr.op, ArpHdr.sha, ArpHdr.spa, ArpHdr.dha, ArpHdr.dpa]
  rw [Mem.put_of_not_mem _ _ (by omega), Mem.put_of_not_mem _ _ (by omega), Mem.put_of_not_mem _ _ (by omega),
    Mem.put_of_not_mem _ _ (by omega), Mem.put16_of_ne _ _ (by omega), Mem.set_ne _ _ (by omega), Mem.set_ne _ _ (by omega),
    Mem.put16_of_ne _ _ (by omega), Mem.put16_of_ne _ _ (by omega)]

theorem setMacAt_sndBuff (s : NetState) (p : MacPtr) (mac : Mac) : (s.setMacAt p mac).sndBuff = s.sndBuff := by
  cases p <;> rfl

theorem ipRecvProcess_sndBuff (s : NetState) (m : Mem) (p : Nat) : (s.ipRecvProcess m p).sndBuff = s.sndBuff := by
  unfold ipRecvProcess
  split
  · rfl
  · split
    · dsimp only
      split
      · rfl
      · rfl
    · rfl

/-- A packet makes the driver write at most a reply. -/
theorem ne2kReceive_past (s : NetState) (packet : List UInt8) {j : Nat} (hj : netBuffSize ≤ j) :
    (s.ne2kReceive packet).sndBuff j = s.sndBuff j := by
  have harp : ∀ (s : NetState) (m : Mem) (p : Nat), (s.arpRecvProcess m p).sndBuff j = s.sndBuff j := by
    intro s m p
    unfold arpRecvProcess
    dsimp only
    split
    · split
      · split
        · exact congrFun (setMacAt_sndBuff _ _ _) j
        · split
          · rfl
          · rfl
      · split
        · split
          · exact arpSend_past s arpOpReply _ _ hj
          · rfl
        · rfl
    · rfl
  unfold ne2kReceive
  dsimp only
  split
  · split
    · exact congrFun (ipRecvProcess_sndBuff _ _ _) j
    · split
      · exact harp _ _ _
      · rfl
  · rfl

theorem netHandler_past (packets : List (List UInt8)) (s : NetState) {j : Nat} (hj : netBuffSize ≤ j) :
    (s.netHandler packets).sndBuff j = s.sndBuff j := by
  unfold netHandler
  split
  · next h =>
    clear h
    induction packets generalizing s with
    | nil => rfl
    | cons packet packets ih => exact (ih (s.ne2kReceive packet)).trans (ne2kReceive_past s packet hj)
  · rfl

theorem provideLoop_past (traffic : Nat → List (List UInt8)) (ip : Ip) {j : Nat} (hj : netBuffSize ≤ j) :
    ∀ (k i : Nat) (s : NetState), (provideLoop traffic ip k i s).sndBuff j = s.sndBuff j := by
  intro k
  induction k with
  | zero => exact fun _ _ => rfl
  | succ k ih =>
    intro i s
    unfold provideLoop
    split
    · rw [ih, netHandler_past _ _ hj]
      exact arpSend_past s arpOpRequest _ ip hj
    · rfl

/-! ## What does not depend on `snd_buff` -/

/-- What `udp_send` builds does not depend on the content of the buffer. -/
theorem udpBuild_agree {s t : NetState} (hip : s.localIp = t.localIp) (dstIp : Ip) (srcPort dstPort : UInt16) (payload : Mem)
    (len : Nat) (hlen : UdpIpHdr.size + len + UdpHdr.size ≤ netBuffSize) :
    Mem.Agree netBuffSize (s.udpBuild dstIp srcPort dstPort payload len) (t.udpBuild dstIp srcPort dstPort payload len) := by
  have h1 := Mem.Agree.memset s.sndBuff t.sndBuff 0 netBuffSize
  have h5 := (((h1.put (UdpIpHdr.size + UdpHdr.size) (payload.array 0 len)).put16 (UdpHdr.srcPort UdpIpHdr.size)
    (bswap16 srcPort.toNat)).put16 (UdpHdr.dstPort UdpIpHdr.size) (bswap16 dstPort.toNat)).put16 (UdpHdr.len UdpIpHdr.size)
      (bswap16 (len + UdpHdr.size))
  have h9 := (((h5.put (UdpIpHdr.sender 0) t.localIp).put (UdpIpHdr.recver 0) dstIp).set (UdpIpHdr.zero 0) 0).set
    (UdpIpHdr.protocol 0) ipProtocolUdp
  have h10 := h9.put16_eq (UdpIpHdr.len 0) (h9.get16 (p := UdpHdr.len UdpIpHdr.size) (by decide))
  have hchecksum := h10.netChecksum 0 (UdpIpHdr.size + len + UdpHdr.size) (by omega)
  simp only [udpBuild]
  rw [hip]
  exact h10.put16_eq _ (congrArg (fun v : UInt16 => bswap16 v.toNat) hchecksum)

/-- What `ip_send` builds depends only on the packet. -/
theorem ipBuild_agree {s t : NetState} (hip : s.localIp = t.localIp) (h : Mem.Agree netBuffSize s.sndBuff t.sndBuff)
    (id : UInt32) (dstIp : Ip) (protocol : UInt8) {data len : Nat} (hlen : data + len ≤ netBuffSize)
    (hhead : data + IpHdr.size ≤ netBuffSize) :
    Mem.Agree netBuffSize (s.ipBuild id dstIp protocol data len) (t.ipBuild id dstIp protocol data len) := by
  have h1 := h.memcpy (data + IpHdr.size) hlen
  have h6 := ((((h1.set (IpHdr.verIhl data) (((4 : UInt8) <<< (4 : UInt8)) ||| (5 : UInt8))).set (IpHdr.tos data) 0).put16
    (IpHdr.len data) (bswap16 (len + IpHdr.size))).put16 (IpHdr.id data) (bswap16 id.toNat)).put16 (IpHdr.offset data)
      (bswap16 0)
  have h11 := ((((h6.set (IpHdr.ttl data) 128).set (IpHdr.protocol data) protocol).put16 (IpHdr.checksum data) 0).put
    (IpHdr.src data) t.localIp).put (IpHdr.dst data) dstIp
  have hchecksum := h11.netChecksum data IpHdr.size hhead
  simp only [ipBuild]
  rw [hip]
  exact h11.put16_eq _ (congrArg (fun v : UInt16 => bswap16 v.toNat) hchecksum)

/-- The last byte of the checksum of a frame does not depend on what is past the end of the buffer. -/
theorem ethBuild_last {s t : NetState} (hmac : s.localMac = t.localMac) (h : Mem.Agree netBuffSize s.sndBuff t.sndBuff)
    (dstMac : Mac) (type : Nat) {data len : Nat} (hlen : data + EthHdr.size + len ≤ netBuffSize) :
    s.ethBuild dstMac type data len (data + EthHdr.size + len + 3) = t.ethBuild dstMac type data len (data + EthHdr.size + len + 3) := by
  simp only [EthHdr.size] at hlen ⊢
  have h1 : Mem.Agree netBuffSize (s.sndBuff.memcpy (EthHdr.data data) data len) (t.sndBuff.memcpy (EthHdr.data data) data len) :=
    h.memcpy (EthHdr.data data) (by omega)
  have h4 := ((h1.put (EthHdr.dst data) dstMac).put (EthHdr.src data) t.localMac).put16 (EthHdr.type data) (bswap16 type)
  have hcrc := h4.crc32Byte data (EthHdr.size + len) (by simp only [EthHdr.size]; omega)
  simp only [ethBuild]
  rw [hmac, hcrc, Mem.put, Mem.put, dif_pos (by simp only [EthHdr.data]; omega), dif_pos (by simp only [EthHdr.data]; omega)]

/-- The state with `snd_buff` and the frames that were sent left out. -/
def forget (s : NetState) : NetState := { s with sndBuff := fun _ => 0, sent := [] }

/-- What does not look at what is left out is the same in two states that agree on the rest. -/
theorem congr_of_forget {α : Type} {s t : NetState} (h : s.forget = t.forget) (f : NetState → α)
    (hf : ∀ s : NetState, f s.forget = f s) : f s = f t := by rw [← hf s, h, hf t]

theorem arpSend_forget (s : NetState) (op : Nat) (dha : Mac) (dpa : Ip) : (s.arpSend op dha dpa).forget = s.forget := rfl

theorem forget_forget (s : NetState) : s.forget.forget = s.forget := rfl

theorem arpRecvProcess_forget (s : NetState) (m : Mem) (p : Nat) :
    (s.arpRecvProcess m p).forget = (s.forget.arpRecvProcess m p).forget := by
  have hfind : ∀ ip, s.forget.findMacInTable ip = s.findMacInTable ip := fun _ => rfl
  have hnew : s.forget.newEntry = s.newEntry := rfl
  have hip : s.forget.localIp = s.localIp := rfl
  unfold arpRecvProcess
  dsimp only
  rw [hfind, hnew, hip]
  split
  · split
    · cases s.findMacInTable (m.array (ArpHdr.spa p) 4) with
      | some mac => cases mac <;> rfl
      | none => cases s.newEntry <;> rfl
    · split
      · split
        · exact (arpSend_forget s arpOpReply _ _).trans (arpSend_forget s.forget arpOpReply _ _).symm
        · exact (forget_forget s).symm
      · exact (forget_forget s).symm
  · exact (forget_forget s).symm

theorem ipRecvProcess_forget (s : NetState) (m : Mem) (p : Nat) :
    (s.ipRecvProcess m p).forget = (s.forget.ipRecvProcess m p).forget := by
  have hrcv : s.forget.rcvBuff = s.rcvBuff := rfl
  have hport : s.forget.rcvPort = s.rcvPort := rfl
  unfold ipRecvProcess
  rw [hrcv, hport]
  split
  · rfl
  · split
    · dsimp only
      split
      · rfl
      · rfl
    · rfl

theorem ne2kReceive_forget (s : NetState) (packet : List UInt8) :
    (s.ne2kReceive packet).forget = (s.forget.ne2kReceive packet).forget := by
  have hmac : s.forget.localMac = s.localMac := rfl
  have harp : s.forget.arpTable = s.arpTable := rfl
  have htmp : s.forget.tmpBuff = s.tmpBuff := rfl
  unfold ne2kReceive
  dsimp only
  rw [hmac, harp, htmp]
  split
  · split
    · exact ipRecvProcess_forget { s with tmpBuff := ne2kLoad packet 0 s.tmpBuff } _ _
    · split
      · exact arpRecvProcess_forget { s with tmpBuff := ne2kLoad packet 0 s.tmpBuff } _ _
      · rfl
  · rfl

theorem ne2kReceive_congr {s t : NetState} (h : s.forget = t.forget) (packet : List UInt8) :
    (s.ne2kReceive packet).forget = (t.ne2kReceive packet).forget := by
  rw [ne2kReceive_forget s, ne2kReceive_forget t, h]

theorem netHandler_congr {s t : NetState} (h : s.forget = t.forget) (packets : List (List UInt8)) :
    (s.netHandler packets).forget = (t.netHandler packets).forget := by
  have hstate := congr_of_forget h NetState.networkState fun _ => rfl
  unfold netHandler
  rw [hstate]
  split
  · next h' =>
    clear h' hstate
    induction packets generalizing s t with
    | nil => exact h
    | cons packet packets ih => exact ih (ne2kReceive_congr h packet)
  · exact h

theorem findMacInTable_congr {s t : NetState} (h : s.forget = t.forget) (ip : Ip) :
    s.findMacInTable ip = t.findMacInTable ip := congr_of_forget h (NetState.findMacInTable · ip) fun _ => rfl

theorem getEffectiveIp_congr {s t : NetState} (h : s.forget = t.forget) (ip : Ip) :
    s.getEffectiveIp ip = t.getEffectiveIp ip := congr_of_forget h (NetState.getEffectiveIp · ip) fun _ => rfl

theorem macAt_congr {s t : NetState} (h : s.forget = t.forget) (p : MacPtr) : s.macAt p = t.macAt p :=
  congr_of_forget h (NetState.macAt · p) fun _ => by cases p <;> rfl

theorem provideLoop_congr (traffic : Nat → List (List UInt8)) (ip : Ip) :
    ∀ (k i : Nat) {s t : NetState}, s.forget = t.forget →
      (provideLoop traffic ip k i s).forget = (provideLoop traffic ip k i t).forget := by
  intro k
  induction k with
  | zero => exact fun _ _ _ h => h
  | succ k ih =>
    intro i s t h
    unfold provideLoop
    rw [findMacInTable_congr h]
    split
    · have hsend : (s.arpRequest ip).forget = (t.arpRequest ip).forget :=
        (arpSend_forget s arpOpRequest _ ip).trans (h.trans (arpSend_forget t arpOpRequest _ ip).symm)
      exact ih (i + 1) (netHandler_congr hsend (traffic i))
    · exact h

/-- Whether an address can be provided does not depend on `snd_buff`. -/
theorem provideMacAddress_congr {s t : NetState} (h : s.forget = t.forget) (traffic : Nat → List (List UInt8)) (i : Nat)
    (ip : Ip) :
    (s.provideMacAddress traffic i ip).1 = (t.provideMacAddress traffic i ip).1 ∧
      (s.provideMacAddress traffic i ip).2.forget = (t.provideMacAddress traffic i ip).2.forget := by
  unfold provideMacAddress
  dsimp only
  rw [getEffectiveIp_congr h]
  have hloop := provideLoop_congr traffic (t.getEffectiveIp ip) 16 i h
  rw [findMacInTable_congr hloop]
  exact ⟨rfl, hloop⟩

end NetState

end NanoS32
