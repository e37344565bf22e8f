import NanoS32.Net.Udp
import NanoS32.Lemmas.Mem
import NanoS32.Lemmas.Recv
import Mathlib.Tactic.Common

/-!
# Framing of datagrams

A datagram is built by three moves of the packet inside `snd_buff`, one for each layer, and taken apart with offsets of its own by
the receiver. For each layer: what its header holds, and where the packet inside it is.
-/

namespace NanoS32

namespace NetState

/-! ## Ethernet -/

variable (s : NetState) (dstMac : Mac) (type data len : Nat)

/-- The destination of a frame. -/
theorem ethBuild_dst : (s.ethBuild dstMac type data len).array (EthHdr.dst data) 6 = dstMac := by
  apply Mem.array_of_put
  intro j h1 h2
  simp only [EthHdr.dst] at h1 h2
  simp only [ethBuild]
  rw [Mem.put_of_not_mem _ _ (by simp only [EthHdr.data]; omega), Mem.put16_of_ne _ _ (by simp only [EthHdr.type]; omega),
    Mem.put_of_not_mem _ _ (by simp only [EthHdr.src]; omega)]

/-- The type of a frame. -/
theorem ethBuild_type : (s.ethBuild dstMac type data len).get16 (EthHdr.type data) = bswap16 type := by
  apply Mem.get16_of_put16 (bswap16_lt type)
  intro j h1 h2
  simp only [EthHdr.type] at h1 h2
  simp only [ethBuild]
  rw [Mem.put_of_not_mem _ _ (by simp only [EthHdr.data]; omega)]

/-- The packet in a frame. -/
theorem ethBuild_data {x : Nat} (hx : x < len) :
    s.ethBuild dstMac type data len (EthHdr.data data + x) = s.sndBuff (data + x) := by
  simp only [ethBuild, EthHdr.data, EthHdr.type, EthHdr.src, EthHdr.dst]
  rw [Mem.put_of_not_mem _ _ (by omega), Mem.put16_of_ne _ _ (by omega), Mem.put_of_not_mem _ _ (by omega),
    Mem.put_of_not_mem _ _ (by omega), Mem.memcpy_apply, if_pos (by omega)]
  congr 1
  omega

/-! ## IP -/

variable (id : UInt32) (dstIp : Ip) (protocol : UInt8)

theorem ipBuild_protocol : s.ipBuild id dstIp protocol data len (IpHdr.protocol data) = protocol := by
  simp only [ipBuild, IpHdr.checksum, IpHdr.dst, IpHdr.src, IpHdr.protocol]
  rw [Mem.put16_of_ne _ _ (by omega), Mem.put_of_not_mem _ _ (by omega), Mem.put_of_not_mem _ _ (by omega),
    Mem.put16_of_ne _ _ (by omega), Mem.set_self]

theorem ipBuild_src : (s.ipBuild id dstIp protocol data len).array (IpHdr.src data) 4 = s.localIp := by
  apply Mem.array_of_put
  intro j h1 h2
  simp only [IpHdr.src] at h1 h2
  simp only [ipBuild]
  rw [Mem.put16_of_ne _ _ (by simp only [IpHdr.checksum]; omega), Mem.put_of_not_mem _ _ (by simp only [IpHdr.dst]; omega)]

theorem ipBuild_data {x : Nat} (hx : x < len) :
    s.ipBuild id dstIp protocol data len (data + IpHdr.size + x) = s.sndBuff (data + x) := by
  simp only [ipBuild, IpHdr.checksum, IpHdr.dst, IpHdr.src, IpHdr.protocol, IpHdr.ttl, IpHdr.offset, IpHdr.id, IpHdr.len,
    IpHdr.tos, IpHdr.verIhl, IpHdr.size]
  rw [Mem.put16_of_ne _ _ (by omega), Mem.put_of_not_mem _ _ (by omega), Mem.put_of_not_mem _ _ (by omega),
    Mem.put16_of_ne _ _ (by omega), Mem.set_ne _ _ (by omega), Mem.set_ne _ _ (by omega), Mem.put16_of_ne _ _ (by omega),
    Mem.put16_of_ne _ _ (by omega), Mem.put16_of_ne _ _ (by omega), Mem.set_ne _ _ (by omega), Mem.set_ne _ _ (by omega),
    Mem.memcpy_apply, if_pos (by omega)]
  congr 1
  omega

/-! ## UDP -/

variable (srcPort dstPort : UInt16) (payload : Mem)

theorem udpBuild_srcPort : (s.udpBuild dstIp srcPort dstPort payload len).get16 (UdpHdr.srcPort UdpIpHdr.size) =
    bswap16 srcPort.toNat := by
  apply Mem.get16_of_put16 (bswap16_lt _)
  intro j h1 h2
  simp only [UdpHdr.srcPort, UdpIpHdr.size] at h1 h2
  simp only [udpBuild, UdpHdr.checksum, UdpIpHdr.len, UdpIpHdr.protocol, UdpIpHdr.zero, UdpIpHdr.recver, UdpIpHdr.sender,
    UdpHdr.len, UdpHdr.dstPort, UdpIpHdr.size]
  rw [Mem.put16_of_ne _ _ (by omega), Mem.put16_of_ne _ _ (by omega), Mem.set_ne _ _ (by omega), Mem.set_ne _ _ (by omega),
    Mem.put_of_not_mem _ _ (by omega), Mem.put_of_not_mem _ _ (by omega), Mem.put16_of_ne _ _ (by omega),
    Mem.put16_of_ne _ _ (by omega)]

theorem udpBuild_dstPort : (s.udpBuild dstIp srcPort dstPort payload len).get16 (UdpHdr.dstPort UdpIpHdr.size) =
    bswap16 dstPort.toNat := by
  apply Mem.get16_of_put16 (bswap16_lt _)
  intro j h1 h2
  simp only [UdpHdr.dstPort, UdpIpHdr.size] at h1 h2
  simp only [udpBuild, UdpHdr.checksum, UdpIpHdr.len, UdpIpHdr.protocol, UdpIpHdr.zero, UdpIpHdr.recver, UdpIpHdr.sender,
    UdpHdr.len, UdpIpHdr.size]
  rw [Mem.put16_of_ne _ _ (by omega), Mem.put16_of_ne _ _ (by omega), Mem.set_ne _ _ (by omega), Mem.set_ne _ _ (by omega),
    Mem.put_of_not_mem _ _ (by omega), Mem.put_of_not_mem _ _ (by omega), Mem.put16_of_ne _ _ (by omega)]

theorem udpBuild_len : (s.udpBuild dstIp srcPort dstPort payload len).get16 (UdpHdr.len UdpIpHdr.size) =
    bswap16 (len + UdpHdr.size) := by
  apply Mem.get16_of_put16 (bswap16_lt _)
  intro j h1 h2
  simp only [UdpHdr.len, UdpIpHdr.size] at h1 h2
  simp only [udpBuild, UdpHdr.checksum, UdpIpHdr.len, UdpIpHdr.protocol, UdpIpHdr.zero, UdpIpHdr.recver, UdpIpHdr.sender,
    UdpIpHdr.size]
  rw [Mem.put16_of_ne _ _ (by omega), Mem.put16_of_ne _ _ (by omega), Mem.set_ne _ _ (by omega), Mem.set_ne _ _ (by omega),
    Mem.put_of_not_mem _ _ (by omega), Mem.put_of_not_mem _ _ (by omega)]

theorem udpBuild_data {k : Nat} (hk : k < len) :
    s.udpBuild dstIp srcPort dstPort payload len (UdpIpHdr.size + UdpHdr.size + k) = payload k := by
  simp only [udpBuild, UdpHdr.checksum, UdpIpHdr.len, UdpIpHdr.protocol, UdpIpHdr.zero, UdpIpHdr.recver, UdpIpHdr.sender,
    UdpHdr.len, UdpHdr.dstPort, UdpHdr.srcPort, UdpIpHdr.size, UdpHdr.size]
  rw [Mem.put16_of_ne _ _ (by omega), Mem.put16_of_ne _ _ (by omega), Mem.set_ne _ _ (by omega), Mem.set_ne _ _ (by omega),
    Mem.put_of_not_mem _ _ (by omega), Mem.put_of_not_mem _ _ (by omega), Mem.put16_of_ne _ _ (by omega),
    Mem.put16_of_ne _ _ (by omega), Mem.put16_of_ne _ _ (by omega), Mem.put_array, if_pos (by omega)]
  congr 1
  omega

/-! ## Receiving -/

/-- The bytes of a packet that fit, as `ne2k_receive` loads them. -/
theorem ne2kLoad_apply (bytes : List UInt8) :
    ∀ (i : Nat) (m : Mem) (j : Nat), j < 255 →
      ne2kLoad bytes i m j = if i ≤ j ∧ j < i + bytes.length then bytes.getD (j - i) 0 else m j := by
  induction bytes with
  | nil =>
    intro i m j _
    rw [ne2kLoad, if_neg (by simp only [List.length_nil]; omega)]
  | cons b bytes ih =>
    intro i m j hj
    rw [ne2kLoad, ih (i + 1) _ j hj, List.length_cons]
    by_cases hij : j = i
    · have hmin : min i (netBuffSize - 1) = i := Nat.min_eq_left (by simp only [netBuffSize]; omega)
      rw [if_neg (by omega), if_pos (by omega), hmin, hij, Mem.set_self, Nat.sub_self]
      rfl
    · by_cases hin : i + 1 ≤ j ∧ j < i + 1 + bytes.length
      · have hsub : j - i = j - (i + 1) + 1 := by omega
        rw [if_pos hin, if_pos (by omega), hsub]
        rfl
      · have hne : j ≠ min i (netBuffSize - 1) := by
          simp only [netBuffSize]
          omega
        rw [if_neg hin, if_neg (by omega), Mem.set_ne _ _ hne]

/-- What the host finds in `tmp_buff` of a frame that was built at `p`, whatever comes after it. -/
theorem ne2kLoad_frame (m tmp : Mem) (p n : Nat) (tail : List UInt8) {j : Nat} (hj : j < n) (hj' : j < 255) :
    ne2kLoad ((List.range n).map (fun k => m (p + k)) ++ tail) 0 tmp j = m (p + j) := by
  have hlen : ((List.range n).map fun k => m (p + k)).length = n := by rw [List.length_map, List.length_range]
  rw [ne2kLoad_apply _ _ _ _ hj', if_pos (by rw [List.length_append, hlen]; omega), Nat.sub_zero,
    List.getD_append _ _ _ _ (by rw [hlen]; exact hj), List.getD_eq_getElem _ _ (by rw [hlen]; exact hj)]
  simp

/-- A datagram for this host's port is stored in the empty slot. -/
theorem ipRecvProcess_datagram (h : NetState) (m : Mem) (buff len : Nat) (ip : Ip) (srcPort : UInt16)
    (hempty : h.rcvBuff.size = 0) (hlen : len ≤ 256) (hproto : m (IpHdr.protocol buff) = ipProtocolUdp)
    (hsrc : m.array (IpHdr.src buff) 4 = ip)
    (hsp : m.get16 (UdpHdr.srcPort (buff + IpHdr.size)) = bswap16 srcPort.toNat)
    (hdp : m.get16 (UdpHdr.dstPort (buff + IpHdr.size)) = bswap16 h.rcvPort.toNat)
    (hl : m.get16 (UdpHdr.len (buff + IpHdr.size)) = bswap16 (len + UdpHdr.size)) :
    (h.ipRecvProcess m buff).rcvBuff.size = len ∧
      (h.ipRecvProcess m buff).rcvBuff.addr = { ip := ip, port := srcPort } ∧
      ∀ k < len, (h.ipRecvProcess m buff).rcvBuff.buff k = m (buff + IpHdr.size + UdpHdr.size + k) := by
  have hport : bswap16 (m.get16 (UdpHdr.dstPort (buff + IpHdr.size))) = h.rcvPort.toNat := by
    rw [hdp, bswap16_bswap16 h.rcvPort.toNat_lt]
  have hsize : min (sub32 (bswap16 (m.get16 (UdpHdr.len (buff + IpHdr.size)))) UdpHdr.size) netBuffSize = len := by
    rw [hl, bswap16_bswap16 (by simp only [UdpHdr.size]; omega)]
    rw [sub32_add _ (by omega)]
    exact Nat.min_eq_left hlen
  have hne : ¬h.rcvBuff.size > 0 := by omega
  rw [ipRecvProcess, if_neg hne, if_pos hproto, if_pos hport]
  generalize min (sub32 (bswap16 (m.get16 (UdpHdr.len (buff + IpHdr.size)))) UdpHdr.size) netBuffSize = size at hsize
  subst hsize
  refine ⟨rfl, ?_, fun k hk => ?_⟩
  · simp only []
    rw [hsrc, hsp, bswap16_bswap16 srcPort.toNat_lt, UInt16.ofNat_toNat]
  · simp only []
    rw [Mem.put_array, if_pos (by omega), Nat.sub_zero]

/-! ## The three layers -/

/-- The packet that `udp_send` and `ip_send` have built when the hardware address is looked up. -/
def datagram (s : NetState) (dst : NetAddress) (buff : Mem) (len : Nat) : NetState :=
  let s1 := s.setSnd (s.udpBuild dst.ip udpSendPort dst.port buff len)
  { s1 with id := s1.id + 1, sndBuff := s1.ipBuild (s1.id + 1) dst.ip ipProtocolUdp UdpIpHdr.size (UdpHdr.size + len) }

/-- The frame that carries it. -/
def frame (s : NetState) (dst : NetAddress) (buff : Mem) (len : Nat) (mac : Mac) : List UInt8 :=
  (List.range (IpHdr.size + (UdpHdr.size + len) + EthHdr.size + ethCrcLen)).map fun k =>
    (s.datagram dst buff len).ethBuild mac ethTypeIp UdpIpHdr.size (IpHdr.size + (UdpHdr.size + len)) (UdpIpHdr.size + k)

/-- The frame is the last one handed to the card, and it is addressed to the hardware address of the effective destination. -/
theorem ipSend_frame (s : NetState) (dst : NetAddress) (buff : Mem) (len : Nat) :
    (s.setSnd (s.udpBuild dst.ip udpSendPort dst.port buff len)).ipSend dst.ip ipProtocolUdp UdpIpHdr.size
        (UdpHdr.size + len) =
      match s.findMacInTable (s.getEffectiveIp dst.ip) with
      | none => (errorIo, s.datagram dst buff len)
      | some p => (noError, (s.datagram dst buff len).ethSend (s.macAt p) ethTypeIp UdpIpHdr.size
          (IpHdr.size + (UdpHdr.size + len))) := by
  have hfind : (s.datagram dst buff len).findMacInTable ((s.datagram dst buff len).getEffectiveIp dst.ip) =
    s.findMacInTable (s.getEffectiveIp dst.ip) := rfl
  rw [ipSend]
  change (match (s.datagram dst buff len).findMacInTable ((s.datagram dst buff len).getEffectiveIp dst.ip) with
    | none => _
    | some p => _) = _
  rw [hfind]
  cases s.findMacInTable (s.getEffectiveIp dst.ip) with
  | none => rfl
  | some p => cases p <;> rfl

theorem ethSend_frame (s : NetState) (dst : NetAddress) (buff : Mem) (len : Nat) (mac : Mac) :
    ((s.datagram dst buff len).ethSend mac ethTypeIp UdpIpHdr.size (IpHdr.size + (UdpHdr.size + len))).sent =
      s.sent ++ [s.frame dst buff len mac] := rfl

/-- A memory holds a frame with a datagram from its start on. -/
structure HoldsDatagram (t : Mem) (mac : Mac) (src : Ip) (dst : NetAddress) (buff : Mem) (len : Nat) : Prop where
  mac : t.array (EthHdr.dst 0) 6 = mac
  type : bswap16 (t.get16 (EthHdr.type 0)) = arpPtypeIp
  protocol : t (IpHdr.protocol (EthHdr.data 0)) = ipProtocolUdp
  src : t.array (IpHdr.src (EthHdr.data 0)) 4 = src
  srcPort : t.get16 (UdpHdr.srcPort (EthHdr.data 0 + IpHdr.size)) = bswap16 udpSendPort.toNat
  dstPort : t.get16 (UdpHdr.dstPort (EthHdr.data 0 + IpHdr.size)) = bswap16 dst.port.toNat
  size : t.get16 (UdpHdr.len (EthHdr.data 0 + IpHdr.size)) = bswap16 (len + UdpHdr.size)
  data : ∀ k < len, t (EthHdr.data 0 + IpHdr.size + UdpHdr.size + k) = buff k

/-- What is loaded of the frame of a datagram. -/
theorem ne2kLoad_datagram (s : NetState) (dst : NetAddress) (buff : Mem) {len : Nat} (mac : Mac) (tail : List UInt8) (hlen : len ≤ 198)
    (tmp : Mem) : HoldsDatagram (ne2kLoad (s.frame dst buff len mac ++ tail) 0 tmp) mac s.localIp dst buff len := by
  have hload : ∀ j, j < 42 + len →
      ne2kLoad (s.frame dst buff len mac ++ tail) 0 tmp j =
        (s.datagram dst buff len).ethBuild mac ethTypeIp 12 (28 + len) (12 + j) := by
    intro j hj
    have hn : IpHdr.size + (UdpHdr.size + len) = 28 + len := by
      simp only [IpHdr.size, UdpHdr.size]
      omega
    rw [frame, hn]
    exact ne2kLoad_frame _ _ _ _ _ (by simp only [EthHdr.size, ethCrcLen]; omega) (by omega)
  generalize ne2kLoad (s.frame dst buff len mac ++ tail) 0 tmp = t at hload
  -- the packet inside the frame, and the datagram inside the packet
  have hip : ∀ x, x < 28 + len → t (14 + x) = (s.datagram dst buff len).sndBuff (12 + x) := by
    intro x hx
    rw [hload _ (by omega), show 12 + (14 + x) = EthHdr.data 12 + x by simp only [EthHdr.data]; omega, ethBuild_data _ _ _ _ _ hx]
  have hudp : ∀ y, y < 8 + len → t (34 + y) = s.udpBuild dst.ip udpSendPort dst.port buff len (12 + y) := by
    intro y hy
    rw [show 34 + y = 14 + (20 + y) by omega, hip _ (by omega), show 12 + (20 + y) = 12 + IpHdr.size + y by
      simp only [IpHdr.size]; omega]
    exact ipBuild_data _ _ _ _ _ _ hy
  have hdst : t.array (EthHdr.dst 0) 6 = mac := by
    rw [← ethBuild_dst (s.datagram dst buff len) mac ethTypeIp 12 (28 + len)]
    refine Mem.array_shift fun j hj => ?_
    rw [show EthHdr.dst 0 + j = j by simp only [EthHdr.dst]; omega, hload j (by omega)]
    rfl
  have htype : bswap16 (t.get16 (EthHdr.type 0)) = arpPtypeIp := by
    have : t.get16 (EthHdr.type 0) = bswap16 ethTypeIp := by
      rw [← ethBuild_type (s.datagram dst buff len) mac ethTypeIp 12 (28 + len)]
      refine Mem.get16_shift fun j hj => ?_
      rw [hload _ (by simp only [EthHdr.type]; omega), show 12 + (EthHdr.type 0 + j) = EthHdr.type 12 + j by
        simp only [EthHdr.type]; omega]
    rw [this]
    rfl
  -- the headers that the receiver reads
  have hproto : t (IpHdr.protocol (EthHdr.data 0)) = ipProtocolUdp :=
    (hip 9 (by omega)).trans (ipBuild_protocol (s.setSnd (s.udpBuild dst.ip udpSendPort dst.port buff len)) 12 (8 + len)
      (s.id + 1) dst.ip ipProtocolUdp)
  have hsrc : t.array (IpHdr.src (EthHdr.data 0)) 4 = s.localIp := by
    refine Eq.trans (Mem.array_shift fun j hj => ?_)
      (ipBuild_src (s.setSnd (s.udpBuild dst.ip udpSendPort dst.port buff len)) 12 (8 + len) (s.id + 1) dst.ip ipProtocolUdp)
    rw [show IpHdr.src (EthHdr.data 0) + j = 14 + (12 + j) by simp only [IpHdr.src, EthHdr.data]; omega, hip _ (by omega),
      show 12 + (12 + j) = IpHdr.src 12 + j by simp only [IpHdr.src]; omega]
    rfl
  have hword : ∀ p, p ≤ 6 → t.get16 (34 + p) = (s.udpBuild dst.ip udpSendPort dst.port buff len).get16 (12 + p) := by
    intro p hp
    refine Mem.get16_shift fun j hj => ?_
    rw [Nat.add_assoc, Nat.add_assoc, hudp _ (by omega)]
  refine ⟨hdst, htype, hproto, hsrc, (hword 0 (by omega)).trans (udpBuild_srcPort s len dst.ip udpSendPort dst.port buff),
    (hword 2 (by omega)).trans (udpBuild_dstPort s len dst.ip udpSendPort dst.port buff),
    (hword 4 (by omega)).trans (udpBuild_len s len dst.ip udpSendPort dst.port buff), fun k hk => ?_⟩
  have hdata := udpBuild_data s len dst.ip udpSendPort dst.port buff hk
  rw [← hdata, show EthHdr.data 0 + IpHdr.size + UdpHdr.size + k = 34 + (8 + k) by
    simp only [EthHdr.data, IpHdr.size, UdpHdr.size]; omega, hudp _ (by omega), ← Nat.add_assoc]
  rfl

/-- A host with the frame's destination and port, and an empty slot, gets the data and the sender. -/
theorem ne2kReceive_frame (s h : NetState) (dst : NetAddress) (buff : Mem) {len : Nat} (tail : List UInt8) (hlen : len ≤ 198)
    (hempty : h.rcvBuff.size = 0) (hport : h.rcvPort = dst.port) :
    (h.ne2kReceive (s.frame dst buff len h.localMac ++ tail)).rcvBuff.size = len ∧
      (h.ne2kReceive (s.frame dst buff len h.localMac ++ tail)).rcvBuff.addr = { ip := s.localIp, port := udpSendPort } ∧
      ∀ k < len, (h.ne2kReceive (s.frame dst buff len h.localMac ++ tail)).rcvBuff.buff k = buff k := by
  have hholds := ne2kLoad_datagram s dst buff h.localMac tail hlen h.tmpBuff
  rw [ne2kReceive]
  generalize ne2kLoad (s.frame dst buff len h.localMac ++ tail) 0 h.tmpBuff = t at hholds
  rw [if_pos (Or.inl hholds.mac), if_pos hholds.type]
  obtain ⟨h1, h2, h3⟩ := ipRecvProcess_datagram { h with tmpBuff := t } t (EthHdr.data 0) len s.localIp udpSendPort hempty
    (by omega) hholds.protocol hholds.src hholds.srcPort (hport ▸ hholds.dstPort) hholds.size
  exact ⟨h1, h2, fun k hk => (h3 k hk).trans (hholds.data k hk)⟩

/-! ## The call -/

theorem provideLoop_localIp (traffic : Nat → List (List UInt8)) (ip : Ip) :
    ∀ (k i : Nat) (s : NetState), (provideLoop traffic ip k i s).localIp = s.localIp := by
  intro k
  induction k with
  | zero => exact fun _ _ => rfl
  | succ k ih =>
    intro i s
    rw [provideLoop]
    split
    · rw [ih, netHandler_localIp]
      rfl
    · rfl

/-- An address that is known needs no request. -/
theorem provideMacAddress_known {s : NetState} {ip : Ip} {p : MacPtr} (traffic : Nat → List (List UInt8)) (i : Nat)
    (h : s.findMacInTable (s.getEffectiveIp ip) = some p) : s.provideMacAddress traffic i ip = (noError, s) := by
  have hne : ¬s.findMacInTable (s.getEffectiveIp ip) = none := by
    rw [h]
    simp
  have hloop : provideLoop traffic (s.getEffectiveIp ip) 16 i s = s := by
    rw [provideLoop, if_neg hne]
  simp only [provideMacAddress]
  rw [hloop, if_neg hne]

/-- The length that `udp_send` sends. -/
theorem udpLen_eq {len : Nat} (hlen : len ≤ 198) :
    min (netBuffSize - UdpIpHdr.size - UdpHdr.size - IpHdr.size - EthHdr.size) len = len :=
  Nat.min_eq_right (by simp only [netBuffSize, UdpIpHdr.size, UdpHdr.size, IpHdr.size, EthHdr.size]; omega)

/-- `udp_send` gives up, or the datagram is built in a state with the same `local_ip`. -/
theorem udpSend_cases (s : NetState) (traffic : Nat → List (List UInt8)) (dst : NetAddress) (buff : Mem) {len : Nat}
    (hlen : len ≤ 198) :
    (s.udpSend traffic dst.ip udpSendPort dst.port buff len).1 = errorNotFound ∨
      ∃ s' : NetState, s'.localIp = s.localIp ∧ s.udpSend traffic dst.ip udpSendPort dst.port buff len =
        (s'.setSnd (s'.udpBuild dst.ip udpSendPort dst.port buff len)).ipSend dst.ip ipProtocolUdp UdpIpHdr.size
          (UdpHdr.size + len) := by
  simp only [udpSend]
  rw [udpLen_eq hlen]
  split
  · exact Or.inl rfl
  · split
    · exact Or.inl rfl
    · refine Or.inr ⟨_, ?_, rfl⟩
      exact (provideLoop_localIp _ _ _ _ _).trans (provideLoop_localIp _ _ _ _ _)

/-- `udp_send` with both hardware addresses known. -/
theorem udpSend_known {s : NetState} {dst : NetAddress} {p q : MacPtr} (traffic : Nat → List (List UInt8)) (buff : Mem)
    {len : Nat} (hlen : len ≤ 198) (hp : s.findMacInTable (s.getEffectiveIp dst.ip) = some p)
    (hq : s.findMacInTable (s.getEffectiveIp s.localGate) = some q) :
    s.udpSend traffic dst.ip udpSendPort dst.port buff len =
      (noError, (s.datagram dst buff len).ethSend (s.macAt p) ethTypeIp UdpIpHdr.size (IpHdr.size + (UdpHdr.size + len))) := by
  simp only [udpSend]
  rw [provideMacAddress_known traffic 0 hp, udpLen_eq hlen]
  simp only [ne_eq, not_true_eq_false, if_false]
  rw [provideMacAddress_known traffic 16 hq]
  simp only [not_true_eq_false, if_false]
  rw [ipSend_frame, hp]

/-- The first bytes of the frame are its destination. -/
theorem frame_dst (s : NetState) (dst : NetAddress) (buff : Mem) (len : Nat) (mac : Mac) (k : Fin 6) :
    (s.frame dst buff len mac).getD k 0 = mac k := by
  have hk : k.val < IpHdr.size + (UdpHdr.size + len) + EthHdr.size + ethCrcLen := by
    simp only [IpHdr.size, EthHdr.size]
    omega
  have hdst := congrFun (ethBuild_dst (s.datagram dst buff len) mac ethTypeIp UdpIpHdr.size (IpHdr.size + (UdpHdr.size + len))) k
  rw [← hdst, frame, List.getD_eq_getElem _ _ (by rw [List.length_map, List.length_range]; exact hk), List.getElem_map,
    List.getElem_range]
  rfl

end NetState

open NetState

/-- When the hardware addresses of the destination and of the gate are known, `io_net_send` hands one frame to the card,
addressed to the destination's, and succeeds; and whenever it succeeds, a host with the hardware address of the last frame handed
to the card, the destination port and an empty slot, gets exactly the data, from `local_ip` and `UDP_SEND_PORT`, whatever bytes
come after the frame. -/
theorem udp_round_trip (s : NetState) (traffic : Nat → List (List UInt8)) (dst : NetAddress) (buff : Mem) (len : Nat)
    (hen : s.networkState = .enabled) (hlen : len ≤ 198) :
    (∀ p, s.findMacInTable (s.getEffectiveIp dst.ip) = some p →
      s.findMacInTable (s.getEffectiveIp s.localGate) ≠ none →
      (s.ioNetSend traffic dst buff len).1 = noError ∧
        ∃ frame, (s.ioNetSend traffic dst buff len).2.sent = s.sent ++ [frame] ∧
          ∀ k : Fin 6, frame.getD k 0 = s.macAt p k) ∧
    ((s.ioNetSend traffic dst buff len).1 = noError →
      ∃ before frame, (s.ioNetSend traffic dst buff len).2.sent = before ++ [frame] ∧
        ∀ (h : NetState) (tail : List UInt8), (∀ k : Fin 6, frame.getD k 0 = h.localMac k) → h.rcvBuff.size = 0 →
          h.rcvPort = dst.port →
          (h.ne2kReceive (frame ++ tail)).rcvBuff.size = len ∧
            (h.ne2kReceive (frame ++ tail)).rcvBuff.addr = { ip := s.localIp, port := udpSendPort } ∧
            ∀ k < len, (h.ne2kReceive (frame ++ tail)).rcvBuff.buff k = buff k) := by
  have hsend : s.ioNetSend traffic dst buff len = s.udpSend traffic dst.ip udpSendPort dst.port buff len := by
    rw [ioNetSend, if_pos hen]
  rw [hsend]
  refine ⟨fun p hp hgate => ?_, fun hok => ?_⟩
  · obtain ⟨q, hq⟩ := Option.ne_none_iff_exists'.1 hgate
    rw [udpSend_known traffic buff hlen hp hq]
    exact ⟨rfl, s.frame dst buff len (s.macAt p), ethSend_frame .., frame_dst s dst buff len (s.macAt p)⟩
  · rcases udpSend_cases s traffic dst buff hlen with h | ⟨s', hip, h⟩
    · rw [h] at hok
      exact absurd hok (by decide)
    rw [h, ipSend_frame] at hok ⊢
    cases hfind : s'.findMacInTable (s'.getEffectiveIp dst.ip) with
    | none =>
      rw [hfind] at hok
      have herr : errorIo = noError := hok
      exact absurd herr (by decide)
    | some p =>
      refine ⟨s'.sent, s'.frame dst buff len (s'.macAt p), ethSend_frame .., fun r tail hmac hempty hport => ?_⟩
      have hm : s'.macAt p = r.localMac := funext fun k => (frame_dst s' dst buff len (s'.macAt p) k).symm.trans (hmac k)
      rw [hm, ← hip]
      exact ne2kReceive_frame s' r dst buff tail hlen hempty hport

/-- A host that knows the hardware address of its gate. -/
def udpHost : NetState :=
  (ioNetInit .boot (some ![0x52, 0x54, 0, 0x12, 0x34, 0x56])).setEntry ⟨1, by decide⟩
    { ip := ![192, 168, 2, 2], mac := ![2, 2, 2, 2, 2, 2] }

theorem udp_round_trip_gate :
    (udpHost.ioNetSend (fun _ => []) { ip := ![10, 0, 0, 1], port := 9000 } (fun k => UInt8.ofNat k) 198).1 = noError :=
  ((udp_round_trip udpHost (fun _ => []) { ip := ![10, 0, 0, 1], port := 9000 } (fun k => UInt8.ofNat k) 198 rfl
    (by decide)).1 (.arpTable 1) (by decide) (by decide)).1

end NanoS32
