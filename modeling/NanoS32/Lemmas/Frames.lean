import NanoS32.Theorems.Arp
import NanoS32.Theorems.Udp

/-!
# What a host does with a frame

A frame with an ARP packet or with a datagram, as the host finds it in `tmp_buff`, and what the interrupt side makes of it.
-/

namespace NanoS32

namespace NetState

/-! ## ARP packets -/

section Build

variable (s : NetState) (op : Nat) (dha : Mac) (dpa : Ip)

/-- The packet that `arp_request` and `arp_reply` build. -/
def arpPacket : Mem :=
  let m1 := s.sndBuff.put16 (ArpHdr.hrd 0) (bswap16 arpHtypeEther)
  let m2 := m1.put16 (ArpHdr.pro 0) (bswap16 arpPtypeIp)
  let m3 := m2.set (ArpHdr.hln 0) 6
  let m4 := m3.set (ArpHdr.pln 0) 4
  let m5 := m4.put16 (ArpHdr.op 0) (bswap16 op)
  let m6 := m5.put (ArpHdr.sha 0) s.localMac
  let m7 := m6.put (ArpHdr.spa 0) s.localIp
  let m8 := m7.put (ArpHdr.dha 0) dha
  m8.put (ArpHdr.dpa 0) dpa

theorem arpPacket_hrd : (s.arpPacket op dha dpa).get16 (ArpHdr.hrd 0) = bswap16 arpHtypeEther := by
  apply Mem.get16_of_put16 (bswap16_lt _)
  intro j h1 h2
  simp only [ArpHdr.hrd] at h1 h2
  simp only [arpPacket, ArpHdr.dpa, ArpHdr.dha, ArpHdr.spa, ArpHdr.sha, ArpHdr.op, ArpHdr.pln, ArpHdr.hln, ArpHdr.pro]
  rw [Mem.put_of_not_mem _ _ (by omega), Mem.put_of_not_mem _ _ (by omega), Mem.put_of_not_mem _ _ (by omega),
    Mem.put_of_not_mem _ _ (by omega), Mem.put16_of_ne _ _ (by omega), Mem.set_ne _ _ (by omega), Mem.set_ne _ _ (by omega),
    Mem.put16_of_ne _ _ (by omega)]

theorem arpPacket_pro : (s.arpPacket op dha dpa).get16 (ArpHdr.pro 0) = bswap16 arpPtypeIp := by
  apply Mem.get16_of_put16 (bswap16_lt _)
  intro j h1 h2
  simp only [ArpHdr.pro] at h1 h2
  simp only [arpPacket, ArpHdr.dpa, ArpHdr.dha, ArpHdr.spa, ArpHdr.sha, ArpHdr.op, ArpHdr.pln, ArpHdr.hln]
  rw [Mem.put_of_not_mem _ _ (by omega), Mem.put_of_not_mem _ _ (by omega), Mem.put_of_not_mem _ _ (by omega),
    Mem.put_of_not_mem _ _ (by omega), Mem.put16_of_ne _ _ (by omega), Mem.set_ne _ _ (by omega), Mem.set_ne _ _ (by omega)]

theorem arpPacket_op : (s.arpPacket op dha dpa).get16 (ArpHdr.op 0) = bswap16 op := by
  apply Mem.get16_of_put16 (bswap16_lt _)
  intro j h1 h2
  simp only [ArpHdr.op] at h1 h2
  simp only [arpPacket, ArpHdr.dpa, ArpHdr.dha, ArpHdr.spa, ArpHdr.sha]
  rw [Mem.put_of_not_mem _ _ (by omega), Mem.put_of_not_mem _ _ (by omega), Mem.put_of_not_mem _ _ (by omega),
    Mem.put_of_not_mem _ _ (by omega)]

theorem arpPacket_sha : (s.arpPacket op dha dpa).array (ArpHdr.sha 0) 6 = s.localMac := by
  apply Mem.array_of_put
  intro j h1 h2
  simp only [ArpHdr.sha] at h1 h2
  simp only [arpPacket, ArpHdr.dpa, ArpHdr.dha, ArpHdr.spa]
  rw [Mem.put_of_not_mem _ _ (by omega), Mem.put_of_not_mem _ _ (by omega), Mem.put_of_not_mem _ _ (by omega)]

theorem arpPacket_spa : (s.arpPacket op dha dpa).array (ArpHdr.spa 0) 4 = s.localIp := by
  apply Mem.array_of_put
  intro j h1 h2
  simp only [ArpHdr.spa] at h1 h2
  simp only [arpPacket, ArpHdr.dpa, ArpHdr.dha]
  rw [Mem.put_of_not_mem _ _ (by omega), Mem.put_of_not_mem _ _ (by omega)]

theorem arpPacket_dpa : (s.arpPacket op dha dpa).array (ArpHdr.dpa 0) 4 = dpa := Mem.array_put _ _ _

/-- The frame that carries it. -/
def arpFrame : List UInt8 :=
  (List.range (ArpHdr.size + EthHdr.size + ethCrcLen)).map fun k =>
    (s.setSnd (s.arpPacket op dha dpa)).ethBuild dha ethTypeArp 0 ArpHdr.size (0 + k)

theorem arpSend_sent : (s.arpSend op dha dpa).sent = s.sent ++ [s.arpFrame op dha dpa] := rfl

end Build

/-- A memory holds a frame with an ARP packet from its start on. -/
structure HoldsArp (t : Mem) (dst : Mac) (op : Nat) (sha : Mac) (spa dpa : Ip) : Prop where
  dst : t.array (EthHdr.dst 0) 6 = dst
  type : bswap16 (t.get16 (EthHdr.type 0)) = arpPtypeArp
  hrd : t.get16 (ArpHdr.hrd (EthHdr.data 0)) = bswap16 arpHtypeEther
  pro : t.get16 (ArpHdr.pro (EthHdr.data 0)) = bswap16 arpPtypeIp
  op : t.get16 (ArpHdr.op (EthHdr.data 0)) = bswap16 op
  sha : t.array (ArpHdr.sha (EthHdr.data 0)) 6 = sha
  spa : t.array (ArpHdr.spa (EthHdr.data 0)) 4 = spa
  dpa : t.array (ArpHdr.dpa (EthHdr.data 0)) 4 = dpa

/-- What is loaded of the frame of an ARP packet. -/
theorem ne2kLoad_arp (s : NetState) (op : Nat) (dha : Mac) (dpa : Ip) (tail : List UInt8) (tmp : Mem) :
    HoldsArp (ne2kLoad (s.arpFrame op dha dpa ++ tail) 0 tmp) dha op s.localMac s.localIp dpa := by
  have hload : ∀ j, j < 46 → ne2kLoad (s.arpFrame op dha dpa ++ tail) 0 tmp j =
      (s.setSnd (s.arpPacket op dha dpa)).ethBuild dha ethTypeArp 0 28 (0 + j) := fun j hj =>
    ne2kLoad_frame _ _ _ _ _ (by simp only [ArpHdr.size, EthHdr.size, ethCrcLen]; omega) (by omega)
  generalize ne2kLoad (s.arpFrame op dha dpa ++ tail) 0 tmp = t at hload
  -- the packet inside the frame
  have hdata : ∀ x, x < 28 → t (14 + x) = s.arpPacket op dha dpa (0 + x) := by
    intro x hx
    rw [hload _ (by omega), show 0 + (14 + x) = EthHdr.data 0 + x by simp only [EthHdr.data]; omega, ethBuild_data _ _ _ _ _ hx]
    rfl
  have hword : ∀ p, p ≤ 26 → t.get16 (14 + p) = (s.arpPacket op dha dpa).get16 (0 + p) := by
    intro p hp
    refine Mem.get16_shift fun j hj => ?_
    rw [Nat.add_assoc, Nat.add_assoc, hdata _ (by omega)]
  have harray : ∀ p n, p + n ≤ 28 → t.array (14 + p) n = (s.arpPacket op dha dpa).array (0 + p) n := by
    intro p n hp
    refine Mem.array_shift fun j hj => ?_
    rw [Nat.add_assoc, Nat.add_assoc, hdata _ (by omega)]
  refine ⟨?_, ?_, (hword 0 (by omega)).trans (s.arpPacket_hrd op dha dpa), (hword 2 (by omega)).trans (s.arpPacket_pro op dha dpa),
    (hword 6 (by omega)).trans (s.arpPacket_op op dha dpa), (harray 8 6 (by omega)).trans (s.arpPacket_sha op dha dpa),
    (harray 14 4 (by omega)).trans (s.arpPacket_spa op dha dpa), (harray 24 4 (by omega)).trans (s.arpPacket_dpa op dha dpa)⟩
  · rw [← ethBuild_dst (s.setSnd (s.arpPacket op dha dpa)) dha ethTypeArp 0 28]
    refine Mem.array_shift fun j hj => ?_
    rw [hload _ (by simp only [EthHdr.dst]; omega), Nat.zero_add]
  · have htype : t.get16 (EthHdr.type 0) = bswap16 ethTypeArp := by
      rw [← ethBuild_type (s.setSnd (s.arpPacket op dha dpa)) dha ethTypeArp 0 28]
      refine Mem.get16_shift fun j hj => ?_
      rw [hload _ (by simp only [EthHdr.type]; omega), Nat.zero_add]
    rw [htype]
    rfl

/-- A packet behind a header is processed as it is from its start on. -/
theorem arpRecvProcess_shift (s : NetState) (t : Mem) (p : Nat) :
    s.arpRecvProcess t p = s.arpRecvProcess (fun k => t (p + k)) 0 := by
  have hword : ∀ o, Mem.get16 (fun k => t (p + k)) (0 + o) = t.get16 (p + o) := fun o =>
    Mem.get16_shift fun j _ => by simp only [Nat.add_assoc, Nat.zero_add]
  have harray : ∀ o n, Mem.array (fun k => t (p + k)) (0 + o) n = t.array (p + o) n := fun o n =>
    Mem.array_shift fun j _ => by simp only [Nat.add_assoc, Nat.zero_add]
  have hhrd : Mem.get16 (fun k => t (p + k)) (ArpHdr.hrd 0) = t.get16 (ArpHdr.hrd p) := hword 0
  simp only [arpRecvProcess, hhrd, ArpHdr.pro, ArpHdr.op, ArpHdr.sha, ArpHdr.spa, ArpHdr.dpa, hword, harray]
  rfl

namespace HoldsArp

variable {s : NetState} {t : Mem} {dst : Mac} {op : Nat} {sha : Mac} {spa dpa : Ip}

theorem senderIp_eq (h : HoldsArp t dst op sha spa dpa) : senderIp (fun k => t (EthHdr.data 0 + k)) = spa := by
  rw [← h.spa]
  exact Mem.array_shift fun j _ => by simp only [EthHdr.data, ArpHdr.spa, Nat.zero_add, Nat.add_assoc]

theorem senderMac_eq (h : HoldsArp t dst op sha spa dpa) : senderMac (fun k => t (EthHdr.data 0 + k)) = sha := by
  rw [← h.sha]
  exact Mem.array_shift fun j _ => by simp only [EthHdr.data, ArpHdr.sha, Nat.zero_add, Nat.add_assoc]

/-- The packet behind the header of the frame is a reply to this host. -/
theorem isReply (h : HoldsArp t dst arpOpReply sha spa dpa) : IsReply dpa (fun k => t (EthHdr.data 0 + k)) := by
  refine ⟨⟨?_, ?_⟩, ?_, ?_⟩
  · rw [← h.hrd]
    exact Mem.get16_shift fun j _ => by simp only [EthHdr.data, ArpHdr.hrd, Nat.zero_add]
  · rw [← h.pro]
    exact Mem.get16_shift fun j _ => by simp only [EthHdr.data, ArpHdr.pro, Nat.zero_add, Nat.add_assoc]
  · rw [← h.op]
    exact Mem.get16_shift fun j _ => by simp only [EthHdr.data, ArpHdr.op, Nat.zero_add, Nat.add_assoc]
  · rw [← h.dpa]
    exact Mem.array_shift fun j _ => by simp only [EthHdr.data, ArpHdr.dpa, Nat.zero_add, Nat.add_assoc]

/-- A reply to another host, or a request, leaves the table. A request for this host is answered. -/
theorem other (h : HoldsArp t dst op sha spa dpa) (hop : op = arpOpRequest ∨ op = arpOpReply ∧ dpa ≠ s.localIp) :
    s.arpRecvProcess t (EthHdr.data 0) = if op = arpOpRequest ∧ dpa = s.localIp then s.arpReply sha spa else s := by
  rw [arpRecvProcess, if_pos ⟨h.hrd, h.pro⟩]
  dsimp only
  rw [h.op, h.dpa, h.sha, h.spa]
  rcases hop with rfl | ⟨rfl, hne⟩
  · rw [if_neg fun hr => absurd hr.1 (by decide), if_pos rfl]
    exact if_congr (and_iff_right rfl).symm rfl rfl
  · rw [if_neg fun hr => hne hr.2, if_neg (by decide), if_neg fun hr => absurd hr.1 (by decide)]

end HoldsArp

/-! ## Reception -/

/-- The state after a packet has been loaded. -/
def load (s : NetState) (packet : List UInt8) : NetState := { s with tmpBuff := ne2kLoad packet 0 s.tmpBuff }

/-- The packet is for this host or for all. -/
def IsFor (s : NetState) (dst : Mac) : Prop := dst = s.localMac ∨ dst = (s.arpTable broadcastEntry).mac

instance (s : NetState) (dst : Mac) : Decidable (s.IsFor dst) := inferInstanceAs (Decidable (_ ∨ _))

/-- The body of the loop of `ne2k_receive`, with its packet in `tmp_buff`. -/
theorem ne2kReceive_eq (s : NetState) (packet : List UInt8) :
    s.ne2kReceive packet =
      if s.IsFor ((s.load packet).tmpBuff.array (EthHdr.dst 0) 6) then
        if bswap16 ((s.load packet).tmpBuff.get16 (EthHdr.type 0)) = arpPtypeIp then
          (s.load packet).ipRecvProcess (s.load packet).tmpBuff (EthHdr.data 0)
        else if bswap16 ((s.load packet).tmpBuff.get16 (EthHdr.type 0)) = arpPtypeArp then
          (s.load packet).arpRecvProcess (s.load packet).tmpBuff (EthHdr.data 0)
        else s.load packet
      else s.load packet := rfl

theorem ne2kReceive_arp {s : NetState} {packet : List UInt8} {dst : Mac} {op : Nat} {sha : Mac} {spa dpa : Ip}
    (h : HoldsArp (s.load packet).tmpBuff dst op sha spa dpa) :
    s.ne2kReceive packet =
      if s.IsFor dst then (s.load packet).arpRecvProcess (s.load packet).tmpBuff (EthHdr.data 0) else s.load packet := by
  rw [ne2kReceive_eq, h.dst, h.type, if_neg (show ¬arpPtypeArp = arpPtypeIp by decide), if_pos rfl]

theorem ne2kReceive_datagram {s : NetState} {packet : List UInt8} {mac : Mac} {src : Ip} {dst : NetAddress} {buff : Mem} {len : Nat}
    (h : HoldsDatagram (s.load packet).tmpBuff mac src dst buff len) :
    s.ne2kReceive packet =
      if s.IsFor mac then (s.load packet).ipRecvProcess (s.load packet).tmpBuff (EthHdr.data 0) else s.load packet := by
  rw [ne2kReceive_eq, h.mac, if_pos h.type]

/-- A datagram is stored in the slot, or nothing changes. -/
theorem HoldsDatagram.process {s : NetState} {t : Mem} {mac : Mac} {src : Ip} {dst : NetAddress} {buff : Mem} {len : Nat}
    (h : HoldsDatagram t mac src dst buff len) (hlen : len ≤ 198) :
    s.ipRecvProcess t (EthHdr.data 0) = s ∨ s.rcvPort = dst.port ∧
      ∃ data : Mem, s.ipRecvProcess t (EthHdr.data 0) =
        { s with rcvBuff := { addr := { ip := src, port := udpSendPort }, size := len, buff := data } } ∧ ∀ k < len, data k = buff k := by
  have hsize : min (sub32 (bswap16 (t.get16 (UdpHdr.len (EthHdr.data 0 + IpHdr.size)))) UdpHdr.size) netBuffSize = len := by
    rw [h.size, bswap16_bswap16 (by simp only [UdpHdr.size]; omega), sub32_add _ (by omega)]
    exact Nat.min_eq_left (by simp only [netBuffSize]; omega)
  have hport : bswap16 (t.get16 (UdpHdr.dstPort (EthHdr.data 0 + IpHdr.size))) = dst.port.toNat := by
    rw [h.dstPort, bswap16_bswap16 dst.port.toNat_lt]
  rw [ipRecvProcess]
  dsimp only
  by_cases hfull : s.rcvBuff.size > 0
  · exact Or.inl (if_pos hfull)
  · rw [if_neg hfull, if_pos h.protocol, hport]
    by_cases hsame : dst.port.toNat = s.rcvPort.toNat
    · refine Or.inr ⟨UInt16.toNat_inj.1 hsame.symm, s.rcvBuff.buff.put 0 (t.array (EthHdr.data 0 + IpHdr.size + UdpHdr.size) len), ?_,
        fun k hk => ?_⟩
      · generalize min (sub32 (bswap16 (t.get16 (UdpHdr.len (EthHdr.data 0 + IpHdr.size)))) UdpHdr.size) netBuffSize = size at hsize
        subst hsize
        rw [if_pos hsame, h.src, h.srcPort, bswap16_bswap16 udpSendPort.toNat_lt, UInt16.ofNat_toNat]
      · rw [Mem.put_array, if_pos (by omega), Nat.sub_zero, h.data k hk]
    · exact Or.inl (if_neg hsame)

end NetState

end NanoS32
