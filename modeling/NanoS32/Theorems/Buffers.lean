import NanoS32.Lemmas.Frame
import NanoS32.Theorems.Udp

/-!
# The buffers of the driver

Which bytes past the end of `snd_buff` sending can change, and which bytes of `tmp_buff` a stored datagram is taken from. The one
limit on the length of a datagram, in `udp_send`, leaves no room for the checksum of the frame; and the length that the receiver
uses is the one the datagram says, which nothing compares with the length of the frame.
-/

namespace NanoS32

namespace NetState

/-! ## Sending -/

/-- The length of the data that `udp_send` sends. -/
def udpLen (len : Nat) : Nat := min (netBuffSize - UdpIpHdr.size - UdpHdr.size - IpHdr.size - EthHdr.size) len

/-- A call of `io_net_send` gets as far as `eth_send`: the driver is enabled, the hardware addresses of the destination and of the
gate can be provided, and after that the one of the next hop is in the table. -/
def SendsFrame (s : NetState) (traffic : Nat → List (List UInt8)) (dst : NetAddress) : Prop :=
  let s1 := (s.provideMacAddress traffic 0 dst.ip).2
  let s2 := (s1.provideMacAddress traffic 16 s1.localGate).2
  s.networkState = .enabled ∧ (s.provideMacAddress traffic 0 dst.ip).1 = noError ∧
    (s1.provideMacAddress traffic 16 s1.localGate).1 = noError ∧ s2.findMacInTable (s2.getEffectiveIp dst.ip) ≠ none

/-- The state in which `udp_send` builds its datagram. -/
def ready (s : NetState) (traffic : Nat → List (List UInt8)) (dst : NetAddress) : NetState :=
  let s1 := (s.provideMacAddress traffic 0 dst.ip).2
  (s1.provideMacAddress traffic 16 s1.localGate).2

theorem udpLen_le (len : Nat) : udpLen len ≤ 202 := Nat.min_le_left _ _

theorem ready_past (s : NetState) (traffic : Nat → List (List UInt8)) (dst : NetAddress) {j : Nat} (hj : netBuffSize ≤ j) :
    (s.ready traffic dst).sndBuff j = s.sndBuff j :=
  (provideLoop_past traffic _ hj 16 16 _).trans (provideLoop_past traffic _ hj 16 0 s)

/-- The datagram and the packet it is put in end before the end of the buffer. -/
theorem datagram_past (s : NetState) (dst : NetAddress) (buff : Mem) (len : Nat) {j : Nat} (hj : netBuffSize ≤ j) :
    (s.datagram dst buff (udpLen len)).sndBuff j = s.sndBuff j := by
  have hlen := udpLen_le len
  simp only [datagram]
  rw [ipBuild_past _ _ _ _ (by simp only [UdpIpHdr.size, IpHdr.size, UdpHdr.size]; simp only [netBuffSize] at hj; omega)]
  exact udpBuild_past s _ _ _ _ (by simp only [UdpIpHdr.size, UdpHdr.size, netBuffSize]; omega) hj

/-- A call that has the hardware addresses it asks for builds its datagram and hands it to `ip_send`. -/
theorem ioNetSend_ready {s : NetState} {traffic : Nat → List (List UInt8)} {dst : NetAddress} (buff : Mem) (len : Nat)
    (hen : s.networkState = .enabled) (h1 : (s.provideMacAddress traffic 0 dst.ip).1 = noError)
    (h2 : ((s.provideMacAddress traffic 0 dst.ip).2.provideMacAddress traffic 16
      (s.provideMacAddress traffic 0 dst.ip).2.localGate).1 = noError) :
    s.ioNetSend traffic dst buff len = ((s.ready traffic dst).setSnd
      ((s.ready traffic dst).udpBuild dst.ip udpSendPort dst.port buff (udpLen len))).ipSend dst.ip ipProtocolUdp
        UdpIpHdr.size (UdpHdr.size + udpLen len) := by
  rw [ioNetSend, if_pos hen]
  simp only [udpSend]
  rw [if_neg (not_not.2 h1), if_neg (not_not.2 h2)]
  rfl

/-- `io_net_send` ends in `eth_send`, or it has changed nothing past the end of the buffer. -/
theorem ioNetSend_cases (s : NetState) (traffic : Nat → List (List UInt8)) (dst : NetAddress) (buff : Mem) (len : Nat) :
    (s.SendsFrame traffic dst ∧ ∃ p, (s.ready traffic dst).findMacInTable ((s.ready traffic dst).getEffectiveIp dst.ip) = some p ∧
      (s.ioNetSend traffic dst buff len).2 = ((s.ready traffic dst).datagram dst buff (udpLen len)).ethSend
        ((s.ready traffic dst).macAt p) ethTypeIp UdpIpHdr.size (IpHdr.size + (UdpHdr.size + udpLen len))) ∨
    ¬s.SendsFrame traffic dst ∧ ∀ j, netBuffSize ≤ j → (s.ioNetSend traffic dst buff len).2.sndBuff j = s.sndBuff j := by
  by_cases hen : s.networkState = .enabled
  · by_cases h1 : (s.provideMacAddress traffic 0 dst.ip).1 = noError
    · by_cases h2 : ((s.provideMacAddress traffic 0 dst.ip).2.provideMacAddress traffic 16
          (s.provideMacAddress traffic 0 dst.ip).2.localGate).1 = noError
      · rw [ioNetSend_ready buff len hen h1 h2, ipSend_frame]
        cases hfind : (s.ready traffic dst).findMacInTable ((s.ready traffic dst).getEffectiveIp dst.ip) with
        | none =>
          refine Or.inr ⟨fun h => h.2.2.2 hfind, fun j hj => ?_⟩
          exact (datagram_past (s.ready traffic dst) dst buff len hj).trans (ready_past s traffic dst hj)
        | some p =>
          refine Or.inl ⟨⟨hen, h1, h2, fun hnone => ?_⟩, p, rfl, rfl⟩
          exact absurd (hfind.symm.trans hnone) (Option.some_ne_none p)
      · refine Or.inr ⟨fun h => h2 h.2.2.1, fun j hj => ?_⟩
        rw [ioNetSend, if_pos hen]
        simp only [udpSend]
        rw [if_neg (not_not.2 h1), if_pos h2]
        exact ready_past s traffic dst hj
    · refine Or.inr ⟨fun h => h1 h.2.1, fun j hj => ?_⟩
      rw [ioNetSend, if_pos hen]
      simp only [udpSend]
      rw [if_pos h1]
      exact provideLoop_past traffic _ hj 16 0 s
  · refine Or.inr ⟨fun h => hen h.1, fun j _ => ?_⟩
    rw [ioNetSend, if_neg hen]

/-- What `udp_send` and `ip_send` leave in the buffer does not depend on its content. -/
theorem datagram_agree {s t : NetState} (h : s.forget = t.forget) (dst : NetAddress) (buff : Mem) (len : Nat) :
    Mem.Agree netBuffSize (s.datagram dst buff (udpLen len)).sndBuff (t.datagram dst buff (udpLen len)).sndBuff := by
  have hip := congr_of_forget h NetState.localIp fun _ => rfl
  have hid : (s.setSnd (s.udpBuild dst.ip udpSendPort dst.port buff (udpLen len))).id = t.id :=
    congr_of_forget h NetState.id fun _ => rfl
  have hlen := udpLen_le len
  have hudp := udpBuild_agree hip dst.ip udpSendPort dst.port buff (udpLen len)
    (by simp only [UdpIpHdr.size, UdpHdr.size, netBuffSize]; omega)
  have hip' : (s.setSnd (s.udpBuild dst.ip udpSendPort dst.port buff (udpLen len))).localIp =
    (t.setSnd (t.udpBuild dst.ip udpSendPort dst.port buff (udpLen len))).localIp := hip
  simp only [datagram]
  rw [hid]
  exact ipBuild_agree hip' hudp (t.id + 1) dst.ip ipProtocolUdp
    (by simp only [UdpIpHdr.size, UdpHdr.size, netBuffSize]; omega) (by decide)

variable {s : NetState} {traffic : Nat → List (List UInt8)} {dst : NetAddress}

/-- The tables do not depend on `snd_buff`. -/
theorem ready_forget (s : NetState) (traffic : Nat → List (List UInt8)) (dst : NetAddress) (m m' : Mem) :
    ((s.setSnd m).ready traffic dst).forget = ((s.setSnd m').ready traffic dst).forget := by
  have h1 := (provideMacAddress_congr (s := s.setSnd m) (t := s.setSnd m') rfl traffic 0 dst.ip).2
  have hgate := congr_of_forget h1 NetState.localGate fun _ => rfl
  simp only [ready]
  rw [hgate]
  exact (provideMacAddress_congr h1 traffic 16 _).2

theorem sendsFrame_congr {t : NetState} (h : s.forget = t.forget) : s.SendsFrame traffic dst → t.SendsFrame traffic dst := by
  have h1 := provideMacAddress_congr h traffic 0 dst.ip
  have hgate := congr_of_forget h1.2 NetState.localGate fun _ => rfl
  have h2 := provideMacAddress_congr h1.2 traffic 16 (t.provideMacAddress traffic 0 dst.ip).2.localGate
  have hstate := congr_of_forget h NetState.networkState fun _ => rfl
  unfold SendsFrame
  dsimp only
  rw [hgate, h1.1, h2.1, getEffectiveIp_congr h2.2, findMacInTable_congr h2.2, hstate]
  exact fun h => h

/-- Whether a call gets as far as `eth_send` does not depend on `snd_buff`. -/
theorem sendsFrame_setSnd (m : Mem) : (s.setSnd m).SendsFrame traffic dst ↔ s.SendsFrame traffic dst :=
  ⟨sendsFrame_congr rfl, sendsFrame_congr rfl⟩

/-- What a call that gets as far as `eth_send` leaves in the last byte of the checksum does not depend on `snd_buff`. -/
theorem ioNetSend_last (h : s.SendsFrame traffic dst) (buff : Mem) (m m' : Mem) (len : Nat) :
    ((s.setSnd m).ioNetSend traffic dst buff len).2.sndBuff
        (UdpIpHdr.size + EthHdr.size + (IpHdr.size + (UdpHdr.size + udpLen len)) + 3) =
      ((s.setSnd m').ioNetSend traffic dst buff len).2.sndBuff
        (UdpIpHdr.size + EthHdr.size + (IpHdr.size + (UdpHdr.size + udpLen len)) + 3) := by
  have hforget := ready_forget s traffic dst m m'
  have hlen := udpLen_le len
  rcases ioNetSend_cases (s.setSnd m) traffic dst buff len with ⟨_, p, hp, hcall⟩ | ⟨hno, _⟩
  · rcases ioNetSend_cases (s.setSnd m') traffic dst buff len with ⟨_, p', hp', hcall'⟩ | ⟨hno, _⟩
    · rw [hcall, hcall']
      generalize (s.setSnd m).ready traffic dst = a at hforget hp
      generalize (s.setSnd m').ready traffic dst = b at hforget hp'
      have hmac : (a.datagram dst buff (udpLen len)).localMac = (b.datagram dst buff (udpLen len)).localMac :=
        congr_of_forget hforget NetState.localMac fun _ => rfl
      have hend : UdpIpHdr.size + EthHdr.size + (IpHdr.size + (UdpHdr.size + udpLen len)) ≤ netBuffSize := by
        simp only [UdpIpHdr.size, EthHdr.size, IpHdr.size, UdpHdr.size, netBuffSize]
        omega
      rw [findMacInTable_congr hforget, getEffectiveIp_congr hforget, hp'] at hp
      rw [macAt_congr hforget, Option.some.inj hp]
      exact ethBuild_last hmac (datagram_agree hforget dst buff len) _ _ hend
    · exact absurd ((sendsFrame_setSnd m').2 h) hno
  · exact absurd ((sendsFrame_setSnd m).2 h) hno

/-- The bytes past the end of the buffer are kept whatever they are, exactly when the data is short or no frame is built. -/
theorem ioNetSend_past_iff (s : NetState) (traffic : Nat → List (List UInt8)) (dst : NetAddress) (buff : Mem) (len : Nat) :
    (∀ (m : Mem) (j : Nat), netBuffSize ≤ j → ((s.setSnd m).ioNetSend traffic dst buff len).2.sndBuff j = m j) ↔
      len ≤ 198 ∨ ¬s.SendsFrame traffic dst := by
  constructor
  · intro h
    by_contra hnot
    obtain ⟨hlong, hsends⟩ := not_or.1 hnot
    have hsends := not_not.1 hsends
    -- two memories that differ everywhere, and what the call leaves in the last byte of the checksum
    have hlen : 199 ≤ udpLen len ∧ udpLen len ≤ 202 := ⟨le_min (by decide) (by omega), udpLen_le len⟩
    have hpast : netBuffSize ≤ UdpIpHdr.size + EthHdr.size + (IpHdr.size + (UdpHdr.size + udpLen len)) + 3 := by
      simp only [netBuffSize, UdpIpHdr.size, EthHdr.size, IpHdr.size, UdpHdr.size]
      omega
    have h0 := h (fun _ => 0) _ hpast
    have h1 := h (fun _ => 1) _ hpast
    have heq := ioNetSend_last hsends buff (fun _ => 0) (fun _ => 1) len
    rw [h0, h1] at heq
    exact absurd heq (by decide)
  · intro h m j hj
    rcases ioNetSend_cases (s.setSnd m) traffic dst buff len with ⟨hsends, p, _, hcall⟩ | ⟨_, hcall⟩
    · have hlen : len ≤ 198 := h.resolve_right (not_not.2 ((sendsFrame_setSnd m).1 hsends))
      have hle : udpLen len ≤ 198 := le_trans (Nat.min_le_right _ _) hlen
      rw [hcall]
      refine (ethBuild_past _ _ _ ?_).trans ((datagram_past _ dst buff len hj).trans (ready_past _ traffic dst hj))
      simp only [netBuffSize] at hj
      simp only [UdpIpHdr.size, EthHdr.size, IpHdr.size, UdpHdr.size, ethCrcLen]
      omega
    · exact hcall j hj

/-! ## Receiving -/

/-- `tmp_buff` once a packet is loaded. -/
def loaded (s : NetState) (packet : List UInt8) : Mem := ne2kLoad packet 0 s.tmpBuff

/-- The size of the headers in front of the data of a datagram. -/
def headSize : Nat := EthHdr.size + IpHdr.size + UdpHdr.size

/-- `ip_recv_process` stores the datagram of a packet: the slot is empty, the packet is for this host or for all hosts, and it is
a datagram for the port of this host. -/
def Stores (s : NetState) (packet : List UInt8) : Prop :=
  s.rcvBuff.size = 0 ∧
    ((s.loaded packet).array (EthHdr.dst 0) 6 = s.localMac ∨
      (s.loaded packet).array (EthHdr.dst 0) 6 = (s.arpTable broadcastEntry).mac) ∧
    bswap16 ((s.loaded packet).get16 (EthHdr.type 0)) = arpPtypeIp ∧
    s.loaded packet (IpHdr.protocol (EthHdr.data 0)) = ipProtocolUdp ∧
    bswap16 ((s.loaded packet).get16 (UdpHdr.dstPort (EthHdr.data 0 + IpHdr.size))) = s.rcvPort.toNat

/-- The length that the header of the datagram gives, its own header included. -/
def udpField (s : NetState) (packet : List UInt8) : Nat :=
  bswap16 ((s.loaded packet).get16 (UdpHdr.len (EthHdr.data 0 + IpHdr.size)))

/-- What the slot holds was received in the packet: there is no more of it than the part of the packet that fits in `tmp_buff` has
behind the headers, it is read from `tmp_buff`, and its bytes are those of the packet (the last byte of `tmp_buff` holds the last
byte of a packet that does not fit). -/
structure PayloadReceived (slot : NetPacket) (packet : List UInt8) : Prop where
  size : slot.size ≤ min netBuffSize packet.length - headSize
  inside : ∀ k < slot.size, headSize + k < netBuffSize
  bytes : ∀ k < slot.size,
    packet[if headSize + k < netBuffSize - 1 then headSize + k else packet.length - 1]? = some (slot.buff k)

/-- The last byte of `tmp_buff` is the last byte of a packet that reaches it. -/
theorem ne2kLoad_last (bytes : List UInt8) :
    ∀ (i : Nat) (m : Mem), 256 ≤ i + bytes.length → bytes ≠ [] → ne2kLoad bytes i m 255 = bytes.getD (bytes.length - 1) 0 := by
  induction bytes with
  | nil => exact fun _ _ _ hne => absurd rfl hne
  | cons b bytes ih =>
    intro i m hlen _
    rw [List.length_cons] at hlen
    rw [ne2kLoad, List.length_cons, Nat.add_sub_cancel]
    by_cases hnil : bytes = []
    · subst hnil
      have hmin : min i (netBuffSize - 1) = 255 := Nat.min_eq_right (by
        simp only [netBuffSize]
        rw [List.length_nil] at hlen
        omega)
      rw [ne2kLoad, hmin, Mem.set_self]
      rfl
    · obtain ⟨n, hn⟩ := Nat.exists_eq_succ_of_ne_zero (fun h => hnil (List.length_eq_zero_iff.1 h))
      rw [ih (i + 1) _ (by omega) hnil, hn]
      rfl

/-- What `tmp_buff` holds of a packet. -/
theorem loaded_apply (s : NetState) {packet : List UInt8} {j : Nat} (hj : j < netBuffSize) (hlen : j < packet.length) :
    packet[if j < netBuffSize - 1 then j else packet.length - 1]? = some (s.loaded packet j) := by
  simp only [netBuffSize] at hj
  by_cases hlast : j < netBuffSize - 1
  · rw [if_pos hlast, loaded, ne2kLoad_apply packet 0 _ j hlast, if_pos (by omega), Nat.sub_zero,
      List.getD_eq_getElem _ _ hlen, List.getElem?_eq_getElem hlen]
  · have hj255 : j = 255 := by
      simp only [netBuffSize] at hlast
      omega
    have hne : packet ≠ [] := fun h => by
      rw [h] at hlen
      exact absurd hlen (Nat.not_lt_zero _)
    have hsub : packet.length - 1 < packet.length := Nat.sub_lt (by omega) (by decide)
    rw [if_neg hlast, loaded, hj255, ne2kLoad_last packet 0 _ (by omega) hne, List.getD_eq_getElem _ _ hsub,
      List.getElem?_eq_getElem hsub]

/-- The slot after a datagram is stored. -/
theorem ne2kReceive_stores {s : NetState} {packet : List UInt8} (h : s.Stores packet) :
    (s.ne2kReceive packet).rcvBuff.size = min (sub32 (s.udpField packet) UdpHdr.size) netBuffSize ∧
      ∀ k < (s.ne2kReceive packet).rcvBuff.size, (s.ne2kReceive packet).rcvBuff.buff k = s.loaded packet (headSize + k) := by
  obtain ⟨hempty, hdst, htype, hproto, hport⟩ := h
  have hslot : ¬({ s with tmpBuff := s.loaded packet } : NetState).rcvBuff.size > 0 := by
    rw [show ({ s with tmpBuff := s.loaded packet } : NetState).rcvBuff.size = 0 from hempty]
    decide
  have hcall : s.ne2kReceive packet =
      ({ s with tmpBuff := s.loaded packet } : NetState).ipRecvProcess (s.loaded packet) (EthHdr.data 0) := by
    rw [ne2kReceive]
    exact (if_pos hdst).trans (if_pos htype)
  rw [hcall, ipRecvProcess, if_neg hslot, if_pos hproto, if_pos hport]
  refine ⟨rfl, fun k hk => ?_⟩
  dsimp only at hk ⊢
  rw [Mem.put_array, if_pos (by omega), Nat.sub_zero]
  rfl

/-- A packet whose datagram is not stored leaves the slot. -/
theorem ne2kReceive_keeps {s : NetState} {packet : List UInt8} (h : ¬s.Stores packet) :
    (s.ne2kReceive packet).rcvBuff = s.rcvBuff := by
  rw [ne2kReceive]
  dsimp only
  split
  · next hdst =>
    split
    · next htype =>
      rw [ipRecvProcess]
      split
      · rfl
      · next hslot =>
        split
        · next hproto =>
          dsimp only
          split
          · next hport => exact absurd ⟨Nat.eq_zero_of_not_pos hslot, hdst, htype, hproto, hport⟩ h
          · rfl
        · rfl
    · split
      · exact arpRecvProcess_rcvBuff _ _ _
      · rfl
  · rfl

/-- A stored datagram was received in its packet exactly when the length in its header is at least the size of that header, and
what is left of it was received. -/
theorem payloadReceived_iff {s : NetState} {packet : List UInt8} (h : s.Stores packet) :
    PayloadReceived (s.ne2kReceive packet).rcvBuff packet ↔
      UdpHdr.size ≤ s.udpField packet ∧ s.udpField packet - UdpHdr.size ≤ min netBuffSize packet.length - headSize := by
  obtain ⟨hsize, hbytes⟩ := ne2kReceive_stores h
  have hfield : s.udpField packet < 65536 := bswap16_lt _
  have hsmall : min netBuffSize packet.length - headSize < netBuffSize := by
    simp only [netBuffSize, headSize, EthHdr.size, IpHdr.size, UdpHdr.size]
    omega
  constructor
  · intro hp
    have hle := hp.size
    rw [hsize] at hle
    -- the whole of `rcv_buff` is more than a packet can hold, so the size is the difference
    have hlt : sub32 (s.udpField packet) UdpHdr.size < netBuffSize := by omega
    simp only [sub32, wrap32, netBuffSize, UdpHdr.size] at hlt hle ⊢
    omega
  · rintro ⟨hhead, hle⟩
    have hsub : sub32 (s.udpField packet) UdpHdr.size = s.udpField packet - UdpHdr.size := by
      simp only [sub32, wrap32, UdpHdr.size] at hhead ⊢
      omega
    have hsize' : (s.ne2kReceive packet).rcvBuff.size ≤ min netBuffSize packet.length - headSize := by
      rw [hsize, hsub]
      exact le_trans (Nat.min_le_left _ _) hle
    have hin : ∀ k < (s.ne2kReceive packet).rcvBuff.size, headSize + k < netBuffSize ∧ headSize + k < packet.length := by
      intro k hk
      omega
    refine ⟨hsize', fun k hk => (hin k hk).1, fun k hk => ?_⟩
    rw [hbytes k hk]
    exact loaded_apply s (hin k hk).1 (hin k hk).2

end NetState

open NetState

/-- Whatever the memory of `snd_buff` holds, `io_net_send` changes no byte past the end of the buffer, exactly when the data is at
most 198 bytes or the call does not get as far as `eth_send`. -/
theorem snd_buff_bounds (s : NetState) (traffic : Nat → List (List UInt8)) (dst : NetAddress) (buff : Mem) (len : Nat) :
    (∀ (m : Mem) (j : Nat), netBuffSize ≤ j → ((s.setSnd m).ioNetSend traffic dst buff len).2.sndBuff j = m j) ↔
      len ≤ 198 ∨ ¬s.SendsFrame traffic dst :=
  ioNetSend_past_iff s traffic dst buff len

theorem snd_buff_overflow :
    ¬∀ (m : Mem) (j : Nat), netBuffSize ≤ j →
      ((udpHost.setSnd m).ioNetSend (fun _ => []) { ip := ![10, 0, 0, 1], port := 9000 } (fun _ => 0) 199).2.sndBuff j = m j := by
  rw [ioNetSend_past_iff]
  refine not_or.2 ⟨by decide, not_not.2 ⟨rfl, by decide, by decide, by decide⟩⟩

/-- A packet changes the slot only when its datagram is stored, and what is stored was received in that packet exactly when the
length in the header of the datagram covers the header and no more than was received. -/
theorem stored_payload_received (s : NetState) (packet : List UInt8) :
    (¬s.Stores packet → (s.ne2kReceive packet).rcvBuff = s.rcvBuff) ∧
    ((s.Stores packet → PayloadReceived (s.ne2kReceive packet).rcvBuff packet) ↔
      (s.Stores packet → UdpHdr.size ≤ s.udpField packet ∧
        s.udpField packet - UdpHdr.size ≤ min netBuffSize packet.length - NetState.headSize)) :=
  ⟨ne2kReceive_keeps, forall_congr' fun h => payloadReceived_iff h⟩

/-- A frame of 60 bytes for this host, with a datagram for its port whose length field is zero. -/
def shortFrame : List UInt8 :=
  [0x52, 0x54, 0, 0x12, 0x34, 0x56, 2, 2, 2, 2, 2, 2, 0x08, 0x00] ++
    [0x45, 0, 0, 46, 0, 1, 0, 0, 128, 17, 0, 0, 192, 168, 2, 2, 192, 168, 2, 15] ++
    [0x1F, 0x96, 0x1F, 0x96, 0, 0, 0, 0] ++ List.replicate 18 7

theorem stored_payload_short :
    udpHost.Stores shortFrame ∧ (udpHost.ne2kReceive shortFrame).rcvBuff.size = 256 ∧
      ¬PayloadReceived (udpHost.ne2kReceive shortFrame).rcvBuff shortFrame := by
  have hstores : udpHost.Stores shortFrame := ⟨rfl, by decide +kernel, by decide +kernel, by decide +kernel, by decide +kernel⟩
  have hfield : udpHost.udpField shortFrame = 0 := by decide +kernel
  refine ⟨hstores, ?_, fun hp => ?_⟩
  · rw [(ne2kReceive_stores hstores).1, hfield]
    rfl
  · have hhead := ((payloadReceived_iff hstores).1 hp).1
    rw [hfield] at hhead
    exact absurd hhead (by decide)

end NanoS32
