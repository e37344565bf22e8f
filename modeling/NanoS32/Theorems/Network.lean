import NanoS32.Lemmas.Frames
import NanoS32.Net.Hosts

/-!
# Hosts that talk to each other

What holds of every host of a network in every run, in which frames are lost, delayed, repeated and seen by any host. No host takes
the hardware address of another for one that it does not have, and what a host receives has been sent to it as it is.
-/

namespace NanoS32

open NetState

/-- What has happened on a network. -/
abbrev Events (η : Type) : Type := List (Network.Event η HostStep (List UInt8))

/-- The frames that have been sent before a datagram. -/
theorem NetState.transmit_mono (s : NetState) (dst : NetAddress) (buff : Mem) (len : Nat) {m : List UInt8} (hm : m ∈ s.sent) :
    m ∈ (s.transmit dst buff len).2.sent := by
  rw [NetState.transmit, ipSend_frame]
  cases s.findMacInTable (s.getEffectiveIp dst.ip) with
  | none => exact hm
  | some p => exact List.mem_append_left _ hm

namespace Site

variable {η : Type} (site : Site η)

/-- A datagram that host `k` sends to `dst` is for host `n`. -/
def IsTarget (k : η) (dst : NetAddress) (n : η) : Prop :=
  site.effective k dst.ip = site.ip n ∨ site.effective k dst.ip = ArpEntry.broadcast.ip

/-- The hardware address that host `k` sends a datagram for `dst` to. -/
def Addressed (k : η) (dst : NetAddress) (mac : Mac) : Prop :=
  (∃ n, site.effective k dst.ip = site.ip n ∧ mac = site.mac n) ∨
    (site.effective k dst.ip = ArpEntry.broadcast.ip ∧ mac = ArpEntry.broadcast.mac) ∨ mac = ArpEntry.clear.mac

/-- The slot of host `n` holds a datagram that has been sent to it. -/
def Arrived (es : Events η) (n : η) (slot : NetPacket) : Prop :=
  ∃ k dst buff len, ∃ hlen : len ≤ 198, .act k (.transmit dst buff len hlen) ∈ es ∧ site.IsTarget k dst n ∧ slot.size = len ∧
    slot.addr = { ip := site.ip k, port := udpSendPort } ∧ ∀ i < len, slot.buff i = buff i

/-- What is true of host `n` after some events. -/
structure Host (es : Events η) (n : η) (s : NetState) : Prop where
  enabled : s.networkState = .enabled
  localIp : s.localIp = site.ip n
  localGate : s.localGate = site.gate n
  table : s.ArpInv (site.mac n)
  entries : ∀ i, i ≠ 0 → s.arpTable i = .clear ∨ ∃ k, s.arpTable i = { ip := site.ip k, mac := site.mac k }
  slot : s.rcvBuff.size ≠ 0 → site.Arrived es n s.rcvBuff

/-- What is true of a frame that has been sent: it holds an ARP packet of one of the hosts, or a datagram. -/
def Frame (es : Events η) (frame : List UInt8) : Prop :=
  (∃ k op dha dpa, (op = arpOpRequest ∨ op = arpOpReply) ∧
      ∀ tmp, HoldsArp (ne2kLoad frame 0 tmp) dha op (site.mac k) (site.ip k) dpa) ∨
    ∃ k dst buff len mac, ∃ hlen : len ≤ 198, .act k (.transmit dst buff len hlen) ∈ es ∧ site.Addressed k dst mac ∧
      ∀ tmp, HoldsDatagram (ne2kLoad frame 0 tmp) mac (site.ip k) dst buff len

variable {site} {es : Events η} {n : η} {s : NetState} {frame : List UInt8}

theorem Frame.later (h : site.Frame es frame) (e : Network.Event η HostStep (List UInt8)) : site.Frame (e :: es) frame := by
  rcases h with h | ⟨k, dst, buff, len, mac, hlen, hmem, h⟩
  · exact Or.inl h
  · exact Or.inr ⟨k, dst, buff, len, mac, hlen, List.mem_cons_of_mem _ hmem, h⟩

namespace Host

theorem later (h : site.Host es n s) (e : Network.Event η HostStep (List UInt8)) : site.Host (e :: es) n s := by
  refine { h with slot := fun hs => ?_ }
  obtain ⟨k, dst, buff, len, hlen, hmem, hrest⟩ := h.slot hs
  exact ⟨k, dst, buff, len, hlen, List.mem_cons_of_mem _ hmem, hrest⟩

/-- A step that leaves the addresses and the table. -/
theorem congr (h : site.Host es n s) {s' : NetState} (henabled : s'.networkState = s.networkState) (hmac : s'.localMac = s.localMac)
    (hip : s'.localIp = s.localIp) (hgate : s'.localGate = s.localGate) (htable : s'.arpTable = s.arpTable)
    (hslot : s'.rcvBuff.size ≠ 0 → site.Arrived es n s'.rcvBuff) : site.Host es n s' := by
  refine ⟨henabled.trans h.enabled, hip.trans h.localIp, hgate.trans h.localGate, ⟨hmac.trans h.table.local_mac, ?_, ?_, ?_⟩, ?_, hslot⟩
  · rw [htable]
    exact h.table.broadcast
  · rw [htable]
    exact h.table.distinct
  · rw [htable]
    exact h.table.free
  · rw [htable]
    exact h.entries

/-- A host after its initialisation. -/
theorem init (n : η) : site.Host [] n (site.host n) := by
  refine ⟨rfl, rfl, rfl, .init _ _, fun i hi => Or.inl (if_neg hi), fun hs => absurd rfl hs⟩

/-- What a host finds in its table. -/
theorem lookup (h : site.Host es n s) {ip : Ip} {p : MacPtr} (hfind : s.findMacInTable ip = some p) :
    (∃ k, ip = site.ip k ∧ s.macAt p = site.mac k) ∨ (ip = ArpEntry.broadcast.ip ∧ s.macAt p = ArpEntry.broadcast.mac) ∨
      (ip = ArpEntry.clear.ip ∧ s.macAt p = ArpEntry.clear.mac) := by
  by_cases hl : ip = s.localIp
  · rw [hl, findMacInTable_local] at hfind
    cases hfind
    exact Or.inl ⟨n, hl.trans h.localIp, h.table.local_mac⟩
  · rcases findMacInTable_spec hl with ⟨i, hi, hip⟩ | ⟨hnone, -⟩
    · obtain rfl := Option.some.inj (hfind.symm.trans hi)
      rw [macAt, ← hip]
      by_cases hi0 : i = 0
      · rw [hi0, h.table.broadcast]
        exact Or.inr (Or.inl ⟨rfl, rfl⟩)
      · rcases h.entries i hi0 with hclear | ⟨k, hk⟩
        · rw [hclear]
          exact Or.inr (Or.inr ⟨rfl, rfl⟩)
        · rw [hk]
          exact Or.inl ⟨k, rfl, rfl⟩
    · exact absurd (hfind.symm.trans hnone) (Option.some_ne_none p)

theorem effective_eq (h : site.Host es n s) (ip : Ip) : s.getEffectiveIp ip = site.effective n ip := by
  rw [effective, getEffectiveIp, getEffectiveIp, h.localIp, h.localGate]
  rfl

/-- A datagram is sent to the host that it is for. -/
theorem addressed (h : site.Host es n s) {dst : NetAddress} {p : MacPtr}
    (hfind : s.findMacInTable (s.getEffectiveIp dst.ip) = some p) : site.Addressed n dst (s.macAt p) := by
  rw [h.effective_eq] at hfind
  rcases h.lookup hfind with ⟨k, hip, hmac⟩ | ⟨hip, hmac⟩ | ⟨-, hmac⟩
  · exact Or.inl ⟨k, hip, hmac⟩
  · exact Or.inr (Or.inl ⟨hip, hmac⟩)
  · exact Or.inr (Or.inr hmac)

end Host

/-- A host that a datagram is addressed to is one that it is for. -/
theorem Addressed.isTarget {k : η} {dst : NetAddress} {mac : Mac} (ha : site.Addressed k dst mac) (h : site.Host es n s)
    (hfor : s.IsFor mac) : site.IsTarget k dst n := by
  have hbroadcast : (s.arpTable broadcastEntry).mac = ArpEntry.broadcast.mac := congrArg ArpEntry.mac h.table.broadcast
  rw [IsFor, hbroadcast, h.table.local_mac] at hfor
  rcases ha with ⟨m, heff, rfl⟩ | ⟨heff, -⟩ | rfl
  · rcases hfor with hfor | hfor
    · exact Or.inl (heff.trans (congrArg site.ip (site.mac_injective hfor)))
    · exact absurd hfor (site.mac_broadcast m)
  · exact Or.inr heff
  · rcases hfor with hfor | hfor
    · exact absurd hfor.symm (site.mac_clear n)
    · exact absurd (congrFun hfor 0) (by decide)

/-! ## Steps -/

namespace Host

/-- An entry that a reply of host `k` writes. -/
theorem setEntry (h : site.Host es n s) {k : η} {i : Fin 8}
    (hi : (s.setEntry i { ip := site.ip k, mac := site.mac k }).ArpInv (site.mac n)) :
    site.Host es n (s.setEntry i { ip := site.ip k, mac := site.mac k }) := by
  refine ⟨h.enabled, h.localIp, h.localGate, hi, fun j hj => ?_, h.slot⟩
  by_cases hji : j = i
  · exact Or.inr ⟨k, if_pos hji⟩
  · have hother : (s.setEntry i { ip := site.ip k, mac := site.mac k }).arpTable j = s.arpTable j := if_neg hji
    rw [hother]
    exact h.entries j hj

/-- A reply of host `k`. -/
theorem reply (h : site.Host es n s) {m : Mem} (hr : IsReply s.localIp m) {k : η} (hip : senderIp m = site.ip k)
    (hmac : senderMac m = site.mac k) :
    site.Host es n (s.arpRecvProcess m 0) ∧ (s.arpRecvProcess m 0).sent = s.sent ∧
      (s.arpRecvProcess m 0).lookupMac (site.ip k) = some (site.mac k) := by
  have htrusted : Trusted s.localIp (site.mac n) m := by
    refine fun _ => ⟨hip ▸ site.ip_first k, fun hl => ?_, fun _ hb => absurd (hip.symm.trans hb) (site.ip_broadcast k)⟩
    have hkn : k = n := site.ip_injective (hip.symm.trans (hl.trans h.localIp))
    rw [hmac, hkn]
  obtain ⟨hinv, hlookup, -⟩ := h.table.reply hr htrusted
  rw [hip, hmac] at hlookup
  suffices hs : site.Host es n (s.arpRecvProcess m 0) ∧ (s.arpRecvProcess m 0).sent = s.sent from ⟨hs.1, hs.2, hlookup⟩
  clear hlookup
  rw [arpRecvProcess_reply hr, hip, hmac] at hinv ⊢
  by_cases hl : site.ip k = s.localIp
  · rw [hl, findMacInTable_local] at hinv ⊢
    exact ⟨{ h with table := hinv }, rfl⟩
  · rcases findMacInTable_spec hl with ⟨i, hfind, hentry⟩ | ⟨hfind, -⟩
    · rw [hfind] at hinv ⊢
      dsimp only at hinv ⊢
      rw [setMacAt, hentry] at hinv ⊢
      exact ⟨h.setEntry hinv, rfl⟩
    · obtain ⟨i, hnew, -⟩ := newEntry_spec s
      rw [hfind, hnew] at hinv ⊢
      exact ⟨h.setEntry hinv, rfl⟩

/-- What a host does with a frame. -/
inductive Receives (site : Site η) (es : Events η) (n : η) (s : NetState) (frame : List UInt8) : NetState → Prop where
  | ignored : Receives site es n s frame (s.load frame)
  | answered (sha : Mac) (spa : Ip) : Receives site es n s frame ((s.load frame).arpReply sha spa)
  | learned {m : Mem} {k : η} (hr : IsReply (s.load frame).localIp m) (hip : senderIp m = site.ip k) (hmac : senderMac m = site.mac k) :
      Receives site es n s frame ((s.load frame).arpRecvProcess m 0)
  | stored {slot : NetPacket} (harrived : site.Arrived es n slot) : Receives site es n s frame { s.load frame with rcvBuff := slot }

theorem receives (h : site.Host es n s) (hf : site.Frame es frame) : Receives site es n s frame (s.netHandler [frame]) := by
  have hhandler : s.netHandler [frame] = s.ne2kReceive frame := by rw [netHandler, if_pos h.enabled, List.foldl_cons, List.foldl_nil]
  rw [hhandler]
  rcases hf with ⟨k, op, dha, dpa, hop, hholds⟩ | ⟨k, dst, buff, len, mac, hlen, hmem, haddressed, hholds⟩
  · rw [ne2kReceive_arp (hholds s.tmpBuff)]
    by_cases hfor : s.IsFor dha
    · rw [if_pos hfor]
      by_cases hreply : op = arpOpReply ∧ dpa = (s.load frame).localIp
      · obtain ⟨rfl, rfl⟩ := hreply
        have hload : HoldsArp (s.load frame).tmpBuff dha arpOpReply (site.mac k) (site.ip k) (s.load frame).localIp := hholds s.tmpBuff
        rw [arpRecvProcess_shift]
        exact .learned hload.isReply hload.senderIp_eq hload.senderMac_eq
      · have hother := (hholds s.tmpBuff).other (s := s.load frame) (hop.imp_right fun hr => ⟨hr, fun hd => hreply ⟨hr, hd⟩⟩)
        rw [show (s.load frame).tmpBuff = ne2kLoad frame 0 s.tmpBuff from rfl, hother]
        split_ifs
        · exact .answered _ _
        · exact .ignored
    · rw [if_neg hfor]
      exact .ignored
  · rw [ne2kReceive_datagram (hholds s.tmpBuff)]
    by_cases hfor : s.IsFor mac
    · rw [if_pos hfor]
      rcases HoldsDatagram.process (s := s.load frame) (hholds s.tmpBuff) hlen with hsame | ⟨-, data, hstored, hdata⟩
      · rw [show (s.load frame).tmpBuff = ne2kLoad frame 0 s.tmpBuff from rfl, hsame]
        exact .ignored
      · rw [show (s.load frame).tmpBuff = ne2kLoad frame 0 s.tmpBuff from rfl, hstored]
        exact .stored ⟨k, dst, buff, len, hlen, hmem, haddressed.isTarget h hfor, rfl, rfl, hdata⟩
    · rw [if_neg hfor]
      exact .ignored

/-- The frame of an ARP packet of this host. -/
theorem frame_arp (h : site.Host es n s) {op : Nat} (hop : op = arpOpRequest ∨ op = arpOpReply) (dha : Mac) (dpa : Ip) :
    site.Frame es (s.arpFrame op dha dpa) := by
  refine Or.inl ⟨n, op, dha, dpa, hop, fun tmp => ?_⟩
  have hholds := ne2kLoad_arp s op dha dpa [] tmp
  rwa [List.append_nil, h.table.local_mac, h.localIp] at hholds

/-- What a frame that a host receives leaves. -/
theorem received (h : site.Host es n s) (hf : site.Frame es frame) :
    site.Host es n (s.netHandler [frame]) ∧ ∀ m ∈ (s.netHandler [frame]).sent, m ∈ s.sent ∨ site.Frame es m := by
  have hloaded : site.Host es n (s.load frame) := h.congr rfl rfl rfl rfl rfl h.slot
  have hreceives := h.receives hf
  generalize s.netHandler [frame] = s' at hreceives
  cases hreceives with
  | ignored => exact ⟨hloaded, fun m hm => Or.inl hm⟩
  | answered sha spa =>
    refine ⟨hloaded.congr rfl rfl rfl rfl rfl h.slot, fun m hm => ?_⟩
    rcases List.mem_append.1 hm with hm | hm
    · exact Or.inl hm
    · rw [List.mem_singleton] at hm
      exact Or.inr (hm ▸ hloaded.frame_arp (Or.inr rfl) _ _)
  | learned hr hip hmac =>
    obtain ⟨hhost, hsent, -⟩ := hloaded.reply hr hip hmac
    rw [hsent]
    exact ⟨hhost, fun m hm => Or.inl hm⟩
  | stored harrived => exact ⟨hloaded.congr rfl rfl rfl rfl rfl fun _ => harrived, fun m hm => Or.inl hm⟩

/-- The end of `udp_send` hands one frame to the card, if the hardware address is known. -/
theorem transmit (h : site.Host es n s) (dst : NetAddress) (buff : Mem) (len : Nat) (hlen : len ≤ 198) :
    site.Host es n (s.transmit dst buff len).2 ∧ ∀ frame ∈ (s.transmit dst buff len).2.sent,
      frame ∈ s.sent ∨ site.Frame (.act n (.transmit dst buff len hlen) :: es) frame := by
  rw [NetState.transmit, ipSend_frame]
  cases hfind : s.findMacInTable (s.getEffectiveIp dst.ip) with
  | none => exact ⟨h.congr rfl rfl rfl rfl rfl h.slot, fun frame hframe => Or.inl hframe⟩
  | some p =>
    refine ⟨h.congr rfl rfl rfl rfl rfl h.slot, fun frame hframe => ?_⟩
    dsimp only at hframe
    rw [ethSend_frame, List.mem_append, List.mem_singleton] at hframe
    refine hframe.imp_right fun hnew => Or.inr ⟨n, dst, buff, len, s.macAt p, hlen, List.mem_cons_self, h.addressed hfind, fun tmp => ?_⟩
    have hholds := ne2kLoad_datagram s dst buff (s.macAt p) [] hlen tmp
    rwa [List.append_nil, ← hnew, h.localIp] at hholds

end Host

/-- What is true of the hosts and the frames. -/
theorem invariant (site : Site η) [DecidableEq η] : hosts.Invariant site.host site.Host site.Frame where
  node_init := Host.init
  message_init := fun n m hm => absurd hm List.not_mem_nil
  node_later := fun e h => h.later e
  message_later := fun e h => h.later e
  node_act := by
    intro es n s a h
    cases a with
    | request ip => exact (h.later _).congr rfl rfl rfl rfl rfl (h.later _).slot
    | transmit dst buff len hlen => exact (h.transmit dst buff len hlen).1.later _
    | clear => exact (h.later _).congr rfl rfl rfl rfl rfl fun hs => absurd rfl hs
    | setPort port => exact (h.later _).congr rfl rfl rfl rfl rfl (h.later _).slot
  message_act := by
    intro es n s a h m hm
    cases a with
    | request ip =>
      rcases List.mem_append.1 hm with hm | hm
      · exact Or.inl hm
      · rw [List.mem_singleton] at hm
        exact Or.inr (hm ▸ (h.frame_arp (Or.inl rfl) _ _).later _)
    | transmit dst buff len hlen => exact (h.transmit dst buff len hlen).2 m hm
    | clear => exact Or.inl hm
    | setPort port => exact Or.inl hm
  node_receive := fun h hm => (h.received hm).1.later _
  message_receive := fun h hm frame hframe => ((h.received hm).2 frame hframe).imp_right fun hf => hf.later _

/-- A frame that has been sent stays sent. -/
theorem Host.sent_mono (h : site.Host es n s) (hf : site.Frame es frame) {m : List UInt8} (hm : m ∈ s.sent) :
    m ∈ (s.netHandler [frame]).sent := by
  have hloaded : site.Host es n (s.load frame) := h.congr rfl rfl rfl rfl rfl h.slot
  have hreceives := h.receives hf
  generalize s.netHandler [frame] = s' at hreceives
  cases hreceives with
  | ignored => exact hm
  | answered sha spa => exact List.mem_append_left _ hm
  | learned hr hip hmac =>
    rw [(hloaded.reply hr hip hmac).2.1]
    exact hm
  | stored harrived => exact hm

/-! ## Runs -/

section Run

variable [DecidableEq η] {w : η → NetState}

theorem Run.host (h : site.Run es w) (n : η) : site.Host es n (w n) := ((invariant site).run h).1 n

theorem Run.message (h : site.Run es w) (k : η) (hf : frame ∈ (w k).sent) : site.Frame es frame := ((invariant site).run h).2 k frame hf

/-- The frames have been sent. -/
def OnWire (w : η → NetState) (frames : List (List UInt8)) : Prop := ∀ frame ∈ frames, ∃ k, frame ∈ (w k).sent

/-- The event is one of the host `n` in a call that transmits nothing else than `step`. -/
def InCall (n : η) (step : Option HostStep) (e : Network.Event η HostStep (List UInt8)) : Prop :=
  (∃ packet, e = .receive n packet) ∨ (∃ ip, e = .act n (.request ip)) ∨ ∃ a ∈ step, e = .act n a

/-- A part of a call of host `n`, from `s` to `s'`, is a part of a run of the network, and the frames that are sent stay sent. -/
def IsRun (site : Site η) (n : η) (step : Option HostStep) (es : Events η) (w : η → NetState) (s' : NetState) : Prop :=
  ∃ es', site.Run (es' ++ es) (Function.update w n s') ∧ (∀ e ∈ es', InCall n step e) ∧ ∀ m ∈ (w n).sent, m ∈ s'.sent

theorem OnWire.update {frames : List (List UInt8)} (h : OnWire w frames) {s' : NetState} (hmono : ∀ m ∈ (w n).sent, m ∈ s'.sent) :
    OnWire (Function.update w n s') frames := by
  intro frame hframe
  obtain ⟨k, hk⟩ := h frame hframe
  refine ⟨k, ?_⟩
  by_cases hkn : k = n
  · subst hkn
    rw [Function.update_self]
    exact hmono frame hk
  · rw [Function.update_of_ne hkn]
    exact hk

theorem IsRun.refl {step : Option HostStep} (h : site.Run es w) : IsRun site n step es w (w n) :=
  ⟨[], by rwa [List.nil_append, Function.update_eq_self], fun e he => absurd he List.not_mem_nil, fun m hm => hm⟩

/-- One part after the other. -/
theorem IsRun.trans {step : Option HostStep} {s₁ s₂ : NetState} (h : IsRun site n step es w s₁)
    (h' : ∀ es₁ w₁, site.Run es₁ w₁ → w₁ n = s₁ → (∀ frames, OnWire w frames → OnWire w₁ frames) → IsRun site n step es₁ w₁ s₂) :
    IsRun site n step es w s₂ := by
  obtain ⟨es₁, hrun₁, hin₁, hmono₁⟩ := h
  obtain ⟨es₂, hrun₂, hin₂, hmono₂⟩ := h' _ _ hrun₁ (Function.update_self _ _ _) fun _ hf => hf.update hmono₁
  rw [Function.update_idem, ← List.append_assoc] at hrun₂
  rw [Function.update_self] at hmono₂
  exact ⟨es₂ ++ es₁, hrun₂, fun e he => (List.mem_append.1 he).elim (hin₂ e) (hin₁ e), fun m hm => hmono₂ m (hmono₁ m hm)⟩

theorem IsRun.act {step : Option HostStep} (h : site.Run es w) (a : HostStep) (hin : InCall n step (.act n a))
    (hmono : ∀ m ∈ (w n).sent, m ∈ (hostStep a (w n)).sent) : IsRun site n step es w (hostStep a (w n)) :=
  ⟨[.act n a], h.act n a, fun _ he => List.mem_singleton.1 he ▸ hin, hmono⟩

/-- The packets that have come in when the handler runs. -/
theorem IsRun.netHandler {step : Option HostStep} (frames : List (List UInt8)) : ∀ {es w}, site.Run es w → OnWire w frames →
    IsRun site n step es w ((w n).netHandler frames) := by
  induction frames with
  | nil =>
    intro es w h _
    rw [NetState.netHandler, List.foldl_nil, ite_self]
    exact .refl h
  | cons frame frames ih =>
    intro es w h hwire
    obtain ⟨k, hk⟩ := hwire frame List.mem_cons_self
    have hhost := h.host n
    have henabled := (hhost.received (h.message k hk)).1.enabled
    have hsplit : (w n).netHandler (frame :: frames) = ((w n).netHandler [frame]).netHandler frames := by
      have hone : (w n).netHandler [frame] = (w n).ne2kReceive frame := by
        rw [NetState.netHandler, if_pos hhost.enabled, List.foldl_cons, List.foldl_nil]
      rw [hone] at henabled ⊢
      rw [NetState.netHandler, if_pos hhost.enabled, List.foldl_cons, NetState.netHandler, if_pos henabled]
    have hfirst : IsRun site n step es w ((w n).netHandler [frame]) :=
      ⟨[.receive n frame], h.receive n k hk, fun _ he => Or.inl ⟨frame, List.mem_singleton.1 he⟩,
        fun m hm => hhost.sent_mono (h.message k hk) hm⟩
    rw [hsplit]
    refine hfirst.trans fun es₁ w₁ hrun₁ hself hmono => ?_
    rw [← hself]
    exact ih hrun₁ (hmono frames fun f hf => hwire f (List.mem_cons_of_mem _ hf))

/-- The requests of `provide_mac_address` and the waits for an answer. -/
theorem IsRun.provideLoop {step : Option HostStep} (traffic : Nat → List (List UInt8)) (ip : Ip) (turns : Nat) :
    ∀ {i es w}, site.Run es w → (∀ j, OnWire w (traffic j)) → IsRun site n step es w (NetState.provideLoop traffic ip turns i (w n)) := by
  induction turns with
  | zero => exact fun h _ => .refl h
  | succ turns ih =>
    intro i es w h hwire
    rw [NetState.provideLoop]
    split_ifs
    · have hrequest : IsRun site n step es w ((w n).arpRequest ip) :=
        .act h (.request ip) (Or.inr (Or.inl ⟨ip, rfl⟩)) fun m hm => List.mem_append_left _ hm
      refine hrequest.trans fun es₁ w₁ hrun₁ hself₁ hmono₁ => ?_
      have hhandler : IsRun site n step es₁ w₁ ((w₁ n).netHandler (traffic i)) := .netHandler _ hrun₁ (hmono₁ _ (hwire i))
      rw [hself₁] at hhandler
      refine hhandler.trans fun es₂ w₂ hrun₂ hself₂ hmono₂ => ?_
      rw [← hself₂]
      exact ih hrun₂ fun j => hmono₂ _ (hmono₁ _ (hwire j))
    · exact .refl h

theorem IsRun.provideMacAddress {step : Option HostStep} (h : site.Run es w) {traffic : Nat → List (List UInt8)}
    (hwire : ∀ j, OnWire w (traffic j)) (i : Nat) (ip : Ip) :
    IsRun site n step es w ((w n).provideMacAddress traffic i ip).2 := .provideLoop traffic _ 16 h hwire

/-- A call of `io_net_send` is a part of a run, in which the host sends no other datagram, when what comes in while it waits has been
sent. -/
theorem Run.ioNetSend (h : site.Run es w) (n : η) {traffic : Nat → List (List UInt8)} (hwire : ∀ j, OnWire w (traffic j))
    (dst : NetAddress) (buff : Mem) {len : Nat} (hlen : len ≤ 198) :
    IsRun site n (some (.transmit dst buff len hlen)) es w ((w n).ioNetSend traffic dst buff len).2 := by
  rw [NetState.ioNetSend, if_pos (h.host n).enabled, udpSend, udpLen_eq hlen]
  have hfirst : IsRun site n (some (.transmit dst buff len hlen)) es w ((w n).provideMacAddress traffic 0 dst.ip).2 :=
    .provideMacAddress h hwire 0 dst.ip
  generalize (w n).provideMacAddress traffic 0 dst.ip = first at hfirst
  obtain ⟨r₁, s₁⟩ := first
  dsimp only
  by_cases h₁ : r₁ ≠ noError
  · rw [if_pos h₁]
    exact hfirst
  · rw [if_neg h₁]
    refine hfirst.trans fun es₁ w₁ hrun₁ hself₁ hmono₁ => ?_
    have hsecond : IsRun site n (some (.transmit dst buff len hlen)) es₁ w₁ ((w₁ n).provideMacAddress traffic 16 s₁.localGate).2 :=
      .provideMacAddress hrun₁ (fun j => hmono₁ _ (hwire j)) 16 s₁.localGate
    rw [hself₁] at hsecond
    generalize s₁.provideMacAddress traffic 16 s₁.localGate = second at hsecond
    obtain ⟨r₂, s₂⟩ := second
    by_cases h₂ : r₂ ≠ noError
    · rw [if_pos h₂]
      exact hsecond
    · rw [if_neg h₂]
      refine hsecond.trans fun es₂ w₂ hrun₂ hself₂ _ => ?_
      have hstep := IsRun.act hrun₂ (.transmit dst buff len hlen) (Or.inr (Or.inr ⟨_, rfl, rfl⟩)) fun m hm =>
        (w₂ n).transmit_mono dst buff len hm
      rw [hself₂] at hstep
      exact hstep

end Run

end Site

/-- In every run, the hardware address that a host finds for the address of another is the one that it has. -/
theorem net_macs_true {η : Type} [DecidableEq η] (site : Site η) {es : Events η} {w : η → NetState} (hrun : site.Run es w) (n k : η)
    {mac : Mac} (h : (w n).lookupMac (site.ip k) = some mac) : mac = site.mac k := by
  obtain ⟨p, hfind, rfl⟩ := Option.map_eq_some_iff.1 h
  rcases (hrun.host n).lookup hfind with ⟨m, hip, hmac⟩ | ⟨hip, -⟩ | ⟨hip, -⟩
  · rw [hmac, site.ip_injective hip]
  · exact absurd hip (site.ip_broadcast k)
  · exact absurd (congrFun hip firstOctet) (site.ip_first k)

/-- Two hosts on the network of `local_net`. -/
def pairSite : Site Bool where
  ip := fun n => if n then ![192, 168, 2, 16] else ![192, 168, 2, 15]
  mac := fun n => if n then otherMac else cardMac
  gate := fun _ => ![192, 168, 2, 2]
  ip_injective := by decide
  mac_injective := by decide
  ip_first := by decide
  ip_broadcast := by decide
  mac_clear := by decide
  mac_broadcast := by decide

/-- The request of the first host for the address of the second. -/
def pairRequest : List UInt8 := (pairSite.host false).arpFrame arpOpRequest (fun _ => 0xFF) (pairSite.ip true)

/-- The second host when it has got it, its answer, and the first host when it has got this. -/
def pairAsked : NetState := (pairSite.host true).netHandler [pairRequest]
def pairReply : List UInt8 := pairAsked.sent.getLastD []
def pairKnows : NetState := ((pairSite.host false).arpRequest (pairSite.ip true)).netHandler [pairReply]

/-- The hosts after a run in which the first one asks the second one for its address. -/
def pairHosts : Bool → NetState :=
  Function.update
    (Function.update (Function.update pairSite.host false ((pairSite.host false).arpRequest (pairSite.ip true))) true pairAsked)
    false pairKnows

theorem pair_run :
    pairSite.Run [.receive false pairReply, .receive true pairRequest, .act false (.request (pairSite.ip true))] pairHosts := by
  have h₁ := Network.Run.act (Network.Run.init : pairSite.Run [] pairSite.host) false (.request (pairSite.ip true))
  have h₂ := h₁.receive true false (m := pairRequest) (List.mem_singleton_self _)
  have h₃ := h₂.receive false true (m := pairReply) (by decide +kernel)
  exact h₃

theorem net_macs_true_pair : otherMac = pairSite.mac true :=
  net_macs_true pairSite pair_run false true (by decide +kernel)

/-- In every run, a datagram in the slot of a host has been sent by a host, to it, with these data. -/
theorem net_datagrams_sent {η : Type} [DecidableEq η] (site : Site η) {es : Events η} {w : η → NetState} (hrun : site.Run es w) (n : η)
    (h : (w n).rcvBuff.size ≠ 0) : site.Arrived es n (w n).rcvBuff := (hrun.host n).slot h

/-- A datagram of three bytes for the second host, and the frame that carries it. -/
def pairDatagram : HostStep := .transmit { ip := pairSite.ip true, port := udpSendPort } (fun k => UInt8.ofNat k) 3 (by decide)
def pairFrame : List UInt8 := (hostStep pairDatagram pairKnows).sent.getLastD []

theorem net_datagrams_sent_pair :
    pairSite.Arrived
      [.receive true pairFrame, .act false pairDatagram, .receive false pairReply, .receive true pairRequest,
        .act false (.request (pairSite.ip true))]
      true (pairAsked.netHandler [pairFrame]).rcvBuff := by
  have h₁ := Network.Run.act pair_run false pairDatagram
  have h₂ := h₁.receive true false (m := pairFrame) (by decide +kernel)
  exact net_datagrams_sent pairSite h₂ true (by decide +kernel)

/-- A request for the address of a host is answered by it with one frame, whenever it comes in, and this frame makes the address
known to the host that has asked, whenever it comes in. -/
theorem net_arp_exchange {η : Type} [DecidableEq η] (site : Site η) {es es' : Events η} {w w' : η → NetState} (hrun : site.Run es w)
    (hrun' : site.Run es' w') {n k : η} {request : List UInt8}
    (hrequest : ((w n).arpRequest (site.ip k)).sent = (w n).sent ++ [request]) :
    ∃ reply, ((w' k).netHandler [request]).sent = (w' k).sent ++ [reply] ∧
      ∀ (es'' : Events η) (w'' : η → NetState), site.Run es'' w'' →
        ((w'' n).netHandler [reply]).lookupMac (site.ip k) = some (site.mac k) := by
  have hn := hrun.host n
  have hk := hrun'.host k
  have hframe : request = (w n).arpFrame arpOpRequest (fun _ => 0xFF) (site.ip k) :=
    (List.singleton_injective (List.append_cancel_left hrequest)).symm
  have hreceive : ∀ {es s} {m : η} {frame : List UInt8}, site.Host es m s → s.netHandler [frame] = s.ne2kReceive frame := fun h => by
    rw [netHandler, if_pos h.enabled, List.foldl_cons, List.foldl_nil]
  have hasks : HoldsArp ((w' k).load request).tmpBuff (fun _ => 0xFF) arpOpRequest (site.mac n) (site.ip n) (site.ip k) := by
    have hholds := ne2kLoad_arp (w n) arpOpRequest (fun _ => 0xFF) (site.ip k) [] (w' k).tmpBuff
    rwa [List.append_nil, ← hframe, hn.table.local_mac, hn.localIp] at hholds
  have hfor : (w' k).IsFor fun _ => 0xFF := Or.inr (congrArg ArpEntry.mac hk.table.broadcast).symm
  have hloaded : site.Host es' k ((w' k).load request) := hk.congr rfl rfl rfl rfl rfl hk.slot
  have hanswer : (w' k).netHandler [request] = ((w' k).load request).arpReply (site.mac n) (site.ip n) := by
    rw [hreceive hk, ne2kReceive_arp hasks, if_pos hfor, hasks.other (Or.inl rfl), if_pos ⟨rfl, hloaded.localIp.symm⟩]
  refine ⟨((w' k).load request).arpFrame arpOpReply (site.mac n) (site.ip n), ?_, fun es'' w'' hrun'' => ?_⟩
  · rw [hanswer]
    rfl
  · obtain ⟨reply, hreply⟩ : ∃ reply, reply = ((w' k).load request).arpFrame arpOpReply (site.mac n) (site.ip n) := ⟨_, rfl⟩
    have hn'' := hrun''.host n
    have hlocal : ((w'' n).load reply).localIp = site.ip n := hn''.localIp
    have htells : HoldsArp ((w'' n).load reply).tmpBuff (site.mac n) arpOpReply (site.mac k) (site.ip k) (site.ip n) := by
      have hholds := ne2kLoad_arp ((w' k).load request) arpOpReply (site.mac n) (site.ip n) [] (w'' n).tmpBuff
      rwa [List.append_nil, ← hreply, hloaded.table.local_mac, hloaded.localIp] at hholds
    have hfor'' : (w'' n).IsFor (site.mac n) := Or.inl hn''.table.local_mac.symm
    have hloaded'' : site.Host es'' n ((w'' n).load reply) := hn''.congr rfl rfl rfl rfl rfl hn''.slot
    rw [← hreply, hreceive hn'', ne2kReceive_arp htells, if_pos hfor'', arpRecvProcess_shift]
    exact (hloaded''.reply (hlocal ▸ htells.isReply) htells.senderIp_eq htells.senderMac_eq).2.2

theorem net_arp_exchange_pair : ∃ reply, ((pairSite.host true).netHandler [pairRequest]).sent = (pairSite.host true).sent ++ [reply] ∧
    ∀ (es : Events Bool) (w : Bool → NetState), pairSite.Run es w →
      ((w false).netHandler [reply]).lookupMac (pairSite.ip true) = some (pairSite.mac true) :=
  net_arp_exchange pairSite .init .init (n := false) (k := true) rfl

end NanoS32
