import NanoS32.Lemmas.Recv

/-!
# The translation table

What a sequence of ARP packets, with any content, does to `arp_table` and to `local_mac`. A reply is written through the pointer
that the lookup of its sender returns, and this pointer can be to `local_mac` or to the broadcast entry.
-/

namespace NanoS32

namespace NetState

/-- The state after a sequence of ARP packets. -/
def arpRun (s : NetState) (packets : List Mem) : NetState := packets.foldl (fun s m => s.arpRecvProcess m 0) s

/-- The hardware address that `find_mac_in_table` points to. -/
def lookupMac (s : NetState) (ip : Ip) : Option Mac := (s.findMacInTable ip).map s.macAt

/-- The address is in the table; a cleared entry holds none. -/
def Stored (s : NetState) (ip : Ip) : Prop := ip ≠ (fun _ => 0) ∧ ∃ i, (s.arpTable i).ip = ip

/-- The packet is a reply addressed to `local_ip`. -/
def IsReply (localIp : Ip) (m : Mem) : Prop :=
  (m.get16 (ArpHdr.hrd 0) = bswap16 arpHtypeEther ∧ m.get16 (ArpHdr.pro 0) = bswap16 arpPtypeIp) ∧
    m.get16 (ArpHdr.op 0) = bswap16 arpOpReply ∧ m.array (ArpHdr.dpa 0) 4 = localIp

/-- The sender of an ARP packet. -/
def senderIp (m : Mem) : Ip := m.array (ArpHdr.spa 0) 4
def senderMac (m : Mem) : Mac := m.array (ArpHdr.sha 0) 6

/-- If the packet is a reply addressed to `local_ip`, then its sender address has a first octet, and it does not give this host
or the broadcast address another hardware address. -/
def Trusted (localIp : Ip) (localMac : Mac) (m : Mem) : Prop :=
  IsReply localIp m → senderIp m firstOctet ≠ 0 ∧ (senderIp m = localIp → senderMac m = localMac) ∧
    (senderIp m ≠ localIp → senderIp m = ArpEntry.broadcast.ip → senderMac m = ArpEntry.broadcast.mac)

/-- The invariant of the table. -/
structure ArpInv (s : NetState) (mac : Mac) : Prop where
  local_mac : s.localMac = mac
  broadcast : s.arpTable 0 = .broadcast
  distinct : ∀ i j, (s.arpTable i).ip = (s.arpTable j).ip → (s.arpTable i).ip 0 ≠ 0 → i = j
  free : ∀ i, (s.arpTable i).ip 0 = 0 → (s.arpTable i).ip = fun _ => 0

/-! ## The lookup -/

theorem findMacInTable_local (s : NetState) : s.findMacInTable s.localIp = some .localMac := by
  rw [findMacInTable, if_pos rfl]

/-- The lookup of another address finds the first entry with it. -/
theorem findMacInTable_spec {s : NetState} {ip : Ip} (h : ip ≠ s.localIp) :
    (∃ i, s.findMacInTable ip = some (.arpTable i) ∧ (s.arpTable i).ip = ip) ∨
      (s.findMacInTable ip = none ∧ ∀ i, (s.arpTable i).ip ≠ ip) := by
  rw [findMacInTable, if_neg h]
  cases hf : (List.finRange 8).find? fun i => decide ((s.arpTable i).ip = ip) with
  | some i => exact Or.inl ⟨i, rfl, by simpa using List.find?_some hf⟩
  | none =>
    refine Or.inr ⟨rfl, fun i => ?_⟩
    simpa using List.find?_eq_none.1 hf i (List.mem_finRange i)

/-- The loop that makes an entry takes a free one, or the last when there is none. -/
theorem newEntry_spec (s : NetState) :
    ∃ i, s.newEntry = some i ∧ ((s.arpTable i).ip 0 = 0 ∨ i = 7 ∧ ∀ j, (s.arpTable j).ip 0 ≠ 0) := by
  rw [newEntry, firstOctet, lastEntry]
  cases hf : (List.finRange 8).find? fun i => decide ((s.arpTable i).ip 0 = 0 ∨ i = 7) with
  | none =>
    have h7 := List.find?_eq_none.1 hf 7 (List.mem_finRange 7)
    simp at h7
  | some i =>
    obtain ⟨hp, k, hk, hki, hbefore⟩ := List.find?_eq_some_iff_getElem.1 hf
    rw [List.getElem_finRange] at hki
    refine ⟨i, rfl, ?_⟩
    by_cases hz : (s.arpTable i).ip 0 = 0
    · exact Or.inl hz
    · have h7 : i = 7 := by simpa [hz] using hp
      refine Or.inr ⟨h7, fun j hj => ?_⟩
      have hjk : j.val < k := by
        have hne : j ≠ i := fun h => hz (h ▸ hj)
        have hkv : k = i.val := by rw [← hki]; rfl
        have := j.isLt
        rw [hkv, h7]
        rw [h7] at hne
        omega
      have := hbefore j.val hjk
      rw [List.getElem_finRange] at this
      simp [hj] at this

variable {s : NetState} {mac : Mac}

namespace ArpInv

/-- The lookup of an address in the table. -/
theorem lookup_entry (hi : s.ArpInv mac) {ip : Ip} (hl : ip ≠ s.localIp) {i : Fin 8} (h : (s.arpTable i).ip = ip)
    (h0 : ip 0 ≠ 0) : s.lookupMac ip = some (s.arpTable i).mac := by
  rcases findMacInTable_spec hl with ⟨j, hj, hip⟩ | ⟨-, hnone⟩
  · have hij : j = i := hi.distinct j i (hip.trans h.symm) (by rwa [hip])
    rw [lookupMac, hj, Option.map_some, macAt, hij]
  · exact absurd h (hnone i)

/-- Writing an entry other than the first, with an address that no other entry has. -/
theorem setEntry (hi : s.ArpInv mac) {i : Fin 8} (h0 : i ≠ 0) {e : ArpEntry} (he : e.ip 0 ≠ 0)
    (hnew : ∀ j, j ≠ i → (s.arpTable j).ip ≠ e.ip) : (s.setEntry i e).ArpInv mac := by
  have hself : (s.setEntry i e).arpTable i = e := if_pos rfl
  have hother : ∀ j, j ≠ i → (s.setEntry i e).arpTable j = s.arpTable j := fun j hj => if_neg hj
  refine ⟨hi.local_mac, ?_, ?_, ?_⟩
  · rw [hother 0 h0.symm]
    exact hi.broadcast
  · intro j k hjk hz
    by_cases hj : j = i <;> by_cases hk : k = i
    · rw [hj, hk]
    · rw [hj, hself, hother k hk] at hjk
      exact absurd hjk.symm (hnew k hk)
    · rw [hk, hself, hother j hj] at hjk
      exact absurd hjk (hnew j hj)
    · rw [hother j hj] at hz hjk
      rw [hother k hk] at hjk
      exact hi.distinct j k hjk hz
  · intro j hz
    by_cases hj : j = i
    · rw [hj, hself] at hz
      exact absurd hz he
    · rw [hother j hj] at hz ⊢
      exact hi.free j hz

/-- The entry that was written is found. -/
theorem lookup_setEntry_self (hi : s.ArpInv mac) {i : Fin 8} (h0 : i ≠ 0) {e : ArpEntry} (he : e.ip 0 ≠ 0)
    (hnew : ∀ j, j ≠ i → (s.arpTable j).ip ≠ e.ip) (hl : e.ip ≠ s.localIp) :
    (s.setEntry i e).lookupMac e.ip = some e.mac := by
  have hself : (s.setEntry i e).arpTable i = e := if_pos rfl
  rw [(hi.setEntry h0 he hnew).lookup_entry hl (congrArg ArpEntry.ip hself) he, hself]

/-- The other addresses in the table keep their hardware addresses. -/
theorem lookup_setEntry_other (hi : s.ArpInv mac) {i : Fin 8} (h0 : i ≠ 0) {e : ArpEntry} (he : e.ip 0 ≠ 0)
    (hnew : ∀ j, j ≠ i → (s.arpTable j).ip ≠ e.ip) {ip : Ip} (hs : s.Stored ip) (hold : ip ≠ (s.arpTable i).ip) :
    (s.setEntry i e).lookupMac ip = s.lookupMac ip := by
  by_cases hl : ip = s.localIp
  · subst hl
    have hloc : (s.setEntry i e).findMacInTable s.localIp = some .localMac := findMacInTable_local (s.setEntry i e)
    rw [lookupMac, lookupMac, hloc, findMacInTable_local]
    rfl
  · obtain ⟨hz, j, hj⟩ := hs
    have hji : j ≠ i := fun h => hold (by rw [← h, hj])
    have hother : (s.setEntry i e).arpTable j = s.arpTable j := if_neg hji
    have hip0 : ip 0 ≠ 0 := fun h => hz (by rw [← hj]; exact hi.free j (by rwa [hj]))
    rw [hi.lookup_entry hl hj hip0, (hi.setEntry h0 he hnew).lookup_entry hl (by rwa [hother]) hip0, hother]

end ArpInv

/-! ## One packet -/

/-- The packet is processed as a reply. -/
theorem arpRecvProcess_reply {m : Mem} (h : IsReply s.localIp m) :
    s.arpRecvProcess m 0 = match s.findMacInTable (senderIp m) with
      | some p => s.setMacAt p (senderMac m)
      | none => match s.newEntry with
        | some i => s.setEntry i { ip := senderIp m, mac := senderMac m }
        | none => s := by
  rw [arpRecvProcess, if_pos h.1, if_pos h.2]
  rfl

/-- A packet that is not a reply to this host leaves the addresses alone. -/
theorem arpRecvProcess_other {m : Mem} (h : ¬IsReply s.localIp m) :
    (s.arpRecvProcess m 0).localMac = s.localMac ∧ (s.arpRecvProcess m 0).localIp = s.localIp ∧
      (s.arpRecvProcess m 0).arpTable = s.arpTable := by
  rw [arpRecvProcess]
  split
  · next hhdr =>
    rw [if_neg fun hr => h ⟨hhdr, hr⟩]
    split
    · split
      · exact ⟨rfl, rfl, rfl⟩
      · exact ⟨rfl, rfl, rfl⟩
    · exact ⟨rfl, rfl, rfl⟩
  · exact ⟨rfl, rfl, rfl⟩

namespace ArpInv

/-- What a trusted reply does: its sender is found with the hardware address it reported, and the other addresses keep theirs,
except for the one in the last entry when no entry is free. -/
theorem reply (hi : s.ArpInv mac) {m : Mem} (hr : IsReply s.localIp m) (ht : Trusted s.localIp mac m) :
    (s.arpRecvProcess m 0).ArpInv mac ∧ (s.arpRecvProcess m 0).lookupMac (senderIp m) = some (senderMac m) ∧
      ∀ ip, ip ≠ senderIp m → s.Stored ip → (s.arpRecvProcess m 0).lookupMac ip = s.lookupMac ip ∨
        (∀ j, (s.arpTable j).ip 0 ≠ 0) ∧ s.findMacInTable (senderIp m) = none ∧ ip = (s.arpTable 7).ip := by
  obtain ⟨h0, hloc, hbr⟩ := ht hr
  rw [arpRecvProcess_reply hr]
  by_cases hl : senderIp m = s.localIp
  · -- a reply of this host itself reports the address it has
    have hkeep : s.setMacAt .localMac (senderMac m) = s := by
      rw [hloc hl, ← hi.local_mac]
      rfl
    rw [hl, findMacInTable_local]
    simp only [hkeep]
    refine ⟨hi, ?_, fun ip _ _ => Or.inl trivial⟩
    rw [lookupMac, findMacInTable_local, hloc hl, ← hi.local_mac]
    rfl
  rcases findMacInTable_spec hl with ⟨i, hfind, hip⟩ | ⟨hfind, hnone⟩
  · simp only [hfind]
    have hdis : ∀ j, j ≠ i → (s.arpTable j).ip ≠ (s.arpTable i).ip := by
      intro j hj h
      exact hj (hi.distinct j i h (by rw [h, hip]; exact h0))
    by_cases hi0 : i = 0
    · -- a reply of the broadcast address reports the broadcast address
      subst hi0
      have hb : senderIp m = ArpEntry.broadcast.ip := by rw [← hip, hi.broadcast]
      have hkeep : s.setMacAt (.arpTable 0) (senderMac m) = s := by
        have he : ({ ip := (s.arpTable 0).ip, mac := senderMac m } : ArpEntry) = s.arpTable 0 := by
          rw [hbr hl hb, hi.broadcast]
        have htab : (fun j => if j = 0 then s.arpTable 0 else s.arpTable j) = s.arpTable := by
          funext j
          split
          · next hj => rw [hj]
          · rfl
        rw [setMacAt, NetState.setEntry, he, htab]
      rw [hkeep]
      refine ⟨hi, ?_, fun ip _ _ => Or.inl rfl⟩
      rw [hi.lookup_entry hl hip h0, hbr hl hb, hi.broadcast]
    · have hset : s.setMacAt (.arpTable i) (senderMac m) = s.setEntry i { ip := senderIp m, mac := senderMac m } := by
        rw [setMacAt, hip]
      rw [hset]
      refine ⟨hi.setEntry hi0 h0 (hip ▸ hdis), hi.lookup_setEntry_self hi0 h0 (hip ▸ hdis) hl, fun ip hne hs => Or.inl ?_⟩
      exact hi.lookup_setEntry_other hi0 h0 (hip ▸ hdis) hs (by rwa [hip])
  · simp only [hfind]
    obtain ⟨i, hnew, hfree⟩ := newEntry_spec s
    simp only [hnew]
    have hi0 : i ≠ 0 := by
      rintro rfl
      rcases hfree with h | ⟨h, -⟩
      · rw [hi.broadcast] at h
        exact absurd h (by decide)
      · exact absurd h (by decide)
    have hdis : ∀ j, j ≠ i → (s.arpTable j).ip ≠ senderIp m := fun j _ => hnone j
    refine ⟨hi.setEntry hi0 h0 hdis, hi.lookup_setEntry_self hi0 h0 hdis hl, fun ip hne hs => ?_⟩
    by_cases hold : ip = (s.arpTable i).ip
    · rcases hfree with h | ⟨h7, hfull⟩
      · exact absurd (hold.trans (hi.free i h)) hs.1
      · exact Or.inr ⟨hfull, trivial, by rw [hold, h7]⟩
    · exact Or.inl (hi.lookup_setEntry_other hi0 h0 hdis hs hold)

/-- A trusted packet keeps the invariant. -/
theorem step (hi : s.ArpInv mac) {m : Mem} (ht : Trusted s.localIp mac m) : (s.arpRecvProcess m 0).ArpInv mac := by
  by_cases hr : IsReply s.localIp m
  · exact (hi.reply hr ht).1
  · obtain ⟨h1, -, h3⟩ := arpRecvProcess_other hr
    exact ⟨by rw [h1]; exact hi.local_mac, by rw [h3]; exact hi.broadcast, by rw [h3]; exact hi.distinct,
      by rw [h3]; exact hi.free⟩

/-- The table that `io_net_init` leaves. -/
theorem init (s : NetState) (mac : Mac) : (ioNetInit s (some mac)).ArpInv mac := by
  have h0 : (ioNetInit s (some mac)).arpTable 0 = .broadcast := rfl
  have hother : ∀ i, i ≠ 0 → (ioNetInit s (some mac)).arpTable i = .clear := fun i hi => if_neg hi
  refine ⟨rfl, h0, fun i j hij hz => ?_, fun i hz => ?_⟩
  · by_cases hi : i = 0 <;> by_cases hj : j = 0
    · rw [hi, hj]
    · rw [hi, h0, hother j hj] at hij
      exact absurd (congrFun hij 0) (by decide)
    · rw [hother i hi] at hz
      exact absurd rfl hz
    · rw [hother i hi] at hz
      exact absurd rfl hz
  · by_cases hi : i = 0
    · rw [hi, h0] at hz
      exact absurd hz (by decide)
    · rw [hother i hi]
      rfl

end ArpInv

/-! ## Runs -/

/-- Trusted packets keep the invariant, and `local_ip`. -/
theorem arpRun_inv (packets : List Mem) :
    ∀ s : NetState, s.ArpInv mac → (∀ m ∈ packets, Trusted s.localIp mac m) →
      (s.arpRun packets).ArpInv mac ∧ (s.arpRun packets).localIp = s.localIp := by
  induction packets with
  | nil => exact fun s hi _ => ⟨hi, rfl⟩
  | cons m packets ih =>
    intro s hi ht
    have hip := arpRecvProcess_localIp s m 0
    obtain ⟨h1, h2⟩ := ih (s.arpRecvProcess m 0) (hi.step (ht m (List.mem_cons_self ..)))
      fun m' hm' => hip ▸ ht m' (List.mem_cons_of_mem _ hm')
    exact ⟨h1, h2.trans hip⟩

end NetState

/-- After any sequence of trusted ARP packets since `io_net_init`, `local_mac` and the broadcast entry are unchanged, no address
is in two entries, and a trusted reply addressed to `local_ip` makes its sender known with the hardware address it reports and
keeps the other addresses in the table, except for the one of the last entry when there is no free entry for the sender. -/
theorem arp_table_trusted (s0 : NetState) (mac : Mac) (packets : List Mem)
    (ht : ∀ m ∈ packets, NetState.Trusted s0.localIp mac m) :
    let s := (ioNetInit s0 (some mac)).arpRun packets
    s.localMac = mac ∧ s.arpTable 0 = .broadcast ∧
      (∀ i j ip, ip ≠ (fun _ => 0) → (s.arpTable i).ip = ip → (s.arpTable j).ip = ip → i = j) ∧
      ∀ m, NetState.IsReply s0.localIp m → NetState.Trusted s0.localIp mac m →
        (s.arpRecvProcess m 0).lookupMac (NetState.senderIp m) = some (NetState.senderMac m) ∧
        ∀ ip, ip ≠ NetState.senderIp m → s.Stored ip → (s.arpRecvProcess m 0).lookupMac ip = s.lookupMac ip ∨
          (∀ j, (s.arpTable j).ip 0 ≠ 0) ∧ s.findMacInTable (NetState.senderIp m) = none ∧ ip = (s.arpTable 7).ip := by
  obtain ⟨hi, hip⟩ := NetState.arpRun_inv packets (ioNetInit s0 (some mac)) (.init s0 mac) ht
  have hip' : ((ioNetInit s0 (some mac)).arpRun packets).localIp = s0.localIp := hip
  refine ⟨hi.local_mac, hi.broadcast, fun i j ip hz h1 h2 => ?_, fun m hr htm => ?_⟩
  · exact hi.distinct i j (h1.trans h2.symm) fun h => hz (h1 ▸ hi.free i h)
  · exact (hi.reply (hip' ▸ hr) (hip' ▸ htm)).2

/-- A reply to the default `local_ip`, with the given sender. -/
def replyFrom (spa : Ip) (sha : Mac) : Mem := fun k =>
  (([0, 1, 8, 0, 6, 4, 0, 2] : List UInt8) ++ List.ofFn sha ++ List.ofFn spa ++
    [0, 0, 0, 0, 0, 0, 192, 168, 2, 15]).getD k 0

/-- A hardware address for the card, and one of another host. -/
def cardMac : Mac := ![0x52, 0x54, 0, 0x12, 0x34, 0x56]
def otherMac : Mac := ![2, 2, 2, 2, 2, 2]

theorem arp_table_trusted_gate :
    ((ioNetInit .boot (some cardMac)).arpRun [replyFrom ![192, 168, 2, 2] otherMac]).localMac = cardMac :=
  (arp_table_trusted .boot cardMac [replyFrom ![192, 168, 2, 2] otherMac] (by
    intro m hm
    rw [List.mem_singleton] at hm
    subst hm
    exact fun _ => ⟨by decide, by decide, by decide⟩)).1

/-- One reply in the name of this host replaces `local_mac`, one in the name of the broadcast address replaces its entry, and the
address of a sender whose first octet is 0 is lost at the next new entry, with free entries left. -/
theorem arp_table_spoofed :
    ((ioNetInit .boot (some cardMac)).arpRun [replyFrom ![192, 168, 2, 15] otherMac]).localMac ≠ cardMac ∧
    ((ioNetInit .boot (some cardMac)).arpRun [replyFrom ![255, 255, 255, 255] otherMac]).arpTable 0 ≠ .broadcast ∧
    ((ioNetInit .boot (some cardMac)).arpRun [replyFrom ![0, 0, 0, 1] otherMac]).lookupMac ![0, 0, 0, 1] = some otherMac ∧
    ((ioNetInit .boot (some cardMac)).arpRun [replyFrom ![0, 0, 0, 1] otherMac,
      replyFrom ![192, 168, 2, 2] otherMac]).lookupMac ![0, 0, 0, 1] = none ∧
    ((ioNetInit .boot (some cardMac)).arpRun [replyFrom ![0, 0, 0, 1] otherMac,
      replyFrom ![192, 168, 2, 2] otherMac]).arpTable 7 = .clear := by
  decide +kernel

end NanoS32
