import NanoS32.Net.Recv

/-!
# What the interrupt side keeps

No packet changes `local_ip`, and no ARP packet changes the reception slot.
-/

namespace NanoS32

namespace NetState

theorem setMacAt_localIp (s : NetState) (p : MacPtr) (mac : Mac) : (s.setMacAt p mac).localIp = s.localIp := by
  cases p <;> rfl

theorem ipRecvProcess_localIp (s : NetState) (m : Mem) (p : Nat) : (s.ipRecvProcess m p).localIp = s.localIp := by
  simp only [ipRecvProcess]
  split
  · rfl
  · split
    · split
      · rfl
      · rfl
    · rfl

theorem arpRecvProcess_localIp (s : NetState) (m : Mem) (p : Nat) : (s.arpRecvProcess m p).localIp = s.localIp := by
  simp only [arpRecvProcess]
  split
  · split
    · split
      · exact setMacAt_localIp _ _ _
      · split
        · rfl
        · rfl
    · split
      · split
        · rfl
        · rfl
      · rfl
  · rfl

theorem ne2kReceive_localIp (s : NetState) (packet : List UInt8) : (s.ne2kReceive packet).localIp = s.localIp := by
  simp only [ne2kReceive]
  split
  · split
    · exact ipRecvProcess_localIp _ _ _
    · split
      · exact arpRecvProcess_localIp _ _ _
      · rfl
  · rfl

theorem netHandler_localIp (packets : List (List UInt8)) (s : NetState) : (s.netHandler packets).localIp = s.localIp := by
  rw [netHandler]
  split
  · next h =>
    clear h
    induction packets generalizing s with
    | nil => rfl
    | cons packet packets ih => exact (ih (s.ne2kReceive packet)).trans (ne2kReceive_localIp s packet)
  · rfl

/-- An ARP packet leaves the slot. -/
theorem arpRecvProcess_rcvBuff (s : NetState) (m : Mem) (p : Nat) : (s.arpRecvProcess m p).rcvBuff = s.rcvBuff := by
  simp only [arpRecvProcess]
  split
  · split
    · split
      · next mac _ => cases mac <;> rfl
      · split
        · rfl
        · rfl
    · split
      · split
        · rfl
        · rfl
      · rfl
  · rfl

end NetState

end NanoS32
