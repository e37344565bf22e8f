import NanoS32.Net.Slot
import NanoS32.Lemmas.Mem
import Mathlib.Tactic.Common

/-!
# The protocol of the reception slot

The invariant of all interleavings: a non-empty slot holds the datagram that was stored last, which has not been returned and is
for the current port, and a datagram that the slot no longer holds has been returned or cleared away.
-/

namespace NanoS32

namespace Caller

/-- The number of the datagram that is about to be returned. -/
def returning : Caller → Option Nat
  | .recvReturn _ number _ _ _ => some number
  | _ => none

/-- The port that has been set by a call that has not returned. -/
def newPort : Caller → Option UInt16
  | .portReturn port => some port
  | _ => none

/-- The caller is between the two assignments of `io_net_recv_set_port`. -/
def gap : Caller → Bool
  | .portSet _ => true
  | _ => false

end Caller

/-- The values returned are those of the datagram, which is for the port that was set. -/
structure Returned.Faithful (r : Returned) (d : Datagram) : Prop where
  ret : r.ret = min d.size r.buffSize
  src : ∀ k < NetAddress.size, r.src k = d.addr.byte k
  buff : ∀ k < r.ret, r.buff k = d.data k
  port : d.dstPort = r.port

/-! ## Copying -/

/-- The bytes that `memcpy` has copied after `i` iterations. -/
def Copied (backwards : Bool) (n i : Nat) (dst src : Mem) : Prop :=
  ∀ k < n, (if backwards then n - i ≤ k else k < i) → dst k = src k

theorem Copied.zero (backwards : Bool) (n : Nat) (dst src : Mem) : Copied backwards n 0 dst src := by
  intro k hk h
  cases backwards <;> simp at h
  omega

theorem Copied.step {backwards : Bool} {n i : Nat} {dst src : Mem} (h : Copied backwards n i dst src) (hi : i < n) :
    Copied backwards n (i + 1) (dst.set (copyIndex backwards n i) (src (copyIndex backwards n i))) src := by
  intro k hk hc
  by_cases hki : k = copyIndex backwards n i
  · rw [hki, Mem.set, if_pos rfl]
  · rw [Mem.set, if_neg hki]
    refine h k hk ?_
    cases backwards with
    | true =>
      simp only [copyIndex, if_true] at hki hc ⊢
      omega
    | false =>
      simp only [copyIndex, Bool.false_eq_true, if_false] at hki hc ⊢
      omega

theorem Copied.all {backwards : Bool} {n i : Nat} {dst src : Mem} (h : Copied backwards n i dst src) (hi : n ≤ i) :
    ∀ k < n, dst k = src k := by
  intro k hk
  refine h k hk ?_
  cases backwards with
  | true =>
    simp only [if_true]
    omega
  | false =>
    simp only [Bool.false_eq_true, if_false]
    omega

/-! ## Storing -/

namespace NetState

theorem ipRecvProcess_of_not_accepts {s : NetState} {m : Mem} (h : ¬s.Accepts m) : s.ipRecvProcess m 0 = s := by
  rw [ipRecvProcess]
  split
  · rfl
  · next h0 =>
    split
    · next hp =>
      refine if_neg fun hport => h ⟨?_, hp, hport⟩
      omega
    · rfl

/-- A packet that is stored: the slot holds its datagram, and nothing else changes. -/
theorem ipRecvProcess_of_accepts {s : NetState} {m : Mem} (h : s.Accepts m) :
    s.ipRecvProcess m 0 = { s with rcvBuff := {
      addr := (Datagram.ofPacket m).addr
      size := (Datagram.ofPacket m).size
      buff := s.rcvBuff.buff.put 0 (m.array (0 + IpHdr.size + UdpHdr.size) (Datagram.ofPacket m).size) } } := by
  obtain ⟨h0, hp, hport⟩ := h
  have hz : ¬s.rcvBuff.size > 0 := by omega
  rw [ipRecvProcess, if_neg hz, if_pos hp, if_pos hport]
  rfl

/-- A stored datagram is for the port of the host. -/
theorem Accepts.dstPort {s : NetState} {m : Mem} (h : s.Accepts m) : (Datagram.ofPacket m).dstPort = s.rcvPort := by
  simp only [Datagram.ofPacket]
  rw [h.2.2, UInt16.ofNat_toNat]

end NetState

/-! ## The invariant -/

namespace SlotState

/-- The numbers of the datagrams that have been returned. -/
def numbers (s : SlotState) : List Nat := s.returned.map Returned.number

/-- The datagram need not be held any more: it has been returned, the call that returns it has taken it, the port has been
changed between its arrival and that of the next one, or it is empty. -/
def Settled (s : SlotState) (n : Nat) : Prop :=
  n ∈ s.numbers ∨ s.caller.returning = some n ∨ n + 1 ∈ s.changes ∨ ∃ d, s.accepted[n]? = some d ∧ d.size = 0

/-- The slot holds the datagram. -/
structure Holds (s : SlotState) (d : Datagram) : Prop where
  addr : s.net.rcvBuff.addr = d.addr
  size : s.net.rcvBuff.size = d.size
  data : ∀ k < d.size, s.net.rcvBuff.buff k = d.data k
  port : d.dstPort = s.net.rcvPort

/-- What the call in progress has done so far. -/
def Progress (s : SlotState) : Prop :=
  match s.caller with
  | .recvRet _ => 0 < s.net.rcvBuff.size
  | .recvSrc q ret i src => 0 < s.net.rcvBuff.size ∧ ret = min s.net.rcvBuff.size q.buffSize ∧
      Copied q.srcBackwards NetAddress.size i src s.net.rcvBuff.addr.byte
  | .recvBuff q ret src i buff => 0 < s.net.rcvBuff.size ∧ ret = min s.net.rcvBuff.size q.buffSize ∧
      (∀ k < NetAddress.size, src k = s.net.rcvBuff.addr.byte k) ∧
      Copied q.buffBackwards ret i buff s.net.rcvBuff.buff
  | .recvClear q ret src buff => 0 < s.net.rcvBuff.size ∧ ret = min s.net.rcvBuff.size q.buffSize ∧
      (∀ k < NetAddress.size, src k = s.net.rcvBuff.addr.byte k) ∧ ∀ k < ret, buff k = s.net.rcvBuff.buff k
  | .recvReturn q number ret src buff => number ∉ s.numbers ∧ ∃ d, s.accepted[number]? = some d ∧
      Returned.Faithful { number := number, port := s.lastPort, buffSize := q.buffSize, ret := ret, src := src, buff := buff } d
  | .portSet _ => s.net.rcvBuff.size = 0
  | _ => True

/-- The invariant of the protocol. -/
structure Inv (s : SlotState) : Prop where
  nodup : s.numbers.Nodup
  returned : ∀ r ∈ s.returned, ∃ d, s.accepted[r.number]? = some d ∧ r.Faithful d
  port : s.net.rcvPort = s.caller.newPort.getD s.lastPort
  held : 0 < s.net.rcvBuff.size → ∃ n d, n + 1 = s.accepted.length ∧ s.accepted[n]? = some d ∧ s.Holds d ∧
    n ∉ s.numbers ∧ s.caller.returning ≠ some n
  settled : ∀ n, n + 1 < s.accepted.length → s.Settled n
  empty : s.net.rcvBuff.size = 0 → s.caller.gap = false → ∀ n, n + 1 = s.accepted.length → s.Settled n
  progress : s.Progress

namespace Inv

variable {s : SlotState}

/-- A step that only moves the caller on. -/
theorem move (hi : s.Inv) {c : Caller} (hret : s.caller.returning = none) (hret' : c.returning = none)
    (hport : s.net.rcvPort = c.newPort.getD s.lastPort) (hgap : s.caller.gap = false)
    (hprog : Progress { s with caller := c }) : Inv { s with caller := c } := by
  have hset : ∀ n, s.Settled n → Settled { s with caller := c } n := by
    intro n h
    rcases h with h | h | h | h
    · exact Or.inl h
    · rw [hret] at h
      cases h
    · exact Or.inr (Or.inr (Or.inl h))
    · exact Or.inr (Or.inr (Or.inr h))
  refine ⟨hi.nodup, hi.returned, hport, fun hpos => ?_, fun n hn => hset n (hi.settled n hn),
    fun h0 _ n hn => hset n (hi.empty h0 hgap n hn), hprog⟩
  obtain ⟨n, d, h1, h2, h3, h4, -⟩ := hi.held hpos
  refine ⟨n, d, h1, h2, ⟨h3.addr, h3.size, h3.data, h3.port⟩, h4, ?_⟩
  show c.returning ≠ some n
  rw [hret']
  simp

/-- `rcv_buff.size = 0` of `io_net_recv`: the datagram in the slot has been taken. -/
theorem recvClear (hi : s.Inv) {q : RecvCall} {ret : Nat} {src buff : Mem} (hc : s.caller = .recvClear q ret src buff) :
    Inv { s with net := s.net.setSize 0, caller := .recvReturn q (s.accepted.length - 1) ret src buff } := by
  have hprog := hi.progress
  have hport := hi.port
  simp only [Progress, hc] at hprog
  rw [hc] at hport
  obtain ⟨hpos, hret, hsrc, hbuff⟩ := hprog
  obtain ⟨n, d, hn, hd, hold, hnum, -⟩ := hi.held hpos
  have hlen : s.accepted.length - 1 = n := by omega
  rw [hlen]
  have hset : ∀ k, s.Settled k → Settled { s with net := s.net.setSize 0, caller := .recvReturn q n ret src buff } k := by
    intro k h
    rcases h with h | h | h | h
    · exact Or.inl h
    · rw [hc] at h
      cases h
    · exact Or.inr (Or.inr (Or.inl h))
    · exact Or.inr (Or.inr (Or.inr h))
  refine ⟨hi.nodup, hi.returned, hport, fun h => absurd h (Nat.lt_irrefl 0), fun k hk => hset k (hi.settled k hk),
    fun _ _ k hk => Or.inr (Or.inl ?_), hnum, d, hd, ?_, ?_, ?_, ?_⟩
  · have hkn : k = n := Nat.succ_injective (hk.trans hn.symm)
    rw [hkn]
    rfl
  · show ret = min d.size q.buffSize
    rw [hret, hold.size]
  · intro k hk
    show src k = d.addr.byte k
    rw [hsrc k hk, hold.addr]
  · intro k hk
    show buff k = d.data k
    have hkd : k < d.size := by
      have : k < ret := hk
      rw [hret, hold.size] at this
      exact Nat.lt_of_lt_of_le this (Nat.min_le_left ..)
    rw [hbuff k hk, hold.data k hkd]
  · rw [hold.port]
    exact hport

/-- `return` of `io_net_recv`. -/
theorem recvReturn (hi : s.Inv) {q : RecvCall} {number ret : Nat} {src buff : Mem}
    (hc : s.caller = .recvReturn q number ret src buff) {r : Returned}
    (hr : r = { number := number, port := s.lastPort, buffSize := q.buffSize, ret := ret, src := src, buff := buff }) :
    Inv { s with caller := .idle, returned := r :: s.returned } := by
  have hprog := hi.progress
  have hport := hi.port
  simp only [Progress, hc] at hprog
  rw [hc] at hport
  obtain ⟨hnum, d, hd, hfaith⟩ := hprog
  rw [← hr] at hfaith
  have hrn : r.number = number := by rw [hr]
  have hset : ∀ k, s.Settled k → Settled { s with caller := .idle, returned := r :: s.returned } k := by
    intro k h
    rcases h with h | h | h | h
    · exact Or.inl (List.mem_cons_of_mem _ h)
    · rw [hc] at h
      cases h
      exact Or.inl (hrn ▸ List.mem_cons_self ..)
    · exact Or.inr (Or.inr (Or.inl h))
    · exact Or.inr (Or.inr (Or.inr h))
  refine ⟨?_, ?_, hport, fun hpos => ?_, fun k hk => hset k (hi.settled k hk),
    fun h0 _ k hk => hset k (hi.empty h0 (by rw [hc]; rfl) k hk), trivial⟩
  · refine List.nodup_cons.2 ⟨?_, hi.nodup⟩
    rw [hrn]
    exact hnum
  · intro r' hr'
    rcases List.mem_cons.1 hr' with rfl | hr'
    · exact ⟨d, by rw [hrn]; exact hd, hfaith⟩
    · exact hi.returned r' hr'
  · obtain ⟨n, d', h1, h2, h3, h4, h5⟩ := hi.held hpos
    refine ⟨n, d', h1, h2, ⟨h3.addr, h3.size, h3.data, h3.port⟩, fun hmem => ?_, by simp [Caller.returning]⟩
    rcases List.mem_cons.1 hmem with h | h
    · exact h5 (by rw [hc, h, hrn]; rfl)
    · exact h4 h

/-- `rcv_buff.size = 0` of `io_net_recv_set_port`. -/
theorem portClear (hi : s.Inv) {port : UInt16} (hc : s.caller = .portClear port) :
    Inv { s with net := s.net.setSize 0, caller := .portSet port } := by
  have hport := hi.port
  rw [hc] at hport
  refine ⟨hi.nodup, hi.returned, hport, fun h => absurd h (Nat.lt_irrefl 0), fun k hk => ?_, fun _ hg => ?_, rfl⟩
  · rcases hi.settled k hk with h | h | h | h
    · exact Or.inl h
    · rw [hc] at h
      cases h
    · exact Or.inr (Or.inr (Or.inl h))
    · exact Or.inr (Or.inr (Or.inr h))
  · cases hg

/-- `rcv_port = port`: what arrived before is settled by the change. -/
theorem portSet (hi : s.Inv) {port : UInt16} (hc : s.caller = .portSet port) :
    Inv { s with
      net := { s.net with rcvPort := port }
      caller := .portReturn port
      changes := s.accepted.length :: s.changes } := by
  have hprog := hi.progress
  simp only [Progress, hc] at hprog
  refine ⟨hi.nodup, hi.returned, rfl, fun h => ?_, fun k hk => ?_, fun _ _ k hk => ?_, trivial⟩
  · have : 0 < s.net.rcvBuff.size := h
    omega
  · rcases hi.settled k hk with h | h | h | h
    · exact Or.inl h
    · rw [hc] at h
      cases h
    · exact Or.inr (Or.inr (Or.inl (List.mem_cons_of_mem _ h)))
    · exact Or.inr (Or.inr (Or.inr h))
  · exact Or.inr (Or.inr (Or.inl (List.mem_cons.2 (Or.inl hk))))

/-- `return` of `io_net_recv_set_port`. -/
theorem portReturn (hi : s.Inv) {port : UInt16} (hc : s.caller = .portReturn port) :
    Inv { s with caller := .idle, lastPort := port } := by
  have hport := hi.port
  rw [hc] at hport
  have hset : ∀ k, s.Settled k → Settled { s with caller := .idle, lastPort := port } k := by
    intro k h
    rcases h with h | h | h | h
    · exact Or.inl h
    · rw [hc] at h
      cases h
    · exact Or.inr (Or.inr (Or.inl h))
    · exact Or.inr (Or.inr (Or.inr h))
  refine ⟨hi.nodup, hi.returned, hport, fun hpos => ?_, fun k hk => hset k (hi.settled k hk),
    fun h0 _ k hk => hset k (hi.empty h0 (by rw [hc]; rfl) k hk), trivial⟩
  obtain ⟨n, d, h1, h2, h3, h4, -⟩ := hi.held hpos
  exact ⟨n, d, h1, h2, ⟨h3.addr, h3.size, h3.data, h3.port⟩, h4, by simp [Caller.returning]⟩

/-- The assignments of the caller keep the invariant. -/
theorem assign (hi : s.Inv) : s.assign.Inv := by
  have hprog := hi.progress
  have hport := hi.port
  rw [SlotState.assign]
  cases hc : s.caller with
  | idle => exact hi
  | recvTest q =>
    rw [hc] at hport
    simp only []
    split
    · next h => exact hi.move (by rw [hc]; rfl) rfl hport (by rw [hc]; rfl) h.2
    · exact hi.move (by rw [hc]; rfl) rfl hport (by rw [hc]; rfl) trivial
  | recvRet q =>
    rw [hc] at hport
    simp only [Progress, hc] at hprog
    exact hi.move (by rw [hc]; rfl) rfl hport (by rw [hc]; rfl) ⟨hprog, rfl, Copied.zero _ _ _ _⟩
  | recvSrc q ret i src =>
    rw [hc] at hport
    simp only [Progress, hc] at hprog
    obtain ⟨hpos, hret, hcopy⟩ := hprog
    simp only []
    split
    · next h => exact hi.move (by rw [hc]; rfl) rfl hport (by rw [hc]; rfl) ⟨hpos, hret, hcopy.step h⟩
    · next h =>
      exact hi.move (by rw [hc]; rfl) rfl hport (by rw [hc]; rfl)
        ⟨hpos, hret, hcopy.all (Nat.le_of_not_lt h), Copied.zero _ _ _ _⟩
  | recvBuff q ret src i buff =>
    rw [hc] at hport
    simp only [Progress, hc] at hprog
    obtain ⟨hpos, hret, hsrc, hcopy⟩ := hprog
    simp only []
    split
    · next h => exact hi.move (by rw [hc]; rfl) rfl hport (by rw [hc]; rfl) ⟨hpos, hret, hsrc, hcopy.step h⟩
    · next h =>
      exact hi.move (by rw [hc]; rfl) rfl hport (by rw [hc]; rfl) ⟨hpos, hret, hsrc, hcopy.all (Nat.le_of_not_lt h)⟩
  | recvClear q ret src buff => exact hi.recvClear hc
  | recvReturn q number ret src buff => exact hi.recvReturn hc rfl
  | portTest port =>
    rw [hc] at hport
    simp only []
    split
    · exact hi.move (by rw [hc]; rfl) rfl hport (by rw [hc]; rfl) trivial
    · next h => exact hi.move (by rw [hc]; rfl) rfl (not_not.1 h).symm (by rw [hc]; rfl) trivial
  | portClear port => exact hi.portClear hc
  | portSet port => exact hi.portSet hc
  | portReturn port => exact hi.portReturn hc

/-- A packet that is stored: the slot was empty, so what it held before is settled. -/
theorem accept (hi : s.Inv) {m : Mem} (ha : s.net.Accepts m) (hgap : s.caller.gap = false) :
    Inv { s with net := s.net.ipRecvProcess m 0, accepted := s.accepted ++ [Datagram.ofPacket m] } := by
  have h0 := ha.1
  have hprog := hi.progress
  have hold : ∀ {n : Nat} {d : Datagram}, s.accepted[n]? = some d → (s.accepted ++ [Datagram.ofPacket m])[n]? = some d := by
    intro n d h
    rw [List.getElem?_append_left (List.getElem?_eq_some_iff.1 h).1]
    exact h
  have hlast : (s.accepted ++ [Datagram.ofPacket m])[s.accepted.length]? = some (Datagram.ofPacket m) :=
    List.getElem?_concat_length ..
  have hnum : ∀ n ∈ s.numbers, n < s.accepted.length := by
    intro n hn
    obtain ⟨r, hr, rfl⟩ := List.mem_map.1 hn
    obtain ⟨d, hd, -⟩ := hi.returned r hr
    exact (List.getElem?_eq_some_iff.1 hd).1
  rw [NetState.ipRecvProcess_of_accepts ha]
  refine ⟨hi.nodup, fun r hr => ?_, hi.port, fun hpos => ?_, fun n hn => ?_, fun hz _ n hn => ?_, ?_⟩
  · obtain ⟨d, hd, hf⟩ := hi.returned r hr
    exact ⟨d, hold hd, hf⟩
  · refine ⟨s.accepted.length, Datagram.ofPacket m, by simp, hlast, ⟨rfl, rfl, fun k hk => ?_, ha.dstPort⟩, fun hmem => ?_,
      fun hret => ?_⟩
    · have hin : 0 ≤ k ∧ k < 0 + (Datagram.ofPacket m).size := ⟨Nat.zero_le k, by rwa [Nat.zero_add]⟩
      have hput := Mem.put_array s.net.rcvBuff.buff m 0 (0 + IpHdr.size + UdpHdr.size) (Datagram.ofPacket m).size k
      rw [if_pos hin, Nat.sub_zero] at hput
      have hdata : (Datagram.ofPacket m).data k = m (0 + IpHdr.size + UdpHdr.size + k) := rfl
      rw [hdata, ← hput]
    · exact Nat.lt_irrefl _ (hnum _ hmem)
    · -- the datagram that is about to be returned arrived before
      cases hc : s.caller with
      | recvReturn q number ret src buff =>
        simp only [Progress, hc] at hprog
        obtain ⟨-, d, hd, -⟩ := hprog
        have hlt := (List.getElem?_eq_some_iff.1 hd).1
        have hret' : s.caller.returning = some s.accepted.length := hret
        rw [hc] at hret'
        have hn : number = s.accepted.length := Option.some.inj hret'
        omega
      | _ =>
        have hret' : s.caller.returning = some s.accepted.length := hret
        rw [hc] at hret'
        cases hret'
  · have hn' : n + 1 ≤ s.accepted.length := by
      rw [List.length_append, List.length_singleton] at hn
      omega
    have hs : s.Settled n := by
      rcases Nat.lt_or_eq_of_le hn' with h | h
      · exact hi.settled n h
      · exact hi.empty h0 hgap n h
    rcases hs with h | h | h | ⟨d, hd, hz⟩
    · exact Or.inl h
    · exact Or.inr (Or.inl h)
    · exact Or.inr (Or.inr (Or.inl h))
    · exact Or.inr (Or.inr (Or.inr ⟨d, hold hd, hz⟩))
  · have hn' : n = s.accepted.length := by
      rw [List.length_append, List.length_singleton] at hn
      omega
    exact Or.inr (Or.inr (Or.inr ⟨_, by rw [hn']; exact hlast, hz⟩))
  · rw [Progress] at hprog ⊢
    cases hc : s.caller with
    | recvReturn q number ret src buff =>
      rw [hc] at hprog
      obtain ⟨h1, d, hd, hf⟩ := hprog
      exact ⟨h1, d, hold hd, hf⟩
    | portSet port =>
      rw [hc] at hgap
      cases hgap
    | recvRet q =>
      rw [hc] at hprog
      exact absurd hprog (by simp only []; omega)
    | recvSrc q ret i src =>
      rw [hc] at hprog
      exact absurd hprog.1 (by omega)
    | recvBuff q ret src i buff =>
      rw [hc] at hprog
      exact absurd hprog.1 (by omega)
    | recvClear q ret src buff =>
      rw [hc] at hprog
      exact absurd hprog.1 (by omega)
    | _ => trivial

/-- An ordered step keeps the invariant. -/
theorem step (hi : s.Inv) {c : SlotStep} (ho : s.Ordered c) : (s.step c).Inv := by
  have hport := hi.port
  cases c with
  | deliver m =>
    by_cases ha : s.net.Accepts m
    · have hgap : s.caller.gap = false := by
        cases hc : s.caller with
        | portSet port => exact absurd ha (ho m port rfl hc)
        | _ => rfl
      have := hi.accept ha hgap
      rw [SlotState.step]
      simpa only [if_pos ha] using this
    · rw [SlotState.step]
      simpa only [if_neg ha, NetState.ipRecvProcess_of_not_accepts ha] using hi
  | recv q =>
    rw [SlotState.step]
    cases hc : s.caller with
    | idle =>
      rw [hc] at hport
      exact hi.move (by rw [hc]; rfl) rfl hport (by rw [hc]; rfl) trivial
    | _ => exact hi
  | setPort port =>
    rw [SlotState.step]
    cases hc : s.caller with
    | idle =>
      rw [hc] at hport
      exact hi.move (by rw [hc]; rfl) rfl hport (by rw [hc]; rfl) trivial
    | _ => exact hi
  | assign => exact hi.assign

/-- The state before the first step. -/
theorem init (net : NetState) : (SlotState.init net).Inv := by
  refine ⟨List.nodup_nil, nofun, rfl, fun h => absurd h (Nat.lt_irrefl 0), fun n hn => ?_, fun _ _ n hn => ?_, trivial⟩
  · exact absurd hn (Nat.not_lt_zero _)
  · exact absurd hn (Nat.succ_ne_zero n)

end Inv

/-- Every step of the sequence is ordered, from the state on. -/
def OrderedRun : SlotState → List SlotStep → Prop
  | _, [] => True
  | s, c :: steps => s.Ordered c ∧ OrderedRun (s.step c) steps

/-- Ordered runs keep the invariant. -/
theorem Inv.run {s : SlotState} (steps : List SlotStep) (hi : s.Inv) (ho : s.OrderedRun steps) :
    (steps.foldl SlotState.step s).Inv := by
  induction steps generalizing s with
  | nil => exact hi
  | cons c steps ih => exact ih (hi.step ho.1) ho.2

end SlotState

/-- In every interleaving without a stored packet between the two assignments of `io_net_recv_set_port`: what `io_net_recv`
returned is the datagram with its number, which is for the port that was set; no datagram is returned twice; and a datagram is
overwritten only after it has been returned or taken by the call that returns it, or after a change of the port, or when it is
empty. -/
theorem slot_protocol_ordered (net : NetState) (steps : List SlotStep) (ho : (SlotState.init net).OrderedRun steps) :
    let s := SlotState.run net steps
    (∀ r ∈ s.returned, ∃ d, s.accepted[r.number]? = some d ∧ r.Faithful d) ∧
      (s.returned.map Returned.number).Nodup ∧
      ∀ n, n + 1 < s.accepted.length → n ∈ s.returned.map Returned.number ∨ s.caller.returning = some n ∨
        n + 1 ∈ s.changes ∨ ∃ d, s.accepted[n]? = some d ∧ d.size = 0 :=
  have hi := SlotState.Inv.run steps (.init net) ho
  ⟨hi.returned, hi.nodup, hi.settled⟩

/-- A datagram to port 8086 with the given length field and the one byte of data 7. -/
def datagramTo8086 (len : UInt8) : Mem := fun k =>
  ([0x45, 0, 0, 29, 0, 1, 0, 0, 128, 17, 0, 0, 10, 0, 0, 1, 192, 168, 2, 15,
    0x1F, 0x96, 0x1F, 0x96, 0, len, 0, 0, 7] : List UInt8).getD k 0

/-- A card is present, and the port is the default one. -/
def slotNet : NetState := { NetState.boot with networkState := .enabled }

def recvCall : RecvCall :=
  { src := fun _ => 0, buff := fun _ => 0, buffSize := 256, srcBackwards := false, buffBackwards := true }

theorem slot_protocol_ordered_one :
    let s := SlotState.run slotNet [.deliver (datagramTo8086 9), .recv recvCall, .assign]
    (s.returned.map Returned.number).Nodup :=
  (slot_protocol_ordered slotNet [.deliver (datagramTo8086 9), .recv recvCall, .assign]
    ⟨(fun _ _ _ h => by cases h), (fun _ _ h => by cases h), (fun _ _ h => by cases h), trivial⟩).2.1

/-- A datagram to port 8086 that arrives between the two assignments of `io_net_recv_set_port(9000)` is returned after that call
has returned; and an empty datagram is overwritten by the next one with no call in between. -/
theorem slot_protocol_gap :
    let s := SlotState.run slotNet ([.setPort 9000, .assign, .assign, .deliver (datagramTo8086 9), .assign, .assign,
      .recv recvCall] ++ List.replicate 13 .assign)
    let s' := SlotState.run slotNet [.deliver (datagramTo8086 8), .deliver (datagramTo8086 9)]
    (s.returned.map fun r => (r.number, r.port, r.ret)) = [(0, 9000, 1)] ∧ s.accepted.map Datagram.dstPort = [8086] ∧
      s'.accepted.length = 2 ∧ s'.returned.length = 0 ∧ s'.changes = [] := by
  decide +kernel

end NanoS32
