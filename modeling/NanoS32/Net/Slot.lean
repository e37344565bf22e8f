import NanoS32.Net.Recv

/-!
# The reception slot

`rcv_buff` is shared by the interrupt handler and two functions of the caller, `io_net_recv` and `io_net_recv_set_port`. A step is
a complete run of `ip_recv_process`, the beginning of a call, or one assignment of the call in progress; a byte that `memcpy`
copies is an assignment. The lists of the state are a record of the run that nothing in the code reads.
-/

namespace NanoS32

/-- Byte `k` of a `net_address_t`. -/
def NetAddress.byte (a : NetAddress) (k : Nat) : UInt8 :=
  if h : k < 4 then a.ip ⟨k, h⟩ else UInt8.ofNat (a.port.toNat / 256 ^ (k - 4))

def NetAddress.size : Nat := 6

/-- A call of `io_net_recv`: what its buffers hold, the size given for `buff`, and for each buffer whether `memcpy` fills it
backwards, which depends on the addresses. -/
structure RecvCall where
  src : Mem
  buff : Mem
  buffSize : Nat
  srcBackwards : Bool
  buffBackwards : Bool

/-- The next assignment of the call in progress. -/
inductive Caller where
  | idle
  /-- `if(rcv_buff.size > 0)`. -/
  | recvTest (q : RecvCall)
  /-- `ret = min(rcv_buff.size, buff_size)`. -/
  | recvRet (q : RecvCall)
  /-- The copy of the address, after `i` bytes. -/
  | recvSrc (q : RecvCall) (ret i : Nat) (src : Mem)
  /-- The copy of the data, after `i` bytes. -/
  | recvBuff (q : RecvCall) (ret : Nat) (src : Mem) (i : Nat) (buff : Mem)
  /-- `rcv_buff.size = 0`. -/
  | recvClear (q : RecvCall) (ret : Nat) (src buff : Mem)
  /-- `return ret`, of the datagram with this number. -/
  | recvReturn (q : RecvCall) (number ret : Nat) (src buff : Mem)
  /-- `if(port != rcv_port)`. -/
  | portTest (port : UInt16)
  /-- `rcv_buff.size = 0`. -/
  | portClear (port : UInt16)
  /-- `rcv_port = port`. -/
  | portSet (port : UInt16)
  | portReturn (port : UInt16)

/-- A datagram: its sender, its size, cut to the size of the slot, its data and the port it is for. -/
structure Datagram where
  addr : NetAddress
  size : Nat
  data : Mem
  dstPort : UInt16

/-- The datagram in a packet. -/
def Datagram.ofPacket (m : Mem) : Datagram :=
  let uh := 0 + IpHdr.size
  { addr := { ip := m.array (IpHdr.src 0) 4, port := UInt16.ofNat (bswap16 (m.get16 (UdpHdr.srcPort uh))) }
    size := min (sub32 (bswap16 (m.get16 (UdpHdr.len uh))) UdpHdr.size) netBuffSize
    data := fun k => m (uh + UdpHdr.size + k)
    dstPort := UInt16.ofNat (bswap16 (m.get16 (UdpHdr.dstPort uh))) }

/-- What a call of `io_net_recv` returned: the number of the datagram, the port of the last `io_net_recv_set_port` that had
returned, and the values. -/
structure Returned where
  number : Nat
  port : UInt16
  buffSize : Nat
  ret : Nat
  src : Mem
  buff : Mem

structure SlotState where
  net : NetState
  caller : Caller
  /-- The datagrams that `ip_recv_process` has stored, numbered from 0. -/
  accepted : List Datagram
  /-- The datagrams that have been returned. -/
  returned : List Returned
  /-- For each assignment to `rcv_port`, how many datagrams had been stored before it. -/
  changes : List Nat
  /-- The port of the last `io_net_recv_set_port` that has returned. -/
  lastPort : UInt16

/-- A step of the interrupt side or of the caller. -/
inductive SlotStep where
  | deliver (m : Mem)
  | recv (q : RecvCall)
  | setPort (port : UInt16)
  | assign

namespace NetState

/-- `ip_recv_process` stores the packet. -/
def Accepts (s : NetState) (m : Mem) : Prop :=
  s.rcvBuff.size = 0 ∧ m (IpHdr.protocol 0) = ipProtocolUdp ∧
    bswap16 (m.get16 (UdpHdr.dstPort (0 + IpHdr.size))) = s.rcvPort.toNat

instance (s : NetState) (m : Mem) : Decidable (s.Accepts m) := inferInstanceAs (Decidable (_ ∧ _))

/-- The state with another size in the slot. -/
def setSize (s : NetState) (size : Nat) : NetState :=
  { s with rcvBuff := { addr := s.rcvBuff.addr, size := size, buff := s.rcvBuff.buff } }

end NetState

/-- The byte that iteration `i` of `memcpy` copies. -/
def copyIndex (backwards : Bool) (n i : Nat) : Nat := if backwards then n - (i + 1) else i

namespace SlotState

/-- The assignments of `io_net_recv` and `io_net_recv_set_port`. -/
def assign (s : SlotState) : SlotState :=
  match s.caller with
  | .idle => s
  | .recvTest q =>
    if s.net.networkState = .enabled ∧ s.net.rcvBuff.size > 0 then { s with caller := .recvRet q }
    else { s with caller := .idle }
  | .recvRet q => { s with caller := .recvSrc q (min s.net.rcvBuff.size q.buffSize) 0 q.src }
  | .recvSrc q ret i src =>
    if i < NetAddress.size then
      let c := copyIndex q.srcBackwards NetAddress.size i
      { s with caller := .recvSrc q ret (i + 1) (src.set c (s.net.rcvBuff.addr.byte c)) }
    else { s with caller := .recvBuff q ret src 0 q.buff }
  | .recvBuff q ret src i buff =>
    if i < ret then
      let c := copyIndex q.buffBackwards ret i
      { s with caller := .recvBuff q ret src (i + 1) (buff.set c (s.net.rcvBuff.buff c)) }
    else { s with caller := .recvClear q ret src buff }
  | .recvClear q ret src buff =>
    { s with net := s.net.setSize 0, caller := .recvReturn q (s.accepted.length - 1) ret src buff }
  | .recvReturn q number ret src buff =>
    let r : Returned := {
      number := number, port := s.lastPort, buffSize := q.buffSize, ret := ret, src := src, buff := buff }
    { s with caller := .idle, returned := r :: s.returned }
  | .portTest port =>
    if port ≠ s.net.rcvPort then { s with caller := .portClear port } else { s with caller := .portReturn port }
  | .portClear port => { s with net := s.net.setSize 0, caller := .portSet port }
  | .portSet port =>
    { s with
      net := { s.net with rcvPort := port }
      caller := .portReturn port
      changes := s.accepted.length :: s.changes }
  | .portReturn port => { s with caller := .idle, lastPort := port }

/-- One step. A call begins only when none is in progress. -/
def step (s : SlotState) : SlotStep → SlotState
  | .deliver m =>
    { s with
      net := s.net.ipRecvProcess m 0
      accepted := if s.net.Accepts m then s.accepted ++ [Datagram.ofPacket m] else s.accepted }
  | .recv q =>
    match s.caller with
    | .idle => { s with caller := .recvTest q }
    | _ => s
  | .setPort port =>
    match s.caller with
    | .idle => { s with caller := .portTest port }
    | _ => s
  | .assign => s.assign

/-- The state before the first step: no call in progress, and an empty slot. -/
def init (net : NetState) : SlotState :=
  { net := net.setSize 0, caller := .idle, accepted := [], returned := [], changes := [], lastPort := net.rcvPort }

/-- The state after a sequence of steps. -/
def run (net : NetState) (steps : List SlotStep) : SlotState := steps.foldl step (init net)

/-- If the step is a packet, it is not one that is stored between the two assignments of `io_net_recv_set_port`. -/
def Ordered (s : SlotState) (c : SlotStep) : Prop :=
  ∀ m port, c = .deliver m → s.caller = .portSet port → ¬s.net.Accepts m

end SlotState

end NanoS32
