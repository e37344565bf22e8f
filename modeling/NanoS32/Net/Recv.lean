import NanoS32.Net.Send

/-!
# Receiving

The interrupt side of `net.c`: what the driver does with a packet. `buff` is the address of the packet behind the Ethernet
header, in the memory `m`.
-/

namespace NanoS32

namespace NetState

/-- `ip_recv_process`. -/
def ipRecvProcess (s : NetState) (m : Mem) (buff : Nat) : NetState :=
  if s.rcvBuff.size > 0 then s
  else if m (IpHdr.protocol buff) = ipProtocolUdp then
    let uh := buff + IpHdr.size
    if bswap16 (m.get16 (UdpHdr.dstPort uh)) = s.rcvPort.toNat then
      let size := min (sub32 (bswap16 (m.get16 (UdpHdr.len uh))) UdpHdr.size) netBuffSize
      { s with rcvBuff := {
          addr := {
            ip := m.array (IpHdr.src buff) 4
            port := UInt16.ofNat (bswap16 (m.get16 (UdpHdr.srcPort uh))) }
          size := size
          buff := s.rcvBuff.buff.put 0 (m.array (uh + UdpHdr.size) size) } }
    else s
  else s

/-- The loop of `arp_recv_process` that makes an entry: the first free one, or the last. -/
def newEntry (s : NetState) : Option (Fin 8) :=
  (List.finRange 8).find? fun i => (s.arpTable i).ip firstOctet = 0 ∨ i = lastEntry

/-- `arp_recv_process`. -/
def arpRecvProcess (s : NetState) (m : Mem) (buff : Nat) : NetState :=
  let ah := buff
  if m.get16 (ArpHdr.hrd ah) = bswap16 arpHtypeEther ∧ m.get16 (ArpHdr.pro ah) = bswap16 arpPtypeIp then
    let sha := m.array (ArpHdr.sha ah) 6
    let spa := m.array (ArpHdr.spa ah) 4
    if m.get16 (ArpHdr.op ah) = bswap16 arpOpReply ∧ m.array (ArpHdr.dpa ah) 4 = s.localIp then
      match s.findMacInTable spa with
      | some mac => s.setMacAt mac sha
      | none =>
        match s.newEntry with
        | some i => s.setEntry i { ip := spa, mac := sha }
        | none => s
    else if m.get16 (ArpHdr.op ah) = bswap16 arpOpRequest then
      if m.array (ArpHdr.dpa ah) 4 = s.localIp then s.arpReply sha spa else s
    else s
  else s

/-- The loop of `ne2k_receive` that loads a packet from byte `i` on: what does not fit goes to the last byte. -/
def ne2kLoad : List UInt8 → Nat → Mem → Mem
  | [], _, m => m
  | b :: bytes, i, m => ne2kLoad bytes (i + 1) (m.set (min i (netBuffSize - 1)) b)

/-- The body of the loop of `ne2k_receive`: the packet's bytes are loaded, and it is passed on when its destination is this host
or the broadcast address. -/
def ne2kReceive (s : NetState) (packet : List UInt8) : NetState :=
  let s1 := { s with tmpBuff := ne2kLoad packet 0 s.tmpBuff }
  let eh := 0
  if s1.tmpBuff.array (EthHdr.dst eh) 6 = s1.localMac ∨ s1.tmpBuff.array (EthHdr.dst eh) 6 = (s1.arpTable broadcastEntry).mac then
    if bswap16 (s1.tmpBuff.get16 (EthHdr.type eh)) = arpPtypeIp then s1.ipRecvProcess s1.tmpBuff (EthHdr.data eh)
    else if bswap16 (s1.tmpBuff.get16 (EthHdr.type eh)) = arpPtypeArp then
      s1.arpRecvProcess s1.tmpBuff (EthHdr.data eh)
    else s1
  else s1

/-- `net_handler`, with the packets that have come in. -/
def netHandler (s : NetState) (packets : List (List UInt8)) : NetState :=
  if s.networkState = .enabled then packets.foldl ne2kReceive s else s

end NetState

end NanoS32
