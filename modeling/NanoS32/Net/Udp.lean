import NanoS32.Net.Recv

/-!
# Datagrams

The caller side of `net.c`. `traffic j` are the packets that come in during wait `j` of a call.
-/

namespace NanoS32

namespace NetState

/-- The loop of `provide_mac_address`, with `k` of its 16 requests left: a request for the address and a wait, until the hardware
address is known. -/
def provideLoop (traffic : Nat → List (List UInt8)) (ip : Ip) : Nat → Nat → NetState → NetState
  | 0, _, s => s
  | k + 1, i, s =>
    if s.findMacInTable ip = none then provideLoop traffic ip k (i + 1) ((s.arpRequest ip).netHandler (traffic i)) else s

/-- `provide_mac_address`, whose waits are from wait `i` of the call on. -/
def provideMacAddress (s : NetState) (traffic : Nat → List (List UInt8)) (i : Nat) (ip : Ip) : Nat × NetState :=
  let ip := s.getEffectiveIp ip
  let s' := provideLoop traffic ip 16 i s
  (if s'.findMacInTable ip = none then errorNotFound else noError, s')

/-- What `udp_send` builds in `snd_buff`. -/
def udpBuild (s : NetState) (dstIp : Ip) (srcPort dstPort : UInt16) (data : Mem) (len : Nat) : Mem :=
  let m1 := s.sndBuff.memset 0 0 netBuffSize
  let m2 := m1.put (UdpIpHdr.size + UdpHdr.size) (data.array 0 len)
  let uh := UdpIpHdr.size
  let m3 := m2.put16 (UdpHdr.srcPort uh) (bswap16 srcPort.toNat)
  let m4 := m3.put16 (UdpHdr.dstPort uh) (bswap16 dstPort.toNat)
  let m5 := m4.put16 (UdpHdr.len uh) (bswap16 (len + UdpHdr.size))
  let ih := 0
  let m6 := m5.put (UdpIpHdr.sender ih) s.localIp
  let m7 := m6.put (UdpIpHdr.recver ih) dstIp
  let m8 := m7.set (UdpIpHdr.zero ih) 0
  let m9 := m8.set (UdpIpHdr.protocol ih) ipProtocolUdp
  let m10 := m9.put16 (UdpIpHdr.len ih) (m9.get16 (UdpHdr.len uh))
  let checksum := netChecksum m10 0 (UdpIpHdr.size + len + UdpHdr.size)
  m10.put16 (UdpHdr.checksum uh) (bswap16 checksum.toNat)

/-- `udp_send`. -/
def udpSend (s : NetState) (traffic : Nat → List (List UInt8)) (dstIp : Ip) (srcPort dstPort : UInt16) (data : Mem)
    (len : Nat) : Nat × NetState :=
  let (r, s) := s.provideMacAddress traffic 0 dstIp
  if r ≠ noError then (errorNotFound, s)
  else
    let (r, s) := s.provideMacAddress traffic 16 s.localGate
    if r ≠ noError then (errorNotFound, s)
    else
      let len := min (netBuffSize - UdpIpHdr.size - UdpHdr.size - IpHdr.size - EthHdr.size) len
      (s.setSnd (s.udpBuild dstIp srcPort dstPort data len)).ipSend dstIp ipProtocolUdp UdpIpHdr.size (UdpHdr.size + len)

/-- `io_net_send`. -/
def ioNetSend (s : NetState) (traffic : Nat → List (List UInt8)) (dst : NetAddress) (buff : Mem) (len : Nat) :
    Nat × NetState :=
  if s.networkState = .enabled then s.udpSend traffic dst.ip udpSendPort dst.port buff len else (errorNotAvailable, s)

end NetState

end NanoS32
