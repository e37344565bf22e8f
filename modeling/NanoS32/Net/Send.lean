import NanoS32.Hwio.Disk
import NanoS32.Net.Host

/-!
# Sending

The functions of `net.c` that build frames. All of them build a packet in `snd_buff` in place: each layer moves what is there up
by the size of its header and writes the header in front of it. `data` and `len` are the packet's address in `snd_buff` and its
size.
-/

namespace NanoS32

namespace NetState

/-- The state with another content of `snd_buff`. -/
def setSnd (s : NetState) (m : Mem) : NetState := { s with sndBuff := m }

/-- `ne2k_send`. -/
def ne2kSend (s : NetState) (data len : Nat) : NetState :=
  { s with sent := s.sent ++ [(List.range len).map fun k => s.sndBuff (data + k)] }

/-- What `eth_send` builds in `snd_buff`. -/
def ethBuild (s : NetState) (dstMac : Mac) (type data len : Nat) : Mem :=
  let m1 := s.sndBuff.memcpy (EthHdr.data data) data len
  let m2 := m1.put (EthHdr.dst data) dstMac
  let m3 := m2.put (EthHdr.src data) s.localMac
  let m4 := m3.put16 (EthHdr.type data) (bswap16 type)
  let ethCrc := crc32Byte m4 data (EthHdr.size + len)
  m4.put (EthHdr.data data + len) fun k : Fin 4 => wordByte ethCrc k

/-- `eth_send`. -/
def ethSend (s : NetState) (dstMac : Mac) (type data len : Nat) : NetState :=
  (s.setSnd (s.ethBuild dstMac type data len)).ne2kSend data (len + EthHdr.size + ethCrcLen)

/-- The common text of `arp_request` and `arp_reply`. -/
def arpSend (s : NetState) (op : Nat) (dha : Mac) (dpa : Ip) : NetState :=
  let ah := 0
  let m1 := s.sndBuff.put16 (ArpHdr.hrd ah) (bswap16 arpHtypeEther)
  let m2 := m1.put16 (ArpHdr.pro ah) (bswap16 arpPtypeIp)
  let m3 := m2.set (ArpHdr.hln ah) 6
  let m4 := m3.set (ArpHdr.pln ah) 4
  let m5 := m4.put16 (ArpHdr.op ah) (bswap16 op)
  let m6 := m5.put (ArpHdr.sha ah) s.localMac
  let m7 := m6.put (ArpHdr.spa ah) s.localIp
  let m8 := m7.put (ArpHdr.dha ah) dha
  let m9 := m8.put (ArpHdr.dpa ah) dpa
  (s.setSnd m9).ethSend dha ethTypeArp 0 ArpHdr.size

/-- `arp_request`. -/
def arpRequest (s : NetState) (ip : Ip) : NetState := s.arpSend arpOpRequest (fun _ => 0xFF) ip

/-- `arp_reply`. -/
def arpReply (s : NetState) (mac : Mac) (ip : Ip) : NetState := s.arpSend arpOpReply mac ip

/-- What `ip_send` builds in `snd_buff`, with its counter at `id`. -/
def ipBuild (s : NetState) (id : UInt32) (dstIp : Ip) (protocol : UInt8) (data len : Nat) : Mem :=
  let ih := data
  let m1 := s.sndBuff.memcpy (data + IpHdr.size) data len
  let m2 := m1.set (IpHdr.verIhl ih) (((4 : UInt8) <<< (4 : UInt8)) ||| (5 : UInt8))
  let m3 := m2.set (IpHdr.tos ih) 0
  let m4 := m3.put16 (IpHdr.len ih) (bswap16 (len + IpHdr.size))
  let m5 := m4.put16 (IpHdr.id ih) (bswap16 id.toNat)
  let m6 := m5.put16 (IpHdr.offset ih) (bswap16 0)
  let m7 := m6.set (IpHdr.ttl ih) 128
  let m8 := m7.set (IpHdr.protocol ih) protocol
  let m9 := m8.put16 (IpHdr.checksum ih) 0
  let m10 := m9.put (IpHdr.src ih) s.localIp
  let m11 := m10.put (IpHdr.dst ih) dstIp
  let checksum := netChecksum m11 data IpHdr.size
  m11.put16 (IpHdr.checksum ih) (bswap16 checksum.toNat)

/-- `ip_send`: the status, and the state it leaves. -/
def ipSend (s : NetState) (dstIp : Ip) (protocol : UInt8) (data len : Nat) : Nat × NetState :=
  let id := s.id + 1
  let s' := { s with id := id, sndBuff := s.ipBuild id dstIp protocol data len }
  match s'.findMacInTable (s'.getEffectiveIp dstIp) with
  | none => (errorIo, s')
  | some p => (noError, s'.ethSend (s'.macAt p) ethTypeIp data (IpHdr.size + len))

end NetState

end NanoS32
