import NanoS32.Net.Wire
import Mathlib.Data.Fintype.Basic
import Mathlib.Data.Fintype.Pi
import Mathlib.Data.List.FinRange
import Mathlib.Data.Fin.VecNotation

/-!
# The state of the network driver

The static variables of `net.c`, the lookups of addresses and `io_net_init`. A pointer to a hardware address is to `local_mac` or
to an entry of the table; `sent` lists the frames handed to the card, which is all that the card is told of them.
-/

namespace NanoS32

/-- `NET_STATE_UNINITIALIZED` .. `NET_STATE_ENABLED`. -/
inductive NetworkState where
  | uninitialized
  | disabled
  | enabled
  deriving DecidableEq, Repr

/-- `net_address_t`. -/
structure NetAddress where
  ip : Ip
  port : UInt16

/-- `netpacket_t`, the reception buffer. -/
structure NetPacket where
  addr : NetAddress
  size : Nat
  buff : Mem

/-- `arp_table_struct`. -/
structure ArpEntry where
  ip : Ip
  mac : Mac
  deriving DecidableEq

/-- An entry cleared by `memset`. -/
def ArpEntry.clear : ArpEntry := { ip := fun _ => 0, mac := fun _ => 0 }

/-- The entry of the broadcast address. -/
def ArpEntry.broadcast : ArpEntry := { ip := fun _ => 0xFF, mac := fun _ => 0xFF }

/-- The entry of the broadcast address and the last entry of the table, and the first octet of an address. -/
def broadcastEntry : Fin 8 := 0
def lastEntry : Fin 8 := 7
def firstOctet : Fin 4 := 0

/-- A pointer to a hardware address. -/
inductive MacPtr where
  | localMac
  | arpTable (i : Fin 8)
  deriving DecidableEq

/-- The static variables of the driver. -/
structure NetState where
  networkState : NetworkState
  localMac : Mac
  localIp : Ip
  localGate : Ip
  rcvPort : UInt16
  rcvBuff : NetPacket
  /-- `snd_buff`, with what follows it in memory. -/
  sndBuff : Mem
  /-- `tmp_buff`, with what follows it in memory. -/
  tmpBuff : Mem
  arpTable : Fin 8 → ArpEntry
  /-- The counter of `ip_send`. -/
  id : UInt32
  /-- The frames handed to `ne2k_send`. -/
  sent : List (List UInt8)

/-- `sizeof(snd_buff)`, and the size of the other two buffers. -/
def netBuffSize : Nat := 256

/-- `local_net`, which nothing changes. -/
def localNet : Ip := fun i => if i = 3 then 0 else 255

def udpSendPort : UInt16 := 8086

/-- The static variables at boot, before `io_net_init`. -/
def NetState.boot : NetState :=
  { networkState := .uninitialized
    localMac := fun _ => 0
    localIp := ![192, 168, 2, 15]
    localGate := ![192, 168, 2, 2]
    rcvPort := udpSendPort
    rcvBuff := { addr := { ip := fun _ => 0, port := 0 }, size := 0, buff := fun _ => 0 }
    sndBuff := fun _ => 0
    tmpBuff := fun _ => 0
    arpTable := fun _ => .clear
    id := 0
    sent := [] }

namespace NetState

/-- The hardware address behind a pointer. -/
def macAt (s : NetState) : MacPtr → Mac
  | .localMac => s.localMac
  | .arpTable i => (s.arpTable i).mac

/-- The state after a write to an entry of the table. -/
def setEntry (s : NetState) (i : Fin 8) (e : ArpEntry) : NetState :=
  { s with arpTable := fun j => if j = i then e else s.arpTable j }

/-- The state after a write through a pointer. -/
def setMacAt (s : NetState) (p : MacPtr) (mac : Mac) : NetState :=
  match p with
  | .localMac => { s with localMac := mac }
  | .arpTable i => s.setEntry i { ip := (s.arpTable i).ip, mac := mac }

/-- `get_effective_ip`. -/
def getEffectiveIp (s : NetState) (ip : Ip) : Ip :=
  if (∃ i, ip i &&& localNet i ≠ s.localIp i &&& localNet i) ∨ ip = s.localIp then s.localGate else ip

/-- `find_mac_in_table`. -/
def findMacInTable (s : NetState) (ip : Ip) : Option MacPtr :=
  if ip = s.localIp then some .localMac
  else ((List.finRange 8).find? fun i => (s.arpTable i).ip = ip).map .arpTable

end NetState

/-- `io_net_init`: `card` is the hardware address of the card, when a compatible one answers. -/
def ioNetInit (s : NetState) (card : Option Mac) : NetState :=
  let s1 := { s with
    arpTable := fun _ => .clear
    rcvBuff := { addr := { ip := fun _ => 0, port := 0 }, size := 0, buff := s.rcvBuff.buff }
    networkState := .disabled }
  match card with
  | none => s1
  | some mac =>
    -- the broadcast entry is the last thing the initialisation writes
    { s1 with networkState := .enabled, localMac := mac }.setEntry 0 .broadcast

end NanoS32
