import NanoS32.Lib.Network
import NanoS32.Net.Udp

/-!
# Hosts on a network

The hosts of a network whose medium may lose frames and deliver them late, more than once and to any host. A call of the driver is
not one step of its host, as packets come in while it waits for an answer, and between its assignments to the reception buffer. No
packet comes in while a frame is built: the answer to it would be built in `snd_buff` as well.
-/

namespace NanoS32

/-- A step that a host makes by itself. -/
inductive HostStep where
  /-- The request in the loop of `provide_mac_address`. -/
  | request (ip : Ip)
  /-- The end of `udp_send`, when it has gone through its waits. More data would not fit in `snd_buff` with all the headers. -/
  | transmit (dst : NetAddress) (buff : Mem) (len : Nat) (hlen : len ≤ 198)
  /-- `rcv_buff.size = 0`, in `io_net_recv` and `io_net_recv_set_port`. -/
  | clear
  /-- `rcv_port = port`, in `io_net_recv_set_port`. -/
  | setPort (port : UInt16)

namespace NetState

/-- The end of `udp_send`. -/
def transmit (s : NetState) (dst : NetAddress) (buff : Mem) (len : Nat) : Nat × NetState :=
  (s.setSnd (s.udpBuild dst.ip udpSendPort dst.port buff len)).ipSend dst.ip ipProtocolUdp UdpIpHdr.size (UdpHdr.size + len)

/-- The state after a step of the host. -/
def hostStep : HostStep → NetState → NetState
  | .request ip, s => s.arpRequest ip
  | .transmit dst buff len _, s => (s.transmit dst buff len).2
  | .clear, s => { s with rcvBuff := { addr := s.rcvBuff.addr, size := 0, buff := s.rcvBuff.buff } }
  | .setPort port, s => { s with rcvPort := port }

/-- The hosts and the frames that they exchange. -/
def hosts : Network HostStep (List UInt8) NetState :=
  { act := hostStep, receive := fun packet s => s.netHandler [packet], sent := NetState.sent }

end NetState

/-- The addresses of the hosts of a network: no two have one address, and none has an address that the table uses for something
else. -/
structure Site (η : Type) where
  ip : η → Ip
  mac : η → Mac
  gate : η → Ip
  ip_injective : Function.Injective ip
  mac_injective : Function.Injective mac
  ip_first : ∀ n, ip n firstOctet ≠ 0
  ip_broadcast : ∀ n, ip n ≠ ArpEntry.broadcast.ip
  mac_clear : ∀ n, mac n ≠ ArpEntry.clear.mac
  mac_broadcast : ∀ n, mac n ≠ ArpEntry.broadcast.mac

namespace Site

variable {η : Type} (site : Site η)

/-- A host after `io_net_init`. -/
def host (n : η) : NetState :=
  ioNetInit { NetState.boot with localIp := site.ip n, localGate := site.gate n } (some (site.mac n))

/-- What host `n` sends to an address is for the host with the effective address. -/
def effective (n : η) (ip : Ip) : Ip := (site.host n).getEffectiveIp ip

variable [DecidableEq η]

/-- A run of the hosts from their initialisation on. -/
abbrev Run (es : List (Network.Event η HostStep (List UInt8))) (w : η → NetState) : Prop := NetState.hosts.Run site.host es w

end Site

end NanoS32
