import Lagopus.OpenFlow.Oxm

/-!
# Packets and their header fields

A packet is what `struct lagopus_packet` gives the matchers to read: the buffer memory, the
pointers classification left in `base[]`, and the out-of-band data. Pointers are addresses in the
buffer; a `NULL` pointer is `none`. Memory is total, as the code reads past the end of a short
frame without a check.

* `Packet.base` reads through one entry of `base[]`, the out-of-band records included;
* `Packet.headerField` is the specification side: the header field an OXM field names, in the
  layout of its OXM value, when the packet carries the header;
* `Match.Holds` is the OpenFlow meaning of one match on one packet.
-/

namespace Lagopus

/-! ## Out-of-band data -/

/-- Byte `i` of a big-endian word of `n` bytes. -/
def beByte {w : Nat} (n : Nat) (v : BitVec w) (i : Nat) : Byte := v.extractLsb' (8 * (n - 1 - i)) 8

/-- `struct oob_data`. Every member but `packetType` is kept in network byte order, so the words
here are read off memory big-endian; `packet_type` is stored in host (little-endian) order. -/
structure OobData where
  metadata : BitVec 64 := 0
  inPort : BitVec 32 := 0
  inPhyPort : BitVec 32 := 0
  packetType : BitVec 32 := 0
  etherType : BitVec 16 := 0
  vlanTci : BitVec 16 := 0
deriving DecidableEq, Repr

/-- The bytes of `struct oob_data` in memory. -/
def OobData.byte (o : OobData) (i : Nat) : Byte :=
  if i < 8 then beByte 8 o.metadata i
  else if i < 12 then beByte 4 o.inPort (i - 8)
  else if i < 16 then beByte 4 o.inPhyPort (i - 12)
  else if i < 20 then beByte 4 o.packetType (3 - (i - 16))
  else if i < 22 then beByte 2 o.etherType (i - 20)
  else if i < 24 then beByte 2 o.vlanTci (i - 22)
  else 0

/-- `struct oob2_data`, in network byte order. -/
structure Oob2Data where
  tunnelId : BitVec 64 := 0
  ipv6Exthdr : BitVec 16 := 0
deriving DecidableEq, Repr

/-- The bytes of `struct oob2_data` in memory. -/
def Oob2Data.byte (o : Oob2Data) (i : Nat) : Byte :=
  if i < 8 then beByte 8 o.tunnelId i
  else if i < 10 then beByte 2 o.ipv6Exthdr (i - 8)
  else 0

/-! ## Packets -/

/-- The entries of `base[]`, in their order. -/
inductive Base
  | oob | eth | pbb | mpls | l3 | ipproto | l4 | l4p | oob2 | v6src | v6dst | ndsll | ndtll
deriving DecidableEq, Repr

/-- `OOB_BASE` to `OOB2_BASE`: what `match_basic` compares on every packet. -/
def Base.common : List Base := [.oob, .eth, .pbb, .mpls, .l3, .ipproto, .l4, .l4p, .oob2]

/-- `OOB_BASE` to `NDTLL_BASE`: what it compares on an IPv6 packet. -/
def Base.all : List Base := Base.common ++ [.v6src, .v6dst, .ndsll, .ndtll]

/-- The part of `struct lagopus_packet` that classification sets and matching reads. -/
structure Packet where
  /-- The packet buffer. -/
  mem : Nat → Byte
  /-- `OS_M_PKTLEN`. -/
  pktlen : Nat := 0
  /-- `ether_type`, in host order. -/
  etherType : BitVec 16 := 0
  oob : OobData := {}
  oob2 : Oob2Data := {}
  /-- `eth`, the start of the frame. -/
  eth : Nat := 0
  vlan : Option Nat := none
  pbb : Option Nat := none
  mpls : Option Nat := none
  l3 : Nat := 14
  proto : Option Nat := none
  l4 : Option Nat := none
  l4Payload : Option Nat := none
  v6src : Option Nat := none
  v6dst : Option Nat := none
  ndSll : Option Nat := none
  ndTll : Option Nat := none

namespace Packet

/-- The bytes behind a pointer. -/
def behind (p : Packet) (a : Nat) : Nat → Byte := fun i => p.mem (a + i)

/-- `base[b]`, as the bytes behind it; `none` for `NULL`. -/
def base (p : Packet) : Base → Option (Nat → Byte)
  | .oob => some p.oob.byte
  | .eth => some (p.behind p.eth)
  | .pbb => p.pbb.map p.behind
  | .mpls => p.mpls.map p.behind
  | .l3 => some (p.behind p.l3)
  | .ipproto => p.proto.map p.behind
  | .l4 => p.l4.map p.behind
  | .l4p => p.l4Payload.map p.behind
  | .oob2 => some p.oob2.byte
  | .v6src => p.v6src.map p.behind
  | .v6dst => p.v6dst.map p.behind
  | .ndsll => p.ndSll.map p.behind
  | .ndtll => p.ndTll.map p.behind

end Packet

/-! ## Ethertypes and protocol numbers -/

def ETHERTYPE_IP : BitVec 16 := 0x0800
def ETHERTYPE_ARP : BitVec 16 := 0x0806
def ETHERTYPE_VLAN : BitVec 16 := 0x8100
def ETHERTYPE_IPV6 : BitVec 16 := 0x86dd
def ETHERTYPE_MPLS : BitVec 16 := 0x8847
def ETHERTYPE_MPLS_MCAST : BitVec 16 := 0x8848
def ETHERTYPE_PBB : BitVec 16 := 0x88e7

def IPPROTO_ICMP : Byte := 1
def IPPROTO_TCP : Byte := 6
def IPPROTO_UDP : Byte := 17
def IPPROTO_GRE : Byte := 47
def IPPROTO_ICMPV6 : Byte := 58
def IPPROTO_SCTP : Byte := 132

/-! ## Header fields -/

/-- The layer 3 protocol whose header holds a field. -/
inductive L3Need
  | any | ip | ipv4 | ipv6 | arp
deriving DecidableEq, Repr

/-- Does an ethertype announce the needed protocol? -/
def L3Need.ok : L3Need → BitVec 16 → Bool
  | .any, _ => true
  | .ip, e => e == ETHERTYPE_IP || e == ETHERTYPE_IPV6
  | .ipv4, e => e == ETHERTYPE_IP
  | .ipv6, e => e == ETHERTYPE_IPV6
  | .arp, e => e == ETHERTYPE_ARP

/-- The layer 3 header a field belongs to. -/
def OxmField.l3Need : OxmField → L3Need
  | .ipDscp | .ipEcn | .ipProto | .tcpSrc | .tcpDst | .udpSrc | .udpDst | .sctpSrc | .sctpDst => .ip
  | .greFlags | .greVer | .greProtocol | .greKey | .greSeqnum => .ip
  | .vxlanFlags | .vxlanVni | .gtpuFlags | .gtpuVer | .gtpuMsgtype | .gtpuTeid => .ip
  | .ipv4Src | .ipv4Dst | .icmpv4Type | .icmpv4Code => .ipv4
  | .ipv6Src | .ipv6Dst | .ipv6Flabel | .icmpv6Type | .icmpv6Code => .ipv6
  | .ipv6NdTarget | .ipv6NdSll | .ipv6NdTll | .ipv6Exthdr => .ipv6
  | .arpOp | .arpSpa | .arpTpa | .arpSha | .arpTha => .arp
  | _ => .any

/-- The IP protocol whose header holds a field. -/
def OxmField.protoNeed : OxmField → Option Byte
  | .tcpSrc | .tcpDst => some IPPROTO_TCP
  | .udpSrc | .udpDst | .vxlanFlags | .vxlanVni => some IPPROTO_UDP
  | .gtpuFlags | .gtpuVer | .gtpuMsgtype | .gtpuTeid => some IPPROTO_UDP
  | .sctpSrc | .sctpDst => some IPPROTO_SCTP
  | .icmpv4Type | .icmpv4Code => some IPPROTO_ICMP
  | .icmpv6Type | .icmpv6Code | .ipv6NdTarget | .ipv6NdSll | .ipv6NdTll => some IPPROTO_ICMPV6
  | .greFlags | .greVer | .greProtocol | .greKey | .greSeqnum => some IPPROTO_GRE
  | _ => none

namespace Packet

variable (p : Packet)

/-- The IP protocol number, the byte behind `proto`. -/
def protoByte : Option Byte := (p.base .ipproto).map (· 0)

/-- Does the packet carry the header that holds field `f`? -/
def carries (f : OxmField) : Bool :=
  f.l3Need.ok p.etherType && (f.protoNeed.isNone || f.protoNeed == p.protoByte)

/-- A field computed from the bytes behind `base[b]`. -/
def readWith (b : Base) (g : (Nat → Byte) → List Byte) : Option (List Byte) :=
  (p.base b).map g

/-- `n` bytes behind `base[b]`, from offset `off`. -/
def read (b : Base) (off n : Nat) : Option (List Byte) :=
  p.readWith b fun r => (List.range n).map fun i => r (off + i)

/-- Traffic class of an IPv6 header, the type-of-service byte of an IPv4 header. -/
def trafficClass : Byte :=
  if p.etherType = ETHERTYPE_IPV6 then (p.behind p.l3 0 <<< 4) ||| (p.behind p.l3 1 >>> 4)
  else p.behind p.l3 1

/-- Where the header field lies, given that the packet carries the header. -/
def rawField : OxmField → Option (List Byte)
  | .metadata => p.read .oob 0 8
  | .inPort => p.read .oob 8 4
  | .inPhyPort => p.read .oob 12 4
  | .ethDst => p.read .eth 0 6
  | .ethSrc => p.read .eth 6 6
  | .ethType => some [beByte 2 p.etherType 0, beByte 2 p.etherType 1]
  | .vlanVid => some [p.oob.byte 22 &&& 0x1f, p.oob.byte 23]
  | .vlanPcp => some [p.oob.byte 22 >>> 5]
  | .ipDscp => some [p.trafficClass >>> 2]
  | .ipEcn => some [p.trafficClass &&& 0x03]
  | .ipProto => p.read .ipproto 0 1
  | .ipv4Src => p.read .l3 12 4
  | .ipv4Dst => p.read .l3 16 4
  | .tcpSrc | .udpSrc | .sctpSrc => p.read .l4 0 2
  | .tcpDst | .udpDst | .sctpDst => p.read .l4 2 2
  | .icmpv4Type | .icmpv6Type => p.read .l4 0 1
  | .icmpv4Code | .icmpv6Code => p.read .l4 1 1
  | .arpOp => p.read .l3 6 2
  | .arpSha => p.read .l3 8 6
  | .arpSpa => p.read .l3 14 4
  | .arpTha => p.read .l3 18 6
  | .arpTpa => p.read .l3 24 4
  | .ipv6Src => p.read .v6src 0 16
  | .ipv6Dst => p.read .v6dst 0 16
  | .ipv6Flabel => some [0, p.behind p.l3 1 &&& 0x0f, p.behind p.l3 2, p.behind p.l3 3]
  | .ipv6NdTarget => p.read .l4 8 16
  | .ipv6NdSll => p.read .ndsll 2 6
  | .ipv6NdTll => p.read .ndtll 2 6
  | .mplsLabel => p.readWith .mpls fun r =>
      [0, r 0 >>> 4, (r 0 <<< 4) ||| (r 1 >>> 4), (r 1 <<< 4) ||| (r 2 >>> 4)]
  | .mplsTc => p.readWith .mpls fun r => [(r 2 >>> 1) &&& 0x07]
  | .mplsBos => p.readWith .mpls fun r => [r 2 &&& 0x01]
  | .pbbIsid => p.read .pbb 1 3
  | .tunnelId => p.read .oob2 0 8
  | .ipv6Exthdr => p.read .oob2 8 2
  | .packetType => some ((List.range 4).map (beByte 4 p.oob.packetType))
  | .greFlags => p.readWith .l4 fun r => [r 0 >>> 3, (r 0 <<< 5) ||| (r 1 >>> 3)]
  | .greVer => p.readWith .l4 fun r => [r 1 &&& 0x07]
  | .greProtocol => p.read .l4 2 2
  | .greKey => p.read .l4 4 4
  | .vxlanFlags => p.read .l4p 0 1
  | .vxlanVni => p.read .l4p 4 3
  | .gtpuFlags => p.readWith .l4p fun r => [r 0 &&& 0x1f]
  | .gtpuVer => p.readWith .l4p fun r => [r 0 >>> 5]
  | .gtpuMsgtype => p.read .l4p 1 1
  | .gtpuTeid => p.read .l4p 4 4
  | _ => none

/-- **The header field an OXM field names**, in the layout of its OXM value. -/
def headerField (f : OxmField) : Option (List Byte) :=
  if p.carries f then p.rawField f else none

end Packet

/-- The masked comparison of a match against the bytes of a header field. -/
def Match.holdsOn (m : Match) (v : List Byte) : Bool :=
  v.length = m.len ∧ ∀ i < m.len, v.getD i 0 &&& m.maskByte i = m.byte i &&& m.maskByte i

/-- **One match holds on a packet**: the packet has the field, and value and field agree under
the mask. -/
def Match.holds (m : Match) (p : Packet) : Bool := (p.headerField m.field).any m.holdsOn

/-- Every match of a list holds. -/
def MatchListHolds (ml : List Match) (p : Packet) : Prop := ∀ m ∈ ml, m.holds p = true

instance (ml : List Match) (p : Packet) : Decidable (MatchListHolds ml p) :=
  inferInstanceAs (Decidable (∀ m ∈ ml, _))

end Lagopus
