import Lagopus.Dataplane.ByteOff
import Lagopus.Dataplane.Classify

/-!
# Header rewriting

The actions of `datapath.c` that change a packet: set-field, the TTL actions, and push and pop of
VLAN, MPLS and PBB headers. They work on the buffer through the pointers classification left, and
most of them set the pointers by hand afterwards instead of classifying again.

A result is `none` where the code has no defined behaviour: it follows a `NULL` pointer, or `fuel`
runs out in a classification.

* `setField`: `execute_action_set_field`;
* `Rewrite`, `Packet.rewrite`: the rewriting actions and what they do.
-/

namespace Lagopus

namespace Packet

/-! ## Writing to the buffer -/

variable (p : Packet)

/-- Copy bytes to an address. -/
def store (a : Nat) (bs : List Byte) : Packet :=
  { p with mem := fun x => if a ≤ x ∧ x < a + bs.length then bs.getD (x - a) 0 else p.mem x }

/-- Write a big-endian word. -/
def storeWord (a : Nat) (w : BitVec 16) : Packet := p.store a [beByte 2 w 0, beByte 2 w 1]

/-- `memmove` of `n` bytes from `src` to `dst`. -/
def memmove (dst src n : Nat) : Packet :=
  p.store dst ((List.range n).map fun i => p.mem (src + i))

/-- Change the byte at an address. -/
def adjust (a : Nat) (f : Byte → Byte) : Packet := p.store a [f (p.mem a)]

/-- `OS_M_PREPEND`: `n` more bytes in front. -/
def prepend (n : Nat) : Packet := { p with eth := p.eth - n, pktlen := p.pktlen + n }

/-- `OS_M_ADJ`: `n` bytes less in front. -/
def adj (n : Nat) : Packet := { p with eth := p.eth + n, pktlen := p.pktlen - n }

/-! ## Set-field -/

/-- The first four bytes of an OXM value. -/
def be32 (m : Match) : BitVec 32 := m.byte 0 ++ m.byte 1 ++ m.byte 2 ++ m.byte 3

/-- Its first eight bytes. -/
def be64 (m : Match) : BitVec 64 :=
  be32 m ++ m.byte 4 ++ m.byte 5 ++ m.byte 6 ++ m.byte 7

/-- Set the VLAN tag, in the frame and in `oob_data`, if there is one. -/
def setVlanTci (f : BitVec 16 → BitVec 16) : Packet :=
  match p.vlan with
  | some a =>
    let tci := f (p.word a)
    { p.storeWord a tci with oob := { p.oob with vlanTci := tci ||| OFPVID_PRESENT } }
  | none => p

/-- The cases `IP_DSCP` and `IP_ECN`: clear the bits `mask` of the type-of-service byte and set those
of `tos`; or the same with the traffic class, which straddles the first two bytes of the IPv6
header, where `hi` and `lo` are set. -/
def setTrafficClass (mask tos hi lo : Byte) : Packet :=
  if p.etherType = ETHERTYPE_IP then p.adjust (p.l3 + 1) fun b => (b &&& ~~~mask) ||| tos
  else if p.etherType = ETHERTYPE_IPV6 then
    (p.adjust p.l3 fun b => (b &&& ~~~(mask >>> 4)) ||| hi).adjust (p.l3 + 1) fun b =>
      (b &&& ~~~(mask <<< 4)) ||| lo
  else p

def setDscp (v : Byte) : Packet := p.setTrafficClass 0xfc (v <<< 2) (v >>> 2) (v <<< 6)

def setEcn (v : Byte) : Packet := p.setTrafficClass 0x03 v (v >>> 4) (v <<< 4)

/-- `execute_action_set_field`. Cases that are empty in the code, and the fields without one, leave
the packet as it is. -/
def setField (fuel : Nat) (p : Packet) (m : Match) : Option Packet :=
  let value (n : Nat) : List Byte := (List.range n).map m.byte
  let at4 (off n : Nat) : Option Packet := p.l4.map fun a => p.store (a + off) (value n)
  match m.field with
  | .inPort => some { p with oob := { p.oob with inPort := be32 m } }
  | .metadata => some { p with oob := { p.oob with metadata := be64 m } }
  | .ethDst => some (p.store p.eth (value 6))
  | .ethSrc => some (p.store (p.eth + 6) (value 6))
  | .ethType =>
    let a := match p.vlan with
      | some v => v + 2
      | none => p.eth + 12
    (p.store a (value 2)).reClassifyPacket fuel
  | .vlanVid => some (p.setVlanTci fun tci =>
      (tci &&& 0xf000) ||| ((m.byte 0 ++ m.byte 1) &&& 0x0fff))
  | .vlanPcp => some (p.setVlanTci fun tci =>
      (tci &&& 0x1fff) ||| ((m.byte 0).setWidth 16 <<< 13))
  | .ipDscp => some (p.setDscp (m.byte 0))
  | .ipEcn => some (p.setEcn (m.byte 0))
  | .ipProto =>
    p.proto.map fun a =>
      let q := p.store a (value 1)
      let r := if p.etherType = ETHERTYPE_IP then q.classifyPacketIpv4 else q.classifyPacketIpv6
      r.classifyPacketL4 (r.proto.getD 0) (r.l4.getD 0)
  | .ipv4Src => some (p.store (p.l3 + 12) (value 4))
  | .ipv4Dst => some (p.store (p.l3 + 16) (value 4))
  | .tcpSrc | .udpSrc | .sctpSrc => at4 0 2
  | .tcpDst | .udpDst | .sctpDst => at4 2 2
  | .icmpv4Type | .icmpv6Type => at4 0 1
  | .icmpv4Code | .icmpv6Code => at4 1 1
  | .arpOp => some (p.store (p.l3 + 6) (value 2))
  | .arpSpa => some (p.store (p.l3 + 14) (value 4))
  | .arpTpa => some (p.store (p.l3 + 24) (value 4))
  | .arpSha => some (p.store (p.l3 + 8) (value 6))
  | .arpTha => some (p.store (p.l3 + 18) (value 6))
  | .ipv6Src => some (p.store (p.l3 + 8) (value 16))
  | .ipv6Dst => some (p.store (p.l3 + 24) (value 16))
  | .ipv6Flabel =>
    let q := (p.adjust p.l3 (· ||| m.byte 0)).adjust (p.l3 + 1) fun b => (b &&& 0xf0) ||| m.byte 1
    some (q.store (p.l3 + 2) [m.byte 2, m.byte 3])
  | .ipv6NdTarget => at4 8 16
  | .ipv6NdSll => some (match p.ndSll with
      | some a => p.store (a + 2) (value 6)
      | none => p)
  | .ipv6NdTll => some (match p.ndTll with
      | some a => p.store (a + 2) (value 6)
      | none => p)
  | .mplsLabel => p.mpls.map fun a =>
      (p.store a [labelByte m 0, labelByte m 1]).adjust (a + 2) fun b => (b &&& 0x0f) ||| labelByte m 2
  | .mplsTc => p.mpls.map fun a =>
      (p.adjust (a + 1) (· ||| (m.byte 0 >>> 7))).adjust (a + 2) fun b =>
        (b &&& 0xf1) ||| (m.byte 0 <<< 1)
  | .mplsBos => p.mpls.map fun a =>
      p.adjust (a + 2) fun b => if m.byte 0 = 0 then b &&& 0xfe else b ||| 0x01
  | .pbbIsid => p.pbb.map fun a => p.store (a + 1) (value 3)
  | .tunnelId => some { p with oob2 := { p.oob2 with tunnelId := be64 m } }
  | .packetType => some { p with oob := { p.oob with packetType := be32 m } }
  | .greFlags => p.l4.map fun a =>
      let flags := (m.byte 0 ++ m.byte 1) <<< 3
      (p.adjust a fun _ => beByte 2 flags 0).adjust (a + 1) fun b => (b &&& 0x07) ||| beByte 2 flags 1
  | .greVer => p.l4.map fun a => p.adjust (a + 1) fun b => (b &&& 0xf8) ||| m.byte 0
  | .greProtocol => at4 2 2
  | .greKey => p.l4.map fun a =>
      if m.hasMask then
        p.store (a + 4) ((List.range 4).map fun i =>
          (p.mem (a + 4 + i) &&& ~~~(m.byte (4 + i))) ||| m.byte i)
      else p.store (a + 4) (value 4)
  | .vxlanFlags => p.l4Payload.map fun a => p.store a (value 1)
  | .vxlanVni => p.l4Payload.map fun a => p.store (a + 4) (value 3)
  | .gtpuFlags => p.l4Payload.map fun a => p.adjust a fun b => (b &&& 0xe0) ||| m.byte 0
  | .gtpuVer => p.l4Payload.map fun a => p.adjust a fun b => (b &&& 0x1f) ||| (m.byte 0 <<< 5)
  | .gtpuMsgtype => p.l4Payload.map fun a => p.store (a + 1) (value 1)
  | .gtpuTeid => p.l4Payload.map fun a => p.store (a + 4) (value 4)
  | _ => some p

/-! ## TTL -/

/-- `SET_MPLS_TTL`. -/
def setMplsTtl (a : Nat) (ttl : Byte) : Packet := p.store (a + 3) [ttl]

/-- Where the TTL of the IP header behind the last label is, told by the version. -/
def innerTtl : Option Nat :=
  if p.mem p.l3 >>> 4 = 4 then some (p.l3 + 8)
  else if p.mem p.l3 >>> 4 = 6 then some (p.l3 + 7)
  else none

/-- `execute_action_copy_ttl_out`. The next label is looked for behind an untagged Ethernet
header. -/
def copyTtlOut : Packet :=
  match p.mpls with
  | some a =>
    if p.mem (a + 2) &&& 0x01 ≠ 0 then
      match p.innerTtl with
      | some b => p.setMplsTtl a (p.mem b)
      | none => p
    else p.setMplsTtl a (p.mem (p.eth + 18 + 3))
  | none => p

/-- `execute_action_copy_ttl_in`. -/
def copyTtlIn : Packet :=
  match p.mpls with
  | some a =>
    if p.mem (a + 2) &&& 0x01 ≠ 0 then
      match p.innerTtl with
      | some b => p.store b [p.mem (a + 3)]
      | none => p
    else p.setMplsTtl (p.eth + 18) (p.mem (a + 3))
  | none => p

/-- Where `execute_action_set_nw_ttl` and `execute_action_dec_nw_ttl` find the TTL. -/
def nwTtl : Option Nat :=
  if p.etherType = ETHERTYPE_IP then some (p.l3 + 8)
  else if p.etherType = ETHERTYPE_IPV6 then some (p.l3 + 7)
  else none

/-- The checksum of an IPv4 header goes up with the TTL going down, as a host (little-endian) word;
the wrap-around is left to a flag. -/
def incCsum : Packet :=
  let csum := p.mem (p.l3 + 11) ++ p.mem (p.l3 + 10)
  if csum = 0xffff then p else p.store (p.l3 + 10) [beByte 2 (csum + 1) 1, beByte 2 (csum + 1) 0]

/-! ## Push and pop -/

/-- `execute_action_push_vlan`: `copyAddr` is `NEED_COPY_ETH_ADDR`. -/
def pushVlan (etherType : BitVec 16) (copyAddr : Bool) : Packet :=
  let q := p.prepend 4
  let q := if copyAddr then q.memmove q.eth p.eth 12 else q
  let q := q.storeWord (q.eth + 12) etherType
  let tci := match p.vlan with
    | some a => q.word a
    | none => 0
  let q := q.storeWord (q.eth + 14) tci
  { q with vlan := some (q.eth + 14), oob := { q.oob with vlanTci := tci ||| OFPVID_PRESENT } }

/-- `execute_action_pop_vlan`. -/
def popVlan (copyAddr : Bool) : Packet :=
  let q := if copyAddr then p.memmove (p.eth + 4) p.eth 12 else p
  { q.adj 4 with vlan := none, oob := { q.oob with vlanTci := 0 } }

/-- `execute_action_push_mpls`: a new label inherits from the one there is, or takes its TTL from
the IP header. -/
def pushMpls (etherType : BitVec 16) (copyAddr : Bool) : Packet :=
  let top := p.mpls.getD p.l3
  let lse : List Byte := match p.mpls with
    | some a => [p.mem a, p.mem (a + 1), p.mem (a + 2) &&& 0xfe, p.mem (a + 3)]
    | none => [0, 0, 0x01, (p.nwTtl.map p.mem).getD 0]
  let size := top - p.eth
  let q := p.prepend 4
  let q := if copyAddr then q.memmove q.eth p.eth size
    else if 14 < size then q.memmove (q.eth + 12) (p.eth + 12) (size - 14)
    else q
  { (q.storeWord (top - 6) etherType).store (top - 4) lse with mpls := some (top - 4) }

/-- `execute_action_pop_mpls`. For an IP ethertype the pointers are set by hand. -/
def popMpls (fuel : Nat) (p : Packet) (etherType : BitVec 16) : Option Packet :=
  p.mpls.bind fun a =>
    let q := p.memmove (p.eth + 4) p.eth (a - p.eth - 2)
    let q := { (q.storeWord (a + 2) etherType).adj 4 with etherType := etherType, mpls := none }
    if etherType ≠ ETHERTYPE_IP ∧ etherType ≠ ETHERTYPE_IPV6 then q.reClassifyPacket fuel else some q

/-- `execute_action_push_pbb`: the Ethernet header becomes the inner one. -/
def pushPbb (fuel : Nat) (p : Packet) (etherType : BitVec 16) (copyAddr : Bool) : Option Packet :=
  let q := p.prepend 18
  let q := if copyAddr then q.memmove q.eth p.eth 12 else q
  let q := q.storeWord (q.eth + 12) etherType
  let pbb := q.eth + 14
  let inner := q.word (pbb + 16)
  let q :=
    if inner = ETHERTYPE_VLAN then
      q.store pbb [(q.mem (pbb + 18) >>> 5) <<< 5, 0, 0, 0]
    else if inner = ETHERTYPE_PBB then
      q.store pbb [0, q.mem (pbb + 19), q.mem (pbb + 20), q.mem (pbb + 21)]
    else q.store pbb [0, 0, 0, 0]
  q.reClassifyPacket fuel

/-- `execute_action_pop_pbb`. -/
def popPbb (fuel : Nat) (p : Packet) : Option Packet :=
  p.pbb.bind fun a =>
    let q := (p.memmove p.eth (a + 4) 6).memmove (p.eth + 6) (a + 10) 6
    ((q.memmove (p.eth + 18) p.eth (a - p.eth - 2)).adj 18).reClassifyPacket fuel

end Packet

/-! ## The rewriting actions -/

/-- The actions that work on the packet alone; `copyAddr` is what `flow_action_examination` noted in
`action->flags`. Encapsulation and decapsulation are not modelled. -/
inductive Rewrite
  | setField (m : Match)
  | copyTtlOut
  | copyTtlIn
  | setMplsTtl (ttl : Byte)
  | decMplsTtl
  | setNwTtl (ttl : Byte)
  | decNwTtl
  | pushVlan (etherType : BitVec 16) (copyAddr : Bool)
  | popVlan (copyAddr : Bool)
  | pushMpls (etherType : BitVec 16) (copyAddr : Bool)
  | popMpls (etherType : BitVec 16)
  | pushPbb (etherType : BitVec 16) (copyAddr : Bool)
  | popPbb
deriving DecidableEq

/-- What a rewriting action does: the packet, and whether processing goes on. It stops when a TTL
has run out. -/
def Packet.rewrite (fuel : Nat) (p : Packet) : Rewrite → Option (Packet × Bool)
  | .setField m => (p.setField fuel m).map (·, true)
  | .copyTtlOut => some (p.copyTtlOut, true)
  | .copyTtlIn => some (p.copyTtlIn, true)
  | .setMplsTtl ttl => p.mpls.map fun a => (p.setMplsTtl a ttl, true)
  | .decMplsTtl => p.mpls.map fun a =>
      let ttl := p.mem (a + 3)
      let q := if 0 < ttl then p.setMplsTtl a (ttl - 1) else p
      (q, q.mem (a + 3) ≠ 0)
  | .setNwTtl ttl => some (match p.nwTtl with
      | some a => p.store a [ttl]
      | none => p, true)
  | .decNwTtl => some (match p.nwTtl with
      | some a =>
        let ttl := p.mem a
        let q := if 0 < ttl then p.store a [ttl - 1] else p
        let q := if 0 < ttl ∧ p.etherType = ETHERTYPE_IP then q.incCsum else q
        (q, decide (q.mem a ≠ 0))
      | none => (p, true))
  | .pushVlan t c => some (p.pushVlan t c, true)
  | .popVlan c => some (p.popVlan c, true)
  | .pushMpls t c => some (p.pushMpls t c, true)
  | .popMpls t => (p.popMpls fuel t).map (·, true)
  | .pushPbb t c => (p.pushPbb fuel t c).map (·, true)
  | .popPbb => (p.popPbb fuel).map (·, true)

end Lagopus
