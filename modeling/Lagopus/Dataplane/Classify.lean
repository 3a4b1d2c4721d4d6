import Lagopus.Dataplane.Packet

/-!
# Packet classification

`classify_ether_packet` walks the headers of a frame and leaves in `struct lagopus_packet` the
pointers and words that matching reads.

* `classifyPacketL2`: the VLAN, PBB and MPLS headers. The loop over inner tags checks the length of
  the frame for VLAN tags only, so a chain of PBB headers is followed as far as memory has one: the
  loop is given `fuel`, and is `none` when that runs out;
* `classifyPacketIpv4`, `classifyPacketIpv6`, `classifyPacketL4`: the headers behind them;
* `Classified`: what all of that guarantees to the index, and `classifyEtherPacket_classified` that
  it does.
-/

namespace Lagopus

def ETHERTYPE_QINQ : BitVec 16 := 0x88a8

def OFPVID_PRESENT : BitVec 16 := 0x1000

namespace Packet

variable (p : Packet)

/-- The big-endian word at an address. -/
def word (a : Nat) : BitVec 16 := p.mem a ++ p.mem (a + 1)

/-! ## Layer 2 -/

/-- Note the VLAN tag at `l3_hdr`. -/
def noteVlan : Packet :=
  { p with vlan := some p.l3, oob := { p.oob with vlanTci := p.word p.l3 ||| OFPVID_PRESENT } }

/-- Step over a header of `n` bytes. -/
def skip (n : Nat) : Packet := { p with l3 := p.l3 + n }

/-- The first `switch` of `classify_packet_l2`: the outermost tag. The PBB branch steps over
`sizeof(struct pbb_hdr *)`, the size of a pointer. -/
def outerTag : Packet × BitVec 16 :=
  let etherType := p.word (p.eth + 12)
  if etherType = ETHERTYPE_PBB then
    (({ p with pbb := some p.l3 } : Packet).skip 8, p.word (p.l3 + 16))
  else if etherType = ETHERTYPE_VLAN ∨ etherType = ETHERTYPE_QINQ then
    (p.noteVlan.skip 4, p.word (p.l3 + 2))
  else (p, etherType)

/-- How the loop over the inner tags ends: at a header that is no tag, or at a VLAN tag past the
end of the frame. -/
inductive TagScan
  | stripped (pkt : Packet) (etherType : BitVec 16) (pktlen : Int)
  | short (pkt : Packet)

/-- The `while` loop of `classify_packet_l2`. -/
def stripTags : Nat → Packet → BitVec 16 → Int → Option TagScan
  | 0, _, _, _ => none
  | fuel + 1, p, etherType, pktlen =>
    if etherType = ETHERTYPE_PBB then
      stripTags fuel (({ p with pbb := p.pbb.or (some p.l3) } : Packet).skip 18)
        (p.word (p.l3 + 16)) pktlen
    else if etherType = ETHERTYPE_VLAN ∨ etherType = ETHERTYPE_QINQ then
      if pktlen - 4 < 0 then some (.short p)
      else
        let p' := if p.vlan.isNone then p.noteVlan else p
        stripTags fuel (p'.skip 4) (p.word (p.l3 + 2)) (pktlen - 4)
    else some (.stripped p etherType pktlen)

/-- The last `switch` of `classify_packet_l2`: MPLS, with a guess at what the label carries. The
loop never leaves a PBB header behind. -/
def innerHeader (etherType : BitVec 16) (pktlen : Int) : Packet :=
  let p := { p with etherType := etherType, oob := { p.oob with etherType := etherType } }
  if etherType = ETHERTYPE_MPLS ∨ etherType = ETHERTYPE_MPLS_MCAST then
    if pktlen - 4 < 0 then p
    else
      let p := ({ p with mpls := some p.l3 } : Packet).skip 4
      let first := p.mem p.l3
      if 0x45 ≤ first ∧ first ≤ 0x4f then { p with etherType := ETHERTYPE_IP }
      else if first &&& 0xf0 = 0x60 then { p with etherType := ETHERTYPE_IPV6 }
      else p
  else if etherType = ETHERTYPE_PBB then
    if pktlen - 18 < 0 then p
    else
      let p' := ({ p with pbb := some p.l3 } : Packet).skip 18
      { p' with etherType := p.word (p.l3 + 16) }
  else p

/-- The members `classify_packet_l2` resets. -/
def reset : Packet :=
  { p with
    oob := { p.oob with vlanTci := 0 }, vlan := none, pbb := none, mpls := none, proto := none,
    l3 := p.eth + 14 }

/-- `classify_packet_l2`. A frame that ends inside its VLAN tags keeps the `ether_type` the packet
had before. -/
def classifyPacketL2 (fuel : Nat) (p : Packet) : Option Packet :=
  let (q, etherType) := p.reset.outerTag
  (stripTags fuel q etherType p.pktlen).map fun
    | .stripped r etherType pktlen => r.innerHeader etherType pktlen
    | .short r => r

/-! ## Layer 3 -/

/-- `classify_packet_ipv4`. -/
def classifyPacketIpv4 : Packet :=
  { p with
    proto := some (p.l3 + 9),
    l4 := some (p.l3 + 4 * (p.mem p.l3 &&& 0x0f).toNat) }

end Packet

def OFPIEH_NONEXT : BitVec 16 := 0x001
def OFPIEH_ESP : BitVec 16 := 0x002
def OFPIEH_AUTH : BitVec 16 := 0x004
def OFPIEH_DEST : BitVec 16 := 0x008
def OFPIEH_FRAG : BitVec 16 := 0x010
def OFPIEH_ROUTER : BitVec 16 := 0x020
def OFPIEH_HOP : BitVec 16 := 0x040
def OFPIEH_UNREP : BitVec 16 := 0x080
def OFPIEH_UNSEQ : BitVec 16 := 0x100

def OFPIEH_AFTER_AH : BitVec 16 := OFPIEH_ESP ||| OFPIEH_DEST ||| OFPIEH_UNREP

/-- `(OFPIEH_DEST||OFPIEH_UNREP)`, with the logical operator. -/
def OFPIEH_AFTER_ESP : BitVec 16 := 1

/-- A `case` of the loop of `classify_packet_ipv6`: the flags of the headers it must not follow,
its own flag, and how far the next header is, by the header's length byte. -/
structure ExtHdr where
  after : BitVec 16
  flag : BitVec 16
  size : Nat → Nat

/-- The extension headers the loop steps over. -/
def extHdr (proto : Byte) : Option ExtHdr :=
  if proto = 0 then some ⟨0xffff, OFPIEH_HOP, fun n => (1 + n) * 8⟩
  else if proto = 43 then
    some ⟨OFPIEH_HOP ||| OFPIEH_DEST ||| OFPIEH_UNREP, OFPIEH_ROUTER, fun n => (1 + n) * 8⟩
  else if proto = 44 then
    some ⟨OFPIEH_HOP ||| OFPIEH_DEST ||| OFPIEH_ROUTER ||| OFPIEH_UNREP, OFPIEH_FRAG, fun _ => 8⟩
  else if proto = 51 then some ⟨OFPIEH_AFTER_AH, OFPIEH_AUTH, fun n => (2 + n) * 4⟩
  else if proto = 50 then some ⟨OFPIEH_AFTER_ESP, OFPIEH_ESP, fun n => (1 + n) * 8⟩
  else if proto = 60 then some ⟨0, OFPIEH_DEST, fun n => (1 + n) * 8⟩
  else none

def IPPROTO_NONE : Byte := 59

/-- Note an extension header, and whether it is out of order or repeated. -/
def noteExtHdr (after flag exthdr : BitVec 16) : BitVec 16 :=
  let x := if exthdr &&& after ≠ 0 then exthdr ||| OFPIEH_UNSEQ else exthdr
  let x := if x &&& flag ≠ 0 then x ||| OFPIEH_UNREP else x
  x ||| flag

namespace Packet

/-- The extension header loop: where `proto` and `next_hdr` end up, and the flags. Every header it
steps over shortens `pktlen`, so `pktlen` steps of fuel are enough. -/
def extHdrLoop (p : Packet) : Nat → Nat → Nat → BitVec 16 → Int → Nat × Nat × BitVec 16
  | 0, proto, next, exthdr, _ => (proto, next, exthdr)
  | fuel + 1, proto, next, exthdr, pktlen =>
    if pktlen ≤ 2 then (proto, next, exthdr)
    else
      match extHdr (p.mem proto) with
      | some e =>
        let n := e.size (p.mem (next + 1)).toNat
        extHdrLoop p fuel next (next + n) (noteExtHdr e.after e.flag exthdr) (pktlen - n)
      | none =>
        if p.mem proto = IPPROTO_NONE then (next, next + 2, noteExtHdr 0 OFPIEH_NONEXT exthdr)
        else (proto, next, exthdr)

/-- `classify_packet_ipv6`. -/
def classifyPacketIpv6 (p : Packet) : Packet :=
  let pktlen : Int := p.pktlen - (p.l3 - p.eth)
  let (proto, next, exthdr) := p.extHdrLoop pktlen.toNat (p.l3 + 6) (p.l3 + 40) 0 pktlen
  { p with
    v6src := some (p.l3 + 8), v6dst := some (p.l3 + 24), proto := some proto, l4 := some next,
    oob2 := { p.oob2 with ipv6Exthdr := exthdr } }

/-! ## Layer 4 -/

/-- The search for a neighbour discovery option. Options are at least eight bytes apart, so the
distance to the end is fuel enough. -/
def ndOption (p : Packet) (kind : Byte) (fin : Nat) : Nat → Nat → Option Nat
  | 0, _ => none
  | fuel + 1, a =>
    if a < fin ∧ p.mem (a + 1) ≠ 0 then
      if p.mem a = kind then some a else ndOption p kind fin fuel (a + (p.mem (a + 1)).toNat * 8)
    else none

/-- `classify_packet_l4`, with the `proto` and `l4_hdr` that layer 3 has just set. -/
def classifyPacketL4 (p : Packet) (proto l4 : Nat) : Packet :=
  let t := p.mem proto
  if t = IPPROTO_ICMPV6 then
    let plen := (p.word (p.l3 + 4)).toNat
    let find (kind : Byte) := p.ndOption kind (l4 + plen) plen (l4 + 24)
    { p with
      ndSll := if p.mem l4 = 135 then find 1 else none
      ndTll := if p.mem l4 = 136 then find 2 else none }
  else if t = IPPROTO_UDP then { p with l4Payload := some (l4 + 8) }
  else if t = IPPROTO_TCP then { p with l4Payload := some (l4 + 20) }
  else if t = IPPROTO_SCTP then { p with l4Payload := some (l4 + 2) }
  else p

/-- The layers above 2, by `ether_type`. -/
def classifyUpper (p : Packet) : Packet :=
  let upper (q : Packet) : Packet := q.classifyPacketL4 (q.proto.getD 0) (q.l4.getD 0)
  if p.etherType = ETHERTYPE_IP then upper p.classifyPacketIpv4
  else if p.etherType = ETHERTYPE_IPV6 then upper p.classifyPacketIpv6
  else p

/-- `re_classify_packet`. -/
def reClassifyPacket (fuel : Nat) (p : Packet) : Option Packet :=
  (p.classifyPacketL2 fuel).map classifyUpper

/-- `classify_ether_packet`. -/
def classifyEtherPacket (fuel : Nat) (p : Packet) : Option Packet :=
  (p.classifyPacketL2 fuel).map fun q =>
    ({ q with oob := { q.oob with packetType := 0 } } : Packet).classifyUpper

/-- `lagopus_packet_init`, for a frame from the port with the given number. -/
def packetInit (fuel : Nat) (p : Packet) (portNo : BitVec 32) : Option Packet :=
  ({ p with
      oob := { p.oob with metadata := 0, inPort := portNo, inPhyPort := portNo }
      oob2 := { p.oob2 with tunnelId := 0 } } : Packet).classifyEtherPacket fuel

/-- A frame in the buffer, before classification. There are 128 bytes in front of it to push headers
into. -/
def ofFrame (frame : List Byte) : Packet where
  mem := fun a => if a < 128 then 0 else frame.getD (a - 128) 0
  pktlen := frame.length
  eth := 128
  l3 := 142

/-! ## What classification guarantees -/

/-- `vlan_tci` is the tag at `vlan` with the presence bit, and zero without a tag. -/
def VlanNoted (p : Packet) : Prop :=
  p.oob.vlanTci = match p.vlan with
    | some a => p.word a ||| OFPVID_PRESENT
    | none => 0

variable {p q : Packet}

theorem VlanNoted.congr (h : p.VlanNoted) (hmem : q.mem = p.mem)
    (hvlan : q.vlan = p.vlan) (htci : q.oob.vlanTci = p.oob.vlanTci) : q.VlanNoted := by
  unfold VlanNoted word at *
  rw [hmem, hvlan, htci]
  exact h

theorem vlanNoted_noteVlan (p : Packet) : p.noteVlan.VlanNoted := rfl

theorem vlanNoted_outerTag (h : p.VlanNoted) : p.outerTag.1.VlanNoted := by
  unfold outerTag
  simp only
  split_ifs
  · exact h.congr rfl rfl rfl
  · exact (vlanNoted_noteVlan p).congr rfl rfl rfl
  · exact h

/-- The packet the loop leaves behind. -/
def TagScan.pkt : TagScan → Packet
  | .stripped p _ _ => p
  | .short p => p

variable {fuel : Nat} {etherType : BitVec 16}

theorem vlanNoted_stripTags {pktlen : Int}
    {r : TagScan} (h : p.VlanNoted) (hr : stripTags fuel p etherType pktlen = some r) :
    r.pkt.VlanNoted := by
  induction fuel generalizing p etherType pktlen with
  | zero => cases hr
  | succ fuel ih =>
    rw [stripTags] at hr
    split_ifs at hr with hpbb hvlan hlen hnone
    · refine ih ?_ hr
      exact h.congr rfl rfl rfl
    · cases hr
      exact h
    · refine ih ?_ hr
      exact (vlanNoted_noteVlan p).congr rfl rfl rfl
    · refine ih ?_ hr
      exact h.congr rfl rfl rfl
    · cases hr
      exact h

theorem vlanNoted_innerHeader {pktlen : Int}
    (h : p.VlanNoted) : (p.innerHeader etherType pktlen).VlanNoted := by
  unfold innerHeader
  simp only
  split_ifs <;> exact h.congr rfl rfl rfl

theorem vlanNoted_classifyPacketL2 (h : p.classifyPacketL2 fuel = some q) : q.VlanNoted := by
  obtain ⟨r, hr, hq⟩ := Option.map_eq_some_iff.mp h
  have hscan := vlanNoted_stripTags (vlanNoted_outerTag (p := p.reset) rfl) hr
  cases r with
  | stripped r etherType pktlen =>
    subst hq
    exact vlanNoted_innerHeader hscan
  | short r =>
    subst hq
    exact hscan

/-- What matching relies on in a packet it is given. -/
structure Classified (p : Packet) : Prop where
  vlan : p.VlanNoted
  proto : p.etherType = ETHERTYPE_IP ∨ p.etherType = ETHERTYPE_IPV6 → p.proto.isSome = true
  v6 : p.etherType = ETHERTYPE_IPV6 → p.v6src = some (p.l3 + 8) ∧ p.v6dst = some (p.l3 + 24)

theorem classified_classifyPacketL4 (h : p.Classified) (proto l4 : Nat) :
    (p.classifyPacketL4 proto l4).Classified := by
  unfold classifyPacketL4
  simp only
  split_ifs <;> exact ⟨h.vlan.congr rfl rfl rfl, h.proto, h.v6⟩

theorem classified_classifyUpper (h : p.VlanNoted) : p.classifyUpper.Classified := by
  unfold classifyUpper
  split_ifs with h4 h6
  · refine classified_classifyPacketL4 (p := p.classifyPacketIpv4)
      ⟨h.congr rfl rfl rfl, fun _ => rfl, fun h6 => ?_⟩ _ _
    exact absurd (h4.symm.trans h6) (by decide)
  · exact classified_classifyPacketL4 (p := p.classifyPacketIpv6)
      ⟨h.congr rfl rfl rfl, fun _ => rfl, fun _ => ⟨rfl, rfl⟩⟩ _ _
  · refine ⟨h, ?_, fun h' => absurd h' h6⟩
    rintro (h' | h')
    · exact absurd h' h4
    · exact absurd h' h6

/-- **Every packet that comes out of classification is classified.** -/
theorem classifyEtherPacket_classified (h : p.classifyEtherPacket fuel = some q) : q.Classified := by
  obtain ⟨r, hr, rfl⟩ := Option.map_eq_some_iff.mp h
  exact classified_classifyUpper ((vlanNoted_classifyPacketL2 hr).congr rfl rfl rfl)

end Packet

/-- A UDP packet to 10.0.0.2. -/
def ipv4Frame : List Byte :=
  [2, 0, 0, 0, 0, 2, 2, 0, 0, 0, 0, 1, 0x08, 0x00, 0x45, 0, 0, 28, 0, 0, 0, 0, 64, 17, 0, 0,
    10, 0, 0, 1, 10, 0, 0, 2, 0, 7, 0, 7, 0, 8, 0, 0]

end Lagopus
