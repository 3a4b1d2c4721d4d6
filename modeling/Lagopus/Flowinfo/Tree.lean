import Lagopus.Flowinfo.Node

/-!
# The index tree

The concrete nodes and how they nest, from the root of a table down to the lists:

* table 0: `vlanVidNode`, then `ethTypeNode`, then by ethertype
  `ipv4DstMaskNode` (over `ipv4SrcMaskNode` over `protoNode`), `protoNode`, `mplsNode` or a list;
* the other tables: `metadataMaskNode`, then `ethTypeNode`.

`addFlow`, `delFlow` and `findFlow` are the hooks of `flowinfo.c`, `lagopusFindFlow` is the lookup
of the data path.
-/

namespace Lagopus

/-! ## Reading a match list -/

/-- Bytes `off .. off + n - 1` of an OXM value. -/
def Match.bytesAt (m : Match) (off n : Nat) : List Byte :=
  (List.range n).map fun i => m.byte (off + i)

/-- `get_match_vlan_vid`: the first unmasked `VLAN_VID`, with the presence bit set unless it is
zero. -/
def getMatchVlanVid (ml : List Match) : Option (List Byte) :=
  (ml.find? fun m => m.field = .vlanVid ∧ m.hasMask = false).map fun m =>
    if m.byte 0 = 0 ∧ m.byte 1 = 0 then [0, 0] else [m.byte 0 ||| 0x10, m.byte 1]

/-- `get_match_eth_type`. -/
def getMatchEthType (ml : List Match) : Option (BitVec 16) :=
  (ml.find? fun m => m.field = .ethType).map Match.be16

/-- `get_match_ip_proto`. -/
def getMatchIpProto (ml : List Match) : Option Byte :=
  (ml.find? fun m => m.field = .ipProto).map fun m => m.byte 0

/-- `get_match_mpls_label` followed by `SET_MPLS_LSE`: the label in its place in the shim. -/
def getMatchMplsLabel (ml : List Match) : Option (List Byte) :=
  (ml.find? fun m => m.field = .mplsLabel).map fun m => (List.range 4).map (labelByte m)

/-- `get_match_ipv4_dst`, `get_match_ipv4_src`, `get_match_metadata`: value and mask of the first
match on a field of `n` bytes, the mask all ones when there is none. -/
def getMatchMasked (f : OxmField) (n : Nat) (ml : List Match) : Option (List Byte × List Byte) :=
  (ml.find? fun m => m.field = f).map fun m =>
    (m.bytesAt 0 n, if m.hasMask then m.bytesAt n n else List.replicate n 0xff)

def getMatchIpv4Dst : List Match → Option (List Byte × List Byte) := getMatchMasked .ipv4Dst 4

def getMatchIpv4Src : List Match → Option (List Byte × List Byte) := getMatchMasked .ipv4Src 4

def getMatchMetadata : List Match → Option (List Byte × List Byte) := getMatchMasked .metadata 8

/-! ## Reading a packet -/

namespace Packet

variable (p : Packet)

/-- `n` bytes at an address of the buffer. -/
def bytes (a n : Nat) : List Byte := (List.range n).map fun i => p.mem (a + i)

/-- The key of `match_flow_vlan_vid`. -/
def vlanKey : List Byte :=
  match p.vlan with
  | some a => [(p.mem a &&& 0x0f) ||| 0x10, p.mem (a + 1)]
  | none => [0, 0]

/-- The ethertype word in front of the MPLS shim at address `a`. -/
def ethTypeBefore (a : Nat) : BitVec 16 := p.mem (a - 2) ++ p.mem (a - 1)

/-- The ethertypes `match_flow_eth_type` looks up: the packet's own, then the one in front of the
MPLS shim or, without a shim, that of a PBB header. -/
def ethKeys : List (BitVec 16) :=
  p.etherType ::
    match p.mpls with
    | some a => [p.ethTypeBefore a]
    | none => if p.pbb.isSome then [ETHERTYPE_PBB] else []

/-- The key of `match_flow_ipv4` and `match_flow_ipv6`. -/
def protoKeys : List Byte := p.protoByte.toList

/-- The key of `match_flow_mpls`: the label in its place, all else cleared. -/
def labelKeys : List (List Byte) :=
  ((p.base .mpls).map fun r => [r 0, r 1, r 2 &&& 0xf0, (0 : Byte)]).toList

def ipv4Dst : List Byte := p.bytes (p.l3 + 16) 4

def ipv4Src : List Byte := p.bytes (p.l3 + 12) 4

def metadata : List Byte := (List.range 8).map p.oob.byte

end Packet

/-! ## The nodes -/

abbrev BasicNode := List FlowHead
abbrev ProtoNode := KeyNode Byte BasicNode BasicNode
abbrev MplsNode := KeyNode (List Byte) BasicNode BasicNode
abbrev Ipv4SrcMaskNode := MaskNode ProtoNode ProtoNode
abbrev Ipv4DstMaskNode := MaskNode ProtoNode Ipv4SrcMaskNode

/-- `flowinfo_ipv4_proto.c` and `flowinfo_ipv6.c`: all 256 lists exist from the start. -/
def protoNode : Flowinfo ProtoNode :=
  keyNode getMatchIpProto Packet.protoKeys (fun _ => some []) (fun _ => []) basicNode basicNode

/-- `flowinfo_mpls.c`. -/
def mplsNode : Flowinfo MplsNode :=
  keyNode getMatchMplsLabel Packet.labelKeys (fun _ => none) (fun _ => []) basicNode basicNode

/-- `flowinfo_ipv4_src.c`. -/
def ipv4SrcMaskNode : Flowinfo Ipv4SrcMaskNode :=
  maskNode getMatchIpv4Src Packet.ipv4Src (delFlowMaskedAlways getMatchIpv4Src protoNode)
    protoNode protoNode

/-- `flowinfo_ipv4_dst.c`. -/
def ipv4DstMaskNode : Flowinfo Ipv4DstMaskNode :=
  maskNode getMatchIpv4Dst Packet.ipv4Dst (delFlowMaskedAlways getMatchIpv4Dst protoNode)
    protoNode ipv4SrcMaskNode

/-- A child of the ethertype node, with its function pointers told by the constructor. -/
inductive EthChild
  | ipv4 (n : Ipv4DstMaskNode)
  | ipv6 (n : ProtoNode)
  | mpls (n : MplsNode)
  | basic (n : BasicNode)

/-- The child `add_flow_eth_type` creates for an ethertype. -/
def newEthChild (ethType : BitVec 16) : EthChild :=
  if ethType = ETHERTYPE_IP then .ipv4 ipv4DstMaskNode.new
  else if ethType = ETHERTYPE_IPV6 then .ipv6 protoNode.new
  else if ethType = ETHERTYPE_MPLS ∨ ethType = ETHERTYPE_MPLS_MCAST then .mpls mplsNode.new
  else .basic basicNode.new

/-- Calls through the function pointers of a child. -/
def ethChild : Flowinfo EthChild where
  new := .basic basicNode.new
  addFunc
    | .ipv4 n, flow => .ipv4 (ipv4DstMaskNode.addFunc n flow)
    | .ipv6 n, flow => .ipv6 (protoNode.addFunc n flow)
    | .mpls n, flow => .mpls (mplsNode.addFunc n flow)
    | .basic n, flow => .basic (basicNode.addFunc n flow)
  delFunc
    | .ipv4 n, flow => (ipv4DstMaskNode.delFunc n flow).map EthChild.ipv4 id
    | .ipv6 n, flow => (protoNode.delFunc n flow).map EthChild.ipv6 id
    | .mpls n, flow => (mplsNode.delFunc n flow).map EthChild.mpls id
    | .basic n, flow => (basicNode.delFunc n flow).map EthChild.basic id
  matchFunc
    | .ipv4 n => ipv4DstMaskNode.matchFunc n
    | .ipv6 n => protoNode.matchFunc n
    | .mpls n => mplsNode.matchFunc n
    | .basic n => basicNode.matchFunc n
  findFunc
    | .ipv4 n => ipv4DstMaskNode.findFunc n
    | .ipv6 n => protoNode.findFunc n
    | .mpls n => mplsNode.findFunc n
    | .basic n => basicNode.findFunc n

abbrev EthTypeNode := KeyNode (BitVec 16) EthChild BasicNode
abbrev VlanVidNode := KeyNode (List Byte) EthTypeNode EthTypeNode
abbrev MetadataMaskNode := MaskNode EthTypeNode EthTypeNode

/-- `flowinfo_ether.c`. -/
def ethTypeNode : Flowinfo EthTypeNode :=
  keyNode getMatchEthType Packet.ethKeys (fun _ => none) newEthChild ethChild basicNode

/-- `flowinfo_vlan.c`. -/
def vlanVidNode : Flowinfo VlanVidNode :=
  keyNode getMatchVlanVid (fun p => [p.vlanKey]) (fun _ => none) (fun _ => ethTypeNode.new)
    ethTypeNode ethTypeNode

/-- `flowinfo_metadata.c`. -/
def metadataMaskNode : Flowinfo MetadataMaskNode :=
  maskNode getMatchMetadata Packet.metadata (delFlowMasked getMatchMetadata ethTypeNode)
    ethTypeNode ethTypeNode

/-! ## A table's index -/

/-- `table->userdata`, by the kind of root node. -/
inductive Index
  | vlanVid (n : VlanVidNode)
  | metadata (n : MetadataMaskNode)

namespace Index

/-- The root `add_flow` creates for a table. -/
def new (tableId : Nat) : Index :=
  if tableId = 0 then .vlanVid vlanVidNode.new else .metadata metadataMaskNode.new

/-- `add_flow` of `flowinfo.c`, the lagopus_add_flow_hook. -/
def addFlow (tableId : Nat) (userdata : Option Index) (flow : FlowHead) : Option Index :=
  match userdata.getD (new tableId) with
  | .vlanVid n => some (.vlanVid (vlanVidNode.addFunc n flow))
  | .metadata n => some (.metadata (metadataMaskNode.addFunc n flow))

/-- `del_flow`. -/
def delFlow (userdata : Option Index) (flow : FlowHead) : Option Index :=
  userdata.map fun
    | .vlanVid n => .vlanVid (vlanVidNode.delFunc n flow).1
    | .metadata n => .metadata (metadataMaskNode.delFunc n flow).1

/-- `find_flow`. -/
def findFlow (userdata : Option Index) (flow : FlowHead) : Option FlowHead :=
  userdata.bind fun
    | .vlanVid n => vlanVidNode.findFunc n flow
    | .metadata n => metadataMaskNode.findFunc n flow

/-- `lagopus_find_flow`, with the flows it bumped the counters of. -/
def lagopusFindFlow (userdata : Option Index) (p : Packet) : Option FlowHead × List FlowHead :=
  match userdata with
  | none => (none, [])
  | some (.vlanVid n) =>
    let (flow, s) := vlanVidNode.matchFunc n p ⟨-1, []⟩
    (flow, s.bumped)
  | some (.metadata n) =>
    let (flow, s) := metadataMaskNode.matchFunc n p ⟨-1, []⟩
    (flow, s.bumped)

end Index

end Lagopus
