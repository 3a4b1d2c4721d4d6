import Lagopus.Dataplane.Faithful
import Lagopus.Flowinfo.Mbtree

/-!
# The tuple-space hash table

`thtable_update` files each flow of a list in a hash table for its priority and its set of fields
and masks, under a hash chained over its values; `thtable_match` goes through the priorities from
the top, computes the same hash from the packet for every table, and returns what it finds.

* `thIdx`, `thValue`, `thMask`: what `copy_masked_match` makes of a match;
* `thtableUpdate`, `thtableMatch`: the two functions, over any hash function.

The fields from 40 on are read past the end of `match_idx[]`; they are left empty here. For
`VLAN_PCP` the mask is stored past the end of the copied match.
-/

namespace Lagopus

open List

/-! ## Fields -/

/-- `struct match_idx` of `thtable.c`. -/
structure ThIdx where
  base : Base
  off : Nat
  mask : List Byte
  shift : Nat := 0

/-- The member `size`, the number of mask bytes given. -/
def ThIdx.size (x : ThIdx) : Nat := x.mask.length

/-- `match_idx[]`. -/
def thIdx : OxmField → ThIdx
  | .inPort => ⟨.oob, 8, replicate 4 0xff, 0⟩
  | .inPhyPort => ⟨.oob, 12, replicate 4 0xff, 0⟩
  | .metadata => ⟨.oob, 0, replicate 8 0xff, 0⟩
  | .ethDst => ⟨.eth, 0, replicate 6 0xff, 0⟩
  | .ethSrc => ⟨.eth, 6, replicate 6 0xff, 0⟩
  | .ethType => ⟨.oob, 20, [0xff, 0xff], 0⟩
  | .vlanVid => ⟨.oob, 22, [0x1f, 0xff], 0⟩
  | .vlanPcp => ⟨.oob, 22, [0xe0, 0x00], 13⟩
  | .ipDscp => ⟨.l3, 1, [0xfc], 3⟩
  | .ipEcn => ⟨.l3, 1, [0x03], 0⟩
  | .ipProto => ⟨.ipproto, 0, [0xff], 0⟩
  | .ipv4Src => ⟨.l3, 12, replicate 4 0xff, 0⟩
  | .ipv4Dst => ⟨.l3, 16, replicate 4 0xff, 0⟩
  | .tcpSrc | .udpSrc | .sctpSrc => ⟨.l4, 0, [0xff, 0xff], 0⟩
  | .tcpDst | .udpDst | .sctpDst => ⟨.l4, 2, [0xff, 0xff], 0⟩
  | .icmpv4Type | .icmpv6Type => ⟨.l4, 0, [0xff], 0⟩
  | .icmpv4Code | .icmpv6Code => ⟨.l4, 1, [0xff], 0⟩
  | .arpOp => ⟨.l3, 6, [0xff, 0xff], 0⟩
  | .arpSpa => ⟨.l3, 14, replicate 4 0xff, 0⟩
  | .arpTpa => ⟨.l3, 24, replicate 4 0xff, 0⟩
  | .arpSha => ⟨.l3, 8, replicate 6 0xff, 0⟩
  | .arpTha => ⟨.l3, 18, replicate 6 0xff, 0⟩
  | .ipv6Src => ⟨.l3, 8, replicate 16 0xff, 0⟩
  | .ipv6Dst => ⟨.l3, 24, replicate 16 0xff, 0⟩
  | .ipv6Flabel => ⟨.l3, 0, [0x00, 0x0f, 0xff, 0xff], 0⟩
  | .ipv6NdTarget => ⟨.l4, 0, [], 0⟩
  | .ipv6NdSll => ⟨.ndsll, 0, [0xff, 0xff], 0⟩
  | .ipv6NdTll => ⟨.ndtll, 0, [0xff, 0xff], 0⟩
  | .mplsLabel => ⟨.mpls, 0, [0xff, 0xff, 0xf0], 12⟩
  | .mplsTc => ⟨.mpls, 2, [0x01], 0⟩
  | .mplsBos => ⟨.mpls, 3, [0xff], 0⟩
  | .pbbIsid => ⟨.pbb, 1, [0x00, 0xff, 0xff], 0⟩
  | .tunnelId => ⟨.oob2, 0, replicate 8 0xff, 0⟩
  | .ipv6Exthdr => ⟨.oob2, 8, [0xff, 0xff], 0⟩
  | _ => ⟨.oob, 0, [], 0⟩

/-- A value of `len` bytes in network order, shifted; other lengths than 1, 2, 4 and 8 have no case
and leave the copy cleared. -/
def shiftedBytes (value : List Byte) (shift : Nat) : List Byte :=
  if value.length = 1 ∨ value.length = 2 ∨ value.length = 4 ∨ value.length = 8 then
    shiftedValue value shift value.length
  else replicate value.length 0

/-- The value `copy_masked_match` leaves, `size` bytes of it. -/
def thValue (m : Match) : List Byte :=
  let x := thIdx m.field
  let copied := if x.size = m.len ∧ x.shift = 0 then m.bytesAt 0 m.len
    else shiftedBytes (m.bytesAt 0 m.len) x.shift
  (copied ++ replicate x.size 0).take x.size

/-- The mask it leaves behind the value. -/
def thMask (m : Match) : List Byte :=
  let x := thIdx m.field
  if m.hasMask = false then x.mask
  else if x.shift = 0 then m.bytesAt (m.len + (m.len - x.size)) x.size
  else (shiftedBytes (m.bytesAt m.len m.len) x.shift ++ replicate x.size 0).take x.size

/-! ## The structure -/

/-- `struct htable`: `maskList` keeps of `mask_list` what `key_from_packet` reads. -/
structure Htable (H : Type) where
  matchList : List Match
  maskList : List (OxmField × List Byte)
  hashmap : H → Option FlowHead

/-- `struct htlist`. -/
structure Htlist (H : Type) where
  priority : Nat
  tables : List (Htable H)

/-- The test of `htlist_add_flow` for the table of a match list. -/
def tableMatches (tml ml : List Match) : Bool :=
  (tml.all fun t => ml.any fun m => sameFieldMask m t) && ml.length == tml.length

section

variable {H : Type} [DecidableEq H] (calcHash : List Byte → H → H) (zero : H)

/-- `calc_hash` chained over a list of byte sequences. -/
def hashChain (vs : List (List Byte)) : H := vs.foldl (fun key v => calcHash v key) zero

/-- The key of a flow. -/
def flowHash (ml : List Match) : H := hashChain calcHash zero (ml.map thValue)

/-- `lagopus_hashmap_add` without overwriting. -/
def hashmapAdd (hashmap : H → Option FlowHead) (key : H) (flow : FlowHead) : H → Option FlowHead :=
  fun k => if k = key then (hashmap k).or (some flow) else hashmap k

/-- A table made for a flow. -/
def htableNew (ml : List Match) : Htable H where
  matchList := ml
  maskList := ml.map fun m => (m.field, thMask m)
  hashmap := fun _ => none

def htableAdd (flow : FlowHead) (t : Htable H) : Htable H :=
  { t with hashmap := hashmapAdd t.hashmap (flowHash calcHash zero flow.matchList) flow }

/-- `htlist_add_flow` from a table on, `n` tables being in front of it: `tables[8]` is the limit. -/
def addToTables (flow : FlowHead) (n : Nat) : List (Htable H) → List (Htable H)
  | [] => if n < 8 then [htableAdd calcHash zero flow (htableNew flow.matchList)] else []
  | t :: ts =>
    if tableMatches t.matchList flow.matchList then htableAdd calcHash zero flow t :: ts
    else t :: addToTables flow (n + 1) ts

/-- `thtable_add_flow`: the array of the code, by priority, as the list of its entries. -/
def thtableAddFlow (flow : FlowHead) : List (Htlist H) → List (Htlist H)
  | [] => [⟨flow.priority, addToTables calcHash zero flow 0 []⟩]
  | l :: ls =>
    if l.priority = flow.priority then
      { l with tables := addToTables calcHash zero flow 0 l.tables } :: ls
    else l :: thtableAddFlow flow ls

/-- `thtable_sort`. -/
def thtableSort (t : List (Htlist H)) : List (Htlist H) :=
  t.insertionSort fun a b => b.priority ≤ a.priority

/-- `thtable_update`. -/
def thtableUpdate (flows : List FlowHead) : List (Htlist H) :=
  thtableSort (flows.foldl (fun t f => thtableAddFlow calcHash zero f t) [])

/-- `key_from_packet`, from an entry of the mask list on. -/
def keyFromPacket (p : Packet) : List (OxmField × List Byte) → H → H
  | [], key => key
  | (f, mask) :: es, key =>
    match p.base (thIdx f).base with
    | none => zero
    | some r =>
      keyFromPacket p es (calcHash
        (maskedBytes ((range (thIdx f).size).map fun i => r ((thIdx f).off + i)) mask) key)

/-- The lookup in one table. -/
def htableFind (p : Packet) (t : Htable H) : Option FlowHead :=
  let key := keyFromPacket calcHash zero p t.maskList zero
  if key = zero then none else t.hashmap key

/-- `thtable_match`. -/
def thtableMatch (p : Packet) (t : List (Htlist H)) : Option FlowHead :=
  t.findSome? fun l => l.tables.findSome? (htableFind calcHash zero p)

end

end Lagopus
