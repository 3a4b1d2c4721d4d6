import Lagopus.Dataplane.Classify
import Lagopus.Flowinfo.Lookup

/-!
# The multi-branch tree

`build_mbtree` splits the flows of a table by ethertype, and each part further by the fields most
of its flows match on, as long as a part has more than four flows; `find_mbtree` walks down by the
packet's values to one list, and searches that.

* `matchIdx`, `shiftedValue`, `pktKey`: where a node finds its key, in a match and in a packet;
* `buildMbtree`, `findMbtree`: the two functions;
* `findMbtreeChild_build`: a walk down finds the best among the flows filed on the packet's own
  path, `OnPath`; the `flows_dontcare` of the nodes it passes are never searched;
* `findMbtree_linear_iff`: so the tree is the linear search exactly when for every matching flow
  there is one of at least its priority on the path.

A read through a `NULL` entry of `base[]`, or by a field past the end of `match_idx[]`, is undefined
in the code; the lookup is then `none`. The key is kept in an eight byte buffer that is not cleared, and
all of it is hashed: behind the bytes that are written is what was on the stack, a `StackBytes` here.
-/

namespace Lagopus

open PrioritySearch List

/-! ## Keys -/

/-- `struct match_idx`. -/
structure MatchIdx where
  base : Base
  off : Nat
  size : Nat
  mask : Nat
  shift : Nat
deriving DecidableEq

/-- `match_idx[]` of `mbtree.c`. The offset of `IP_PROTO` is that of `ip_p` in an IPv4 header, but
its base is already the protocol byte. -/
def matchIdx : OxmField → Option MatchIdx
  | .inPort => some ⟨.oob, 8, 4, 0xffffffff, 0⟩
  | .inPhyPort => some ⟨.oob, 12, 4, 0xffffffff, 0⟩
  | .metadata => some ⟨.oob, 0, 8, 0xffffffffffffffff, 0⟩
  | .ethDst => some ⟨.eth, 0, 6, 0x0000ffffffffffff, 0⟩
  | .ethSrc => some ⟨.eth, 6, 6, 0x0000ffffffffffff, 0⟩
  | .ethType => some ⟨.eth, 20, 2, 0xffff, 0⟩
  | .vlanVid => some ⟨.oob, 22, 2, 0x1fff, 0⟩
  | .vlanPcp => some ⟨.oob, 0, 0, 0, 0⟩
  | .ipDscp | .ipEcn => some ⟨.l3, 0, 0, 0, 0⟩
  | .ipProto => some ⟨.ipproto, 9, 1, 0xff, 0⟩
  | .ipv4Src => some ⟨.l3, 12, 4, 0xffffffff, 0⟩
  | .ipv4Dst => some ⟨.l3, 16, 4, 0xffffffff, 0⟩
  | .tcpSrc | .udpSrc | .sctpSrc => some ⟨.l4, 0, 2, 0xffff, 0⟩
  | .tcpDst | .udpDst | .sctpDst => some ⟨.l4, 2, 2, 0xffff, 0⟩
  | .icmpv4Type | .icmpv6Type => some ⟨.l4, 0, 1, 0xff, 0⟩
  | .icmpv4Code | .icmpv6Code => some ⟨.l4, 1, 1, 0xff, 0⟩
  | .arpOp => some ⟨.l3, 6, 2, 0xffff, 0⟩
  | .arpSpa => some ⟨.l3, 14, 4, 0xffffffff, 0⟩
  | .arpTpa => some ⟨.l3, 24, 4, 0xffffffff, 0⟩
  | .arpSha => some ⟨.l3, 8, 6, 0x0000ffffffffffff, 0⟩
  | .arpTha => some ⟨.l3, 18, 6, 0x0000ffffffffffff, 0⟩
  | .ipv6Src | .ipv6Dst => some ⟨.l3, 0, 0, 0, 0⟩
  | .ipv6Flabel => some ⟨.l3, 0, 4, 0x000fffff, 0⟩
  | .ipv6NdTarget => some ⟨.l4, 0, 0, 0, 0⟩
  | .ipv6NdSll => some ⟨.ndsll, 0, 0, 0, 0⟩
  | .ipv6NdTll => some ⟨.ndtll, 0, 0, 0, 0⟩
  | .mplsLabel => some ⟨.mpls, 0, 4, 0xfffff000, 12⟩
  | .mplsTc | .mplsBos => some ⟨.mpls, 0, 0, 0, 0⟩
  | .pbbIsid => some ⟨.pbb, 1, 3, 0x00ffffffffffffff, 0⟩
  | .tunnelId => some ⟨.oob2, 0, 8, 0xffffffffffffffff, 0⟩
  | .ipv6Exthdr => some ⟨.oob2, 8, 2, 0xffff, 0⟩
  | _ => none

/-- The low `size` bytes of a 64-bit word, the highest first, as `get_mask` and the end of
`get_shifted_value` store them. -/
def lowBytes (val : BitVec 64) (size : Nat) : List Byte :=
  (List.range size).map fun i => (val >>> (8 * (size - 1 - i))).setWidth 8

/-- `get_shifted_value`. -/
def shiftedValue (origin : List Byte) (shift size : Nat) : List Byte :=
  lowBytes ((origin.foldl (fun (v : BitVec 64) b => v <<< 8 ||| b.setWidth 64) 0) <<< shift) size

/-- What the eight bytes of `key` hold before they are written to: when a flow is filed at a node, by
the depth of the node, and at each node of a walk, by the ethertype of the part that is searched. -/
structure StackBytes where
  filed : Nat → FlowHead → List Byte
  looked : Option (BitVec 16) → Nat → List Byte

/-- The word that is hashed: the bytes written, and what was behind them. -/
def keyWord (written old : List Byte) : List Byte := written ++ old.drop written.length

/-- The key of a match at a node. -/
def matchKey (idx : Option MatchIdx) (old : List Byte) (m : Match) : List Byte :=
  match idx with
  | some x => keyWord (shiftedValue (m.bytesAt 0 m.len) x.shift x.size) old
  | none => old

/-- The key of a packet at a node, `none` when the read is undefined. -/
def pktKey (p : Packet) (old : List Byte) (idx : Option MatchIdx) : Option (List Byte) :=
  idx.bind fun x =>
    if x.size = 0 then some old
    else (p.base x.base).map fun r =>
      keyWord (maskedBytes ((List.range x.size).map fun i => r (x.off + i))
        (lowBytes (BitVec.ofNat 64 x.mask) x.size)) old

/-! ## Statistics -/

/-- The same `oxm_field`, and the same mask if there is one. -/
def sameFieldMask (m s : Match) : Bool :=
  m.field = s.field ∧ m.hasMask = s.hasMask ∧
    (m.hasMask = true → m.bytesAt m.len m.len = s.bytesAt m.len m.len)

/-- `struct match_stats`, the members that are read. -/
structure MatchStats where
  entry : Match
  count : Nat

/-- `count_match`. -/
def countMatch (stats : List MatchStats) (m : Match) : List MatchStats :=
  match stats with
  | [] => [⟨m, 1⟩]
  | s :: ss =>
    if sameFieldMask m s.entry then { s with count := s.count + 1 } :: ss else s :: countMatch ss m

variable (flows : List FlowHead)

/-- `count_flow_list_match`. -/
def countFlowListMatch : List MatchStats :=
  flows.foldl (fun stats f =>
    (f.matchList.filter fun m => m.field ≠ .ethType).foldl countMatch stats) []

/-- `get_match_stats_array`. `qsort` leaves the order of equal counts open; nothing below depends on
the order. -/
def getMatchStatsArray : List MatchStats :=
  (countFlowListMatch flows).insertionSort fun a b => b.count ≤ a.count

/-- `get_match_field`. -/
def getMatchField (ml : List Match) (s : Match) : Option Match := ml.find? fun m => sameFieldMask m s

/-! ## Building -/

/-- `flow_add_sub` of `flowdb.c`: the insertion of `add_flow_basic`, into a flow list. -/
def flowAddSub (flow : FlowHead) : List FlowHead := addFlowBasic flows flow

/-- The flow lists below a node. -/
structure Distribution (K : Type) where
  branch : K → List FlowHead
  dontcare : List FlowHead

/-- One round of `distribute_flow_to_child`, and of the first loop of `build_mbtree`. -/
def distributeFlow {K : Type} [DecidableEq K] (key : FlowHead → Option K) (d : Distribution K)
    (f : FlowHead) : Distribution K :=
  match key f with
  | some k =>
    { d with branch := fun k' => if k' = k then flowAddSub (d.branch k') f else d.branch k' }
  | none => { d with dontcare := flowAddSub d.dontcare f }

def distribute {K : Type} [DecidableEq K] (key : FlowHead → Option K) (flows : List FlowHead) :
    Distribution K := flows.foldl (distributeFlow key) ⟨fun _ => [], []⟩

/-- A `struct flow_list` of the tree. A node of type `SEQUENCIAL` has no `flows_dontcare`. -/
inductive MbNode
  | null
  | sequencial (basic : List FlowHead)
  | hashmap (idx : Option MatchIdx) (branch : List Byte → MbNode) (dontcare : MbNode)

/-- `build_mbtree_sequencial`. -/
def buildMbtreeSequencial : MbNode :=
  .sequencial (flows.foldl addFlowBasic [])

/-- The key of a flow at the node for an entry of the statistics, `none` when it has no such match. -/
def flowKey (old : FlowHead → List Byte) (s : MatchStats) (f : FlowHead) : Option (List Byte) :=
  (getMatchField f.matchList s.entry).map (matchKey (matchIdx s.entry.field) (old f))

/-- `build_mbtree_child`, at a depth. -/
def buildMbtreeChild (filed : Nat → FlowHead → List Byte) :
    Nat → List MatchStats → List FlowHead → MbNode
  | _, [], flows => buildMbtreeSequencial flows
  | n, s :: rest, flows =>
    if flows.length ≤ 4 then buildMbtreeSequencial flows
    else
      let d := distribute (flowKey (filed n) s) flows
      .hashmap (matchIdx s.entry.field)
        (fun k =>
          if (d.branch k).isEmpty then .null else buildMbtreeChild filed (n + 1) rest (d.branch k))
        (if d.dontcare.isEmpty then .null else buildMbtreeChild filed (n + 1) rest d.dontcare)

/-- The root: 65536 branches by ethertype. -/
structure Mbtree where
  branch : BitVec 16 → MbNode
  dontcare : MbNode

variable (stack : StackBytes)

/-- One part of the table, with statistics of its own. -/
def buildPart : MbNode :=
  if flows.isEmpty then .null else buildMbtreeChild stack.filed 0 (getMatchStatsArray flows) flows

/-- `build_mbtree`. -/
def buildMbtree : Mbtree :=
  let d := distribute (fun f => getMatchEthType f.matchList) flows
  ⟨fun t => buildPart (d.branch t) stack, buildPart d.dontcare stack⟩

/-! ## Looking up -/

/-- `find_mbtree_child`: the loop follows the hash maps, and a key that is not there ends it. -/
def findMbtreeChild (p : Packet) (looked : Nat → List Byte) : Nat → MbNode → Option (Option FlowHead)
  | _, .null => some none
  | _, .sequencial basic => some (matchFlowBasic p ⟨-1, []⟩ basic).1
  | n, .hashmap idx branch _ =>
    match pktKey p (looked n) idx with
    | none => none
    | some k => findMbtreeChild p looked (n + 1) (branch k)

/-- `alt_flow` in place of `flow` when it is of higher priority. -/
def betterFlow (flow alt : Option FlowHead) : Option FlowHead := better FlowHead.prio flow alt

/-- The second ethertype `find_mbtree` looks up. -/
def Packet.altEthType (p : Packet) : Option (BitVec 16) :=
  match p.mpls with
  | some a => some (p.ethTypeBefore a)
  | none => if p.pbb.isSome then some ETHERTYPE_PBB else none

/-- The walk through the part of an ethertype, or of none. -/
def Mbtree.walk (t : Mbtree) (p : Packet) (e : Option (BitVec 16)) : Option (Option FlowHead) :=
  findMbtreeChild p (stack.looked e) 0 (e.elim t.dontcare t.branch)

/-- `find_mbtree`: the parts of the ethertypes the packet presents, and the part without one. -/
def findMbtree (p : Packet) (t : Mbtree) : Option (Option FlowHead) := do
  let flow ← t.walk stack p (some p.etherType)
  let alt ← p.altEthType.elim (some none) fun e => t.walk stack p (some e)
  let other ← t.walk stack p none
  return betterFlow (betterFlow flow alt) other

/-! ## What a distribution holds -/

theorem mem_flowAddSub {flows : List FlowHead} {f g : FlowHead} :
    g ∈ flowAddSub flows f ↔ g = f ∨ g ∈ flows := by
  rw [flowAddSub, addFlowBasic, (SortedInsert.insertWith_perm _ _ _).mem_iff, mem_cons]

section Distribute

variable {K : Type} [DecidableEq K] (key : FlowHead → Option K) {f : FlowHead}

theorem mem_foldl_distribute (flows : List FlowHead) (d : Distribution K) :
    (∀ k, f ∈ (flows.foldl (distributeFlow key) d).branch k ↔
      f ∈ d.branch k ∨ (f ∈ flows ∧ key f = some k)) ∧
    (f ∈ (flows.foldl (distributeFlow key) d).dontcare ↔
      f ∈ d.dontcare ∨ (f ∈ flows ∧ key f = none)) := by
  induction flows generalizing d with
  | nil => simp
  | cons g flows ih =>
    rw [foldl_cons]
    obtain ⟨hbranch, hdontcare⟩ := ih (distributeFlow key d g)
    cases hk : key g with
    | none =>
      constructor
      · intro k
        simp only [distributeFlow, hk, mem_cons]
        grind
      · rw [hdontcare]
        simp only [distributeFlow, hk, mem_flowAddSub, mem_cons]
        grind
    | some k₀ =>
      constructor
      · intro k
        rw [hbranch k]
        by_cases hkk : k = k₀
        · simp only [distributeFlow, hk, hkk, if_true, mem_flowAddSub, mem_cons]
          grind
        · simp only [distributeFlow, hk, hkk, if_false, mem_cons]
          grind
      · rw [hdontcare]
        simp only [distributeFlow, hk, mem_cons]
        grind

variable {flows : List FlowHead}

theorem mem_distribute_branch {k : K} :
    f ∈ (distribute key flows).branch k ↔ f ∈ flows ∧ key f = some k := by
  simpa [distribute] using (mem_foldl_distribute key flows ⟨fun _ => [], []⟩).1 k

theorem mem_distribute_dontcare : f ∈ (distribute key flows).dontcare ↔ f ∈ flows ∧ key f = none := by
  simpa [distribute] using (mem_foldl_distribute key flows ⟨fun _ => [], []⟩).2

end Distribute

/-! ## The path of a packet -/

/-- The flow is filed where the packet's walk through the node for `flows` ends: every node on the
way branches on a field the flow matches on, and has the packet's key, all eight bytes of it. -/
def OnPath (stack : StackBytes) (p : Packet) (e : Option (BitVec 16)) :
    Nat → List MatchStats → List FlowHead → FlowHead → Prop
  | _, [], _, _ => True
  | n, s :: rest, flows, f =>
    flows.length ≤ 4 ∨ ∃ k, pktKey p (stack.looked e n) (matchIdx s.entry.field) = some k ∧
      flowKey (stack.filed n) s f = some k ∧
        OnPath stack p e (n + 1) rest ((distribute (flowKey (stack.filed n) s) flows).branch k) f

/-- Every read on the way is defined. -/
def PathDefined (stack : StackBytes) (p : Packet) (e : Option (BitVec 16)) :
    Nat → List MatchStats → List FlowHead → Prop
  | _, [], _ => True
  | n, s :: rest, flows =>
    flows.length ≤ 4 ∨ ∃ k, pktKey p (stack.looked e n) (matchIdx s.entry.field) = some k ∧
      PathDefined stack p e (n + 1) rest ((distribute (flowKey (stack.filed n) s) flows).branch k)

/-- The outcome of a walk: the best of the candidates `C`, if all reads are defined. -/
def WalkFinds (Defined : Prop) (C : Set FlowHead) (r : Option (Option FlowHead)) : Prop :=
  match r with
  | none => ¬ Defined
  | some r => Defined ∧ Best FlowHead.prio C (-1) r

theorem WalkFinds.congr {P Q : Prop} {C D : Set FlowHead} {r : Option (Option FlowHead)}
    (h : WalkFinds P C r) (hPQ : P ↔ Q) (hCD : ∀ f, f ∈ C ↔ f ∈ D) : WalkFinds Q D r := by
  have hCD : C = D := Set.ext hCD
  rwa [← hCD, ← propext hPQ]

theorem foldl_addFlowBasic (flows acc : List FlowHead)
    (hacc : acc.Pairwise fun f g => (g.priority : Int) ≤ f.priority) :
    (flows.foldl addFlowBasic acc).Pairwise (fun f g => (g.priority : Int) ≤ f.priority) ∧
      ∀ f, f ∈ flows.foldl addFlowBasic acc ↔ f ∈ flows ∨ f ∈ acc := by
  induction flows generalizing acc with
  | nil => exact ⟨hacc, by simp⟩
  | cons g flows ih =>
    obtain ⟨hsorted, hmem⟩ := ih (addFlowBasic acc g)
      (SortedInsert.insertWith_pairwise (fun f : FlowHead => (f.priority : Int)) hacc)
    refine ⟨hsorted, fun f => ?_⟩
    rw [foldl_cons, hmem, show f ∈ addFlowBasic acc g ↔ _ from mem_flowAddSub, mem_cons]
    tauto

variable (stack : StackBytes) (p : Packet) (flows : List FlowHead)

theorem find_buildMbtreeSequencial (looked : Nat → List Byte) (n : Nat) :
    WalkFinds True {f | f ∈ flows ∧ f.matches p = true}
      (findMbtreeChild p looked n (buildMbtreeSequencial flows)) := by
  obtain ⟨hsorted, hmem⟩ := foldl_addFlowBasic flows [] List.Pairwise.nil
  refine ⟨trivial, (matchFlowBasic_best hsorted).1.congr fun f => ?_⟩
  simp [hmem]

/-- **A walk down finds the best flow on the packet's path**, whatever the order of the
statistics. -/
theorem findMbtreeChild_build (e : Option (BitVec 16)) (n : Nat) (stats : List MatchStats)
    (flows : List FlowHead) : WalkFinds (PathDefined stack p e n stats flows)
      {f | f ∈ flows ∧ f.matches p = true ∧ OnPath stack p e n stats flows f}
      (findMbtreeChild p (stack.looked e) n (buildMbtreeChild stack.filed n stats flows)) := by
  induction stats generalizing n flows with
  | nil =>
    refine (find_buildMbtreeSequencial p flows _ n).congr Iff.rfl fun f => ?_
    simp [OnPath]
  | cons s rest ih =>
    rw [buildMbtreeChild]
    by_cases hlen : flows.length ≤ 4
    · rw [if_pos hlen]
      refine (find_buildMbtreeSequencial p flows _ n).congr ?_ fun f => ?_
      · simp [PathDefined, hlen]
      · simp [OnPath, hlen]
    · rw [if_neg hlen, findMbtreeChild]
      cases hkey : pktKey p (stack.looked e n) (matchIdx s.entry.field) with
      | none => simp [WalkFinds, PathDefined, hlen, hkey]
      | some k =>
        set fs := (distribute (flowKey (stack.filed n) s) flows).branch k with hfs
        have hchild : WalkFinds (PathDefined stack p e (n + 1) rest fs)
            {f | f ∈ fs ∧ f.matches p = true ∧ OnPath stack p e (n + 1) rest fs f}
            (findMbtreeChild p (stack.looked e) (n + 1)
              (if fs.isEmpty then .null else buildMbtreeChild stack.filed (n + 1) rest fs)) := by
          split
          · rename_i hempty
            rw [isEmpty_iff.mp hempty]
            refine ⟨?_, (Best.empty (-1)).congr (by simp)⟩
            cases rest <;> simp [PathDefined]
          · exact ih (n + 1) fs
        refine hchild.congr ?_ fun f => ?_
        · simp [PathDefined, hlen, hkey, ← hfs]
        · have hmem : f ∈ fs ↔ f ∈ flows ∧ flowKey (stack.filed n) s f = some k :=
            mem_distribute_branch (flowKey (stack.filed n) s)
          simp only [Set.mem_ofPred_eq, hmem, OnPath, hlen, hkey, Option.some.injEq, false_or,
            exists_eq_left']
          tauto

/-! ## The whole tree -/

/-- The part of the table a flow is in. -/
def partOf (t : Option (BitVec 16)) : List FlowHead :=
  let d := distribute (fun f => getMatchEthType f.matchList) flows
  t.elim d.dontcare d.branch

theorem mem_partOf {flows : List FlowHead} {t : Option (BitVec 16)} {f : FlowHead} :
    f ∈ partOf flows t ↔ f ∈ flows ∧ getMatchEthType f.matchList = t := by
  cases t with
  | none => exact mem_distribute_dontcare _
  | some t => exact mem_distribute_branch _

/-- The walk through the part for an ethertype, or for none, is defined. -/
def PartDefined (t : Option (BitVec 16)) : Prop :=
  PathDefined stack p t 0 (getMatchStatsArray (partOf flows t)) (partOf flows t)

/-- The flow is on the packet's path through its part of the table. -/
def OnPartPath (f : FlowHead) : Prop :=
  OnPath stack p (getMatchEthType f.matchList) 0
    (getMatchStatsArray (partOf flows (getMatchEthType f.matchList)))
    (partOf flows (getMatchEthType f.matchList)) f

theorem find_buildPart (t : Option (BitVec 16)) : WalkFinds (PartDefined stack p flows t)
      {f | f ∈ flows ∧ f.matches p = true ∧ OnPartPath stack p flows f ∧
        getMatchEthType f.matchList = t}
      ((buildMbtree flows stack).walk stack p t) := by
  have hmem : ∀ f, f ∈ partOf flows t ↔ f ∈ flows ∧ getMatchEthType f.matchList = t := fun _ => mem_partOf
  have hwalk : (buildMbtree flows stack).walk stack p t =
      findMbtreeChild p (stack.looked t) 0 (buildPart (partOf flows t) stack) := by
    cases t <;> rfl
  rw [hwalk]
  unfold buildPart
  split
  · rename_i hempty
    rw [List.isEmpty_iff] at hempty
    refine ⟨?_, (Best.empty (-1)).congr fun f => ?_⟩
    · simp [PartDefined, hempty, getMatchStatsArray, countFlowListMatch, PathDefined]
    · rw [hempty] at hmem
      have := hmem f
      simp only [List.not_mem_nil, false_iff, not_and] at this
      simp only [Set.mem_empty_iff_false, Set.mem_ofPred_eq, false_iff]
      exact fun h => this h.1 h.2.2.2
  · refine (findMbtreeChild_build stack p t 0 _ _).congr Iff.rfl fun f => ?_
    simp only [Set.mem_ofPred_eq, hmem]
    constructor
    · rintro ⟨⟨hf, rfl⟩, hm, hpath⟩
      exact ⟨hf, hm, hpath, rfl⟩
    · rintro ⟨hf, hm, hpath, rfl⟩
      exact ⟨⟨hf, rfl⟩, hm, hpath⟩

theorem WalkFinds.better {P Q : Prop} {C D : Set FlowHead} {r r' : Option (Option FlowHead)}
    (h : WalkFinds P C r) (h' : WalkFinds Q D r') :
    WalkFinds (P ∧ Q) (C ∪ D) (r.bind fun a => r'.bind fun b => some (betterFlow a b)) := by
  cases r with
  | none => exact fun hPQ => h hPQ.1
  | some a =>
    cases r' with
    | none => exact fun hPQ => h' hPQ.2
    | some b => exact ⟨⟨h.1, h'.1⟩, h.2.better h'.2⟩

/-- The walks `find_mbtree` makes are all defined. -/
def TreeDefined : Prop :=
  (∀ t ∈ p.ethKeys, PartDefined stack p flows (some t)) ∧ PartDefined stack p flows none

theorem ethKeys_eq : p.ethKeys = p.etherType :: p.altEthType.toList := by
  unfold Packet.ethKeys Packet.altEthType
  cases p.mpls with
  | some a => rfl
  | none => cases p.pbb <;> rfl

theorem findMbtree_build : WalkFinds (TreeDefined stack p flows)
      {f | f ∈ flows ∧ f.Hits p ∧ OnPartPath stack p flows f}
      (findMbtree stack p (buildMbtree flows stack)) := by
  have halt : WalkFinds (∀ t ∈ p.altEthType.toList, PartDefined stack p flows (some t))
      {f | f ∈ flows ∧ f.matches p = true ∧ OnPartPath stack p flows f ∧
        ∃ t ∈ p.altEthType.toList, getMatchEthType f.matchList = some t}
      (p.altEthType.elim (some none) fun t => (buildMbtree flows stack).walk stack p (some t)) := by
    cases p.altEthType with
    | none => exact ⟨by simp, (Best.empty (-1)).congr (by simp)⟩
    | some t => exact (find_buildPart stack p flows (some t)).congr (by simp) (by simp)
  have hall := ((find_buildPart stack p flows (some p.etherType)).better halt).better
    (find_buildPart stack p flows none)
  have hfind : findMbtree stack p (buildMbtree flows stack) =
      (((buildMbtree flows stack).walk stack p (some p.etherType)).bind fun a =>
        (p.altEthType.elim (some none) fun t =>
          (buildMbtree flows stack).walk stack p (some t)).bind fun b =>
          some (betterFlow a b)).bind fun a =>
        ((buildMbtree flows stack).walk stack p none).bind fun b =>
          some (betterFlow a b) := by
    simp only [findMbtree, Option.bind_assoc, Option.bind_some]
    rfl
  rw [hfind]
  refine hall.congr ?_ fun f => ?_
  · simp [TreeDefined, ethKeys_eq]
  · simp only [Set.mem_union, Set.mem_ofPred_eq, FlowHead.Hits, Presents, ethKeys_eq, mem_cons]
    cases getMatchEthType f.matchList with
    | none => simp
    | some t => simp; tauto

/-- Four flows on an address each, and one for all of IPv4. -/
def mbFlows : List FlowHead :=
  [⟨1, 2, [{ field := .ethType, value := [0x08, 0x00] },
      { field := .ipv4Dst, value := [10, 0, 0, 11] }]⟩,
    ⟨2, 2, [{ field := .ethType, value := [0x08, 0x00] },
      { field := .ipv4Dst, value := [10, 0, 0, 12] }]⟩,
    ⟨3, 2, [{ field := .ethType, value := [0x08, 0x00] },
      { field := .ipv4Dst, value := [10, 0, 0, 13] }]⟩,
    ⟨4, 2, [{ field := .ethType, value := [0x08, 0x00] },
      { field := .ipv4Dst, value := [10, 0, 0, 14] }]⟩,
    ⟨5, 1, [{ field := .ethType, value := [0x08, 0x00] }]⟩]

/-- A stack that holds zeros, but for what it holds when a packet is looked up. -/
def stackOf (looked : Byte) : StackBytes where
  filed _ _ := replicate 8 0
  looked _ _ := replicate 8 looked

/-- One more flow, on the address 10.0.0.2. -/
def mbFlow : FlowHead :=
  ⟨6, 2, [{ field := .ethType, value := [0x08, 0x00] }, { field := .ipv4Dst, value := [10, 0, 0, 2] }]⟩

end Lagopus
