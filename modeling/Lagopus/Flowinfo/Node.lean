import Lagopus.Lib.PrioritySearch
import Lagopus.Lib.SortedInsert
import Lagopus.Dataplane.ByteOff

/-!
# Index nodes

The flow index of a table is a tree of `struct flowinfo` nodes, each with its own `add_func`,
`del_func`, `match_func` and `find_func`. Here are the node shapes the tree is made of:

* `basicNode`: a list in priority order, searched from the front (`flowinfo_basic.c`);
* `keyNode`: children by the value of a field, and a `misc` node for the flows without it
  (`flowinfo_vlan.c`, `flowinfo_ether.c`, `flowinfo_ipv4_proto.c`, `flowinfo_ipv6.c`,
  `flowinfo_mpls.c`);
* `maskedMap` and `maskNode`: one hash map for every mask a field is matched with, and a `misc`
  node (`flowinfo_ipv4_dst.c`, `flowinfo_ipv4_src.c`, `flowinfo_metadata.c`).

`except_flag` is written by the nodes and read by nobody, and is left out, and so are the
`NO_MEMORY` results.
-/

namespace Lagopus

/-! ## Flows, as the index sees them -/

/-- The part of `struct flow` that the index reads, and that no operation on an installed flow
changes. `id` stands for the address of the flow. The `byteoff_match` array is the one
`flow_make_match` computes from `matchList`. -/
structure FlowHead where
  id : Nat
  priority : Nat
  matchList : List Match
deriving DecidableEq, Repr

/-- `match_basic(pkt, flow)`. -/
def FlowHead.matches (f : FlowHead) (p : Packet) : Bool := matchBasic p (flowMakeMatch f.matchList)

/-- `flow_compare`: equal priority, field bits and match lists. -/
def flowCompare (f₁ f₂ : FlowHead) : Bool :=
  f₁.priority == f₂.priority && fieldBits f₁.matchList == fieldBits f₂.matchList &&
    f₁.matchList == f₂.matchList

theorem flowCompare_iff {f₁ f₂ : FlowHead} :
    flowCompare f₁ f₂ = true ↔ f₁.priority = f₂.priority ∧ f₁.matchList = f₂.matchList := by
  simp only [flowCompare, Bool.and_eq_true, beq_iff_eq]
  constructor
  · rintro ⟨⟨h1, -⟩, h2⟩
    exact ⟨h1, h2⟩
  · rintro ⟨h1, h2⟩
    exact ⟨⟨h1, by rw [h2]⟩, h2⟩

/-- The priority of a flow, on the scale of the bound `*pri`. -/
def FlowHead.prio (f : FlowHead) : Int := f.priority

theorem FlowHead.prio_nonneg (f : FlowHead) : 0 ≤ f.prio := Int.natCast_nonneg _

/-- What a table lookup is for: `r` is nothing exactly when no flow of the list is to be hit, and
otherwise a flow to be hit of highest priority. -/
def LinearSearch (L : List FlowHead) (Hit : FlowHead → Prop) (r : Option FlowHead) : Prop :=
  (r = none ↔ ∀ f ∈ L, ¬ Hit f) ∧
    ∀ f, r = some f → f ∈ L ∧ Hit f ∧ ∀ g ∈ L, Hit g → g.priority ≤ f.priority

theorem linearSearch_iff_best {L : List FlowHead} {Hit : FlowHead → Prop} {r : Option FlowHead} :
    LinearSearch L Hit r ↔ PrioritySearch.Best FlowHead.prio {f | f ∈ L ∧ Hit f} (-1) r := by
  rw [PrioritySearch.best_iff_linear fun f _ => lt_of_lt_of_le (by decide) f.prio_nonneg]
  simp [LinearSearch, FlowHead.prio, and_assoc]

/-- What a search carries along: the bound `*pri`, and the flows `match_basic` succeeded on so
far, which are the ones whose counters it has bumped. -/
structure Search where
  pri : Int
  bumped : List FlowHead
deriving DecidableEq

/-- The function pointers of `struct flowinfo`, for a node of type `N`. `delFunc` also says
whether it returned `LAGOPUS_RESULT_OK`. -/
structure Flowinfo (N : Type) where
  new : N
  addFunc : N → FlowHead → N
  delFunc : N → FlowHead → N × Bool
  matchFunc : N → Packet → Search → Option FlowHead × Search
  findFunc : N → FlowHead → Option FlowHead

/-! ## The basic node -/

/-- `add_flow_basic`: behind the flows of the same or a higher priority. -/
def addFlowBasic (flows : List FlowHead) (flow : FlowHead) : List FlowHead :=
  SortedInsert.insertWith (fun f => decide ((flow.priority : Int) ≤ f.priority)) flow flows

/-- `del_flow_basic`: by address. -/
def delFlowBasic : List FlowHead → FlowHead → List FlowHead × Bool
  | [], _ => ([], false)
  | f :: flows, flow =>
    if f.id = flow.id then (flows, true)
    else
      let (rest, ok) := delFlowBasic flows flow
      (f :: rest, ok)

/-- `match_flow_basic`. -/
def matchFlowBasic (p : Packet) (s : Search) : List FlowHead → Option FlowHead × Search
  | [] => (none, s)
  | f :: flows =>
    if (f.priority : Int) ≤ s.pri then (none, s)
    else if f.matches p then (some f, ⟨f.priority, s.bumped ++ [f]⟩)
    else matchFlowBasic p s flows

/-- `flowinfo_basic.c`. -/
def basicNode : Flowinfo (List FlowHead) where
  new := []
  addFunc := addFlowBasic
  delFunc := delFlowBasic
  matchFunc := fun flows p s => matchFlowBasic p s flows
  findFunc := fun flows flow => flows.find? (flowCompare flow)

/-! ## Children by key -/

/-- A node with children by key. The hash map is a finite map, `next[]` an array of pointers. -/
structure KeyNode (K C M : Type) where
  nflow : Int
  next : K → Option C
  misc : M

/-- Store a child. -/
def update {K C : Type} [DecidableEq K] (next : K → Option C) (k : K) (c : C) : K → Option C :=
  fun k' => if k' = k then some c else next k'

section KeyNode

variable {K C M : Type} [DecidableEq K]

/-- Search the children under the given keys, one after the other; a later hit replaces an
earlier one. -/
def matchChildren (child : Flowinfo C) (next : K → Option C) (p : Packet) :
    List K → Option FlowHead → Search → Option FlowHead × Search
  | [], flow, s => (flow, s)
  | k :: ks, flow, s =>
    match next k with
    | none => matchChildren child next p ks flow s
    | some c =>
      let (alt, s') := child.matchFunc c p s
      matchChildren child next p ks (alt.or flow) s'

/-- A node that starts out with the children `init`, files flows under `key`, creating a child with
`newChild` when there is none, and looks a packet up under each of `pktKeys`. Flows without the
key go to `misc`, which every packet is looked up in as well. -/
def keyNode (key : List Match → Option K) (pktKeys : Packet → List K) (init : K → Option C)
    (newChild : K → C) (child : Flowinfo C) (misc : Flowinfo M) : Flowinfo (KeyNode K C M) where
  new := ⟨0, init, misc.new⟩
  addFunc n flow :=
    match key flow.matchList with
    | some k =>
      let c := (n.next k).getD (newChild k)
      { n with nflow := n.nflow + 1, next := update n.next k (child.addFunc c flow) }
    | none => { n with nflow := n.nflow + 1, misc := misc.addFunc n.misc flow }
  delFunc n flow :=
    match key flow.matchList with
    | some k =>
      match n.next k with
      | none => (n, false)
      | some c =>
        let (c', ok) := child.delFunc c flow
        ({ n with nflow := if ok then n.nflow - 1 else n.nflow, next := update n.next k c' }, ok)
    | none =>
      let (m', ok) := misc.delFunc n.misc flow
      ({ n with nflow := if ok then n.nflow - 1 else n.nflow, misc := m' }, ok)
  matchFunc n p s :=
    let (flow, s') := matchChildren child n.next p (pktKeys p) none s
    let (alt, s'') := misc.matchFunc n.misc p s'
    (alt.or flow, s'')
  findFunc n flow :=
    match key flow.matchList with
    | some k => (n.next k).bind fun c => child.findFunc c flow
    | none => misc.findFunc n.misc flow

end KeyNode

/-! ## Children by mask -/

/-- The hash map for one mask: `userdata` is the mask. -/
structure MaskedMap (C : Type) where
  userdata : List Byte
  nflow : Int
  hashmap : List Byte → Option C

/-- The node over the hash maps. -/
structure MaskNode (C M : Type) where
  nflow : Int
  next : List (MaskedMap C)
  misc : M

section MaskNode

variable {C M : Type}

/-- Value under a mask, byte by byte. -/
def maskedBytes (value mask : List Byte) : List Byte := List.zipWith (· &&& ·) value mask

variable (key : List Match → Option (List Byte × List Byte))

/-- `add_flow_ipv4_dst`, `add_flow_ipv4_src`, `add_flow_metadata`: `key` gives value and mask. -/
def addFlowMasked (child : Flowinfo C)
    (n : MaskedMap C) (flow : FlowHead) : MaskedMap C :=
  match key flow.matchList with
  | some (v, _) =>
    let c := (n.hashmap v).getD child.new
    { n with nflow := n.nflow + 1, hashmap := update n.hashmap v (child.addFunc c flow) }
  | none => n

/-- `del_flow_metadata`. -/
def delFlowMasked (child : Flowinfo C)
    (n : MaskedMap C) (flow : FlowHead) : MaskedMap C × Bool :=
  match key flow.matchList with
  | some (v, _) =>
    match n.hashmap v with
    | some c =>
      let (c', ok) := child.delFunc c flow
      ({ n with nflow := if ok then n.nflow - 1 else n.nflow, hashmap := update n.hashmap v c' },
        ok)
    | none => (n, false)
  | none => (n, false)

/-- `del_flow_ipv4_dst` and `del_flow_ipv4_src`: the result of the child's `del_func` is
dropped, `nflow` goes down whenever there is a child. -/
def delFlowMaskedAlways (child : Flowinfo C)
    (n : MaskedMap C) (flow : FlowHead) : MaskedMap C × Bool :=
  match key flow.matchList with
  | some (v, _) =>
    match n.hashmap v with
    | some c =>
      ({ n with nflow := n.nflow - 1, hashmap := update n.hashmap v (child.delFunc c flow).1 },
        true)
    | none => (n, false)
  | none => (n, false)

/-- `match_flow_ipv4_dst`, `match_flow_ipv4_src`, `match_flow_metadata`: `field` reads the packet's
bytes. -/
def matchFlowMasked (field : Packet → List Byte) (child : Flowinfo C) (n : MaskedMap C)
    (p : Packet) (s : Search) : Option FlowHead × Search :=
  match n.hashmap (maskedBytes (field p) n.userdata) with
  | some c => child.matchFunc c p s
  | none => (none, s)

/-- The hash map a new flow goes to, made when its mask is new. -/
def addToMask (add : MaskedMap C → FlowHead → MaskedMap C) (mask : List Byte) (flow : FlowHead) :
    List (MaskedMap C) → List (MaskedMap C)
  | [] => [add ⟨mask, 0, fun _ => none⟩ flow]
  | n :: ns => if n.userdata = mask then add n flow :: ns else n :: addToMask add mask flow ns

/-- Delete from the hash map of a mask; one that is left empty is destroyed. -/
def delFromMask (del : MaskedMap C → FlowHead → MaskedMap C × Bool) (mask : List Byte)
    (flow : FlowHead) : List (MaskedMap C) → List (MaskedMap C) × Bool
  | [] => ([], false)
  | n :: ns =>
    if n.userdata = mask then
      let (n', ok) := del n flow
      if n'.nflow = 0 then (ns, ok) else (n' :: ns, ok)
    else
      let (ns', ok) := delFromMask del mask flow ns
      (n :: ns', ok)

/-- The first loop of `match_flow_*_mask`: search every hash map, and keep all results. -/
def matchMasks (field : Packet → List Byte) (child : Flowinfo C) (p : Packet) :
    List (MaskedMap C) → Search → List (Option FlowHead) × Search
  | [], s => ([], s)
  | n :: ns, s =>
    let (flow, s') := matchFlowMasked field child n p s
    let (flows, s'') := matchMasks field child p ns s'
    (flow :: flows, s'')

/-- The second loop: the result of highest priority. `matched` starts out as `&mismatched`, whose
priority is 0; it is `none` here. -/
def pickMatched (flows : List (Option FlowHead)) : Option FlowHead :=
  flows.foldl (fun matched r =>
    match r with
    | none => matched
    | some f => if (matched.map (·.priority)).getD 0 < f.priority then some f else matched) none

/-- `flowinfo_ipv4_dst.c`, `flowinfo_ipv4_src.c`, `flowinfo_metadata.c`. -/
def maskNode (field : Packet → List Byte)
    (del : MaskedMap C → FlowHead → MaskedMap C × Bool) (child : Flowinfo C) (misc : Flowinfo M) :
    Flowinfo (MaskNode C M) where
  new := ⟨0, [], misc.new⟩
  addFunc n flow :=
    match key flow.matchList with
    | some (_, mask) =>
      { n with nflow := n.nflow + 1, next := addToMask (addFlowMasked key child) mask flow n.next }
    | none => { n with nflow := n.nflow + 1, misc := misc.addFunc n.misc flow }
  delFunc n flow :=
    match key flow.matchList with
    | some (_, mask) =>
      let (next', ok) := delFromMask del mask flow n.next
      ({ n with nflow := if ok then n.nflow - 1 else n.nflow, next := next' }, ok)
    | none =>
      let (m', ok) := misc.delFunc n.misc flow
      ({ n with nflow := if ok then n.nflow - 1 else n.nflow, misc := m' }, ok)
  matchFunc n p s :=
    let (flows, s') := matchMasks field child p n.next s
    let (alt, s'') := misc.matchFunc n.misc p s'
    (alt.or (pickMatched flows), s'')
  findFunc n flow :=
    match key flow.matchList with
    | some (v, mask) =>
      (n.next.find? fun c => c.userdata = mask).bind fun c =>
        (c.hashmap v).bind fun c' => child.findFunc c' flow
    | none => misc.findFunc n.misc flow

end MaskNode

end Lagopus
