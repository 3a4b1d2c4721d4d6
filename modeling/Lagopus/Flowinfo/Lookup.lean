import Lagopus.Flowinfo.Contents

/-!
# What a search of an index node finds

Each `match_func` searches the places its node has for the packet, one after the other, with the
bound `*pri` running along. In the terms of `PrioritySearch`, every node's search has the outcome
`Found` among the flows of the node that are to be hit:

* `basicNode_searches`, `keyNode_searches`, `maskNode_searches` for the node shapes;
* `index_searches` for a table's index, once every flow that accepts the packet is filed where the
  packet is looked up (`KeySound`).

The mask nodes report against a sentinel flow of priority 0; the flows they file by mask are the
ones that can be lost (`MaskFiled`).
-/

namespace Lagopus

open PrioritySearch List FlowHead

/-- A node's search for a packet has the outcome `Found` among the flows that are `Hit`, as long as
all flows of the node are `Ok`. -/
def Searches {N : Type} (ops : Flowinfo N) (Rep : N → List FlowHead → Prop) (p : Packet)
    (Lost Ok Hit : FlowHead → Prop) : Prop :=
  ∀ {n : N} {L : List FlowHead} (s : Search), Rep n L → (∀ f ∈ L, Ok f) →
    Found prio 0 Lost {f | f ∈ L ∧ Hit f} s.pri (ops.matchFunc n p s).1
      (ops.matchFunc n p s).2.pri

/-! ## The basic node -/

theorem matchFlowBasic_best {p : Packet} {s : Search} :
    ∀ {flows : List FlowHead}, flows.Pairwise (fun f g => (g.priority : Int) ≤ f.priority) →
      Best prio {f | f ∈ flows ∧ f.matches p = true} s.pri (matchFlowBasic p s flows).1 ∧
        (matchFlowBasic p s flows).2.pri =
          raise prio s.pri (matchFlowBasic p s flows).1
  | [], _ => ⟨fun f hf => absurd hf.1 (by simp), rfl⟩
  | f :: flows, hs => by
    obtain ⟨hf, hs'⟩ := pairwise_cons.mp hs
    rw [matchFlowBasic]
    by_cases hpri : (f.priority : Int) ≤ s.pri
    · -- the rest of the list is below the bound as well
      rw [if_pos hpri]
      refine ⟨fun g hg => ?_, rfl⟩
      rcases mem_cons.mp hg.1 with rfl | hgm
      · exact hpri
      · exact (hf g hgm).trans hpri
    · rw [if_neg hpri]
      by_cases hm : f.matches p = true
      · rw [if_pos hm]
        refine ⟨⟨⟨mem_cons_self, hm⟩, not_le.mp hpri, fun g hg => ?_⟩, rfl⟩
        rcases mem_cons.mp hg.1 with rfl | hgm
        · exact le_rfl
        · exact hf g hgm
      · rw [if_neg hm]
        obtain ⟨hbest, hraise⟩ := matchFlowBasic_best (p := p) (s := s) hs'
        refine ⟨hbest.congr fun g => ?_, hraise⟩
        constructor
        · exact fun hg => ⟨mem_cons_of_mem _ hg.1, hg.2⟩
        · rintro ⟨hg, hgm⟩
          rcases mem_cons.mp hg with rfl | hg
          · exact absurd hgm hm
          · exact ⟨hg, hgm⟩

theorem basicNode_searches {p : Packet} {Lost Ok : FlowHead → Prop} :
    Searches basicNode BasicRep p Lost Ok fun f => f.matches p = true := by
  intro n L s h _
  obtain ⟨hbest, hraise⟩ := matchFlowBasic_best (p := p) (s := s) h.sorted
  refine .inl ⟨hbest.congr fun f => ?_, hraise⟩
  simp [h.perm.mem_iff]

/-! ## Key nodes -/

section KeyNode

variable {K C M : Type} [DecidableEq K] {key : List Match → Option K} {pktKeys : Packet → List K}
  {init : K → Option C} {newChild : K → C} {child : Flowinfo C} {misc : Flowinfo M}
  {CRep : C → List FlowHead → Prop} {MRep : M → List FlowHead → Prop} {p : Packet}
  {Lost Ok HitC HitM Hit : FlowHead → Prop}

/-- The loop over the keys adds to the flows `A` searched before it those filed under the keys. -/
theorem matchChildren_found (hc : Searches child CRep p Lost Ok HitC) {next : K → Option C}
    {L : List FlowHead} (hnext : ∀ k, OptRep CRep (next k) (under key (some k) L))
    (hok : ∀ f ∈ L, Ok f) {b : Int} :
    ∀ (ks : List K) {A : Set FlowHead} {flow : Option FlowHead} {s : Search},
      Found prio 0 Lost A b flow s.pri →
      Found prio 0 Lost
        (A ∪ {f | f ∈ L ∧ HitC f ∧ ∃ k ∈ ks, key f.matchList = some k}) b
        (matchChildren child next p ks flow s).1 (matchChildren child next p ks flow s).2.pri
  | [], A, flow, s, h => h.congr (by simp)
  | k :: ks, A, flow, s, h => by
    rw [matchChildren]
    have hrep := hnext k
    cases hn : next k with
    | none =>
      rw [hn] at hrep
      refine (matchChildren_found hc hnext hok ks h).congr fun f => ?_
      have hno : f ∈ L → key f.matchList ≠ some k := fun hf hk => by
        have hmem : f ∈ under key (some k) L := mem_under.mpr ⟨hf, hk⟩
        rw [show under key (some k) L = [] from hrep] at hmem
        cases hmem
      grind
    | some c =>
      rw [hn] at hrep
      have hchild := hc s hrep fun f hf => hok f (mem_under.mp hf).1
      refine (matchChildren_found hc hnext hok ks (h.union prio_nonneg hchild)).congr fun f => ?_
      simp only [Set.mem_union, Set.mem_ofPred_eq, mem_under, exists_mem_cons_iff]
      grind

/-- **A key node finds the flows filed under the packet's keys, and those of `misc`.** -/
theorem keyNode_searches (hc : Searches child CRep p Lost Ok HitC) (hm : Searches misc MRep p Lost Ok HitM)
    (hsome : ∀ f, Ok f → ∀ k, key f.matchList = some k → (Hit f ↔ k ∈ pktKeys p ∧ HitC f))
    (hnone : ∀ f, Ok f → key f.matchList = none → (Hit f ↔ HitM f)) :
    Searches (keyNode key pktKeys init newChild child misc) (KeyRep key CRep MRep) p Lost Ok
      Hit := by
  intro n L s h hok
  have hchildren := matchChildren_found hc h.next hok (b := s.pri) (pktKeys p) (Found.empty s.pri)
  have hmisc := hm (matchChildren child n.next p (pktKeys p) none s).2 h.misc
    fun f hf => hok f (mem_under.mp hf).1
  refine (hchildren.union prio_nonneg hmisc).congr fun f => ?_
  simp only [Set.mem_union, Set.mem_ofPred_eq, Set.mem_empty_iff_false, false_or, mem_under]
  cases hk : key f.matchList with
  | none =>
    have := fun hf => hnone f (hok f hf) hk
    grind
  | some k =>
    have := fun hf => hsome f (hok f hf) k hk
    grind

end KeyNode

/-! ## Mask nodes -/

section MaskNode

variable {C M : Type} {key : List Match → Option (List Byte × List Byte)}
  {field : Packet → List Byte} {child : Flowinfo C} {misc : Flowinfo M}
  {CRep : C → List FlowHead → Prop} {MRep : M → List FlowHead → Prop} {p : Packet}
  {Lost Ok HitC HitM Hit : FlowHead → Prop}

theorem pickMatched_eq (flows : List (Option FlowHead)) :
    pickMatched flows = flows.foldl (pick prio 0) none := by
  unfold pickMatched
  congr 1
  funext acc r
  cases r with
  | none => rfl
  | some f =>
    cases acc <;> simp [pick, prio]

theorem matchFlowMasked_found (field : Packet → List Byte)
    (hc : Searches child CRep p Lost Ok HitC) {L : List FlowHead}
    (hok : ∀ f ∈ L, Ok f) (s : Search) {n : MaskedMap C}
    (hmap : MapRep key CRep n (under (maskOf key) (some n.userdata) L)) : Found prio 0 Lost
      {f | f ∈ L ∧ HitC f ∧
        key f.matchList = some (maskedBytes (field p) n.userdata, n.userdata)} s.pri
      (matchFlowMasked field child n p s).1 (matchFlowMasked field child n p s).2.pri := by
  set v := maskedBytes (field p) n.userdata with hv
  have hchild := hmap.map v
  have hmem : ∀ f, f ∈ under key (some (v, n.userdata)) (under (maskOf key) (some n.userdata) L) ↔
      f ∈ L ∧ key f.matchList = some (v, n.userdata) := by
    intro f
    simp only [mem_under]
    constructor
    · exact fun hf => ⟨hf.1.1, hf.2⟩
    · exact fun hf => ⟨⟨hf.1, maskOf_of_key hf.2⟩, hf.2⟩
  unfold matchFlowMasked
  cases hn : n.hashmap v with
  | none =>
    rw [hn] at hchild
    refine (Found.empty s.pri).congr fun f => ?_
    simp only [Set.mem_empty_iff_false, Set.mem_ofPred_eq, false_iff]
    rintro ⟨hf, -, hk⟩
    have := (hmem f).mpr ⟨hf, hk⟩
    rw [show under key (some (v, n.userdata)) (under (maskOf key) (some n.userdata) L) = []
      from hchild] at this
    cases this
  | some c =>
    rw [hn] at hchild
    refine (hc s hchild fun f hf => hok f ((hmem f).mp hf).1).congr fun f => ?_
    simp only [Set.mem_ofPred_eq, hmem]
    tauto

theorem matchMasks_found (field : Packet → List Byte) (hc : Searches child CRep p Lost Ok HitC) {L : List FlowHead}
    (hok : ∀ f ∈ L, Ok f) (hlost : ∀ f, Ok f → ∀ v m, key f.matchList = some (v, m) → Lost f) {b : Int} :
    ∀ {ns : List (MaskedMap C)},
      (∀ n ∈ ns, MapRep key CRep n (under (maskOf key) (some n.userdata) L)) →
      ∀ {A : Set FlowHead} {acc : Option FlowHead} {s : Search},
      Found prio 0 Lost A b acc s.pri →
      Found prio 0 Lost
        (A ∪ {f | f ∈ L ∧ HitC f ∧ ∃ n ∈ ns,
          key f.matchList = some (maskedBytes (field p) n.userdata, n.userdata)}) b
        ((matchMasks field child p ns s).1.foldl (pick prio 0) acc)
        (matchMasks field child p ns s).2.pri
  | [], _, A, acc, s, h => h.congr (by simp)
  | n :: ns, hrep, A, acc, s, h => by
    have hone := matchFlowMasked_found field hc hok s (hrep n mem_cons_self)
    have hpick := h.pick prio_nonneg (fun f hf => hlost f (hok f hf.1) _ _ hf.2.2) hone
    have hrest := matchMasks_found field hc hok hlost (fun n' hn' => hrep n' (mem_cons_of_mem _ hn')) hpick
    refine hrest.congr fun f => ?_
    simp only [Set.mem_union, Set.mem_ofPred_eq, exists_mem_cons_iff]
    grind

/-- **A mask node finds the flows the packet's field agrees with under their mask, and those of
`misc`**, but can lose one of priority 0 that it files by mask. -/
theorem maskNode_searches (hc : Searches child CRep p Lost Ok HitC) (hm : Searches misc MRep p Lost Ok HitM)
    (hlost : ∀ f, Ok f → ∀ v m, key f.matchList = some (v, m) → Lost f)
    (hsome : ∀ f, Ok f → ∀ v m, key f.matchList = some (v, m) →
      (Hit f ↔ maskedBytes (field p) m = v ∧ HitC f))
    (hnone : ∀ f, Ok f → key f.matchList = none → (Hit f ↔ HitM f))
    {del : MaskedMap C → FlowHead → MaskedMap C × Bool} :
    Searches (maskNode key field del child misc) (MaskRep key CRep MRep) p Lost Ok Hit := by
  intro n L s h hok
  have hmasks := matchMasks_found field hc hok hlost h.next.each (Found.empty s.pri)
  rw [← pickMatched_eq] at hmasks
  have hmisc := hm (matchMasks field child p n.next s).2 h.misc fun f hf => hok f (mem_under.mp hf).1
  refine (hmasks.union prio_nonneg hmisc).congr fun f => ?_
  simp only [Set.mem_union, Set.mem_ofPred_eq, Set.mem_empty_iff_false, false_or, mem_under]
  cases hk : key f.matchList with
  | none =>
    have := fun hf => hnone f (hok f hf) hk
    grind
  | some vm =>
    obtain ⟨v, m⟩ := vm
    have hiff := fun hf => hsome f (hok f hf) v m hk
    have hcover := fun hf => h.next.cover f hf m (maskOf_of_key hk)
    constructor
    · rintro (⟨hf, hhit, n', -, hn'⟩ | ⟨⟨-, hno⟩, -⟩)
      · simp only [Option.some.injEq, Prod.mk.injEq] at hn'
        exact ⟨hf, (hiff hf).mpr ⟨by rw [hn'.2]; exact hn'.1.symm, hhit⟩⟩
      · cases hno
    · rintro ⟨hf, hhit⟩
      obtain ⟨n', hn', rfl⟩ := hcover hf
      obtain ⟨hv, hhitC⟩ := (hiff hf).mp hhit
      exact .inl ⟨hf, hhitC, n', hn', by rw [hv]⟩

end MaskNode

/-! ## The tree -/

/-- A flow that accepts the packet is filed where the packet is looked up, in every node but the
one for the ethertype, which `match_basic` does not compare. -/
structure KeySound (p : Packet) (f : FlowHead) : Prop where
  vlan : f.matches p = true → ∀ k, getMatchVlanVid f.matchList = some k → k = p.vlanKey
  proto : f.matches p = true → ∀ k, getMatchIpProto f.matchList = some k → k ∈ p.protoKeys
  label : f.matches p = true → ∀ k, getMatchMplsLabel f.matchList = some k → k ∈ p.labelKeys
  dst : f.matches p = true → ∀ v m, getMatchIpv4Dst f.matchList = some (v, m) →
    maskedBytes p.ipv4Dst m = v
  src : f.matches p = true → ∀ v m, getMatchIpv4Src f.matchList = some (v, m) →
    maskedBytes p.ipv4Src m = v
  metadata : f.matches p = true → ∀ v m, getMatchMetadata f.matchList = some (v, m) →
    maskedBytes p.metadata m = v

/-- The packet presents the ethertype a flow asks for, if it asks for one. -/
def Presents (p : Packet) (f : FlowHead) : Prop :=
  ∀ t, getMatchEthType f.matchList = some t → t ∈ p.ethKeys

/-- What it is for a packet to match a flow of a table. -/
def FlowHead.Hits (f : FlowHead) (p : Packet) : Prop := f.matches p = true ∧ Presents p f

/-- The flows that a mask node of the table files by mask. -/
def MaskFiled (tableId : Nat) (f : FlowHead) : Prop :=
  (getMatchIpv4Dst f.matchList).isSome = true ∨ (getMatchIpv4Src f.matchList).isSome = true ∨
    (tableId ≠ 0 ∧ (getMatchMetadata f.matchList).isSome = true)

section Tree

variable {p : Packet} {tableId : Nat}

theorem protoNode_searches :
    Searches protoNode ProtoRep p (MaskFiled tableId) (KeySound p) fun f => f.matches p = true :=
  keyNode_searches basicNode_searches basicNode_searches
    (fun _ hok k hk => ⟨fun h => ⟨hok.proto h k hk, h⟩, And.right⟩) fun _ _ _ => Iff.rfl

theorem mplsNode_searches :
    Searches mplsNode MplsRep p (MaskFiled tableId) (KeySound p) fun f => f.matches p = true :=
  keyNode_searches basicNode_searches basicNode_searches
    (fun _ hok k hk => ⟨fun h => ⟨hok.label h k hk, h⟩, And.right⟩) fun _ _ _ => Iff.rfl

theorem ipv4SrcMaskNode_searches : Searches ipv4SrcMaskNode Ipv4SrcRep p (MaskFiled tableId) (KeySound p)
      fun f => f.matches p = true :=
  maskNode_searches protoNode_searches protoNode_searches (fun _ _ v m hk => .inr (.inl (by rw [hk]; rfl)))
    (fun _ hok v m hk => ⟨fun h => ⟨hok.src h v m hk, h⟩, And.right⟩) fun _ _ _ => Iff.rfl

theorem ipv4DstMaskNode_searches : Searches ipv4DstMaskNode Ipv4DstRep p (MaskFiled tableId) (KeySound p)
      fun f => f.matches p = true :=
  maskNode_searches protoNode_searches ipv4SrcMaskNode_searches (fun _ _ v m hk => .inl (by rw [hk]; rfl))
    (fun _ hok v m hk => ⟨fun h => ⟨hok.dst h v m hk, h⟩, And.right⟩) fun _ _ _ => Iff.rfl

theorem ethChild_searches : Searches ethChild EthChildRep p (MaskFiled tableId) (KeySound p)
      fun f => f.matches p = true := by
  intro n L s h hok
  cases n with
  | ipv4 n => exact ipv4DstMaskNode_searches s h hok
  | ipv6 n => exact protoNode_searches s h hok
  | mpls n => exact mplsNode_searches s h hok
  | basic n => exact basicNode_searches s h hok

theorem ethTypeNode_searches :
    Searches ethTypeNode EthTypeRep p (MaskFiled tableId) (KeySound p) fun f => f.Hits p := by
  refine keyNode_searches ethChild_searches basicNode_searches (fun f _ t ht => ?_) fun f _ ht => ?_
  · constructor
    · exact fun h => ⟨h.2 t ht, h.1⟩
    · rintro ⟨hmem, hmatch⟩
      refine ⟨hmatch, fun t' ht' => ?_⟩
      rw [ht, Option.some.injEq] at ht'
      exact ht' ▸ hmem
  · exact ⟨And.left, fun h => ⟨h, fun t ht' => by rw [ht] at ht'; cases ht'⟩⟩

theorem vlanVidNode_searches :
    Searches vlanVidNode VlanVidRep p (MaskFiled tableId) (KeySound p) fun f => f.Hits p :=
  keyNode_searches ethTypeNode_searches ethTypeNode_searches
    (fun _ hok k hk => ⟨fun h => ⟨mem_singleton.mpr (hok.vlan h.1 k hk), h⟩, And.right⟩)
    fun _ _ _ => Iff.rfl

theorem metadataMaskNode_searches (ht : tableId ≠ 0) :
    Searches metadataMaskNode MetadataRep p (MaskFiled tableId) (KeySound p) fun f => f.Hits p :=
  maskNode_searches ethTypeNode_searches ethTypeNode_searches
    (fun _ _ v m hk => .inr (.inr ⟨ht, by rw [hk]; rfl⟩))
    (fun _ hok v m hk => ⟨fun h => ⟨hok.metadata h.1 v m hk, h⟩, And.right⟩) fun _ _ _ => Iff.rfl

/-- **The outcome of a table lookup**, by the flows the index holds. -/
theorem index_searches {u : Option Index} {L : List FlowHead} (h : IndexRep tableId u L)
    (hok : ∀ f ∈ L, KeySound p f) :
    ∃ b', Found prio 0 (MaskFiled tableId) {f | f ∈ L ∧ f.Hits p} (-1)
      (Index.lagopusFindFlow u p).1 b' := by
  match u, h with
  | none, h =>
    refine ⟨-1, (Found.empty (-1)).congr fun f => ?_⟩
    simp [show L = [] from h]
  | some (.vlanVid n), h => exact ⟨_, vlanVidNode_searches ⟨-1, []⟩ h.2 hok⟩
  | some (.metadata n), h => exact ⟨_, metadataMaskNode_searches h.1 ⟨-1, []⟩ h.2 hok⟩

end Tree

end Lagopus
