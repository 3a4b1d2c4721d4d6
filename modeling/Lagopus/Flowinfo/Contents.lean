import Lagopus.Flowinfo.Tree

/-!
# What an index node holds

Each node type represents a list of flows: `Rep n L` says that the node `n` holds exactly the
flows `L`, each in the place the node files it under. `Lawful` collects what the operations of a
node type have to do with it, and every node of the tree is lawful:

* `basicNode_lawful`, `keyNode_lawful`, `maskNode_lawful` for the node shapes;
* `index_add`, `index_del`, `index_find` for a table's index.
-/

namespace Lagopus

open List MaskedMap

/-! ## Lists of flows -/

/-- The list without the flow at the address of `f`. -/
def dropId (f : FlowHead) (L : List FlowHead) : List FlowHead := L.filter fun g => g.id ≠ f.id

/-- No two flows of the list are at the same address. -/
def DistinctIds (L : List FlowHead) : Prop := (L.map FlowHead.id).Nodup

variable {L : List FlowHead}

theorem DistinctIds.filter (h : DistinctIds L) (P : FlowHead → Bool) :
    DistinctIds (L.filter P) := h.sublist (filter_sublist.map _)

variable {f : FlowHead}

theorem DistinctIds.cons (h : DistinctIds L) (hf : ∀ g ∈ L, g.id ≠ f.id) : DistinctIds (f :: L) :=
  nodup_cons.mpr ⟨by simpa using hf, h⟩

variable {g : FlowHead}

theorem DistinctIds.eq_of_id_eq (h : DistinctIds L) (hf : f ∈ L) (hg : g ∈ L) (heq : f.id = g.id) :
    f = g := inj_on_of_nodup_map h hf hg heq

theorem DistinctIds.perm {L' : List FlowHead} (h : DistinctIds L) (hp : L.Perm L') :
    DistinctIds L' := (hp.map FlowHead.id).nodup_iff.mp h

theorem mem_dropId : g ∈ dropId f L ↔ g ∈ L ∧ g.id ≠ f.id := by simp [dropId]

theorem dropId_cons_of_eq (h : g.id = f.id) :
    dropId f (g :: L) = dropId f L := filter_cons_of_neg (by simpa using h)

theorem dropId_cons_of_ne (h : g.id ≠ f.id) :
    dropId f (g :: L) = g :: dropId f L := filter_cons_of_pos (by simpa using h)

theorem filter_dropId (f : FlowHead) (L : List FlowHead) (P : FlowHead → Bool) :
    (dropId f L).filter P = dropId f (L.filter P) := by
  simp [dropId, Bool.and_comm]

theorem dropId_of_forall_ne (h : ∀ g ∈ L, g.id ≠ f.id) :
    dropId f L = L := filter_eq_self.mpr (by simpa using h)

theorem dropId_filter_of_not (hL : DistinctIds L) (hf : f ∈ L) {P : FlowHead → Bool}
    (hP : P f = false) : dropId f (L.filter P) = L.filter P := by
  refine dropId_of_forall_ne fun g hg hid => ?_
  obtain ⟨hgL, hgP⟩ := mem_filter.mp hg
  rw [hL.eq_of_id_eq hgL hf hid, hP] at hgP
  cases hgP

theorem perm_cons_dropId : ∀ {L : List FlowHead}, DistinctIds L → f ∈ L → L.Perm (f :: dropId f L)
  | [], _, hf => absurd hf (by simp)
  | g :: L, hL, hf => by
    obtain ⟨hg, hL'⟩ := nodup_cons.mp hL
    by_cases hid : g.id = f.id
    · have hgf : g = f := hL.eq_of_id_eq mem_cons_self hf hid
      subst hgf
      have : dropId g L = L := dropId_of_forall_ne fun h hh hhid => hg (by
        rw [← hhid]
        exact mem_map_of_mem hh)
      rw [dropId_cons_of_eq rfl, this]
    · have hfL : f ∈ L := by
        rcases mem_cons.mp hf with rfl | h
        · exact absurd rfl hid
        · exact h
      rw [dropId_cons_of_ne hid]
      exact ((perm_cons_dropId hL' hfL).cons g).trans (List.Perm.swap f g _)

theorem length_dropId (hL : DistinctIds L) (hf : f ∈ L) : (L.length : Int) - 1 = (dropId f L).length := by
  simp [(perm_cons_dropId hL hf).length_eq]

theorem DistinctIds.dropId (h : DistinctIds L) (f : FlowHead) : DistinctIds (dropId f L) := h.filter _

/-! ## Lawful nodes -/

/-- The operations of a node type, told by the list of flows a node represents. -/
structure Lawful {N : Type} (ops : Flowinfo N) (Rep : N → List FlowHead → Prop) : Prop where
  distinct : ∀ {n L}, Rep n L → DistinctIds L
  new : Rep ops.new []
  add : ∀ {n L f}, Rep n L → (∀ g ∈ L, g.id ≠ f.id) → Rep (ops.addFunc n f) (f :: L)
  del : ∀ {n L f}, Rep n L → f ∈ L →
    Rep (ops.delFunc n f).1 (dropId f L) ∧ (ops.delFunc n f).2 = true
  find_none : ∀ {n L f}, Rep n L → ops.findFunc n f = none → ∀ g ∈ L, flowCompare f g = false
  find_some : ∀ {n L f g}, Rep n L → ops.findFunc n f = some g → g ∈ L ∧ flowCompare f g = true

/-! ## The basic node -/

/-- The flows in order of priority. -/
structure BasicRep (flows L : List FlowHead) : Prop where
  perm : flows.Perm L
  sorted : flows.Pairwise fun f g => (g.priority : Int) ≤ f.priority
  distinct : DistinctIds L

theorem delFlowBasic_eq {flows : List FlowHead} (hd : DistinctIds flows) (hf : f ∈ flows) :
    delFlowBasic flows f = (dropId f flows, true) := by
  induction flows with
  | nil => cases hf
  | cons g flows ih =>
    obtain ⟨hg, hd'⟩ := nodup_cons.mp hd
    rw [delFlowBasic]
    by_cases hid : g.id = f.id
    · have : dropId f flows = flows := dropId_of_forall_ne fun h hh hhid => hg (by
        rw [hid, ← hhid]
        exact mem_map_of_mem hh)
      rw [if_pos hid, dropId_cons_of_eq hid, this]
    · have hf' : f ∈ flows := by
        rcases mem_cons.mp hf with rfl | h
        · exact absurd rfl hid
        · exact h
      rw [if_neg hid, ih hd' hf', dropId_cons_of_ne hid]

theorem basicNode_lawful : Lawful basicNode BasicRep where
  distinct h := h.distinct
  new := ⟨List.Perm.refl _, List.Pairwise.nil, nodup_nil⟩
  add h hf :=
    { perm := (SortedInsert.insertWith_perm _ _ _).trans (h.perm.cons _)
      sorted := SortedInsert.insertWith_pairwise (fun f : FlowHead => (f.priority : Int)) h.sorted
      distinct := h.distinct.cons hf }
  del {n L f} h hf := by
    have hdn : DistinctIds n := h.distinct.perm h.perm.symm
    have heq := delFlowBasic_eq hdn (h.perm.mem_iff.mpr hf)
    change BasicRep (delFlowBasic n f).1 _ ∧ (delFlowBasic n f).2 = true
    rw [heq]
    exact ⟨⟨h.perm.filter _, h.sorted.filter _, h.distinct.dropId f⟩, rfl⟩
  find_none h hnone g hg := by
    simpa using find?_eq_none.mp hnone g (h.perm.mem_iff.mpr hg)
  find_some h hsome := ⟨h.perm.mem_iff.mp (mem_of_find?_eq_some hsome), find?_some hsome⟩

/-! ## Key nodes -/

/-- A child that need not exist yet: without a child there are no flows. -/
def OptRep {C : Type} (CRep : C → List FlowHead → Prop) : Option C → List FlowHead → Prop
  | none, L => L = []
  | some c, L => CRep c L

section KeyNode

variable {K C M : Type} [DecidableEq K]

/-- The flows filed under a key. -/
def under (key : List Match → Option K) (k : Option K) (L : List FlowHead) : List FlowHead :=
  L.filter fun f => key f.matchList = k

variable {key : List Match → Option K} {k : Option K}

theorem mem_under : f ∈ under key k L ↔ f ∈ L ∧ key f.matchList = k := by simp [under]

theorem under_cons_of_eq (h : key f.matchList = k) : under key k (f :: L) = f :: under key k L :=
  filter_cons_of_pos (by simpa using h)

theorem under_cons_of_ne (h : key f.matchList ≠ k) : under key k (f :: L) = under key k L :=
  filter_cons_of_neg (by simpa using h)

theorem under_dropId (key : List Match → Option K) (k : Option K) (f : FlowHead)
    (L : List FlowHead) : under key k (dropId f L) = dropId f (under key k L) :=
  filter_dropId f L _

theorem under_dropId_of_ne (hL : DistinctIds L) (hf : f ∈ L) (h : key f.matchList ≠ k) :
    under key k (dropId f L) = under key k L := by
  rw [under_dropId]
  exact dropId_filter_of_not hL hf (by simpa using h)

/-! ### Children

The children of a node are filed under the keys `ι k`: a key itself, or the values of one mask. -/

section Children

variable {J : Type} [DecidableEq J] {ι : J → Option K} {next : J → Option C} {child : Flowinfo C}
  {CRep : C → List FlowHead → Prop} {o : Option C} {j : J}

theorem OptRep.exists_of_mem (h : OptRep CRep o L) (hf : f ∈ L) : ∃ c, o = some c ∧ CRep c L := by
  cases o with
  | none =>
    rw [show L = [] from h] at hf
    cases hf
  | some c => exact ⟨c, rfl, h⟩

variable (hc : Lawful child CRep)

include hc

theorem OptRep.find_none (h : OptRep CRep o L) (hnone : (o.bind fun c => child.findFunc c f) = none)
    (hg : g ∈ L) : flowCompare f g = false := by
  obtain ⟨c, rfl, hrep⟩ := h.exists_of_mem hg
  exact hc.find_none hrep hnone g hg

theorem OptRep.find_some (h : OptRep CRep o (under key k L))
    (hsome : (o.bind fun c => child.findFunc c f) = some g) : g ∈ L ∧ flowCompare f g = true := by
  obtain ⟨c, rfl, hfind⟩ := Option.bind_eq_some_iff.1 hsome
  obtain ⟨hmem, hcmp⟩ := hc.find_some h hfind
  exact ⟨(mem_under.mp hmem).1, hcmp⟩

variable (hι : Function.Injective ι) (h : ∀ j, OptRep CRep (next j) (under key (ι j) L))
  (hk : key f.matchList = ι j)

include hι h hk

theorem children_add {new : C} (hnew : CRep new []) (hf : ∀ g ∈ L, g.id ≠ f.id) (j' : J) :
    OptRep CRep (update next j (child.addFunc ((next j).getD new) f) j')
      (under key (ι j') (f :: L)) := by
  have hold := h j'
  by_cases hj : j' = j
  · subst hj
    simp only [update, if_true]
    rw [under_cons_of_eq hk]
    cases hn : next j' with
    | none =>
      rw [hn] at hold
      rw [show under key (ι j') L = [] from hold]
      exact hc.add hnew (by simp)
    | some c =>
      rw [hn] at hold
      exact hc.add hold fun g hg => hf g (mem_under.mp hg).1
  · simp only [update, hj, if_false]
    rwa [under_cons_of_ne (by rw [hk]; exact fun heq => hj (hι heq).symm)]

theorem children_del (hd : DistinctIds L) (hf : f ∈ L) :
    ∃ c, next j = some c ∧ (child.delFunc c f).2 = true ∧
      ∀ j', OptRep CRep (update next j (child.delFunc c f).1 j') (under key (ι j') (dropId f L)) := by
  have hmem : f ∈ under key (ι j) L := mem_under.mpr ⟨hf, hk⟩
  obtain ⟨c, hn, hrep⟩ := (h j).exists_of_mem hmem
  obtain ⟨hdel, hok⟩ := hc.del hrep hmem
  refine ⟨c, hn, hok, fun j' => ?_⟩
  by_cases hj : j' = j
  · subst hj
    rw [under_dropId]
    simp only [update, if_true]
    exact hdel
  · rw [under_dropId_of_ne hd hf (by rw [hk]; exact fun heq => hj (hι heq).symm)]
    simp only [update, hj, if_false]
    exact h j'

end Children

/-- Each flow is in the child of its key, or in `misc` if it has none. -/
structure KeyRep (key : List Match → Option K) (CRep : C → List FlowHead → Prop)
    (MRep : M → List FlowHead → Prop) (n : KeyNode K C M) (L : List FlowHead) : Prop where
  distinct : DistinctIds L
  nflow : n.nflow = L.length
  misc : MRep n.misc (under key none L)
  next : ∀ k, OptRep CRep (n.next k) (under key (some k) L)

variable {key : List Match → Option K} {pktKeys : Packet → List K} {init : K → Option C}
  {newChild : K → C} {child : Flowinfo C} {misc : Flowinfo M}
  {CRep : C → List FlowHead → Prop} {MRep : M → List FlowHead → Prop}

theorem keyNode_add (hc : Lawful child CRep) (hm : Lawful misc MRep)
    (hnew : ∀ k, CRep (newChild k) []) {n : KeyNode K C M} (h : KeyRep key CRep MRep n L)
    (hf : ∀ g ∈ L, g.id ≠ f.id) :
    KeyRep key CRep MRep ((keyNode key pktKeys init newChild child misc).addFunc n f) (f :: L) := by
  cases hk : key f.matchList with
  | none =>
    simp only [keyNode, hk]
    refine ⟨h.distinct.cons hf, by simp [h.nflow], ?_, fun k => ?_⟩
    · rw [under_cons_of_eq hk]
      exact hm.add h.misc fun g hg => hf g (mem_under.mp hg).1
    · rw [under_cons_of_ne (by simp [hk])]
      exact h.next k
  | some k =>
    simp only [keyNode, hk]
    refine ⟨h.distinct.cons hf, by simp [h.nflow], ?_,
      children_add hc (Option.some_injective K) h.next hk (hnew k) hf⟩
    rw [under_cons_of_ne (by simp [hk])]
    exact h.misc

theorem keyNode_del (hc : Lawful child CRep) (hm : Lawful misc MRep) {n : KeyNode K C M}
    (h : KeyRep key CRep MRep n L) (hf : f ∈ L) :
    KeyRep key CRep MRep ((keyNode key pktKeys init newChild child misc).delFunc n f).1
        (dropId f L) ∧
      ((keyNode key pktKeys init newChild child misc).delFunc n f).2 = true := by
  cases hk : key f.matchList with
  | none =>
    obtain ⟨hdel, hok⟩ := hm.del h.misc (mem_under.mpr ⟨hf, hk⟩)
    simp only [keyNode, hk, hok, if_true, and_true]
    refine ⟨h.distinct.dropId f, by rw [h.nflow, length_dropId h.distinct hf], ?_, fun k => ?_⟩
    · rw [under_dropId]
      exact hdel
    · rw [under_dropId_of_ne h.distinct hf (by simp [hk])]
      exact h.next k
  | some k =>
    obtain ⟨c, hn, hok, hnext⟩ := children_del hc (Option.some_injective K) h.next hk h.distinct hf
    simp only [keyNode, hk, hn, hok, if_true, and_true]
    refine ⟨h.distinct.dropId f, by rw [h.nflow, length_dropId h.distinct hf], ?_, hnext⟩
    rw [under_dropId_of_ne h.distinct hf (by simp [hk])]
    exact h.misc

/-- Equal match lists have equal keys, so a search for an equal flow looks in the right child. -/
theorem mem_under_of_compare (key : List Match → Option K) (hg : g ∈ L) (h : flowCompare f g = true)
    : g ∈ under key (key f.matchList) L := by
  rw [mem_under, (flowCompare_iff.mp h).2]
  exact ⟨hg, rfl⟩

/-- **A key node over lawful nodes is lawful.** -/
theorem keyNode_lawful (hc : Lawful child CRep) (hm : Lawful misc MRep)
    (hnew : ∀ k, CRep (newChild k) []) (hinit : ∀ k, OptRep CRep (init k) []) :
    Lawful (keyNode key pktKeys init newChild child misc) (KeyRep key CRep MRep) where
  distinct h := h.distinct
  new := ⟨nodup_nil, rfl, hm.new, hinit⟩
  add h hf := keyNode_add hc hm hnew h hf
  del h hf := keyNode_del hc hm h hf
  find_none {n L f} h hnone g hg := by
    by_contra hcmp
    have hmem := mem_under_of_compare key hg (by simpa using hcmp)
    apply hcmp
    cases hk : key f.matchList with
    | none =>
      simp only [keyNode, hk] at hnone
      rw [hk] at hmem
      exact hm.find_none h.misc hnone g hmem
    | some k =>
      simp only [keyNode, hk] at hnone
      rw [hk] at hmem
      exact (h.next k).find_none hc hnone hmem
  find_some {n L f g} h hsome := by
    cases hk : key f.matchList with
    | none =>
      simp only [keyNode, hk] at hsome
      obtain ⟨hmem, hcmp⟩ := hm.find_some h.misc hsome
      exact ⟨(mem_under.mp hmem).1, hcmp⟩
    | some k =>
      simp only [keyNode, hk] at hsome
      exact (h.next k).find_some hc hsome

end KeyNode

/-! ## Mask nodes -/

section MaskNode

variable {C M : Type} {key : List Match → Option (List Byte × List Byte)}
  {field : Packet → List Byte} {child : Flowinfo C} {misc : Flowinfo M}
  {CRep : C → List FlowHead → Prop} {MRep : M → List FlowHead → Prop}

/-- The mask half of a key. -/
def maskOf (key : List Match → Option (List Byte × List Byte)) (ml : List Match) :
    Option (List Byte) := (key ml).map Prod.snd

/-- The hash map of one mask holds the flows with that mask, by value. -/
structure MapRep (key : List Match → Option (List Byte × List Byte))
    (CRep : C → List FlowHead → Prop) (n : MaskedMap C) (L : List FlowHead) : Prop where
  mask : ∀ f ∈ L, maskOf key f.matchList = some n.userdata
  nflow : n.nflow = L.length
  map : ∀ v, OptRep CRep (n.hashmap v) (under key (some (v, n.userdata)) L)

/-- One hash map for every mask in use. -/
structure MasksRep (key : List Match → Option (List Byte × List Byte))
    (CRep : C → List FlowHead → Prop) (ns : List (MaskedMap C)) (L : List FlowHead) : Prop where
  masks : (ns.map userdata).Nodup
  each : ∀ n ∈ ns, MapRep key CRep n (under (maskOf key) (some n.userdata) L)
  cover : ∀ f ∈ L, ∀ m, maskOf key f.matchList = some m → ∃ n ∈ ns, n.userdata = m

structure MaskRep (key : List Match → Option (List Byte × List Byte))
    (CRep : C → List FlowHead → Prop) (MRep : M → List FlowHead → Prop) (n : MaskNode C M)
    (L : List FlowHead) : Prop where
  distinct : DistinctIds L
  nflow : n.nflow = L.length
  misc : MRep n.misc (under key none L)
  next : MasksRep key CRep n.next L

theorem exists_key_of_maskOf {ml : List Match} {m : List Byte} (h : maskOf key ml = some m) :
    ∃ v, key ml = some (v, m) := by
  obtain ⟨⟨v, m'⟩, hv, hm⟩ := Option.map_eq_some_iff.mp h
  subst hm
  exact ⟨v, hv⟩

variable {v : List Byte}

theorem maskOf_of_key {ml : List Match} {m : List Byte} (h : key ml = some (v, m)) :
    maskOf key ml = some m := by simp [maskOf, h]

/-! ### One hash map -/

theorem addFlowMasked_userdata (key : List Match → Option (List Byte × List Byte))
    (child : Flowinfo C) (n : MaskedMap C) (f : FlowHead) :
    (addFlowMasked key child n f).userdata = n.userdata := by
  unfold addFlowMasked
  split <;> rfl

variable (mask : List Byte)

theorem mapRep_new : MapRep key CRep (⟨mask, 0, fun _ => none⟩ : MaskedMap C) [] :=
  ⟨by simp, rfl, fun _ => rfl⟩

variable {n : MaskedMap C}

theorem valued_injective : Function.Injective fun v : List Byte => some (v, mask) := by
  intro v v' h
  simpa using h

variable (hc : Lawful child CRep)

include hc

theorem mapRep_add (h : MapRep key CRep n L)
    (hk : key f.matchList = some (v, n.userdata)) (hf : ∀ g ∈ L, g.id ≠ f.id) :
    MapRep key CRep (addFlowMasked key child n f) (f :: L) := by
  have hud := addFlowMasked_userdata key child n f
  refine ⟨fun g hg => ?_, by simp [addFlowMasked, hk, h.nflow], fun v' => ?_⟩
  · rw [hud]
    rcases mem_cons.mp hg with rfl | hg
    · exact maskOf_of_key hk
    · exact h.mask g hg
  · rw [hud]
    simp only [addFlowMasked, hk]
    exact children_add hc (valued_injective n.userdata) h.map hk hc.new hf v'

omit hc in
/-- A deletion function of a hash map that takes an installed flow out. -/
def DeletesFrom (key : List Match → Option (List Byte × List Byte))
    (CRep : C → List FlowHead → Prop) (del : MaskedMap C → FlowHead → MaskedMap C × Bool) : Prop :=
  ∀ {n L f}, MapRep key CRep n L → DistinctIds L → f ∈ L →
    MapRep key CRep (del n f).1 (dropId f L) ∧ (del n f).1.userdata = n.userdata ∧
      (del n f).2 = true

theorem mapRep_dropId (h : MapRep key CRep n L) (hd : DistinctIds L)
    (hf : f ∈ L) : ∃ v c, key f.matchList = some (v, n.userdata) ∧ n.hashmap v = some c ∧
      (child.delFunc c f).2 = true ∧
      MapRep key CRep
        { n with nflow := n.nflow - 1, hashmap := update n.hashmap v (child.delFunc c f).1 }
        (dropId f L) := by
  obtain ⟨v, hk⟩ := exists_key_of_maskOf (h.mask f hf)
  obtain ⟨c, hn, hok, hmap⟩ := children_del hc (valued_injective n.userdata) h.map hk hd hf
  refine ⟨v, c, hk, hn, hok, fun g hg => h.mask g (mem_dropId.mp hg).1, ?_, hmap⟩
  rw [h.nflow, length_dropId hd hf]

theorem delFlowMasked_deletesFrom : DeletesFrom key CRep (delFlowMasked key child) := by
  intro n L f h hd hf
  obtain ⟨v, c, hk, hn, hok, hrep⟩ := mapRep_dropId hc h hd hf
  simp only [delFlowMasked, hk, hn, hok, if_true, and_true]
  exact hrep

theorem delFlowMaskedAlways_deletesFrom : DeletesFrom key CRep (delFlowMaskedAlways key child) := by
  intro n L f h hd hf
  obtain ⟨v, c, hk, hn, -, hrep⟩ := mapRep_dropId hc h hd hf
  simp only [delFlowMaskedAlways, hk, hn, and_true]
  exact hrep

omit hc

/-! ### All hash maps -/

/-- The hash map of a mask, a new one if there is none. -/
def mapOf (mask : List Byte) (ns : List (MaskedMap C)) : MaskedMap C :=
  (ns.find? fun n => n.userdata = mask).getD ⟨mask, 0, fun _ => none⟩

theorem mapOf_userdata (ns : List (MaskedMap C)) : (mapOf mask ns).userdata = mask := by
  unfold mapOf
  cases h : ns.find? (fun n => n.userdata = mask) with
  | none => rfl
  | some n => simpa using find?_some h

variable {ns : List (MaskedMap C)}

theorem mapOf_eq_of_mem (hnd : (ns.map userdata).Nodup) (hn : n ∈ ns) :
    mapOf n.userdata ns = n := by
  unfold mapOf
  cases h : ns.find? (fun n' => n'.userdata = n.userdata) with
  | none => simpa using find?_eq_none.mp h n hn
  | some n' =>
    exact inj_on_of_nodup_map hnd (mem_of_find?_eq_some h) hn (by simpa using find?_some h)

variable {add : MaskedMap C → FlowHead → MaskedMap C}

theorem userdata_addToMask (hadd : ∀ n f, (add n f).userdata = n.userdata) (mask : List Byte) (f : FlowHead)
    (ns : List (MaskedMap C)) : (addToMask add mask f ns).map userdata =
      if mask ∈ ns.map userdata then ns.map userdata
      else ns.map userdata ++ [mask] := by
  induction ns with
  | nil => simp [addToMask, hadd]
  | cons n ns ih =>
    rw [addToMask]
    by_cases hn : n.userdata = mask
    · simp [hn, hadd]
    · rw [if_neg hn, map_cons, ih]
      have : mask ≠ n.userdata := fun h => hn h.symm
      by_cases hmem : mask ∈ ns.map userdata
      · simp [hmem]
      · simp [hmem, this]

variable {mask : List Byte}

theorem mem_addToMask {n' : MaskedMap C} : ∀ {ns : List (MaskedMap C)}, (ns.map userdata).Nodup →
      (n' ∈ addToMask add mask f ns ↔
        (n' ∈ ns ∧ n'.userdata ≠ mask) ∨ n' = add (mapOf mask ns) f)
  | [], _ => by simp [addToMask, mapOf]
  | n :: ns, hnd => by
    obtain ⟨hn, hnd'⟩ := nodup_cons.mp hnd
    rw [addToMask]
    by_cases hmask : n.userdata = mask
    · have hmap : mapOf mask (n :: ns) = n := by simp [mapOf, hmask]
      have hne : ∀ n'' ∈ ns, n''.userdata ≠ mask := by
        intro n'' hn'' heq
        exact hn (by rw [hmask, ← heq]; exact mem_map_of_mem hn'')
      rw [if_pos hmask, hmap, mem_cons, mem_cons]
      constructor
      · rintro (h | h)
        · exact .inr h
        · exact .inl ⟨.inr h, hne n' h⟩
      · rintro (⟨h | h, hne'⟩ | h)
        · exact absurd (h ▸ hmask) hne'
        · exact .inr h
        · exact .inl h
    · have hmap : mapOf mask (n :: ns) = mapOf mask ns := by simp [mapOf, hmask]
      rw [if_neg hmask, mem_cons, mem_addToMask hnd', hmap, mem_cons]
      constructor
      · rintro (rfl | h | h)
        · exact .inl ⟨.inl rfl, hmask⟩
        · exact .inl ⟨.inr h.1, h.2⟩
        · exact .inr h
      · rintro (⟨h | h, hne'⟩ | h)
        · exact .inl h
        · exact .inr (.inl ⟨h, hne'⟩)
        · exact .inr (.inr h)

theorem MasksRep.mapOf (h : MasksRep key CRep ns L) (mask : List Byte) :
    MapRep key CRep (Lagopus.mapOf mask ns) (under (maskOf key) (some mask) L) := by
  by_cases hex : ∃ n ∈ ns, n.userdata = mask
  · obtain ⟨n, hn, rfl⟩ := hex
    rw [mapOf_eq_of_mem h.masks hn]
    exact h.each n hn
  · push Not at hex
    have hfind : ns.find? (fun n => n.userdata = mask) = none := by
      simpa [find?_eq_none] using hex
    have hempty : under (maskOf key) (some mask) L = [] := by
      rw [eq_nil_iff_forall_not_mem]
      intro f hf
      obtain ⟨hfL, hfm⟩ := mem_under.mp hf
      obtain ⟨n, hn, hnm⟩ := h.cover f hfL mask hfm
      exact hex n hn hnm
    rw [hempty, Lagopus.mapOf, hfind]
    exact mapRep_new mask

theorem masksRep_add (hc : Lawful child CRep) (h : MasksRep key CRep ns L)
    (hk : key f.matchList = some (v, mask)) (hf : ∀ g ∈ L, g.id ≠ f.id) :
    MasksRep key CRep (addToMask (addFlowMasked key child) mask f ns) (f :: L) := by
  have hud := userdata_addToMask (addFlowMasked_userdata key child) mask f ns
  have hnew : (addFlowMasked key child (mapOf mask ns) f).userdata = mask := by
    rw [addFlowMasked_userdata, mapOf_userdata]
  refine ⟨?_, fun n hn => ?_, fun g hg m hm => ?_⟩
  · rw [hud]
    split
    · exact h.masks
    · rename_i hmem
      exact nodup_append.mpr ⟨h.masks, by simp, by simpa using hmem⟩
  · rcases (mem_addToMask h.masks).mp hn with ⟨hn, hne⟩ | rfl
    · rw [under_cons_of_ne (by rw [maskOf_of_key hk]; simpa [eq_comm] using hne)]
      exact h.each n hn
    · rw [hnew, under_cons_of_eq (maskOf_of_key hk)]
      refine mapRep_add hc (h.mapOf mask) (v := v) (by rw [mapOf_userdata, hk]) ?_
      exact fun g hg => hf g (mem_under.mp hg).1
  · rcases mem_cons.mp hg with rfl | hg
    · rw [maskOf_of_key hk, Option.some.injEq] at hm
      subst hm
      exact ⟨_, (mem_addToMask h.masks).mpr (.inr rfl), hnew⟩
    · obtain ⟨n, hn, hnm⟩ := h.cover g hg m hm
      by_cases hmm : m = mask
      · subst hmm
        exact ⟨_, (mem_addToMask h.masks).mpr (.inr rfl), hnew⟩
      · exact ⟨n, (mem_addToMask h.masks).mpr (.inl ⟨hn, by rw [hnm]; exact hmm⟩), hnm⟩

variable {del : MaskedMap C → FlowHead → MaskedMap C × Bool}

theorem delFromMask_spec : ∀ {ns : List (MaskedMap C)}, (ns.map userdata).Nodup → n ∈ ns →
      (del n f).1.userdata = n.userdata →
      ((delFromMask del n.userdata f ns).1.map userdata).Sublist
          (ns.map userdata) ∧
        (delFromMask del n.userdata f ns).2 = (del n f).2 ∧
        ∀ n', n' ∈ (delFromMask del n.userdata f ns).1 ↔
          (n' ∈ ns ∧ n'.userdata ≠ n.userdata) ∨ (n' = (del n f).1 ∧ n'.nflow ≠ 0)
  | [], _, hn, _ => by cases hn
  | n₀ :: ns, hnd, hn, hud => by
    obtain ⟨hn₀, hnd'⟩ := nodup_cons.mp hnd
    by_cases hmask : n₀.userdata = n.userdata
    · have heq : n₀ = n := inj_on_of_nodup_map hnd mem_cons_self hn hmask
      subst heq
      have hne : ∀ n' ∈ ns, n'.userdata ≠ n₀.userdata := fun n' hn' heq =>
        hn₀ (by rw [← heq]; exact mem_map_of_mem hn')
      simp only [delFromMask, if_true]
      by_cases hz : (del n₀ f).1.nflow = 0
      · simp only [hz, if_true]
        refine ⟨by simp, trivial, fun n' => ⟨fun h => .inl ⟨mem_cons_of_mem _ h, hne n' h⟩, ?_⟩⟩
        rintro (⟨h, hne'⟩ | ⟨rfl, h⟩)
        · rcases mem_cons.mp h with rfl | h
          · exact absurd rfl hne'
          · exact h
        · exact absurd hz h
      · simp only [hz, if_false]
        refine ⟨by simp [hud], trivial, fun n' => ?_⟩
        rw [mem_cons]
        constructor
        · rintro (rfl | h)
          · exact .inr ⟨rfl, hz⟩
          · exact .inl ⟨mem_cons_of_mem _ h, hne n' h⟩
        · rintro (⟨h, hne'⟩ | ⟨h, -⟩)
          · rcases mem_cons.mp h with rfl | h
            · exact absurd rfl hne'
            · exact .inr h
          · exact .inl h
    · have hn' : n ∈ ns := by
        rcases mem_cons.mp hn with rfl | h
        · exact absurd rfl hmask
        · exact h
      obtain ⟨hsub, hok, hmem⟩ := delFromMask_spec hnd' hn' hud
      simp only [delFromMask, hmask, if_false]
      refine ⟨by simpa using hsub, hok, fun n' => ?_⟩
      rw [mem_cons, hmem, mem_cons]
      constructor
      · rintro (rfl | ⟨h1, h2⟩ | h)
        · exact .inl ⟨.inl rfl, hmask⟩
        · exact .inl ⟨.inr h1, h2⟩
        · exact .inr h
      · rintro (⟨h1 | h1, h2⟩ | h)
        · exact .inl h1
        · exact .inr (.inl ⟨h1, h2⟩)
        · exact .inr (.inr h)

theorem masksRep_del (hdel : DeletesFrom key CRep del) (h : MasksRep key CRep ns L)
    (hd : DistinctIds L) (hf : f ∈ L) (hk : maskOf key f.matchList = some mask) :
    MasksRep key CRep (delFromMask del mask f ns).1 (dropId f L) ∧
      (delFromMask del mask f ns).2 = true := by
  obtain ⟨n, hn, rfl⟩ := h.cover f hf mask hk
  obtain ⟨hrep, hud, hok⟩ := hdel (h.each n hn) (hd.filter _) (mem_under.mpr ⟨hf, hk⟩)
  rw [← under_dropId] at hrep
  obtain ⟨hsub, hok', hmem⟩ := delFromMask_spec (f := f) h.masks hn hud
  refine ⟨⟨h.masks.sublist hsub, fun n' hn' => ?_, fun g hg m hm => ?_⟩, hok'.trans hok⟩
  · rcases (hmem n').mp hn' with ⟨hn', hne⟩ | ⟨rfl, -⟩
    · rw [under_dropId_of_ne hd hf (by rw [hk]; simpa [eq_comm] using hne)]
      exact h.each n' hn'
    · rw [hud]
      exact hrep
  · by_cases hmm : m = n.userdata
    · -- the hash map still holds `g`, so it has not been destroyed
      refine ⟨(del n f).1, (hmem _).mpr (.inr ⟨rfl, ?_⟩), by rw [hud, hmm]⟩
      rw [hrep.nflow]
      have : g ∈ under (maskOf key) (some n.userdata) (dropId f L) := mem_under.mpr ⟨hg, by rw [hm, hmm]⟩
      have := length_pos_of_mem this
      omega
    · obtain ⟨n', hn', hnm⟩ := h.cover g (mem_dropId.mp hg).1 m hm
      exact ⟨n', (hmem n').mpr (.inl ⟨hn', by rw [hnm]; exact hmm⟩), hnm⟩

theorem MasksRep.filed (h : MasksRep key CRep ns L) (v mask : List Byte) :
    OptRep CRep ((ns.find? fun n => n.userdata = mask).bind fun n => n.hashmap v)
      (under key (some (v, mask)) L) := by
  have hmap := (h.mapOf mask).map v
  have hunder : under key (some (v, mask)) (under (maskOf key) (some mask) L) =
      under key (some (v, mask)) L := by
    simp only [under, filter_filter]
    congr 1
    funext f
    by_cases hk : key f.matchList = some (v, mask)
    · simp [hk, maskOf]
    · simp [hk]
  rw [mapOf_userdata, hunder] at hmap
  unfold Lagopus.mapOf at hmap
  cases hfind : ns.find? (fun n => n.userdata = mask) with
  | none => simpa [hfind] using hmap
  | some n => simpa [hfind] using hmap

/-- **A mask node over lawful nodes is lawful.** -/
theorem maskNode_lawful (hc : Lawful child CRep) (hm : Lawful misc MRep) (hdel : DeletesFrom key CRep del) :
    Lawful (maskNode key field del child misc) (MaskRep key CRep MRep) where
  distinct h := h.distinct
  new := ⟨nodup_nil, rfl, hm.new, by simp [maskNode], by simp [maskNode], by simp⟩
  add {n L f} h hf := by
    cases hk : key f.matchList with
    | none =>
      simp only [maskNode, hk]
      refine ⟨h.distinct.cons hf, by simp [h.nflow], ?_, h.next.masks, fun n hn => ?_, ?_⟩
      · rw [under_cons_of_eq hk]
        exact hm.add h.misc fun g hg => hf g (mem_under.mp hg).1
      · rw [under_cons_of_ne (by simp [maskOf, hk])]
        exact h.next.each n hn
      · intro g hg m hgm
        rcases mem_cons.mp hg with rfl | hg
        · simp [maskOf, hk] at hgm
        · exact h.next.cover g hg m hgm
    | some vm =>
      simp only [maskNode, hk]
      refine ⟨h.distinct.cons hf, by simp [h.nflow], ?_, masksRep_add hc h.next hk hf⟩
      rw [under_cons_of_ne (by simp [hk])]
      exact h.misc
  del {n L f} h hf := by
    cases hk : key f.matchList with
    | none =>
      obtain ⟨hmisc, hok⟩ := hm.del h.misc (mem_under.mpr ⟨hf, hk⟩)
      simp only [maskNode, hk, hok, if_true, and_true]
      refine ⟨h.distinct.dropId f, by rw [h.nflow, length_dropId h.distinct hf], ?_, h.next.masks,
        fun n hn => ?_, fun g hg => h.next.cover g (mem_dropId.mp hg).1⟩
      · rw [under_dropId]
        exact hmisc
      · rw [under_dropId_of_ne h.distinct hf (by simp [maskOf, hk])]
        exact h.next.each n hn
    | some vm =>
      obtain ⟨hnext, hok⟩ := masksRep_del hdel h.next h.distinct hf (maskOf_of_key hk)
      simp only [maskNode, hk, hok, if_true, and_true]
      refine ⟨h.distinct.dropId f, by rw [h.nflow, length_dropId h.distinct hf], ?_, hnext⟩
      rw [under_dropId_of_ne h.distinct hf (by simp [hk])]
      exact h.misc
  find_none {n L f} h hnone g hg := by
    by_contra hcmp
    have hmem := mem_under_of_compare key hg (by simpa using hcmp)
    apply hcmp
    cases hk : key f.matchList with
    | none =>
      simp only [maskNode, hk] at hnone
      rw [hk] at hmem
      exact hm.find_none h.misc hnone g hmem
    | some vm =>
      simp only [maskNode, hk, ← Option.bind_assoc] at hnone
      rw [hk] at hmem
      exact (h.next.filed vm.1 vm.2).find_none hc hnone hmem
  find_some {n L f g} h hsome := by
    cases hk : key f.matchList with
    | none =>
      simp only [maskNode, hk] at hsome
      obtain ⟨hmem, hcmp⟩ := hm.find_some h.misc hsome
      exact ⟨(mem_under.mp hmem).1, hcmp⟩
    | some vm =>
      simp only [maskNode, hk, ← Option.bind_assoc] at hsome
      exact (h.next.filed vm.1 vm.2).find_some hc hsome

end MaskNode

/-! ## The nodes of the tree -/

abbrev ProtoRep : ProtoNode → List FlowHead → Prop := KeyRep getMatchIpProto BasicRep BasicRep

abbrev MplsRep : MplsNode → List FlowHead → Prop := KeyRep getMatchMplsLabel BasicRep BasicRep

abbrev Ipv4SrcRep : Ipv4SrcMaskNode → List FlowHead → Prop :=
  MaskRep getMatchIpv4Src ProtoRep ProtoRep

abbrev Ipv4DstRep : Ipv4DstMaskNode → List FlowHead → Prop :=
  MaskRep getMatchIpv4Dst ProtoRep Ipv4SrcRep

def EthChildRep : EthChild → List FlowHead → Prop
  | .ipv4 n => Ipv4DstRep n
  | .ipv6 n => ProtoRep n
  | .mpls n => MplsRep n
  | .basic n => BasicRep n

abbrev EthTypeRep : EthTypeNode → List FlowHead → Prop :=
  KeyRep getMatchEthType EthChildRep BasicRep

abbrev VlanVidRep : VlanVidNode → List FlowHead → Prop :=
  KeyRep getMatchVlanVid EthTypeRep EthTypeRep

abbrev MetadataRep : MetadataMaskNode → List FlowHead → Prop :=
  MaskRep getMatchMetadata EthTypeRep EthTypeRep

theorem protoNode_lawful : Lawful protoNode ProtoRep :=
  keyNode_lawful basicNode_lawful basicNode_lawful (fun _ => basicNode_lawful.new)
    fun _ => basicNode_lawful.new

theorem mplsNode_lawful : Lawful mplsNode MplsRep :=
  keyNode_lawful basicNode_lawful basicNode_lawful (fun _ => basicNode_lawful.new) fun _ => rfl

theorem ipv4SrcMaskNode_lawful : Lawful ipv4SrcMaskNode Ipv4SrcRep :=
  maskNode_lawful protoNode_lawful protoNode_lawful (delFlowMaskedAlways_deletesFrom protoNode_lawful)

theorem ipv4DstMaskNode_lawful : Lawful ipv4DstMaskNode Ipv4DstRep :=
  maskNode_lawful protoNode_lawful ipv4SrcMaskNode_lawful (delFlowMaskedAlways_deletesFrom protoNode_lawful)

theorem ethChild_lawful : Lawful ethChild EthChildRep where
  distinct {n L} h := by
    cases n with
    | ipv4 n => exact ipv4DstMaskNode_lawful.distinct h
    | ipv6 n => exact protoNode_lawful.distinct h
    | mpls n => exact mplsNode_lawful.distinct h
    | basic n => exact basicNode_lawful.distinct h
  new := basicNode_lawful.new
  add {n L f} h hf := by
    cases n with
    | ipv4 n => exact ipv4DstMaskNode_lawful.add h hf
    | ipv6 n => exact protoNode_lawful.add h hf
    | mpls n => exact mplsNode_lawful.add h hf
    | basic n => exact basicNode_lawful.add h hf
  del {n L f} h hf := by
    cases n with
    | ipv4 n => exact ipv4DstMaskNode_lawful.del h hf
    | ipv6 n => exact protoNode_lawful.del h hf
    | mpls n => exact mplsNode_lawful.del h hf
    | basic n => exact basicNode_lawful.del h hf
  find_none {n L f} h hnone := by
    cases n with
    | ipv4 n => exact ipv4DstMaskNode_lawful.find_none h hnone
    | ipv6 n => exact protoNode_lawful.find_none h hnone
    | mpls n => exact mplsNode_lawful.find_none h hnone
    | basic n => exact basicNode_lawful.find_none h hnone
  find_some {n L f g} h hsome := by
    cases n with
    | ipv4 n => exact ipv4DstMaskNode_lawful.find_some h hsome
    | ipv6 n => exact protoNode_lawful.find_some h hsome
    | mpls n => exact mplsNode_lawful.find_some h hsome
    | basic n => exact basicNode_lawful.find_some h hsome

theorem newEthChild_rep (t : BitVec 16) : EthChildRep (newEthChild t) [] := by
  unfold newEthChild
  split_ifs
  · exact ipv4DstMaskNode_lawful.new
  · exact protoNode_lawful.new
  · exact mplsNode_lawful.new
  · exact basicNode_lawful.new

theorem ethTypeNode_lawful : Lawful ethTypeNode EthTypeRep :=
  keyNode_lawful ethChild_lawful basicNode_lawful newEthChild_rep fun _ => rfl

theorem vlanVidNode_lawful : Lawful vlanVidNode VlanVidRep :=
  keyNode_lawful ethTypeNode_lawful ethTypeNode_lawful (fun _ => ethTypeNode_lawful.new) fun _ => rfl

theorem metadataMaskNode_lawful : Lawful metadataMaskNode MetadataRep :=
  maskNode_lawful ethTypeNode_lawful ethTypeNode_lawful (delFlowMasked_deletesFrom ethTypeNode_lawful)

/-! ## A table's index -/

/-- The index of a table holds the flows `L`. Before the first flow there is none; table 0 has its
own kind of root. -/
def IndexRep (tableId : Nat) : Option Index → List FlowHead → Prop
  | none, L => L = []
  | some (.vlanVid n), L => tableId = 0 ∧ VlanVidRep n L
  | some (.metadata n), L => tableId ≠ 0 ∧ MetadataRep n L

theorem IndexRep.new (tableId : Nat) : IndexRep tableId (some (Index.new tableId)) [] := by
  unfold Index.new
  split
  · rename_i h
    exact ⟨h, vlanVidNode_lawful.new⟩
  · rename_i h
    exact ⟨h, metadataMaskNode_lawful.new⟩

variable {tableId : Nat} {u : Option Index} (h : IndexRep tableId u L)

include h

theorem IndexRep.getD : IndexRep tableId (some (u.getD (Index.new tableId))) L := by
  cases u with
  | none =>
    rw [show L = [] from h]
    exact IndexRep.new tableId
  | some i => exact h

/-- **Adding a flow adds it, and nothing else, to the index.** -/
theorem index_add (hf : ∀ g ∈ L, g.id ≠ f.id) : IndexRep tableId (Index.addFlow tableId u f) (f :: L) := by
  have hroot := h.getD
  unfold Index.addFlow
  split
  · rename_i n hn
    rw [hn] at hroot
    exact ⟨hroot.1, vlanVidNode_lawful.add hroot.2 hf⟩
  · rename_i n hn
    rw [hn] at hroot
    exact ⟨hroot.1, metadataMaskNode_lawful.add hroot.2 hf⟩

/-- **Deleting a flow of the index deletes it, and nothing else.** -/
theorem index_del (hf : f ∈ L) : IndexRep tableId (Index.delFlow u f) (dropId f L) := by
  match u, h with
  | none, h =>
    rw [show L = [] from h] at hf
    cases hf
  | some (.vlanVid n), h => exact ⟨h.1, (vlanVidNode_lawful.del h.2 hf).1⟩
  | some (.metadata n), h => exact ⟨h.1, (metadataMaskNode_lawful.del h.2 hf).1⟩

/-- **`find_flow` finds an identical flow of the index, if there is one.** -/
theorem index_find : (∀ g, Index.findFlow u f = some g → g ∈ L ∧ flowCompare f g = true) ∧
      (Index.findFlow u f = none → ∀ g ∈ L, flowCompare f g = false) := by
  match u, h with
  | none, h =>
    rw [show L = [] from h]
    exact ⟨fun g hg => (by cases hg), fun _ g hg => (by cases hg)⟩
  | some (.vlanVid n), h =>
    exact ⟨fun g => vlanVidNode_lawful.find_some h.2, vlanVidNode_lawful.find_none h.2⟩
  | some (.metadata n), h =>
    exact ⟨fun g => metadataMaskNode_lawful.find_some h.2, metadataMaskNode_lawful.find_none h.2⟩

end Lagopus
