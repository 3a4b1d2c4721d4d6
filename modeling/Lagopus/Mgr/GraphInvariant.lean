import Lagopus.Mgr.ObjectGraph
import Lagopus.Lib.Trace

/-!
# Consistency of the dataplane's object graph

* `Consistent`: the two sides of every reference agree.  It is a statement about what the references
  say (`interfaceOf`, `portOf`, `slotOf`, `portAt`, …), not about the records that hold them.
* `Inv`: what a sequence of calls keeps besides.
* `Attachment.detach` and `Attachment.attach`, `numbered_detach`, `numbered_attach` and
  `numbered_free`: the changes of both sides at once that keep them in agreement.
* the calls on interfaces, and taking the interface of a port away.
-/

namespace Lagopus.Mgr

namespace Graph

open Hashmap Heap

/-! ## What the references say -/

section Views

variable (g : Graph)

/-- The interface of a port. -/
def interfaceOf (p : PortRef) : Option InterfaceRef := (g.ports.get p).bind (·.interface)

def ifindexOf (p : PortRef) : Option Nat := (g.ports.get p).map (·.ifindex)

/-- The bridge of a port and the port's number in it. -/
def slotOf (p : PortRef) : Option (BridgeRef × Nat) :=
  (g.ports.get p).bind fun port => port.bridge.map fun b => (b, port.portNo)

/-- The port of an interface. -/
def portOf (i : InterfaceRef) : Option PortRef := (g.interfaces.get i).bind (·.port)

def infoOf (i : InterfaceRef) : Option InterfaceInfo := (g.interfaces.get i).map (·.info)

/-- The port a bridge has under a number. -/
def portAt (b : BridgeRef) (n : Nat) : Option PortRef :=
  (g.bridges.get b).bind fun bridge => bridge.ports.lookup n

def dpidOf (b : BridgeRef) : Option Nat := (g.bridges.get b).map (·.dpid)

end Views

/-- The two sides of every reference agree, and no table has a destroyed object. -/
structure Consistent (g : Graph) : Prop where
  attached : ∀ p i, g.interfaceOf p = some i ↔ g.portOf i = some p
  physical : ∀ t k p, (g.portidHashmap t).lookup k = some p ↔
    ∃ i, g.interfaceOf p = some i ∧ g.infoOf i = some ⟨t, k⟩
  numbered : ∀ b n p, g.portAt b n = some p ↔ g.slotOf p = some (b, n)
  dpids : ∀ d b, g.dpidHashmap.lookup d = some b ↔
    (∃ name, g.bridgeHashmap.lookup name = some b) ∧ g.dpidOf b = some d
  interfaces : ∀ name i, g.interfaceHashmap.lookup name = some i → (g.interfaces.get i).isSome
  ports : ∀ name p, g.portHashmap.lookup name = some p → (g.ports.get p).isSome
  bridges : ∀ name b, g.bridgeHashmap.lookup name = some b → (g.bridges.get b).isSome

/-- What is kept besides: an object has one name, and an attached port remembers the number of its
interface. -/
structure Inv (g : Graph) : Prop extends Consistent g where
  interfaceNames : ∀ m n i, g.interfaceHashmap.lookup m = some i →
    g.interfaceHashmap.lookup n = some i → m = n
  portNames : ∀ m n p, g.portHashmap.lookup m = some p → g.portHashmap.lookup n = some p → m = n
  bridgeNames : ∀ m n b, g.bridgeHashmap.lookup m = some b →
    g.bridgeHashmap.lookup n = some b → m = n
  ifindex : ∀ p i info, g.interfaceOf p = some i → g.infoOf i = some info →
    g.ifindexOf p = some info.portNumber

theorem inv_init : Inv init where
  attached := by simp [init, interfaceOf, portOf]
  physical := by simp [init, interfaceOf]
  numbered := by simp [init, portAt, slotOf]
  dpids := by simp [init]
  interfaces := by simp [init]
  ports := by simp [init]
  bridges := by simp [init]
  interfaceNames := by simp [init]
  portNames := by simp [init]
  bridgeNames := by simp [init]
  ifindex := by simp [init, interfaceOf]

/-! ## Ports and their interfaces -/

section Attachment

variable {g g' : Graph}

theorem Inv.namedInterfaces (hg : Inv g) : Named g.interfaceHashmap g.interfaces :=
  ⟨hg.interfaces, hg.interfaceNames⟩

theorem Inv.namedPorts (hg : Inv g) : Named g.portHashmap g.ports := ⟨hg.ports, hg.portNames⟩

theorem Inv.namedBridges (hg : Inv g) : Named g.bridgeHashmap g.bridges :=
  ⟨hg.bridges, hg.bridgeNames⟩

variable {p : PortRef} {i : InterfaceRef} {info : InterfaceInfo}

theorem Consistent.lookup_portid (hg : Consistent g) (hp : g.interfaceOf p = some i)
    (hi : g.infoOf i = some info) : (g.portidHashmap info.type).lookup info.portNumber = some p :=
  (hg.physical _ _ p).2 ⟨i, hp, hi⟩

/-- The part of the invariant about ports and interfaces. -/
structure Attachment (g : Graph) : Prop where
  attached : ∀ p i, g.interfaceOf p = some i ↔ g.portOf i = some p
  physical : ∀ t k p, (g.portidHashmap t).lookup k = some p ↔
    ∃ i, g.interfaceOf p = some i ∧ g.infoOf i = some ⟨t, k⟩
  ifindex : ∀ p i info, g.interfaceOf p = some i → g.infoOf i = some info →
    g.ifindexOf p = some info.portNumber

theorem Inv.attachment (hg : Inv g) : Attachment g := ⟨hg.attached, hg.physical, hg.ifindex⟩

theorem Attachment.congr (hg : Attachment g) (hinterface : g'.interfaceOf = g.interfaceOf)
    (hport : g'.portOf = g.portOf) (hportid : g'.portidHashmap = g.portidHashmap)
    (hinfo : ∀ p i, g.interfaceOf p = some i → g'.infoOf i = g.infoOf i)
    (hifindex : ∀ p i, g.interfaceOf p = some i → g'.ifindexOf p = g.ifindexOf p) : Attachment g' := by
  refine ⟨?_, ?_, ?_⟩
  · rw [hinterface, hport]
    exact hg.attached
  · intro t k p
    rw [hportid, hg.physical t k p, hinterface]
    exact exists_congr fun i => and_congr_right fun hp => by rw [hinfo p i hp]
  · intro p i info hp hi
    rw [hinterface] at hp
    rw [hifindex p i hp]
    exact hg.ifindex p i info hp (hinfo p i hp ▸ hi)

theorem Attachment.detach (hg : Attachment g) (hp : g.interfaceOf p = some i) (hi : g.infoOf i = some info)
    (hinterface : ∀ q, g'.interfaceOf q = if q = p then none else g.interfaceOf q)
    (hport : ∀ j, g'.portOf j = if j = i then none else g.portOf j)
    (hportid : ∀ t k, (g'.portidHashmap t).lookup k = if t = info.type ∧ k = info.portNumber then none else (g.portidHashmap t).lookup k)
    (hinfo : ∀ j, j ≠ i → g'.infoOf j = g.infoOf j)
    (hifindex : ∀ q, q ≠ p → g'.ifindexOf q = g.ifindexOf q) : Attachment g' := by
  obtain ⟨hatt, hphys, hidx⟩ := hg
  have huniq : ∀ q, g.interfaceOf q = some i → q = p := by
    intro q hq
    have h1 := (hatt q i).1 hq
    have h2 := (hatt p i).1 hp
    exact Option.some.inj (h1.symm.trans h2)
  refine ⟨?_, ?_, ?_⟩
  · intro q j
    rw [hinterface, hport]
    have h1 := hatt q j
    have h2 := hatt p j
    grind
  · intro t k q
    rw [hportid, hinterface]
    have hk := hphys t k q
    have hown := (hphys info.type info.portNumber p).2 ⟨i, hp, hi⟩
    by_cases hqp : q = p
    · -- the port had only the one entry
      subst hqp
      grind
    · have : ∀ j, g.interfaceOf q = some j → g'.infoOf j = g.infoOf j := by
        intro j hj
        exact hinfo j (fun h => hqp (huniq q (h ▸ hj)))
      grind
  · intro q j jinfo hq hj
    rw [hinterface] at hq
    have hqp : q ≠ p := by rintro rfl; simp at hq
    rw [if_neg hqp] at hq
    have hji : j ≠ i := fun h => hqp (huniq q (h ▸ hq))
    rw [hifindex q hqp]
    exact hidx q j jinfo hq (hinfo j hji ▸ hj)

theorem Attachment.attach (hg : Attachment g) (hp : g.interfaceOf p = none) (hi : g.portOf i = none)
    (hfree : (g.portidHashmap info.type).lookup info.portNumber = none)
    (hinterface : ∀ q, g'.interfaceOf q = if q = p then some i else g.interfaceOf q)
    (hport : ∀ j, g'.portOf j = if j = i then some p else g.portOf j)
    (hportid : ∀ t k, (g'.portidHashmap t).lookup k = if t = info.type ∧ k = info.portNumber then some p else (g.portidHashmap t).lookup k)
    (hinfo : g'.infoOf = g.infoOf) (hget : g.infoOf i = some info)
    (hifindex : ∀ q, g'.ifindexOf q = if q = p then some info.portNumber else g.ifindexOf q) :
    Attachment g' := by
  obtain ⟨hatt, hphys, hidx⟩ := hg
  have hne : ∀ q, g.interfaceOf q ≠ some i := by
    intro q hq
    rw [(hatt q i).1 hq] at hi
    cases hi
  refine ⟨?_, ?_, ?_⟩
  · intro q j
    rw [hinterface, hport]
    have h1 := hatt q j
    have h2 := hatt p j
    grind
  · intro t k q
    rw [hportid, hinterface, hinfo]
    have hk := hphys t k q
    by_cases hqp : q = p
    · subst hqp
      have hown : (∃ j, some i = some j ∧ g.infoOf j = some ⟨t, k⟩) ↔
          t = info.type ∧ k = info.portNumber := by
        cases info
        simp [hget, eq_comm]
      rw [if_pos rfl, hown]
      simp [hp] at hk
      grind
    · rw [if_neg hqp, ← hk]
      grind
  · intro q j jinfo hq hj
    rw [hinfo] at hj
    rw [hinterface] at hq
    rw [hifindex]
    have := hidx q j jinfo
    grind

end Attachment

/-! ## Bridges and their ports -/

section Slots

variable {g g' : Graph} {b : BridgeRef}

/-- Ports and bridges agree on the numbers. -/
def Numbered (g : Graph) : Prop := ∀ b n p, g.portAt b n = some p ↔ g.slotOf p = some (b, n)

theorem numbered_detach (hg : Numbered g) {n : Nat} {p : PortRef} (hp : g.slotOf p = some (b, n))
    (hslot : ∀ q, g'.slotOf q = if q = p then none else g.slotOf q)
    (hport : ∀ c m, g'.portAt c m = if c = b ∧ m = n then none else g.portAt c m) : Numbered g' := by
  intro c m q
  rw [hslot, hport]
  have h1 := hg c m q
  have h2 := hg b n p
  grind

theorem numbered_attach (hg : Numbered g) {n : Nat} {p : PortRef} (hp : g.slotOf p = none) (hb : g.portAt b n = none)
    (hslot : ∀ q, g'.slotOf q = if q = p then some (b, n) else g.slotOf q)
    (hport : ∀ c m, g'.portAt c m = if c = b ∧ m = n then some p else g.portAt c m) : Numbered g' := by
  intro c m q
  rw [hslot, hport]
  have h1 := hg c m q
  grind

theorem numbered_free (hg : Numbered g) (hlost : ∀ q n, g.portAt b n = some q → g'.slotOf q = none)
    (hkept : ∀ q, (∀ n, g.portAt b n ≠ some q) → g'.slotOf q = g.slotOf q)
    (hport : ∀ c m, g'.portAt c m = if c = b then none else g.portAt c m) : Numbered g' := by
  intro c m q
  rw [hport]
  by_cases hq : ∃ n, g.portAt b n = some q
  · obtain ⟨n, hn⟩ := hq
    have hslot := (hg b n q).1 hn
    have := hg c m q
    rw [hlost q n hn]
    grind
  · push Not at hq
    have hcm := hg c m q
    rw [hkept q hq]
    grind

end Slots

/-! ## Interfaces -/

section Interfaces

variable {g : Graph} {i : InterfaceRef}

theorem interfaceOf_eq_some {p : PortRef} :
    g.interfaceOf p = some i ↔ ∃ port, g.ports.get p = some port ∧ port.interface = some i :=
  Option.bind_eq_some_iff

theorem portOf_eq_some {p : PortRef} :
    g.portOf i = some p ↔ ∃ ifp, g.interfaces.get i = some ifp ∧ ifp.port = some p :=
  Option.bind_eq_some_iff

theorem inv_interfaceCreate (hg : Inv g) (env : Env) (name : String) :
    Inv (g.dpInterfaceCreate env name).2 := by
  unfold dpInterfaceCreate
  split
  · exact hg
  split
  · have hnamed := hg.namedInterfaces.alloc name ⟨.zero, none⟩
    have hatt : Attachment { g with
        interfaces := g.interfaces.alloc ⟨.zero, none⟩
        interfaceHashmap := g.interfaceHashmap.insert name g.interfaces.next } := by
      refine hg.attachment.congr rfl ?_ rfl ?_ (fun _ _ _ => rfl)
      · exact funext fun i => g.interfaces.bind_get_alloc i rfl
      · intro p i hp
        obtain ⟨ifp, hifp, -⟩ := portOf_eq_some.1 ((hg.attached p i).1 hp)
        simp only [infoOf]
        rw [get_alloc_of_isSome (by simp [hifp])]
    exact { hatt, hg with
      interfaces := hnamed.live
      interfaceNames := hnamed.inj }
  · exact hg

/-- The information `dp_interface_info_set` leaves. -/
def infoAfter (env : Env) (old : InterfaceInfo) : Option InterfaceInfo → InterfaceInfo
  | none => if dpInterfaceUnconfigureInternal env old = .ok then .zero else old
  | some info =>
    if info.type.isSettable then (dpInterfaceConfigureInternal env info).2 else old

variable {ifp : Interface} (h : g.interfaces.get i = some ifp)

include h

theorem get_setInfo (info : InterfaceInfo) (j : InterfaceRef) : (g.setInfo i info).interfaces.get j =
      if j = i then some { ifp with info := info } else g.interfaces.get j :=
  get_modify_of_get h _ j

omit h in
theorem portOf_setInfo (i : InterfaceRef) (info : InterfaceInfo) : (g.setInfo i info).portOf = g.portOf :=
  funext fun j => g.interfaces.bind_get_modify i j fun _ => rfl

theorem infoOf_setInfo (info : InterfaceInfo) (j : InterfaceRef) :
    (g.setInfo i info).infoOf j = if j = i then some info else g.infoOf j := by
  simp only [infoOf, get_setInfo h]
  split <;> rfl

theorem setInfo_self : g.setInfo i ifp.info = g := by
  have hcells : Function.update g.interfaces.cells i
      ((g.interfaces.cells i).map fun ifp' => { ifp' with info := ifp.info }) =
      g.interfaces.cells := by
    have hi : g.interfaces.cells i = some ifp := h
    rw [hi, Option.map_some, ← hi, Function.update_eq_self]
  simp only [setInfo, Heap.modify, hcells]

omit h

theorem dpInterfaceInfoSet_of_found {env : Env} {name : String}
    (h : g.findInterface name = some (i, ifp)) (info : Option InterfaceInfo) :
    (g.dpInterfaceInfoSet env name info).2 = g.setInfo i (infoAfter env ifp.info info) := by
  have hself := setInfo_self (find_eq_some_iff.1 h).2
  simp only [dpInterfaceInfoSet, h]
  cases info with
  | none =>
    simp only [infoAfter]
    split
    · rfl
    · exact hself.symm
  | some info =>
    simp only [infoAfter]
    split
    · rfl
    · exact hself.symm

theorem inv_setInfo (hg : Inv g) (h : g.interfaces.get i = some ifp) {info : InterfaceInfo}
    (hinfo : ifp.port ≠ none → info = ifp.info) : Inv (g.setInfo i info) := by
  have hatt : Attachment (g.setInfo i info) := by
    refine hg.attachment.congr ?_ (portOf_setInfo i info) ?_ ?_ ?_
    · rfl
    · rfl
    · intro p j hp
      rw [infoOf_setInfo h]
      split
      · next hji =>
        subst hji
        obtain ⟨ifp', hifp', hport⟩ := portOf_eq_some.1 ((hg.attached p j).1 hp)
        cases h.symm.trans hifp'
        rw [hinfo (by simp [hport])]
        simp [infoOf, h]
      · rfl
    · intro p j hp
      rfl
  exact { hatt, hg with
    interfaces := by
      intro m j hm
      rw [setInfo, isSome_get_modify]
      exact hg.interfaces m j hm }

theorem consistent_setInfo_iff (hg : Inv g) (h : g.interfaces.get i = some ifp) (info : InterfaceInfo) :
    Consistent (g.setInfo i info) ↔ (ifp.port ≠ none → info = ifp.info) := by
  refine ⟨?_, fun hinfo => (inv_setInfo hg h hinfo).toConsistent⟩
  intro hc hport
  obtain ⟨p, hp⟩ := Option.ne_none_iff_exists'.1 hport
  have hip : g.interfaceOf p = some i := (hg.attached p i).2 (portOf_eq_some.2 ⟨ifp, h, hp⟩)
  -- the physical table still has the port under the old information
  have hiinfo : g.infoOf i = some ifp.info := by simp [infoOf, h]
  have hold := hg.lookup_portid hip hiinfo
  obtain ⟨j, hj, hinfo⟩ := (hc.physical _ _ p).1 hold
  have hji : j = i := Option.some.inj (hj.symm.trans hip)
  rw [hji, infoOf_setInfo h, if_pos rfl] at hinfo
  exact Option.some.inj hinfo

end Interfaces

/-! ## Taking the interface of a port away -/

section Unset

variable {g : Graph} {p : PortRef} {port : Port} {i : InterfaceRef} {ifp : Interface}

theorem unsetInternal_of_none (h : g.interfaceOf p = none) : g.dpPortInterfaceUnsetInternal p = g := by
  unfold dpPortInterfaceUnsetInternal
  split
  · rfl
  · next port hp =>
    have hnone : port.interface = none := by simpa [interfaceOf, hp] using h
    rw [hnone]

variable (hp : g.ports.get p = some port) (hi : port.interface = some i)
  (hifp : g.interfaces.get i = some ifp)

include hp hi hifp

theorem unsetInternal_of_some : g.dpPortInterfaceUnsetInternal p = { g with
      portidHashmap := Function.update g.portidHashmap ifp.info.type
        ((g.portidHashmap ifp.info.type).erase port.ifindex)
      interfaces := g.interfaces.modify i fun ifp => { ifp with port := none }
      ports := g.ports.modify p fun port => { port with interface := none } } := by
  simp only [dpPortInterfaceUnsetInternal, hp, hi, hifp]

theorem interfaceOf_unsetInternal (q : PortRef) :
    (g.dpPortInterfaceUnsetInternal p).interfaceOf q = if q = p then none else g.interfaceOf q := by
  rw [unsetInternal_of_some hp hi hifp]
  simp only [interfaceOf, get_modify_of_get hp]
  split <;> rfl

theorem portOf_unsetInternal (j : InterfaceRef) :
    (g.dpPortInterfaceUnsetInternal p).portOf j = if j = i then none else g.portOf j := by
  rw [unsetInternal_of_some hp hi hifp]
  simp only [portOf, get_modify_of_get hifp]
  split <;> rfl

theorem portid_unsetInternal (t : InterfaceType) (k : Nat) :
    ((g.dpPortInterfaceUnsetInternal p).portidHashmap t).lookup k =
      if t = ifp.info.type ∧ k = port.ifindex then none else (g.portidHashmap t).lookup k := by
  rw [unsetInternal_of_some hp hi hifp]
  by_cases ht : t = ifp.info.type
  · subst ht
    simp [lookup_erase_ite]
  · simp [ht]

theorem infoOf_unsetInternal : (g.dpPortInterfaceUnsetInternal p).infoOf = g.infoOf := by
  rw [unsetInternal_of_some hp hi hifp]
  exact funext fun j => g.interfaces.map_get_modify i j fun _ => rfl

theorem ifindexOf_unsetInternal : (g.dpPortInterfaceUnsetInternal p).ifindexOf = g.ifindexOf := by
  rw [unsetInternal_of_some hp hi hifp]
  exact funext fun q => g.ports.map_get_modify p q fun _ => rfl

theorem slotOf_unsetInternal : (g.dpPortInterfaceUnsetInternal p).slotOf = g.slotOf := by
  rw [unsetInternal_of_some hp hi hifp]
  exact funext fun q => g.ports.bind_get_modify p q fun _ => rfl

end Unset

section Unset

variable {g : Graph}

theorem Inv.exists_of_interfaceOf (hg : Inv g) {p : PortRef} {i : InterfaceRef}
    (h : g.interfaceOf p = some i) : ∃ port ifp, g.ports.get p = some port ∧ port.interface = some i ∧
      g.interfaces.get i = some ifp ∧ ifp.port = some p ∧ port.ifindex = ifp.info.portNumber := by
  obtain ⟨port, hp, hi⟩ := interfaceOf_eq_some.1 h
  obtain ⟨ifp, hifp, hport⟩ := portOf_eq_some.1 ((hg.attached p i).1 h)
  have hidx := hg.ifindex p i ifp.info h (by simp [infoOf, hifp])
  refine ⟨port, ifp, hp, hi, hifp, hport, ?_⟩
  simpa [ifindexOf, hp] using hidx

theorem inv_unsetInternal (hg : Inv g) (p : PortRef) : Inv (g.dpPortInterfaceUnsetInternal p) := by
  cases h : g.interfaceOf p with
  | none =>
    rw [unsetInternal_of_none h]
    exact hg
  | some i =>
    obtain ⟨port, ifp, hp, hi, hifp, -, hidx⟩ := hg.exists_of_interfaceOf h
    have hatt : Attachment (g.dpPortInterfaceUnsetInternal p) := by
      have hinfo : g.infoOf i = some ifp.info := by simp [infoOf, hifp]
      refine hg.attachment.detach h hinfo
        (interfaceOf_unsetInternal hp hi hifp) (portOf_unsetInternal hp hi hifp)
        ?_ ?_ ?_
      · rw [← hidx]
        exact portid_unsetInternal hp hi hifp
      · intro j _
        rw [infoOf_unsetInternal hp hi hifp]
      · intro q _
        rw [ifindexOf_unsetInternal hp hi hifp]
    have hslot := slotOf_unsetInternal hp hi hifp
    have heq := unsetInternal_of_some hp hi hifp
    exact { hatt with
      numbered := by
        rw [hslot]
        have hportAt : (g.dpPortInterfaceUnsetInternal p).portAt = g.portAt := by rw [heq]; rfl
        rw [hportAt]
        exact hg.numbered
      dpids := by rw [heq]; exact hg.dpids
      interfaces := by simpa only [heq, isSome_get_modify] using hg.interfaces
      ports := by simpa only [heq, isSome_get_modify] using hg.ports
      bridges := by rw [heq]; exact hg.bridges
      interfaceNames := by rw [heq]; exact hg.interfaceNames
      portNames := by rw [heq]; exact hg.portNames
      bridgeNames := by rw [heq]; exact hg.bridgeNames }

end Unset

/-! ## Destroying an interface -/

section InterfaceDestroy

variable {g : Graph} {name : String} {i : InterfaceRef} {ifp : Interface} {env : Env}
  (j : InterfaceRef)

theorem get_removeInterface : (g.removeInterface name i).interfaces.get j =
      if j = i then none else g.interfaces.get j :=
  get_free _ _ _

theorem portOf_removeInterface :
    (g.removeInterface name i).portOf j = if j = i then none else g.portOf j := by
  simp only [portOf, get_removeInterface]
  split <;> rfl

theorem infoOf_removeInterface :
    (g.removeInterface name i).infoOf j = if j = i then none else g.infoOf j := by
  simp only [infoOf, get_removeInterface]
  split <;> rfl

/-- A graph that differs from a good one in its attachments, and in a live interface gone from its
table with its name. -/
theorem inv_removeInterface (hg : Inv g) {g' : Graph} (hatt : Attachment (g'.removeInterface name i))
    (hname : g.interfaceHashmap.lookup name = some i)
    (hinterfaces : g'.interfaceHashmap = g.interfaceHashmap)
    (hlive : ∀ j, (g'.interfaces.get j).isSome = (g.interfaces.get j).isSome)
    (hports : g'.portHashmap = g.portHashmap)
    (hportslive : ∀ q, (g'.ports.get q).isSome = (g.ports.get q).isSome)
    (hslot : g'.slotOf = g.slotOf) (hbridges : g'.bridges = g.bridges)
    (hnames : g'.bridgeHashmap = g.bridgeHashmap) (hdpids : g'.dpidHashmap = g.dpidHashmap) :
    Inv (g'.removeInterface name i) := by
  have hnamed : Named (g'.interfaceHashmap.erase name) (g'.interfaces.free i) := by
    rw [hinterfaces]
    refine hg.namedInterfaces.erase hname fun j hj => ?_
    rw [get_free, if_neg hj, hlive]
  exact { hatt with
    numbered := by
      intro b n q
      change _ ↔ g'.slotOf q = some (b, n)
      rw [hslot, ← hg.numbered b n q]
      simp only [portAt, removeInterface, hbridges]
    dpids := by simpa only [removeInterface, dpidOf, hdpids, hnames, hbridges] using hg.dpids
    interfaces := hnamed.live
    ports := by simpa only [removeInterface, hports, hportslive] using hg.ports
    bridges := by simpa only [removeInterface, hnames, hbridges] using hg.bridges
    interfaceNames := hnamed.inj
    portNames := by simpa only [removeInterface, hports] using hg.portNames
    bridgeNames := by simpa only [removeInterface, hnames] using hg.bridgeNames }

variable {p : PortRef}

theorem exists_attached (hg : Inv g) (hifp : g.interfaces.get i = some ifp) (hport : ifp.port = some p) :
    g.interfaceOf p = some i ∧ ∃ port, g.ports.get p = some port ∧ port.interface = some i ∧
      port.ifindex = ifp.info.portNumber := by
  have hip : g.interfaceOf p = some i := (hg.attached p i).2 (portOf_eq_some.2 ⟨ifp, hifp, hport⟩)
  obtain ⟨port, ifp', hp, hi, hifp', -, hidx⟩ := hg.exists_of_interfaceOf hip
  cases hifp.symm.trans hifp'
  exact ⟨hip, port, hp, hi, hidx⟩

variable (h : g.findInterface name = some (i, ifp))

include h

theorem dpInterfaceDestroy_of_free (hstop : dpInterfaceStopInternal env ifp.info = .ok)
    (hun : dpInterfaceUnconfigureInternal env ifp.info = .ok) (hport : ifp.port = none) :
    (g.dpInterfaceDestroy env name).2 = (g.setInfo i .zero).removeInterface name i := by
  simp [dpInterfaceDestroy, dpInterfaceInfoSet, h, hstop, hun, hport]

theorem dpInterfaceDestroy_of_attached (hstop : dpInterfaceStopInternal env ifp.info = .ok)
    (hun : dpInterfaceUnconfigureInternal env ifp.info = .ok) {p : PortRef} (hport : ifp.port = some p) :
    (g.dpInterfaceDestroy env name).2 =
      ((g.setInfo i .zero).dpPortInterfaceUnsetInternal p).removeInterface name i := by
  simp [dpInterfaceDestroy, dpInterfaceInfoSet, h, hstop, hun, hport]

theorem dpInterfaceDestroy_of_refused (hrefused : ¬ (dpInterfaceStopInternal env ifp.info = .ok ∧
      dpInterfaceUnconfigureInternal env ifp.info = .ok)) :
    (g.dpInterfaceDestroy env name).2 = g := by
  simp only [dpInterfaceDestroy, dpInterfaceInfoSet, h]
  grind

theorem inv_interfaceDestroy_free (hg : Inv g) (hport : ifp.port = none) :
    Inv ((g.setInfo i .zero).removeInterface name i) := by
  obtain ⟨hname, hifp⟩ := find_eq_some_iff.1 h
  have hfree : g.portOf i = none := by simp [portOf, hifp, hport]
  refine inv_removeInterface hg ?_ hname rfl ?_ rfl (fun _ => rfl) rfl rfl rfl rfl
  · refine hg.attachment.congr rfl ?_ rfl ?_ (fun _ _ _ => rfl)
    · funext j
      rw [portOf_removeInterface, portOf_setInfo]
      grind
    · intro p j hp
      have hji : j ≠ i := by
        rintro rfl
        rw [(hg.attached p j).1 hp] at hfree
        cases hfree
      rw [infoOf_removeInterface, if_neg hji, infoOf_setInfo hifp, if_neg hji]
  · exact g.interfaces.isSome_get_modify i _

/-- An attached interface of unknown type can go: its port is found in the table it is looked for. -/
theorem inv_interfaceDestroy_unknown (hg : Inv g)
    (hport : ifp.port = some p) (htype : ifp.info.type = .unknown) :
    Inv (((g.setInfo i .zero).dpPortInterfaceUnsetInternal p).removeInterface name i) := by
  obtain ⟨hname, hifp⟩ := find_eq_some_iff.1 h
  obtain ⟨hip, port, hp, hi, hidx⟩ := exists_attached hg hifp hport
  have hp' : (g.setInfo i .zero).ports.get p = some port := hp
  have hifp' : (g.setInfo i .zero).interfaces.get i = some { ifp with info := .zero } := by
    rw [get_setInfo hifp, if_pos rfl]
  have hinfo : g.infoOf i = some ifp.info := by simp [infoOf, hifp]
  have heq := unsetInternal_of_some hp' hi hifp'
  refine inv_removeInterface hg ?_ hname ?_ ?_ ?_ ?_ ?_ ?_ ?_ ?_
  · refine hg.attachment.detach hip hinfo ?_ ?_ ?_ ?_ ?_
    · exact interfaceOf_unsetInternal hp' hi hifp'
    · intro j
      rw [portOf_removeInterface, portOf_unsetInternal hp' hi hifp', portOf_setInfo]
      grind
    · intro t k
      rw [htype, ← hidx]
      exact portid_unsetInternal hp' hi hifp' t k
    · intro j hji
      rw [infoOf_removeInterface, if_neg hji, infoOf_unsetInternal hp' hi hifp',
        infoOf_setInfo hifp, if_neg hji]
    · intro q _
      exact congrFun (ifindexOf_unsetInternal hp' hi hifp') q
  · rw [heq]; rfl
  · rw [heq]
    simp [setInfo]
  · rw [heq]; rfl
  · rw [heq]
    simp [setInfo]
  · rw [slotOf_unsetInternal hp' hi hifp']
    rfl
  · rw [heq]; rfl
  · rw [heq]; rfl
  · rw [heq]; rfl

/-- An attached interface of any other type leaves its port in the table of that type. -/
theorem not_consistent_interfaceDestroy (hg : Inv g)
    (hport : ifp.port = some p) (htype : ifp.info.type ≠ .unknown) :
    ¬ Consistent (((g.setInfo i .zero).dpPortInterfaceUnsetInternal p).removeInterface name i) := by
  intro hc
  obtain ⟨-, hifp⟩ := find_eq_some_iff.1 h
  obtain ⟨hip, port, hp, hi, -⟩ := exists_attached hg hifp hport
  have hp' : (g.setInfo i .zero).ports.get p = some port := hp
  have hifp' : (g.setInfo i .zero).interfaces.get i = some { ifp with info := .zero } := by
    rw [get_setInfo hifp, if_pos rfl]
  have hinfo : g.infoOf i = some ifp.info := by simp [infoOf, hifp]
  have hold := hg.lookup_portid hip hinfo
  have hkept := portid_unsetInternal hp' hi hifp' ifp.info.type ifp.info.portNumber
  rw [if_neg (fun hcond => htype hcond.1)] at hkept
  obtain ⟨j, hj, -⟩ := (hc.physical _ _ p).1 (hkept.trans hold)
  have hgone := interfaceOf_unsetInternal hp' hi hifp' p
  rw [if_pos rfl] at hgone
  cases hgone.symm.trans hj

end InterfaceDestroy

end Graph
end Lagopus.Mgr
