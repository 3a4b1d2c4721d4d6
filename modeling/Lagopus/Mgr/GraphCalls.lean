import Lagopus.Mgr.GraphInvariant

/-!
# Which calls keep the dataplane's object graph consistent

* the calls on ports and on bridges;
* `Graph.Keeps`: the condition of each call, in the graph it finds;
* `inv_call` and `keeps_of_consistent`: in a graph that satisfies the invariant the condition is
  sufficient and necessary;
* `consistent_iff_keeps`: so it is along a whole sequence of calls.
-/

namespace Lagopus.Mgr

namespace Graph

open Hashmap Option Heap

variable {g : Graph} {env : Env}

/-! ## Ports -/

section Ports

variable {name ifname : String} {p : PortRef} {port : Port} {i : InterfaceRef} {ifp : Interface}

theorem inv_portCreate (hg : Inv g) (env : Env) (name : String) : Inv (g.dpPortCreate env name).2 := by
  unfold dpPortCreate
  split
  · exact hg
  split
  · set g' : Graph := { g with
      ports := g.ports.alloc ⟨none, 0, none, 0⟩
      portHashmap := g.portHashmap.insert name g.ports.next } with hg'
    have hnamed := hg.namedPorts.alloc name ⟨none, 0, none, 0⟩
    have hslot : g'.slotOf = g.slotOf := funext fun q => g.ports.bind_get_alloc q rfl
    have hatt : Attachment g' := by
      refine hg.attachment.congr ?_ rfl rfl (fun _ _ _ => rfl) ?_
      · exact funext fun q => g.ports.bind_get_alloc q rfl
      · intro q j hq
        obtain ⟨port, hport, -⟩ := interfaceOf_eq_some.1 hq
        simp only [hg', ifindexOf]
        rw [get_alloc_of_isSome (by simp [hport])]
    exact { hatt, hg with
      numbered := by
        rw [hslot]
        exact hg.numbered
      ports := hnamed.live
      portNames := hnamed.inj }
  · exact hg

/-! ### Giving a port an interface -/

/-- The graph `dp_port_interface_set` leaves. -/
def attachInterface (g : Graph) (p : PortRef) (i : InterfaceRef) (info : InterfaceInfo) : Graph :=
  { g with
    ports := g.ports.modify p fun port =>
      { port with interface := some i, ifindex := info.portNumber }
    interfaces := g.interfaces.modify i fun ifp => { ifp with port := some p }
    portidHashmap := Function.update g.portidHashmap info.type
      ((g.portidHashmap info.type).insert info.portNumber p) }

theorem dpPortInterfaceSet_of_found (hp : g.findPort name = some (p, port))
    (hi : g.findInterface ifname = some (i, ifp)) :
    (g.dpPortInterfaceSet env name ifname).2 = g.attachInterface p i ifp.info := by
  simp [dpPortInterfaceSet, hp, hi, attachInterface]

section Attach

variable (hp : g.ports.get p = some port) (hi : g.interfaces.get i = some ifp) (info : InterfaceInfo)

include hp in
theorem interfaceOf_attachInterface (q : PortRef) :
    (g.attachInterface p i info).interfaceOf q = if q = p then some i else g.interfaceOf q := by
  simp only [interfaceOf, attachInterface, get_modify_of_get hp]
  split <;> rfl

include hp in
theorem ifindexOf_attachInterface (q : PortRef) : (g.attachInterface p i info).ifindexOf q =
      if q = p then some info.portNumber else g.ifindexOf q := by
  simp only [ifindexOf, attachInterface, get_modify_of_get hp]
  split <;> rfl

include hi in
theorem portOf_attachInterface (j : InterfaceRef) :
    (g.attachInterface p i info).portOf j = if j = i then some p else g.portOf j := by
  simp only [portOf, attachInterface, get_modify_of_get hi]
  split <;> rfl

theorem infoOf_attachInterface : (g.attachInterface p i info).infoOf = g.infoOf :=
  funext fun j => g.interfaces.map_get_modify i j fun _ => rfl

theorem slotOf_attachInterface : (g.attachInterface p i info).slotOf = g.slotOf :=
  funext fun q => g.ports.bind_get_modify p q fun _ => rfl

theorem portid_attachInterface (t : InterfaceType) (k : Nat) :
    ((g.attachInterface p i info).portidHashmap t).lookup k =
      if t = info.type ∧ k = info.portNumber then some p else (g.portidHashmap t).lookup k := by
  by_cases ht : t = info.type
  · subst ht
    simp [attachInterface, lookup_insert_ite]
  · simp [attachInterface, ht]

end Attach

theorem inv_attachInterface (hg : Inv g) {info : InterfaceInfo}
    (hatt : Attachment (g.attachInterface p i info)) : Inv (g.attachInterface p i info) :=
  { hatt, hg with
    numbered := by
      rw [slotOf_attachInterface]
      exact hg.numbered
    interfaces := by simpa only [attachInterface, isSome_get_modify] using hg.interfaces
    ports := by simpa only [attachInterface, isSome_get_modify] using hg.ports }

theorem attachment_attachInterface (hg : Inv g) (hp : g.ports.get p = some port)
    (hi : g.interfaces.get i = some ifp)
    (h : port.interface = some i ∨ (port.interface = none ∧ ifp.port = none ∧
      (g.portidHashmap ifp.info.type).lookup ifp.info.portNumber = none)) :
    Attachment (g.attachInterface p i ifp.info) := by
  have hinfo : g.infoOf i = some ifp.info := by simp [infoOf, hi]
  have hinterface : g.interfaceOf p = port.interface := by simp [interfaceOf, hp]
  have hport : g.portOf i = ifp.port := by simp [portOf, hi]
  rcases h with hsame | ⟨hfreeport, hfree, hnumber⟩
  · -- every write repeats what is there
    have hip := hinterface.trans hsame
    have hpi := (hg.attached p i).1 hip
    have hown := hg.lookup_portid hip hinfo
    have hidx := hg.ifindex p i _ hip hinfo
    refine ⟨?_, ?_, ?_⟩
    · intro q j
      rw [interfaceOf_attachInterface hp, portOf_attachInterface hi]
      have := hg.attached q j
      grind
    · intro t k q
      rw [portid_attachInterface, interfaceOf_attachInterface hp, infoOf_attachInterface]
      have := hg.physical t k q
      grind
    · intro q j jinfo hq hj
      rw [interfaceOf_attachInterface hp] at hq
      rw [infoOf_attachInterface] at hj
      rw [ifindexOf_attachInterface hp]
      have := hg.ifindex q j jinfo
      grind
  · exact hg.attachment.attach (hinterface.trans hfreeport) (hport.trans hfree) hnumber
      (interfaceOf_attachInterface hp _) (portOf_attachInterface hi _)
      (portid_attachInterface _) (infoOf_attachInterface _) hinfo
      (ifindexOf_attachInterface hp _)

theorem consistent_attachInterface_iff (hg : Inv g) (hp : g.ports.get p = some port)
    (hi : g.interfaces.get i = some ifp) : Consistent (g.attachInterface p i ifp.info) ↔
      port.interface = some i ∨ (port.interface = none ∧ ifp.port = none ∧
        (g.portidHashmap ifp.info.type).lookup ifp.info.portNumber = none) := by
  have hinfo : g.infoOf i = some ifp.info := by simp [infoOf, hi]
  have hinterface : g.interfaceOf p = port.interface := by simp [interfaceOf, hp]
  have hport : g.portOf i = ifp.port := by simp [portOf, hi]
  refine ⟨?_, fun h => (inv_attachInterface hg (attachment_attachInterface hg hp hi h)).toConsistent⟩
  intro hc
  have hatt := hc.attached
  simp only [interfaceOf_attachInterface hp, portOf_attachInterface hi] at hatt
  cases hold : port.interface with
  | some j =>
    -- the former interface would keep the port
    refine .inl ?_
    have h1 := (hg.attached p j).1 (hinterface.trans hold)
    have h2 := hatt p j
    grind
  | none =>
    refine .inr ⟨rfl, ?_, ?_⟩
    · -- the former port would keep the interface
      by_contra hne
      obtain ⟨q, hq⟩ := ne_none_iff_exists'.1 hne
      have h1 := (hg.attached q i).2 (hport.trans hq)
      have h2 := hatt q i
      have h3 : q ≠ p := by
        rintro rfl
        rw [hinterface, hold] at h1
        cases h1
      grind
    · -- the former holder of the number would not be found any more
      by_contra hne
      obtain ⟨q, hq⟩ := ne_none_iff_exists'.1 hne
      obtain ⟨j, hqj, hj⟩ := (hg.physical _ _ q).1 hq
      have hqp : q ≠ p := by
        rintro rfl
        rw [hinterface, hold] at hqj
        cases hqj
      have hafter : ∃ j, (g.attachInterface p i ifp.info).interfaceOf q = some j ∧
          (g.attachInterface p i ifp.info).infoOf j =
            some ⟨ifp.info.type, ifp.info.portNumber⟩ := by
        refine ⟨j, ?_, ?_⟩
        · rw [interfaceOf_attachInterface hp, if_neg hqp]
          exact hqj
        · rw [infoOf_attachInterface]
          exact hj
      have hlook := (hc.physical _ _ q).2 hafter
      rw [portid_attachInterface, if_pos ⟨rfl, rfl⟩] at hlook
      exact hqp (Option.some.inj hlook).symm

/-! ### Destroying a port -/

theorem get_removePort (q : PortRef) :
    (g.removePort name p).ports.get q = if q = p then none else g.ports.get q :=
  get_free _ _ _

theorem interfaceOf_removePort (hfree : g.interfaceOf p = none) :
    (g.removePort name p).interfaceOf = g.interfaceOf := by
  funext q
  simp only [interfaceOf, get_removePort]
  split
  · next h =>
    subst h
    exact hfree.symm
  · rfl

theorem slotOf_removePort (q : PortRef) :
    (g.removePort name p).slotOf q = if q = p then none else g.slotOf q := by
  simp only [slotOf, get_removePort]
  split <;> rfl

theorem inv_removePort (hg : Inv g) (hname : g.portHashmap.lookup name = some p)
    (hfree : g.interfaceOf p = none) (hslot : g.slotOf p = none) : Inv (g.removePort name p) := by
  have hatt : Attachment (g.removePort name p) := by
    refine hg.attachment.congr (interfaceOf_removePort hfree) rfl rfl (fun _ _ _ => rfl) ?_
    intro q i hq
    have hqp : q ≠ p := by
      rintro rfl
      rw [hfree] at hq
      cases hq
    simp [ifindexOf, get_removePort, if_neg hqp]
  have hnamed : Named (g.portHashmap.erase name) (g.ports.free p) :=
    hg.namedPorts.erase hname fun q hq => by rw [get_free, if_neg hq]
  exact { hatt, hg with
    numbered := by
      have hsame : (g.removePort name p).slotOf = g.slotOf := by
        funext q
        rw [slotOf_removePort]
        grind
      rw [hsame]
      exact hg.numbered
    ports := hnamed.live
    portNames := hnamed.inj }

theorem consistent_removePort_iff (hg : Inv g) (hname : g.portHashmap.lookup name = some p)
    (hfree : g.interfaceOf p = none) : Consistent (g.removePort name p) ↔ g.slotOf p = none := by
  refine ⟨?_, fun h => (inv_removePort hg hname hfree h).toConsistent⟩
  intro hc
  by_contra hne
  obtain ⟨⟨b, n⟩, hslot⟩ := ne_none_iff_exists'.1 hne
  -- the bridge's table still has the port
  have hkept := (hc.numbered b n p).1 ((hg.numbered b n p).2 hslot)
  rw [slotOf_removePort, if_pos rfl] at hkept
  cases hkept

theorem interfaceOf_unsetInternal_self (hg : Inv g) (p : PortRef) :
    (g.dpPortInterfaceUnsetInternal p).interfaceOf p = none := by
  cases h : g.interfaceOf p with
  | none => rw [unsetInternal_of_none h, h]
  | some i =>
    obtain ⟨port, ifp, hp, hi, hifp, -, -⟩ := hg.exists_of_interfaceOf h
    rw [interfaceOf_unsetInternal hp hi hifp, if_pos rfl]

theorem slotOf_unsetInternal_self (hg : Inv g) (p : PortRef) :
    (g.dpPortInterfaceUnsetInternal p).slotOf = g.slotOf := by
  cases h : g.interfaceOf p with
  | none => rw [unsetInternal_of_none h]
  | some i =>
    obtain ⟨port, ifp, hp, hi, hifp, -, -⟩ := hg.exists_of_interfaceOf h
    exact slotOf_unsetInternal hp hi hifp

theorem portHashmap_unsetInternal (p : PortRef) :
    (g.dpPortInterfaceUnsetInternal p).portHashmap = g.portHashmap := by
  unfold dpPortInterfaceUnsetInternal
  split
  · rfl
  split
  · rfl
  split <;> rfl

end Ports

/-! ## Bridges -/

section Bridges

variable {name portName : String} {b : BridgeRef} {bridge : Bridge} {p : PortRef} {port : Port}

theorem get_bridges_alloc (a : Bridge) (c : BridgeRef) :
    ({ g with bridges := g.bridges.alloc a } : Graph).bridges.get c =
      if c = g.bridges.next then some a else g.bridges.get c :=
  get_alloc _ _ _

theorem inv_bridgeAlloc (hg : Inv g) (dpid : Nat) :
    Inv { g with bridges := g.bridges.alloc ⟨dpid, ∅⟩ } := by
  set g' : Graph := { g with bridges := g.bridges.alloc ⟨dpid, ∅⟩ } with hg'
  have hget : ∀ m c, g.bridgeHashmap.lookup m = some c → g'.bridges.get c = g.bridges.get c :=
    fun m c hm => get_alloc_of_isSome (hg.bridges m c hm) _
  have hport : g'.portAt = g.portAt := by
    funext c n
    exact g.bridges.bind_get_alloc c rfl
  exact { hg with
    numbered := by
      rw [hport]
      exact hg.numbered
    dpids := by
      intro d c
      rw [hg.dpids d c]
      apply and_congr_right
      rintro ⟨m, hm⟩
      simp [dpidOf, hget m c hm]
    bridges := by
      intro m c hm
      rw [hget m c hm]
      exact hg.bridges m c hm }

/-- The name and the datapath id of a new bridge. -/
def nameBridge (g : Graph) (name : String) (b : BridgeRef) : Graph :=
  { g with bridgeHashmap := g.bridgeHashmap.insert name b }

theorem inv_nameBridge (hg : Inv g) (hname : g.bridgeHashmap.lookup name = none)
    (hb : g.bridges.get b = some bridge) (hnew : ∀ m, g.bridgeHashmap.lookup m ≠ some b)
    (hfree : g.dpidHashmap.lookup bridge.dpid = none) :
    Inv { g.nameBridge name b with dpidHashmap := g.dpidHashmap.insert bridge.dpid b } := by
  have hnamed := hg.namedBridges.insert (by simp [hb]) hnew name
  exact { hg with
    dpids := by
      intro d c
      have hdc := hg.dpids d c
      have hbdpid : g.dpidOf b = some bridge.dpid := by simp [dpidOf, hb]
      simp only [nameBridge, lookup_insert_ite]
      change _ ↔ _ ∧ g.dpidOf c = some d
      by_cases hcb : c = b
      · subst hcb
        have hnamed : ∃ m, (if m = name then some c else g.bridgeHashmap.lookup m) = some c :=
          ⟨name, if_pos rfl⟩
        have hno : g.dpidHashmap.lookup d ≠ some c := fun h => by
          obtain ⟨⟨m, hm⟩, -⟩ := hdc.1 h
          exact hnew m hm
        grind
      · have hnamed : (∃ m, (if m = name then some b else g.bridgeHashmap.lookup m) = some c) ↔
            ∃ m, g.bridgeHashmap.lookup m = some c := by
          refine exists_congr fun m => ?_
          grind
        grind
    bridges := hnamed.live
    bridgeNames := hnamed.inj }

theorem not_consistent_nameBridge (hb : g.bridges.get b = some bridge)
    (htaken : g.dpidHashmap.lookup bridge.dpid ≠ some b) : ¬ Consistent (g.nameBridge name b) := by
  intro hc
  apply htaken
  refine (hc.dpids _ _).2 ⟨⟨name, ?_⟩, ?_⟩
  · simp [nameBridge]
  · change g.dpidOf b = _
    simp [dpidOf, hb]

/-! ### Ports of a bridge -/

theorem Inv.of_slots (hg : Inv g) {bridges : Heap Bridge} {ports : Heap Port}
    (hdpid : ∀ c, (bridges.get c).map (·.dpid) = (g.bridges.get c).map (·.dpid))
    (hinterface : ∀ q, (ports.get q).bind (·.interface) = g.interfaceOf q)
    (hifindex : ∀ q, (ports.get q).map (·.ifindex) = g.ifindexOf q)
    (hnumbered : Numbered { g with bridges := bridges, ports := ports }) :
    Inv { g with bridges := bridges, ports := ports } := by
  have hatt : Attachment { g with bridges := bridges, ports := ports } :=
    hg.attachment.congr (funext hinterface) rfl rfl (fun _ _ _ => rfl) (fun q _ _ => hifindex q)
  exact { hatt, hg with
    numbered := hnumbered
    dpids := by
      intro d c
      rw [hg.dpids d c]
      simp [dpidOf, hdpid]
    ports := by
      intro m q hm
      have h := congrArg Option.isSome (hifindex q)
      simp only [ifindexOf, isSome_map] at h
      exact h.trans (hg.ports m q hm)
    bridges := by
      intro m c hm
      have h := congrArg Option.isSome (hdpid c)
      simp only [isSome_map] at h
      exact h.trans (hg.bridges m c hm) }

theorem slotOf_detach (n : Nat) (q : PortRef) :
    (g.detach b n p).slotOf q = if q = p then none else g.slotOf q := by
  simp only [slotOf, detach, get_modify]
  split
  · cases g.ports.get q <;> rfl
  · rfl

theorem portAt_detach (n : Nat) (c : BridgeRef) (m : Nat) :
    (g.detach b n p).portAt c m = if c = b ∧ m = n then none else g.portAt c m := by
  simp only [portAt, detach, get_modify]
  by_cases hc : c = b
  · subst hc
    cases g.bridges.get c with
    | none => simp
    | some br => simp [lookup_erase_ite]
  · simp [hc]

variable (hg : Inv g)

include hg

theorem inv_detach {n : Nat} (hnumbered : Numbered (g.detach b n p)) : Inv (g.detach b n p) := by
  refine hg.of_slots (fun c => ?_) (fun q => ?_) (fun q => ?_) hnumbered
  · exact g.bridges.map_get_modify b c fun _ => rfl
  · exact g.ports.bind_get_modify p q fun _ => rfl
  · exact g.ports.map_get_modify p q fun _ => rfl

/-- The port is one of the bridge under its number, or it has no bridge and its number is free. -/
theorem numbered_detach_self (hb : g.bridges.get b = some bridge) (hp : g.ports.get p = some port)
    (h : port.bridge = some b ∨ (port.bridge = none ∧ bridge.ports.lookup port.portNo = none)) :
    Numbered (g.detach b port.portNo p) := by
  rcases h with hown | ⟨hnone, hfree⟩
  · have hslot : g.slotOf p = some (b, port.portNo) := by simp [slotOf, hp, hown]
    exact numbered_detach hg.numbered hslot (slotOf_detach _) (portAt_detach _)
  · have hslot : g.slotOf p = none := by simp [slotOf, hp, hnone]
    have hport : g.portAt b port.portNo = none := by simp [portAt, hb, hfree]
    intro c m q
    rw [portAt_detach, slotOf_detach]
    have := hg.numbered c m q
    grind

theorem consistent_detach_iff (hb : g.bridges.get b = some bridge) (hp : g.ports.get p = some port) :
    Consistent (g.detach b port.portNo p) ↔
      port.bridge = some b ∨ (port.bridge = none ∧ bridge.ports.lookup port.portNo = none) := by
  refine ⟨?_, fun h => (inv_detach hg (numbered_detach_self hg hb hp h)).toConsistent⟩
  intro hc
  have hnum := hc.numbered
  simp only [portAt_detach, slotOf_detach] at hnum
  cases hown : port.bridge with
  | some c =>
    -- another bridge would keep the port
    refine .inl ?_
    have hslot : g.slotOf p = some (c, port.portNo) := by simp [slotOf, hp, hown]
    have h1 := (hg.numbered c port.portNo p).2 hslot
    have h2 := hnum c port.portNo p
    grind
  | none =>
    -- the port that has the number would not be found any more
    refine .inr ⟨rfl, ?_⟩
    by_contra hne
    obtain ⟨q, hq⟩ := ne_none_iff_exists'.1 hne
    have hslot := (hg.numbered b port.portNo q).1 (by simp [portAt, hb, hq])
    have hqp : q ≠ p := by
      rintro rfl
      simp [slotOf, hp, hown] at hslot
    have h2 := hnum b port.portNo q
    grind

theorem inv_bridgePortSet (name portName : String) (n : Nat) :
    Inv (g.dpBridgePortSet name portName n).2 := by
  unfold dpBridgePortSet
  split
  · exact hg
  next b bridge hbridge =>
  obtain ⟨-, hb⟩ := find_eq_some_iff.1 hbridge
  split
  · exact hg
  next p port hport =>
  obtain ⟨-, hp⟩ := find_eq_some_iff.1 hport
  split
  · exact hg
  next hnone =>
  have hnone : port.bridge = none := by simpa using hnone
  have hslot : g.slotOf p = none := by simp [slotOf, hp, hnone]
  have hget := get_modify_of_get hp fun port => { port with portNo := n }
  split
  · -- the port takes the number without a bridge
    refine hg.of_slots (fun _ => rfl) (fun q => ?_) (fun q => ?_) ?_
    · exact g.ports.bind_get_modify p q fun _ => rfl
    · exact g.ports.map_get_modify p q fun _ => rfl
    · intro c m q
      have hsame : ({ g with ports := g.ports.modify p fun port => { port with portNo := n } } :
          Graph).slotOf q = g.slotOf q := by
        grind [slotOf]
      rw [hsame]
      exact hg.numbered c m q
  · next hfree =>
    have hportAt : g.portAt b n = none := by simp [portAt, hb, hfree]
    have hget' : ∀ q, ((g.ports.modify p fun port => { port with portNo := n }).modify p
        fun port => { port with bridge := some b }).get q =
        if q = p then some { port with portNo := n, bridge := some b } else g.ports.get q := by
      simp only [get_modify, hget]
      grind
    have hbget := get_modify_of_get hb fun br : Bridge =>
      { br with ports := br.ports.insert n p }
    refine hg.of_slots (fun c => ?_) ?_ ?_ ?_
    · exact g.bridges.map_get_modify b c fun _ => rfl
    · intro q
      simp only [hget', interfaceOf]
      grind
    · intro q
      simp only [hget', ifindexOf]
      grind
    · refine numbered_attach hg.numbered hslot hportAt ?_ ?_
      · intro q
        simp only [slotOf, hget']
        split <;> rfl
      · intro c m
        simp only [portAt, hbget]
        by_cases hc : c = b
        · subst hc
          simp [lookup_insert_ite, hb]
        · simp [hc]

/-! ### Destroying a bridge -/

omit hg in
theorem get_bridgeFree_ports (q : PortRef) : (g.bridgeFree b bridge).ports.get q =
      if q ∈ Hashmap.values bridge.ports then
        (g.ports.get q).map fun port => { port with bridge := none }
      else g.ports.get q :=
  get_modifyAll g.ports (f := fun port => { port with bridge := none }) (fun _ => rfl) _ q

omit hg in
theorem interfaceOf_bridgeFree (b : BridgeRef) (bridge : Bridge) :
    (g.bridgeFree b bridge).interfaceOf = g.interfaceOf := by
  funext q
  simp only [interfaceOf, get_bridgeFree_ports]
  split
  · cases g.ports.get q <;> rfl
  · rfl

omit hg in
theorem ifindexOf_bridgeFree (b : BridgeRef) (bridge : Bridge) :
    (g.bridgeFree b bridge).ifindexOf = g.ifindexOf := by
  funext q
  simp only [ifindexOf, get_bridgeFree_ports]
  split
  · cases g.ports.get q <;> rfl
  · rfl

theorem numbered_bridgeFree (hb : g.bridges.get b = some bridge) : Numbered (g.bridgeFree b bridge) := by
  have hmem : ∀ q, q ∈ Hashmap.values bridge.ports ↔ ∃ n, g.portAt b n = some q := by
    simp [mem_values, portAt, hb]
  refine numbered_free (b := b) hg.numbered ?_ ?_ ?_
  · intro q n hn
    simp only [slotOf, get_bridgeFree_ports, if_pos ((hmem q).2 ⟨n, hn⟩)]
    cases g.ports.get q <;> rfl
  · intro q hq
    have hnot : q ∉ Hashmap.values bridge.ports := by
      rw [hmem]
      rintro ⟨n, hn⟩
      exact hq n hn
    simp [slotOf, get_bridgeFree_ports, if_neg hnot]
  · intro c m
    simp only [portAt, bridgeFree, get_free]
    split <;> rfl

theorem inv_bridgeDestroy (name : String) : Inv (g.dpBridgeDestroy name).2 := by
  unfold dpBridgeDestroy
  split
  · exact hg
  next b bridge hbridge =>
  obtain ⟨hname, hb⟩ := find_eq_some_iff.1 hbridge
  have hdpid : g.dpidOf b = some bridge.dpid := by simp [dpidOf, hb]
  have hown : g.dpidHashmap.lookup bridge.dpid = some b := (hg.dpids _ b).2 ⟨⟨name, hname⟩, hdpid⟩
  set g' : Graph := { g.bridgeFree b bridge with
    dpidHashmap := g.dpidHashmap.erase bridge.dpid
    bridgeHashmap := g.bridgeHashmap.erase name } with hg'
  change Inv g'
  have hatt : Attachment g' :=
    hg.attachment.congr (interfaceOf_bridgeFree b bridge) rfl rfl (fun _ _ _ => rfl)
      (fun q _ _ => congrFun (ifindexOf_bridgeFree b bridge) q)
  have hget : ∀ c, g'.bridges.get c = if c = b then none else g.bridges.get c := g.bridges.get_free b
  have hnamed : Named g'.bridgeHashmap g'.bridges :=
    hg.namedBridges.erase hname fun c hc => by rw [hget, if_neg hc]
  have hnames : ∀ m c, g'.bridgeHashmap.lookup m = some c ↔
      c ≠ b ∧ g.bridgeHashmap.lookup m = some c := by
    intro m c
    have := hg.bridgeNames m name c
    simp only [hg', lookup_erase_ite]
    grind
  exact { hatt, hg with
    numbered := numbered_bridgeFree hg hb
    dpids := by
      intro d c
      have hdc := hg.dpids d c
      have hlook : g'.dpidHashmap.lookup d =
          if d = bridge.dpid then none else g.dpidHashmap.lookup d := lookup_erase_ite _ _ _
      have hdpid' : g'.dpidOf c = if c = b then none else g.dpidOf c := by
        simp only [dpidOf, hget]
        split <;> rfl
      simp only [hlook, hnames, hdpid']
      grind
    ports := by
      intro m q hm
      have := hg.ports m q hm
      change ((g.bridgeFree b bridge).ports.get q).isSome
      rw [get_bridgeFree_ports]
      grind
    bridges := hnamed.live
    bridgeNames := hnamed.inj }

/-! ### Creating a bridge -/

theorem inv_bridgeCreate {info : BridgeInfo}
    (hfree : g.bridgeHashmap.lookup name = none → env.hasMemory = true →
      info.failMode ≠ .unknown → g.dpidHashmap.lookup info.dpid = none) :
    Inv (g.dpBridgeCreate env name info).2 := by
  unfold dpBridgeCreate
  split
  · exact hg
  next hname =>
  split
  · next hmemory =>
    have halloc := inv_bridgeAlloc hg info.dpid
    have hb := get_bridges_alloc (g := g) ⟨info.dpid, ∅⟩ g.bridges.next
    rw [if_pos rfl] at hb
    have hdone := fun hmode => inv_nameBridge halloc hname hb hg.namedBridges.ne_next
      (hfree hname hmemory hmode)
    split
    · exact halloc
    · next hmode =>
      simp only [hfree hname hmemory (by simp [hmode])]
      exact hdone (by simp [hmode])
    · next hmode =>
      simp only [hfree hname hmemory (by simp [hmode])]
      exact hdone (by simp [hmode])
  · exact hg

theorem dpid_free_of_bridgeCreate {info : BridgeInfo} (hc : Consistent (g.dpBridgeCreate env name info).2)
    (hname : g.bridgeHashmap.lookup name = none) (hmemory : env.hasMemory = true)
    (hmode : info.failMode ≠ .unknown) : g.dpidHashmap.lookup info.dpid = none := by
  by_contra hne
  obtain ⟨c, htaken⟩ := ne_none_iff_exists'.1 hne
  have hb := get_bridges_alloc (g := g) ⟨info.dpid, ∅⟩ g.bridges.next
  rw [if_pos rfl] at hb
  have hcb : c ≠ g.bridges.next := by
    rintro rfl
    obtain ⟨⟨m, hm⟩, -⟩ := (hg.dpids _ _).1 htaken
    exact hg.namedBridges.ne_next m hm
  have heq : (g.dpBridgeCreate env name info).2 =
      ({ g with bridges := g.bridges.alloc ⟨info.dpid, ∅⟩ } : Graph).nameBridge name
        g.bridges.next := by
    simp only [dpBridgeCreate, hname, hmemory, if_true]
    cases hinfo : info.failMode with
    | unknown => exact absurd hinfo hmode
    | secure => simp [htaken, nameBridge]
    | standalone => simp [htaken, nameBridge]
  rw [heq] at hc
  refine not_consistent_nameBridge hb ?_ hc
  rw [htaken]
  exact fun h => hcb (Option.some.inj h)

end Bridges

/-! ## Every call -/

/-- Information that is set leaves the type and the number as they are. -/
def KeepsInfo (env : Env) (old : InterfaceInfo) : Option InterfaceInfo → Prop
  | none => old.type.hasDriver = true ∧ env.unconfigure ≠ .ok ∨ old = .zero
  | some info => info.type.isSettable = true →
      old.type = (if info.type.hasDriver = true ∧ env.configure ≠ .ok then .unknown else info.type) ∧
        old.portNumber = configuredNumber env info

theorem keepsInfo_iff (env : Env) (old : InterfaceInfo) (info : Option InterfaceInfo) :
    KeepsInfo env old info ↔ infoAfter env old info = old := by
  cases info with
  | none =>
    unfold KeepsInfo infoAfter dpInterfaceUnconfigureInternal
    by_cases hdriver : old.type.hasDriver = true
    · by_cases hok : env.unconfigure = .ok <;> simp [hdriver, hok, eq_comm]
    · simp [hdriver, eq_comm]
  | some info =>
    obtain ⟨t, n⟩ := old
    unfold KeepsInfo infoAfter dpInterfaceConfigureInternal
    by_cases hset : info.type.isSettable = true
    · by_cases hdriver : info.type.hasDriver = true
      · by_cases hok : env.configure = .ok <;> simp [hset, hdriver, hok, eq_comm]
      · simp [hset, hdriver, eq_comm]
    · simp [hset]

/-- When a call keeps the graph consistent:

* the information of an attached interface keeps its type and number: it is cleared already or the
  driver refuses to clear it, or it is set to the type and the number that it has, the number being the
  one the driver writes and the type unknown when the driver fails;
* an attached interface is destroyed only while its type is unknown;
* a port is destroyed only while it has no bridge;
* a port gets an interface only if both are free and no other port has the interface's number, or
  they have each other;
* a bridge is created only with a datapath id no other bridge has;
* a port is taken from the bridge it has, or has none and a number free in the bridge.

The other calls always do. -/
def Keeps (g : Graph) (env : Env) : Call → Prop
  | .interfaceInfoSet name info =>
    ∀ i ifp, g.findInterface name = some (i, ifp) → ifp.port ≠ none →
      KeepsInfo env ifp.info info
  | .interfaceDestroy name =>
    ∀ i ifp, g.findInterface name = some (i, ifp) →
      dpInterfaceStopInternal env ifp.info = .ok ∧
        dpInterfaceUnconfigureInternal env ifp.info = .ok →
      ifp.port ≠ none → ifp.info.type = .unknown
  | .portDestroy name => ∀ p port, g.findPort name = some (p, port) → port.bridge = none
  | .portInterfaceSet name ifname =>
    ∀ p port i ifp, g.findPort name = some (p, port) → g.findInterface ifname = some (i, ifp) →
      port.interface = some i ∨ (port.interface = none ∧ ifp.port = none ∧
        (g.portidHashmap ifp.info.type).lookup ifp.info.portNumber = none)
  | .bridgeCreate name info =>
    g.bridgeHashmap.lookup name = none → env.hasMemory = true → info.failMode ≠ .unknown →
      g.dpidHashmap.lookup info.dpid = none
  | .bridgePortUnset name portName =>
    ∀ b bridge p port, g.findBridge name = some (b, bridge) → g.findPort portName = some (p, port) →
      port.bridge = some b ∨ (port.bridge = none ∧ bridge.ports.lookup port.portNo = none)
  | .interfaceCreate _ | .portCreate _ | .portInterfaceUnset _ | .bridgeDestroy _
  | .bridgePortSet _ _ _ | .bridgePortUnsetNum _ _ => True

variable {name : String}

theorem inv_interfaceInfoSet (hg : Inv g) {info : Option InterfaceInfo}
    (hk : g.Keeps env (.interfaceInfoSet name info)) : Inv (g.dpInterfaceInfoSet env name info).2 := by
  cases hfound : g.findInterface name with
  | none =>
    simp only [dpInterfaceInfoSet, hfound]
    exact hg
  | some found =>
    obtain ⟨i, ifp⟩ := found
    rw [dpInterfaceInfoSet_of_found hfound]
    exact inv_setInfo hg (find_eq_some_iff.1 hfound).2 fun hne =>
      (keepsInfo_iff env ifp.info info).1 (hk i ifp hfound hne)

theorem inv_interfaceDestroy (hg : Inv g)
    (hk : g.Keeps env (.interfaceDestroy name)) : Inv (g.dpInterfaceDestroy env name).2 := by
  cases hfound : g.findInterface name with
  | none =>
    simp only [dpInterfaceDestroy, hfound]
    exact hg
  | some found =>
    obtain ⟨i, ifp⟩ := found
    by_cases hdone : dpInterfaceStopInternal env ifp.info = .ok ∧
        dpInterfaceUnconfigureInternal env ifp.info = .ok
    · cases hport : ifp.port with
      | none =>
        rw [dpInterfaceDestroy_of_free hfound hdone.1 hdone.2 hport]
        exact inv_interfaceDestroy_free hfound hg hport
      | some p =>
        rw [dpInterfaceDestroy_of_attached hfound hdone.1 hdone.2 hport]
        exact inv_interfaceDestroy_unknown hfound hg hport (hk i ifp hfound hdone (by simp [hport]))
    · rw [dpInterfaceDestroy_of_refused hfound hdone]
      exact hg

theorem dpPortDestroy_of_found {p : PortRef} (h : g.portHashmap.lookup name = some p) :
    (g.dpPortDestroy name).2 = (g.dpPortInterfaceUnsetInternal p).removePort name p := by
  simp [dpPortDestroy, h]

theorem consistent_portDestroy_iff (hg : Inv g) {p : PortRef} {port : Port}
    (h : g.findPort name = some (p, port)) : (Consistent (g.dpPortDestroy name).2 ↔ port.bridge = none) ∧
      (port.bridge = none → Inv (g.dpPortDestroy name).2) := by
  obtain ⟨hname, hp⟩ := find_eq_some_iff.1 h
  have hinv := inv_unsetInternal hg p
  have hname' : (g.dpPortInterfaceUnsetInternal p).portHashmap.lookup name = some p := by
    rw [portHashmap_unsetInternal]
    exact hname
  have hfree := interfaceOf_unsetInternal_self hg p
  have hslot : (g.dpPortInterfaceUnsetInternal p).slotOf p = none ↔ port.bridge = none := by
    rw [slotOf_unsetInternal_self hg]
    simp [slotOf, hp]
  rw [dpPortDestroy_of_found hname, consistent_removePort_iff hinv hname' hfree]
  exact ⟨hslot, fun hb => inv_removePort hinv hname' hfree (hslot.2 hb)⟩

theorem inv_call (hg : Inv g) {c : Call} (hk : g.Keeps env c) : Inv (g.call env c).2 := by
  cases c with
  | interfaceCreate name => exact inv_interfaceCreate hg env name
  | interfaceInfoSet name info => exact inv_interfaceInfoSet hg hk
  | interfaceDestroy name => exact inv_interfaceDestroy hg hk
  | portCreate name => exact inv_portCreate hg env name
  | portDestroy name =>
    simp only [call]
    cases hfound : g.portHashmap.lookup name with
    | none =>
      simp only [dpPortDestroy, hfound]
      exact hg
    | some p =>
      obtain ⟨port, hp⟩ := isSome_iff_exists.1 (hg.ports name p hfound)
      have hfind : g.findPort name = some (p, port) := find_eq_some_iff.2 ⟨hfound, hp⟩
      exact (consistent_portDestroy_iff hg hfind).2 (hk p port hfind)
  | portInterfaceSet name ifname =>
    simp only [call]
    cases hport : g.findPort name with
    | none =>
      simp only [dpPortInterfaceSet, hport]
      exact hg
    | some found =>
      obtain ⟨p, port⟩ := found
      cases hinterface : g.findInterface ifname with
      | none =>
        simp only [dpPortInterfaceSet, hport, hinterface]
        exact hg
      | some found =>
        obtain ⟨i, ifp⟩ := found
        rw [dpPortInterfaceSet_of_found hport hinterface]
        exact inv_attachInterface hg (attachment_attachInterface hg (find_eq_some_iff.1 hport).2
          (find_eq_some_iff.1 hinterface).2 (hk p port i ifp hport hinterface))
  | portInterfaceUnset name =>
    simp only [call, dpPortInterfaceUnset]
    split
    · exact hg
    · exact inv_unsetInternal hg _
  | bridgeCreate name info => exact inv_bridgeCreate hg hk
  | bridgeDestroy name => exact inv_bridgeDestroy hg name
  | bridgePortSet name portName n => exact inv_bridgePortSet hg name portName n
  | bridgePortUnset name portName =>
    simp only [call]
    cases hbridge : g.findBridge name with
    | none =>
      simp only [dpBridgePortUnset, hbridge]
      exact hg
    | some found =>
      obtain ⟨b, bridge⟩ := found
      cases hport : g.findPort portName with
      | none =>
        simp only [dpBridgePortUnset, hbridge, hport]
        exact hg
      | some found =>
        obtain ⟨p, port⟩ := found
        simp only [dpBridgePortUnset, hbridge, hport]
        exact inv_detach hg (numbered_detach_self hg (find_eq_some_iff.1 hbridge).2
          (find_eq_some_iff.1 hport).2 (hk b bridge p port hbridge hport))
  | bridgePortUnsetNum name n =>
    simp only [call, dpBridgePortUnsetNum]
    split
    · exact hg
    next b bridge hbridge =>
    split
    · exact hg
    next p hp =>
    have hb := (find_eq_some_iff.1 hbridge).2
    have hslot := (hg.numbered b n p).1 (by simp [portAt, hb, hp])
    exact inv_detach hg (numbered_detach hg.numbered hslot (slotOf_detach n) (portAt_detach n))

theorem keeps_of_consistent (hg : Inv g) {c : Call} (hc : Consistent (g.call env c).2) : g.Keeps env c := by
  cases c with
  | interfaceInfoSet name info =>
    intro i ifp hfound hne
    simp only [call] at hc
    rw [dpInterfaceInfoSet_of_found hfound] at hc
    rw [keepsInfo_iff]
    exact (consistent_setInfo_iff hg (find_eq_some_iff.1 hfound).2 _).1 hc hne
  | interfaceDestroy name =>
    intro i ifp hfound hdone hne
    obtain ⟨p, hport⟩ := ne_none_iff_exists'.1 hne
    simp only [call] at hc
    rw [dpInterfaceDestroy_of_attached hfound hdone.1 hdone.2 hport] at hc
    by_contra htype
    exact not_consistent_interfaceDestroy hfound hg hport htype hc
  | portDestroy name =>
    intro p port hfound
    exact (consistent_portDestroy_iff hg hfound).1.1 hc
  | portInterfaceSet name ifname =>
    intro p port i ifp hport hinterface
    simp only [call] at hc
    rw [dpPortInterfaceSet_of_found hport hinterface] at hc
    exact (consistent_attachInterface_iff hg (find_eq_some_iff.1 hport).2
      (find_eq_some_iff.1 hinterface).2).1 hc
  | bridgeCreate name info => exact dpid_free_of_bridgeCreate hg hc
  | bridgePortUnset name portName =>
    intro b bridge p port hbridge hport
    simp only [call, dpBridgePortUnset, hbridge, hport] at hc
    exact (consistent_detach_iff hg (find_eq_some_iff.1 hbridge).2 (find_eq_some_iff.1 hport).2).1 hc
  | interfaceCreate name => trivial
  | portCreate name => trivial
  | portInterfaceUnset name => trivial
  | bridgeDestroy name => trivial
  | bridgePortSet name portName n => trivial
  | bridgePortUnsetNum name n => trivial

/-! ## Sequences of calls -/

/-- From the empty tables, the graph is consistent after each call of a sequence exactly if each call
meets its condition in the graph it finds. -/
theorem consistent_iff_keeps (events : List (Call × Env)) :
    Trace.EveryStep Graph.step (fun g e => Consistent (g.step e)) init events ↔
      Trace.EveryStep Graph.step (fun g e => g.Keeps e.2 e.1) init events := by
  have hagree : ∀ (g : Graph) (e : Call × Env), Inv g →
      (Consistent (g.step e) ↔ g.Keeps e.2 e.1) := fun _ _ hg =>
    ⟨keeps_of_consistent hg, fun hk => (inv_call hg hk).toConsistent⟩
  apply Trace.EveryStep.iff_of_invariant hagree
  · intro g e hg hk
    exact inv_call hg hk
  · exact inv_init

/-- A raw socket interface, to which its driver gives the number 0, is destroyed while a port has it.
The information is cleared before the port is taken out of the physical table, so the table of raw
sockets keeps the port. -/
theorem interfaceDestroy_not_consistent :
    ¬ ∀ events : List (Call × Env),
      Trace.EveryStep Graph.step (fun g e => Consistent (g.step e)) init events := by
  intro h
  have hrun := h
    [(.interfaceCreate "if0", .allOk none),
      (.interfaceInfoSet "if0" (some ⟨.ethernetRawsock, 1⟩), .allOk (some 0)),
      (.portCreate "p0", .allOk none), (.portInterfaceSet "p0" "if0", .allOk none),
      (.interfaceDestroy "if0", .allOk none)]
  obtain ⟨-, -, -, -, hlast, -⟩ := hrun
  obtain ⟨i, hi, -⟩ := (hlast.physical .ethernetRawsock 0 0).1 (by decide)
  exact absurd (Option.isSome_of_eq_some hi) (by decide)

end Graph
end Lagopus.Mgr
