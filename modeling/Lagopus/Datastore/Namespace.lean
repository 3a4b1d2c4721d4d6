import Lagopus.Datastore.Frame
import Lagopus.Datastore.Transaction

/-!
# Deleting a namespace

`namespace_cmd.c` and `s_destroy_obj` of `interp.c`.  The full name of an object is its namespace, a colon
and its own name.  The objects of a namespace that is deleted are those whose full name has the namespace
and a colon *somewhere* in it: where the namespace `ba` has objects, deleting `a` takes them too.

* `World.objects`: which objects exist;
* `Kind.Of`: a kind of object, with what destroying one does to the objects that exist;
* `forEach_destroyOne`: what a pass over a list of objects destroys.
-/

namespace Lagopus.Datastore

open Prog World List Table

/-! ## The objects that exist -/

inductive ObjKind where
  | leaf (k : LeafKind)
  | port
  | bridge
  deriving DecidableEq, Repr

abbrev Obj := ObjKind × Name

def World.has (w : World) : Obj → Bool
  | (.leaf k, n) => ((leafTable k).find w n).isSome
  | (.port, n) => (portTable.find w n).isSome
  | (.bridge, n) => (bridgeTable.find w n).isSome

def World.objects (w : World) : Set Obj := {x | w.has x}

/-- `s_tbl_order`. -/
def tblOrder : List ObjKind :=
  [.leaf .policerAction, .leaf .policer, .leaf .queue, .leaf .interface, .port, .leaf .channel,
    .leaf .controller, .bridge]

def objNames (w : World) : ObjKind → List Name
  | .leaf k => leafNames k w
  | .port => portNames w
  | .bridge => bridgeNames w

/-- `s_create_all_objs_list`. -/
def allObjs (w : World) : List Obj := tblOrder.flatMap fun o => (objNames w o).map (o, ·)

/-! ## The commands -/

/-- `DATASTORE_NAMESPACE_DELIMITER` behind the namespace. -/
def nsTarget (ns : Name) : List Char := (ns ++ ":").toList

/-- `strstr(objname, target)` finds something. -/
def matchesNamespace (ns n : Name) : Bool := nsTarget ns <:+: n.toList

/-- The name is the full name of an object of the namespace. -/
def inNamespace (ns n : Name) : Bool := nsTarget ns <+: n.toList

/-- `…_cmd_destroy`: whether the object is being destroyed already is not asked. -/
def destroyOne (state : InterpState) : Obj → Prog World
  | (.leaf k, n) => (leaf k).destroyInternal state n false
  | (.port, n) => port.destroyInternal state n false
  | (.bridge, n) => bridge.destroyInternal state n false

/-- The objects that `s_destroy_obj` destroys, those that name others first. -/
def selectedObjs (ns : Name) (w : World) : List Obj :=
  (allObjs w).reverse.filter (matchesNamespace ns ·.2)

/-- `s_destroy_obj`. -/
def destroyObj (state : InterpState) (ns : Name) : Prog World :=
  read fun w => forEach (destroyOne state) (selectedObjs ns w)

/-- The interpreter with the current namespace. -/
structure Session extends Interp where
  current : Name

/-- `s_namespace_delete_opt_parse`.  In a dry run nothing is done and a success is reported. -/
def Session.namespaceDelete (ns : Name) (s : Session) : Bool × Session :=
  if s.state = .dryrun then (true, s)
  else if ns ∉ s.world.namespaces then (false, s)
  else
    let s := if ns = s.current then { s with current := "" } else s
    let (ok, w) := destroyObj s.state ns s.world
    if ok then (true, { s with world := { w with namespaces := w.namespaces.erase ns } })
    else (false, { s with world := w })

/-! ## What disabling an object cannot do -/

section Disabling

variable {α β : Type} {f : World → β} {K : Kind α} {n : Name} {p : Bool} (hlawful : K.table.Lawful)
  (halter : ∀ n g w, f (K.table.alter n g w) = f w)

include hlawful halter

/-- An object is brought up to date with its flag `is_enabled` cleared, and once. -/
theorem Kind.frames_switchOff
    (hupdate : ∀ w, (∀ c, K.table.find w n = some c → c.isEnabled = false) →
      f (K.doUpdate .autoCommit n p true w).2 = f w) : Frames f (K.switchTo .autoCommit n p false) := by
  apply Frames.orElse _ (halter n _)
  intro w
  set w₁ := K.table.alter n (fun c => { c with isEnabled := false }) w with hw₁
  have hoff : ∀ c, K.table.find w₁ n = some c → c.isEnabled = false := by
    intro c hc
    rw [hw₁, hlawful.find_alter, if_pos rfl] at hc
    obtain ⟨c', -, rfl⟩ := Option.map_eq_some_iff.mp hc
    rfl
  have honce : f (K.updateInternal .autoCommit n p true w₁).2 = f w₁ := by
    cases hc : K.table.find w₁ n with
    | none => rw [Kind.updateInternal, withConf_of_none hc]
    | some c =>
      rw [Kind.updateInternal, withConf_of_some hc]
      show f (K.autoCommit n p true (1 + 1) w₁).2 = f w₁
      simpa only [Kind.autoCommit, or_true, if_true] using hupdate w₁ hoff
  exact honce.trans (halter n _ w)

theorem Kind.frames_disable
    (hupdate : ∀ w, (∀ c, K.table.find w n = some c → c.isEnabled = false) →
      f (K.doUpdate .autoCommit n false true w).2 = f w)
    (hnames : ∀ a, Frames f (K.namesDisableAll a .autoCommit)) :
    Frames f (K.disableInternal .autoCommit n p) := by
  apply frames_withConf
  intro c
  apply frames_ite (frames_modify (halter n _))
  apply (Kind.frames_switchOff hlawful halter hupdate).andThen
  exact frames_ite (frames_withConf fun c => hnames c.current) frames_ok

end Disabling

/-! ## What one destruction destroys -/

/-- The kind is the one of the objects `(o, n)`; only the deletion from its table changes which objects
exist. -/
structure Kind.Of {α : Type} (K : Kind α) (o : ObjKind) : Prop where
  lawful : K.table.Lawful
  mem : ∀ w n, (o, n) ∈ w.objects ↔ (K.table.find w n).isSome
  alter : ∀ n g w, (K.table.alter n g w).objects = w.objects
  delete : ∀ n w, (K.table.delete n w).objects = w.objects \ {(o, n)}
  doUpdate : ∀ n w, (∀ c, K.table.find w n = some c → c.isEnabled = false) →
    (K.doUpdate .autoCommit n false true w).2.objects = w.objects
  namesUsedSet : ∀ a b w, (K.namesUsedSet a b w).objects = w.objects
  namesDisableAll : ∀ a, Frames objects (K.namesDisableAll a .autoCommit)
  dpDestroy : ∀ n a, Frames objects (K.dpDestroy n a)

/-- What a step does that destroys an object or fails. -/
def Destroys (m : Prog World) (x : Obj) : Prop :=
  ∀ w, ((m w).1 = true ∧ (m w).2.objects = w.objects \ {x}) ∨
    ((m w).1 = false ∧ (m w).2.objects = w.objects)

namespace Kind.Of

variable {α : Type} {K : Kind α} {o : ObjKind} (h : K.Of o)

include h

theorem doDestroy (n : Name) (w : World) :
    (K.doDestroy .autoCommit n w).objects = w.objects \ {(o, n)} := by
  have hunset : ∀ c w, (K.unsetUsed c w).objects = w.objects := fun c w =>
    (elim_frame (fun a => h.namesUsedSet a false) c.modified _).trans
      (elim_frame (fun a => h.namesUsedSet a false) c.current w)
  unfold Kind.doDestroy
  cases hc : K.table.find w n with
  | none =>
    have hout : (o, n) ∉ w.objects := by
      rw [h.mem, hc]
      exact Bool.false_ne_true
    exact (Set.sdiff_singleton_eq_self hout).symm
  | some c =>
    simp only [reduceCtorEq, false_and, if_false, or_true, if_true]
    rw [h.delete, h.dpDestroy n c.current, hunset]

theorem destroys (n : Name) : Destroys (K.destroyInternal .autoCommit n false) (o, n) := by
  intro w
  cases hc : K.table.find w n with
  | none =>
    have hr : K.destroyInternal .autoCommit n false w = _ := withConf_of_none hc
    exact .inr ⟨by rw [hr], by rw [hr]⟩
  | some c =>
    have hr : K.destroyInternal .autoCommit n false w = _ := withConf_of_some hc
    by_cases hused : K.hasParent ∧ c.isUsed
    · rw [if_pos hused] at hr
      exact .inr ⟨by rw [hr]; rfl, by rw [hr]; rfl⟩
    · rw [if_neg hused, if_neg (by decide)] at hr
      have hswitch : Frames objects
          (if c.isEnabled then K.switchTo .autoCommit n false false else ok) :=
        frames_ite (Kind.frames_switchOff h.lawful h.alter (h.doUpdate n)) frames_ok
      rw [hr]
      unfold Prog.regardless
      rw [← h.namesDisableAll c.current w]
      generalize (K.namesDisableAll c.current .autoCommit w).2 = w₁
      rw [← hswitch w₁]
      cases hok : ((if c.isEnabled then K.switchTo .autoCommit n false false else ok) w₁).1 with
      | true => exact .inl ⟨by rw [andThen_of_ok hok]; rfl, by rw [andThen_of_ok hok]; exact h.doDestroy n _⟩
      | false => exact .inr ⟨by rw [andThen_of_fail hok], by rw [andThen_of_fail hok]⟩

end Kind.Of

/-! ## The kinds of objects -/

theorem Table.objects_alter {α : Type} {t : Table α} {o : ObjKind}
    (hmem : ∀ w n, (o, n) ∈ w.objects ↔ (t.find w n).isSome)
    (hput : ∀ n c w, (t.put n c w).objects = insert (o, n) w.objects)
    (n : Name) (g : Conf α → Conf α) (w : World) : (t.alter n g w).objects = w.objects := by
  unfold Table.alter
  split
  · next c hc =>
    have hin : (o, n) ∈ w.objects := by rw [hmem, hc]; rfl
    rw [hput, Set.insert_eq_of_mem hin]
  · rfl

section Tables

variable {w w' : World} {x : Obj}

theorem objects_of_put (h : ∀ y, w'.has y = (decide (y = x) || w.has y)) : w'.objects = insert x w.objects :=
  Set.ext fun y => by simp [objects, h y]

theorem objects_of_delete (h : ∀ y, w'.has y = (!decide (y = x) && w.has y)) :
    w'.objects = w.objects \ {x} :=
  Set.ext fun y => by simp [objects, h y, and_comm]

end Tables

variable (k : LeafKind) (n : Name)

theorem leafTable_put_objects (c : Conf LeafAttr) (w : World) :
    ((leafTable k).put n c w).objects = insert (.leaf k, n) w.objects := by
  refine objects_of_put ?_
  rintro ⟨_ | _ | _, m⟩ <;> simp [has, leafTable, portTable, bridgeTable, Hashmap.lookup_insert_ite]
  split <;> simp_all

theorem portTable_put_objects (c : Conf PortAttr) (w : World) :
    (portTable.put n c w).objects = insert (.port, n) w.objects := by
  refine objects_of_put ?_
  rintro ⟨_ | _ | _, m⟩ <;> simp [has, leafTable, portTable, bridgeTable, Hashmap.lookup_insert_ite]
  split <;> simp_all

theorem bridgeTable_put_objects (c : Conf BridgeAttr) (w : World) :
    (bridgeTable.put n c w).objects = insert (.bridge, n) w.objects := by
  refine objects_of_put ?_
  rintro ⟨_ | _ | _, m⟩ <;> simp [has, leafTable, portTable, bridgeTable, Hashmap.lookup_insert_ite]
  split <;> simp_all

variable (w : World)

theorem leafTable_delete_objects : ((leafTable k).delete n w).objects = w.objects \ {(.leaf k, n)} := by
  refine objects_of_delete ?_
  rintro ⟨_ | _ | _, m⟩ <;> simp [has, leafTable, portTable, bridgeTable, Hashmap.lookup_erase_ite]
  split <;> grind

theorem portTable_delete_objects : (portTable.delete n w).objects = w.objects \ {(.port, n)} := by
  refine objects_of_delete ?_
  rintro ⟨_ | _ | _, m⟩ <;> simp [has, leafTable, portTable, bridgeTable, Hashmap.lookup_erase_ite]
  split <;> simp_all

theorem bridgeTable_delete_objects : (bridgeTable.delete n w).objects = w.objects \ {(.bridge, n)} := by
  refine objects_of_delete ?_
  rintro ⟨_ | _ | _, m⟩ <;> simp [has, leafTable, portTable, bridgeTable, Hashmap.lookup_erase_ite]
  split <;> simp_all

theorem objects_answer : Frames objects World.answer := by
  intro w
  unfold World.answer
  split
  · rfl
  · rfl

theorem objects_dp (c : DpCall) : Frames objects (World.dp c) :=
  objects_answer.andThen (frames_modify fun _ => rfl)

theorem leaf_objects_alter : ∀ n g w, ((leafTable k).alter n g w).objects = w.objects :=
  objects_alter (fun _ _ => Iff.rfl) (leafTable_put_objects k)

theorem objects_plainFrame : PlainFrame objects .autoCommit false where
  answer := objects_answer
  dp := objects_dp
  alter := leaf_objects_alter
  disable k n := Kind.frames_notDestroying (Kind.frames_disable (leafTable_lawful k) (leaf_objects_alter k)
    (fun w _ => frames_plainDoUpdate objects_answer objects_dp (leaf_objects_alter k) .autoCommit n false true w)
    fun _ => frames_ok)
  enable h := absurd h (by decide)
  update h := absurd h (by decide)

theorem leaf_of : (leaf k).Of (.leaf k) where
  lawful := leafTable_lawful k
  mem _ _ := Iff.rfl
  alter := leaf_objects_alter k
  delete := leafTable_delete_objects k
  doUpdate n w _ := objects_plainFrame.leafDoUpdate n k true w
  namesUsedSet := objects_plainFrame.leafNamesUsedSet k
  namesDisableAll := objects_plainFrame.leafNamesDisableAll k
  dpDestroy n := objects_plainFrame.leafDpDestroy n k

theorem port_objects_alter : ∀ n g w, (portTable.alter n g w).objects = w.objects :=
  objects_alter (fun _ _ => Iff.rfl) portTable_put_objects

theorem objects_portFrame : PortFrame objects .autoCommit where
  answer := objects_answer
  dp := objects_dp
  disable k n := by
    have hdisable : Frames objects ((leaf k).disableInternal .autoCommit n true) :=
      Kind.frames_disable (leafTable_lawful k) (leaf_objects_alter k) ((leaf_of k).doUpdate n)
        (leaf_of k).namesDisableAll
    exact frames_ite hdisable (Kind.frames_notDestroying hdisable)
  setUsed k b n w := leaf_objects_alter k n _ w
  portSetUsed b n w := port_objects_alter n _ w

theorem port_of : port.Of .port where
  lawful := portTable_lawful
  mem _ _ := Iff.rfl
  alter := port_objects_alter
  delete := portTable_delete_objects
  doUpdate n w hoff := by
    refine update_frame port_objects_alter fun c hc => ?_
    -- a port that is disabled starts nothing
    have hno : c.isEnabled = true → ∀ k n, Frames objects ((leaf k).enablePropagation .autoCommit n) :=
      fun hon => absurd (hoff c hc) (by simp [hon])
    exact ⟨frames_ok, objects_portFrame.replace n hno _ false, objects_portFrame.startOrStop n hno false true⟩
  namesUsedSet := objects_portFrame.namesUsedSet
  namesDisableAll := frames_elim frames_fail fun a => objects_portFrame.namesDisable a a.queues true true
  dpDestroy n := frames_elim frames_ok (objects_portFrame.destroy n)

theorem bridge_objects_alter : ∀ n g w, (bridgeTable.alter n g w).objects = w.objects :=
  objects_alter (fun _ _ => Iff.rfl) bridgeTable_put_objects

theorem objects_bridgeFrame : BridgeFrame objects .autoCommit false where
  toPortFrame := objects_portFrame
  portEnable h := absurd h (by decide)
  controllerEnable h := absurd h (by decide)
  portDisable n :=
    Kind.frames_disable portTable_lawful port_objects_alter (port_of.doUpdate n) port_of.namesDisableAll
  keys _ _ := rfl

theorem bridge_of : bridge.Of .bridge where
  lawful := bridgeTable_lawful
  mem _ _ := Iff.rfl
  alter := bridge_objects_alter
  delete := bridgeTable_delete_objects
  doUpdate n w _ := objects_bridgeFrame.doUpdate bridge_objects_alter n true (fun h => absurd h (by decide)) w
  namesUsedSet := objects_bridgeFrame.namesUsedSet
  namesDisableAll :=
    frames_elim frames_fail fun a => objects_bridgeFrame.namesDisable a.ports a.controllers true true
  dpDestroy n := frames_elim frames_ok (objects_bridgeFrame.destroy n)

/-! ## What a pass destroys -/

theorem destroyOne_destroys (x : Obj) : Destroys (destroyOne .autoCommit x) x := by
  obtain ⟨o, n⟩ := x
  cases o with
  | leaf k => exact (leaf_of k).destroys n
  | port => exact port_of.destroys n
  | bridge => exact bridge_of.destroys n

theorem forEach_destroyOne (xs : List Obj) (w : World) : ∃ gone left, xs = gone ++ left ∧
      (forEach (destroyOne .autoCommit) xs w).2.objects = w.objects \ {x | x ∈ gone} ∧
      ((forEach (destroyOne .autoCommit) xs w).1 = true ↔ left = []) := by
  induction xs generalizing w with
  | nil => exact ⟨[], [], rfl, by simp [forEach, ok], by simp [forEach, ok]⟩
  | cons x xs ih =>
    rcases destroyOne_destroys x w with ⟨hok, hx⟩ | ⟨hfail, hx⟩
    · obtain ⟨gone, left, rfl, hobj, hiff⟩ := ih (destroyOne .autoCommit x w).2
      have hr : forEach (destroyOne .autoCommit) (x :: (gone ++ left)) w = _ := andThen_of_ok hok
      refine ⟨x :: gone, left, rfl, ?_, by rw [hr]; exact hiff⟩
      rw [hr, hobj, hx, sdiff_sdiff]
      congr 1
      ext y
      simp
    · have hr : forEach (destroyOne .autoCommit) (x :: xs) w = _ := andThen_of_fail hfail
      exact ⟨[], x :: xs, rfl, by rw [hr]; simp [hx], by rw [hr]; simp⟩

theorem mem_objNames (o : ObjKind) (n : Name) : n ∈ objNames w o ↔ (o, n) ∈ w.objects := by
  cases o with
  | leaf k =>
    simp [objNames, leafNames, allNames, objects, has, leafTable, AList.lookup_isSome, AList.mem_keys]
  | port => simp [objNames, portNames, allNames, objects, has, portTable, AList.lookup_isSome, AList.mem_keys]
  | bridge =>
    simp [objNames, bridgeNames, allNames, objects, has, bridgeTable, AList.lookup_isSome, AList.mem_keys]

theorem objNames_nodup (o : ObjKind) : (objNames w o).Nodup := by
  cases o with
  | leaf k =>
    have hkeys : ((w.leaves.keys.filter (·.1 = k)).map (·.2)).Nodup := by
      apply List.Nodup.map_on _ (w.leaves.keys_nodup.filter _)
      rintro ⟨i, n⟩ hi ⟨j, m⟩ hj (rfl : n = m)
      have hik : i = k := by simpa using (mem_filter.mp hi).2
      have hjk : j = k := by simpa using (mem_filter.mp hj).2
      rw [hik, hjk]
    exact (perm_insertionSort _ _).nodup_iff.mpr hkeys
  | port => exact (perm_insertionSort _ _).nodup_iff.mpr w.ports.keys_nodup
  | bridge => exact (perm_insertionSort _ _).nodup_iff.mpr w.bridges.keys_nodup

theorem selectedObjs_nodup (ns : Name) (w : World) : (selectedObjs ns w).Nodup := by
  have hall : (allObjs w).Nodup := by
    apply nodup_flatMap.mpr
    refine ⟨fun o _ => (objNames_nodup w o).map fun _ _ h => (Prod.mk.inj h).2, ?_⟩
    apply List.Pairwise.imp _ (by decide : tblOrder.Nodup)
    intro o o' hne x hx hx'
    obtain ⟨n, -, rfl⟩ := mem_map.mp hx
    obtain ⟨m, -, hm⟩ := mem_map.mp hx'
    exact hne (Prod.mk.inj hm).1.symm
  exact (nodup_reverse.mpr hall).filter _

theorem mem_selectedObjs {ns : Name} {w : World} {x : Obj} :
    x ∈ selectedObjs ns w ↔ x ∈ w.objects ∧ matchesNamespace ns x.2 := by
  obtain ⟨o, n⟩ := x
  have ho : o ∈ tblOrder := by
    cases o with
    | leaf k => cases k <;> decide
    | port => decide
    | bridge => decide
  simp [selectedObjs, allObjs, mem_objNames, ho]

/-! ## What a namespace's deletion removes -/

theorem matchesNamespace_of_in {ns n : Name} (h : inNamespace ns n) : matchesNamespace ns n :=
  decide_eq_true (List.IsPrefix.isInfix (of_decide_eq_true h))

namespace Session

variable (ns : Name) (s : Session)

/-- The objects of the namespace are removed, and no others. -/
def DeletesExactly : Prop :=
  (s.namespaceDelete ns).2.world.objects = s.world.objects \ {x | inNamespace ns x.2}

/-- The namespace and a colon stand nowhere but at the beginning of a name. -/
def Unambiguous : Prop := ∀ x ∈ s.world.objects, matchesNamespace ns x.2 → inNamespace ns x.2

/-- The namespace has no objects. -/
def IsVacant : Prop := ∀ x ∈ s.world.objects, ¬ inNamespace ns x.2

variable {ns s}

theorem deletesExactly_iff_isVacant (h : (s.namespaceDelete ns).2.world.objects = s.world.objects) :
    s.DeletesExactly ns ↔ s.IsVacant ns := by
  unfold DeletesExactly IsVacant
  rw [h, eq_comm, sdiff_eq_left, Set.disjoint_left]
  rfl

theorem namespaceDelete_eq (hdry : s.state ≠ .dryrun) (hmem : ns ∈ s.world.namespaces) :
    (s.namespaceDelete ns).1 = (destroyObj s.state ns s.world).1 ∧
      (s.namespaceDelete ns).2.world.objects = (destroyObj s.state ns s.world).2.objects := by
  unfold namespaceDelete
  rw [if_neg hdry, if_neg (not_not_intro hmem)]
  by_cases hcur : ns = s.current
  · simp only [if_pos hcur]
    cases hok : (destroyObj s.state ns s.world).1 <;> exact ⟨rfl, rfl⟩
  · simp only [if_neg hcur]
    cases hok : (destroyObj s.state ns s.world).1 <;> exact ⟨rfl, rfl⟩

theorem destroyObj_atomic (ns : Name) : Frames objects (destroyObj .atomic ns) := by
  have hdestroy : ∀ {α : Type} {K : Kind α} {o : ObjKind}, K.Of o → ∀ n,
      Frames objects (K.destroyInternal .atomic n false) := by
    intro α K o h n
    apply frames_withConf
    intro c
    exact frames_ite frames_fail (frames_modify (h.alter n _))
  apply frames_read
  intro w
  apply frames_forEach
  rintro ⟨o, n⟩
  cases o with
  | leaf k => exact hdestroy (leaf_of k) n
  | port => exact hdestroy port_of n
  | bridge => exact hdestroy bridge_of n

theorem namespaceDelete_keeps (hs : s.state = .atomic ∨ s.state = .dryrun ∨ ns ∉ s.world.namespaces) :
    (s.namespaceDelete ns).2.world.objects = s.world.objects := by
  by_cases hdry : s.state = .dryrun
  · unfold namespaceDelete
    rw [if_pos hdry]
  · by_cases hmem : ns ∈ s.world.namespaces
    · have hatomic : s.state = .atomic := by
        rcases hs with h | h | h
        · exact h
        · exact absurd h hdry
        · exact absurd hmem h
      rw [(namespaceDelete_eq hdry hmem).2, hatomic]
      exact destroyObj_atomic ns s.world
    · unfold namespaceDelete
      rw [if_neg hdry, if_pos hmem]

theorem deletesExactly_iff_unambiguous (hs : s.state = .autoCommit)
    (hok : (s.namespaceDelete ns).1 = true) : s.DeletesExactly ns ↔ s.Unambiguous ns := by
  have hdry : s.state ≠ .dryrun := by simp [hs]
  have hmem : ns ∈ s.world.namespaces := by
    by_contra hmem
    unfold namespaceDelete at hok
    rw [if_neg hdry, if_pos hmem] at hok
    exact Bool.false_ne_true hok
  obtain ⟨hfst, hsnd⟩ := namespaceDelete_eq hdry hmem
  obtain ⟨gone, left, hsel, hobj, hiff⟩ := forEach_destroyOne (selectedObjs ns s.world) s.world
  rw [hfst, hs] at hok
  rw [hiff.mp hok, append_nil] at hsel
  unfold DeletesExactly
  rw [hsnd, hs]
  unfold destroyObj Prog.read
  rw [hobj, ← hsel]
  constructor
  · intro heq x hx hmatch
    by_contra hin
    have hstays : x ∈ s.world.objects \ {x | x ∈ selectedObjs ns s.world} := heq ▸ ⟨hx, hin⟩
    exact hstays.2 (mem_selectedObjs.mpr ⟨hx, hmatch⟩)
  · intro hun
    ext x
    constructor
    · rintro ⟨hx, hnot⟩
      exact ⟨hx, fun hin => hnot (mem_selectedObjs.mpr ⟨hx, matchesNamespace_of_in hin⟩)⟩
    · rintro ⟨hx, hnot⟩
      exact ⟨hx, fun hin => hnot (hun x hx (mem_selectedObjs.mp hin).2)⟩

theorem exists_left_of_fail (hs : s.state = .autoCommit) (hmem : ns ∈ s.world.namespaces)
    (hfail : (s.namespaceDelete ns).1 = false) :
    ∃ x ∈ s.world.objects, matchesNamespace ns x.2 ∧ x ∈ (s.namespaceDelete ns).2.world.objects := by
  obtain ⟨hfst, hsnd⟩ := namespaceDelete_eq (by simp [hs]) hmem
  obtain ⟨gone, left, hsel, hobj, hiff⟩ := forEach_destroyOne (selectedObjs ns s.world) s.world
  rw [hfst, hs] at hfail
  have hne : left ≠ [] := fun h => Bool.false_ne_true (hfail.symm.trans (hiff.mpr h))
  obtain ⟨x, hleft⟩ := exists_mem_of_ne_nil left hne
  have hx : x ∈ selectedObjs ns s.world := hsel ▸ mem_append_right gone hleft
  obtain ⟨hxin, hmatch⟩ := mem_selectedObjs.mp hx
  have hgone : x ∉ gone := fun hg =>
    (nodup_append.mp (hsel ▸ selectedObjs_nodup ns s.world)).2.2 x hg x hleft rfl
  refine ⟨x, hxin, hmatch, ?_⟩
  rw [hsnd, hs]
  exact hobj.symm ▸ ⟨hxin, hgone⟩

variable (ns s)

/-- A controller and its channel, which it uses until it is destroyed. -/
def controllerOfA : Session where
  state := .autoCommit
  world := (andThen ((leafCommands .channel).create .autoCommit "a:ch" [])
    ((leafCommands .controller).create .autoCommit "a:c" [.name true "a:ch"])
    { World.empty with namespaces := ["a"] }).2
  current := "a"

example : ((leafTable .channel).find controllerOfA.world "a:ch").map (·.isUsed) = some true ∧
    (controllerOfA.namespaceDelete "a").1 = true ∧
    (controllerOfA.namespaceDelete "a").2.world.leaves.keys = [] := by decide

/-- A queue `x` of the namespace `ba`, beside a namespace `a` without objects. -/
def queueOfBa : Session where
  state := .autoCommit
  world := ((leafCommands .queue).create .autoCommit "ba:x" []
    { World.empty with namespaces := ["a", "ba"] }).2
  current := "ba"

end Session

end Lagopus.Datastore
