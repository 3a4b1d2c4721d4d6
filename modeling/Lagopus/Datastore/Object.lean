import Lagopus.Lib.Memory
import Lagopus.Lib.Program

/-!
# The datastore's objects

An object of the datastore has a name, an attribute in force (`current_attr`), perhaps one that is asked
for (`modified_attr`), and flags.  A policer names actions and a controller a channel; a port names an
interface, a policer and queues; a bridge names ports and controllers.  The names are full names, as
`namespace_get_fullname` gives them: the namespace, a colon and the name in it.

What the dataplane answers to a call is not determined by the datastore: a run takes its answers from a
list, and calls after its end succeed.
-/

namespace Lagopus.Datastore

abbrev Name := String

/-- `datastore_interp_state_t`. -/
inductive InterpState where
  | autoCommit | atomic | committing | committed | commitFailure
  | rollbacking | rollbacked | aborting | aborted | dryrun
  deriving DecidableEq, Repr

/-- `policer_conf_t`, `queue_conf_t`, …, `bridge_conf_t` but for the name. -/
structure Conf (α : Type) where
  current : Option α
  modified : Option α
  isUsed : Bool
  isEnabled : Bool
  isDestroying : Bool
  isEnabling : Bool
  isDisabling : Bool
  deriving DecidableEq, Repr

/-- `…_conf_create`: the default attribute is asked for. -/
def Conf.create {α : Type} (default : α) : Conf α :=
  ⟨none, some default, false, false, false, false, false⟩

/-- The kinds of objects below ports and bridges. -/
inductive LeafKind where
  | policerAction | policer | queue | interface | channel | controller
  deriving DecidableEq, Repr

/-- The attribute of such an object: the id of a queue, the actions of a policer or the channel of a
controller, and everything else. -/
structure LeafAttr where
  id : Nat
  other : Nat
  names : List Name
  deriving DecidableEq, Repr

/-- `port_attr_t`.  An empty name is `none`. -/
structure PortAttr where
  portNumber : Nat
  interface : Option Name
  policer : Option Name
  queues : List Name
  deriving DecidableEq, Repr

/-- `bridge_attr_t`: the names, the greatest numbers of batches of the queues, and everything else. -/
structure BridgeAttr where
  other : Nat
  qmaxBatches : Nat
  ports : List Name
  controllers : List Name
  deriving DecidableEq, Repr

/-- `datastore_names_equals`. -/
def namesEqual (a b : List Name) : Bool := a.length = b.length ∧ ∀ n ∈ a, n ∈ b

/-- `…_attr_create`. -/
def LeafAttr.default : LeafAttr := ⟨0, 0, []⟩

/-- `policer_attr_equals_without_names`. -/
def LeafAttr.equalsWithoutNames (a b : LeafAttr) : Bool := a.id = b.id ∧ a.other = b.other

/-- `policer_attr_equals`. -/
def LeafAttr.equals (a b : LeafAttr) : Bool := a.equalsWithoutNames b ∧ namesEqual a.names b.names

/-- `port_attr_create`. -/
def PortAttr.default : PortAttr := ⟨0, none, none, []⟩

/-- `port_attr_equals`. -/
def PortAttr.equals (a b : PortAttr) : Bool :=
  a.portNumber = b.portNumber ∧ a.interface = b.interface ∧ a.policer = b.policer ∧
    namesEqual a.queues b.queues

/-- `port_attr_equals_without_names`, which does compare the interface. -/
def PortAttr.equalsWithoutNames (a b : PortAttr) : Bool :=
  a.portNumber = b.portNumber ∧ a.interface = b.interface

/-- `bridge_attr_create`. -/
def BridgeAttr.default : BridgeAttr := ⟨0, 0, [], []⟩

/-- `bridge_attr_equals_without_names`. -/
def BridgeAttr.equalsWithoutNames (a b : BridgeAttr) : Bool :=
  a.other = b.other ∧ a.qmaxBatches = b.qmaxBatches

/-- `bridge_attr_equals_without_qmax_batches`. -/
def BridgeAttr.equalsWithoutQmaxBatches (a b : BridgeAttr) : Bool :=
  namesEqual a.controllers b.controllers ∧ namesEqual a.ports b.ports ∧ a.other = b.other

/-- `bridge_attr_equals`. -/
def BridgeAttr.equals (a b : BridgeAttr) : Bool :=
  a.equalsWithoutQmaxBatches b ∧ a.qmaxBatches = b.qmaxBatches

/-- A call of the dataplane, or of the managers of bridge queues and channels. -/
inductive DpCall where
  | leafCreate (k : LeafKind) (n : Name) | leafDestroy (k : LeafKind) (n : Name)
  | leafStart (k : LeafKind) (n : Name) | leafStop (k : LeafKind) (n : Name)
  | policerActionAdd (p action : Name) | policerActionDelete (p action : Name)
  | channelDpidGet (n : Name) | channelIsAlive (n : Name)
  | portCreate (p : Name) | portDestroy (p : Name) | portStart (p : Name) | portStop (p : Name)
  | portInterfaceSet (p i : Name)
  | portPolicerSet (p policer : Name) | portPolicerUnset (p : Name)
  | portQueueAdd (p queue : Name) | portQueueDelete (p queue : Name)
  | bridgeRegister (b : Name) | bridgeUnregister (b : Name)
  | bridgeCreate (b : Name) | bridgeDestroy (b : Name)
  | bridgeStart (b : Name) | bridgeStop (b : Name)
  | bridgePortSet (b p : Name) (number : Nat) | bridgePortUnset (b p : Name)
  | dataqMaxBatchesSet (b : Name) | eventqMaxBatchesSet (b : Name)
  | eventDataqMaxBatchesSet (b : Name)
  | channelDpidSet (controller : Name) | channelDpidUnset (controller : Name)
  deriving DecidableEq, Repr

structure World where
  leaves : Hashmap (LeafKind × Name) (Conf LeafAttr)
  ports : Hashmap Name (Conf PortAttr)
  bridges : Hashmap Name (Conf BridgeAttr)
  /-- The keys of `s_namespace_table`. -/
  namespaces : List Name
  /-- The keys of `port_table` of `bridge_cmd.c`. -/
  portTableKeys : List Name
  /-- What the dataplane will answer to the next calls. -/
  answers : List Bool
  /-- The calls that succeeded, the last one first. -/
  calls : List DpCall

namespace World

def empty : World := ⟨∅, ∅, ∅, [], [], [], []⟩

/-- The next answer. -/
def answer : Prog World := fun w =>
  match w.answers with
  | [] => (true, w)
  | a :: rest => (a, { w with answers := rest })

/-- A call of the dataplane. -/
def dp (c : DpCall) : Prog World :=
  Prog.andThen answer (Prog.modify fun w => { w with calls := c :: w.calls })

end World

/-- The table of one kind of object. -/
structure Table (α : Type) where
  find : World → Name → Option (Conf α)
  put : Name → Conf α → World → World
  delete : Name → World → World

def leafTable (k : LeafKind) : Table LeafAttr where
  find w n := w.leaves.lookup (k, n)
  put n c w := { w with leaves := w.leaves.insert (k, n) c }
  delete n w := { w with leaves := w.leaves.erase (k, n) }

def portTable : Table PortAttr where
  find w n := w.ports.lookup n
  put n c w := { w with ports := w.ports.insert n c }
  delete n w := { w with ports := w.ports.erase n }

def bridgeTable : Table BridgeAttr where
  find w n := w.bridges.lookup n
  put n c w := { w with bridges := w.bridges.insert n c }
  delete n w := { w with bridges := w.bridges.erase n }

namespace Table

variable {α : Type} (t : Table α)

/-- A change of an object; nothing if there is none of the name. -/
def alter (n : Name) (g : Conf α → Conf α) (w : World) : World :=
  match t.find w n with
  | some c => t.put n (g c) w
  | none => w

/-- What is done with the object of a name, and a failure if there is none. -/
def withConf (n : Name) (f : Conf α → Prog World) : Prog World :=
  Prog.read fun w =>
    match t.find w n with
    | some c => f c
    | none => Prog.fail

/-- A change of the attribute asked for. -/
def setModified (n : Name) (g : α → α) (w : World) : World :=
  t.alter n (fun c => { c with modified := c.modified.map g }) w

/-- `…_set_used`; a missing object is ignored by all the callers. -/
def setUsed (b : Bool) (n : Name) (w : World) : World :=
  t.alter n (fun c => { c with isUsed := b }) w

variable {t} {n : Name} {w : World} {f : Conf α → Prog World}

theorem withConf_of_some {c : Conf α} (h : t.find w n = some c) : t.withConf n f w = f c w := by
  unfold withConf Prog.read
  simp only [h]

theorem withConf_of_none (h : t.find w n = none) : t.withConf n f w = (false, w) := by
  unfold withConf Prog.read
  simp only [h]
  rfl

/-- The table is a map. -/
structure Lawful (t : Table α) : Prop where
  find_put : ∀ n m c w, t.find (t.put n c w) m = if m = n then some c else t.find w m
  find_delete : ∀ n m w, t.find (t.delete n w) m = if m = n then none else t.find w m

namespace Lawful

theorem find_alter (h : t.Lawful) (n m : Name) (g : Conf α → Conf α) (w : World) :
    t.find (t.alter n g w) m = if m = n then (t.find w m).map g else t.find w m := by
  unfold alter
  cases hc : t.find w n with
  | none =>
    show t.find w m = _
    split
    · next hm => rw [hm, hc]; rfl
    · rfl
  | some c =>
    show t.find (t.put n (g c) w) m = _
    rw [h.find_put]
    split
    · next hm => rw [hm, hc]; rfl
    · rfl

theorem find_alter_self (h : t.Lawful) {g : Conf α → Conf α} {c : Conf α}
    (hc : t.find w n = some c) : t.find (t.alter n g w) n = some (g c) := by
  rw [h.find_alter, if_pos rfl, hc]
  rfl

end Lawful

end Table

theorem leafTable_lawful (k : LeafKind) : (leafTable k).Lawful where
  find_put _ _ _ _ := by simp [leafTable, Hashmap.lookup_insert_ite]
  find_delete _ _ _ := by simp [leafTable, Hashmap.lookup_erase_ite]

theorem portTable_lawful : portTable.Lawful where
  find_put _ _ _ _ := Hashmap.lookup_insert_ite ..
  find_delete _ _ _ := Hashmap.lookup_erase_ite ..

theorem bridgeTable_lawful : bridgeTable.Lawful where
  find_put _ _ _ _ := Hashmap.lookup_insert_ite ..
  find_delete _ _ _ := Hashmap.lookup_erase_ite ..

end Lagopus.Datastore
