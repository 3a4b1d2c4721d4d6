import Lagopus.Datastore.Update

/-!
# Updating a port

`port_cmd.c`: what is done when a port is brought to the attribute that is asked for, started or stopped,
with what that propagates to the interface, the queues and the policer it names.
-/

namespace Lagopus.Datastore

namespace Port

open Prog World

/-- `ofp_port_queue_names_info_get`. -/
def queueNamesInfo (c : Conf PortAttr) : NamesInfo :=
  match c.modified with
  | none => .empty
  | some m => .ofLists (c.current.elim [] PortAttr.queues) m.queues

/-- `ofp_port_interface_used_set`. -/
def interfaceUsedSet (a : PortAttr) (b : Bool) (w : World) : World :=
  a.interface.elim w fun i => (leafTable .interface).setUsed b i w

/-- `ofp_port_queues_used_set`. -/
def queuesUsedSet (a : PortAttr) (b : Bool) (w : World) : World :=
  a.queues.foldl (fun w q => (leafTable .queue).setUsed b q w) w

/-- `ofp_port_policer_used_set`. -/
def policerUsedSet (a : PortAttr) (b : Bool) (w : World) : World :=
  a.policer.elim w fun p => (leafTable .policer).setUsed b p w

/-- `ofp_port_names_used_set`. -/
def namesUsedSet (a : PortAttr) (b : Bool) (w : World) : World :=
  policerUsedSet a b (queuesUsedSet a b (interfaceUsedSet a b w))

/-- `ofp_port_queues_disable`.  The flag that is cleared is the one of the *port* that has the name of
the queue. -/
def queuesDisable (queues : List Name) (state : InterpState)
    (isPropagation isUnsetUsed : Bool) : Prog World :=
  disableEach (leafDisablePropagation .queue state) (portTable.setUsed false) queues state
    isPropagation isUnsetUsed

/-- `ofp_port_names_disable`. -/
def namesDisable (a : PortAttr) (queues : List Name) (state : InterpState)
    (isPropagation isUnsetUsed : Bool) : Prog World :=
  andThen (named (leafDisablePropagation .interface state) a.interface)
    (andThen (queuesDisable queues state isPropagation isUnsetUsed)
      (named (leafDisablePropagation .policer state) a.policer))

/-- `ofp_port_names_update`. -/
def namesUpdate (state : InterpState) (c : Conf PortAttr) : Prog World :=
  (c.modified.or c.current).elim fail fun a =>
    andThen (named ((leaf .interface).update state) a.interface)
      (andThen ((queueNamesInfo c).update ((leaf .queue).update state))
        (named ((leaf .policer).update state) a.policer))

variable (n : Name)

/-- `ofp_port_queues_add`. -/
def queuesAdd (queues : List Name) : Prog World :=
  forEach (fun q => dp (.portQueueAdd n q)) queues

/-- `ofp_port_queues_delete`. -/
def queuesDelete (queues : List Name) : Prog World :=
  forEach (fun q => dp (.portQueueDelete n q)) queues

/-- `ofp_port_policer_add`. -/
def policerAdd (a : PortAttr) : Prog World :=
  named (fun p => dp (.portPolicerSet n p)) a.policer

/-- `ofp_port_policer_delete`. -/
def policerDelete (a : PortAttr) : Prog World :=
  named (fun _ => dp (.portPolicerUnset n)) a.policer

/-- `ofp_port_create`. -/
def create (a : PortAttr) : Prog World :=
  andThen (andThen (dp (.portCreate n)) (named (fun i => dp (.portInterfaceSet n i)) a.interface))
    (andThen (queuesAdd n a.queues) (policerAdd n a))

/-- `ofp_port_destroy`. -/
def destroy (a : PortAttr) : Prog World :=
  andThen (policerDelete n a) (andThen (queuesDelete n a.queues) (dp (.portDestroy n)))

/-- `ofp_port_start`.  When queues were added only those are enabled. -/
def start (a : PortAttr) (info : NamesInfo) (state : InterpState)
    (isPropagation : Bool) : Prog World :=
  andThen (named ((leaf .policer).enablePropagation state) a.policer)
    (andThen
      (if isPropagation then
        forEach ((leaf .queue).enablePropagation state)
          (if info.add.isEmpty then a.queues else info.add)
      else ok)
      (andThen
        (if isPropagation then named ((leaf .interface).enablePropagation state) a.interface
        else ok)
        (dp (.portStart n))))

/-- `ofp_port_stop`. -/
def stop (a : PortAttr) (state : InterpState) : Prog World :=
  andThen (namesDisable a a.queues state true false) (dp (.portStop n))

/-- The attribute in force is taken down. -/
def takeDown (state : InterpState) (info : NamesInfo) (withoutNames isPropagation : Bool)
    (a : PortAttr) : Prog World :=
  andThen (modify (interfaceUsedSet a false))
    (andThen (namesDisable a info.del state isPropagation true)
      (if withoutNames then destroy n a
      else andThen (policerDelete n a) (queuesDelete n info.del)))

/-- The attribute asked for is put up in the place of the one in force. -/
def replace (state : InterpState) (c : Conf PortAttr) (m : PortAttr)
    (isPropagation : Bool) : Prog World :=
  let info := queueNamesInfo c
  let withoutNames := c.current.elim true fun a => !a.equalsWithoutNames m
  andThen (c.current.elim ok (takeDown n state info withoutNames isPropagation))
    (andThen
      (if withoutNames then create n m else andThen (policerAdd n m) (queuesAdd n info.add))
      (andThen (modify (namesUsedSet m true))
        (if c.isEnabled then start n m info state isPropagation else ok)))

/-- Started or stopped, if that is asked for. -/
def startOrStop (state : InterpState) (c : Conf PortAttr)
    (isPropagation isEnableDisableCmd : Bool) : Prog World :=
  if isEnableDisableCmd ∨ c.isEnabling ∨ c.isDisabling then
    c.current.elim fail fun a =>
      if c.isEnabled then start n a (queueNamesInfo c) state isPropagation else stop n a state
  else ok

/-- An attribute is asked for that differs from the one in force. -/
def isModified (c : Conf PortAttr) : Bool :=
  c.modified.elim false fun m => c.current.elim true fun a => !a.equals m

/-- `port_cmd_do_update`.  The marks are cleared only when there is nothing to replace. -/
def doUpdate (state : InterpState) (n : Name) (isPropagation isEnableDisableCmd : Bool) :
    Prog World :=
  portTable.withConf n fun c =>
    andThen (if isPropagation then namesUpdate state c else ok)
      (if isModified c then
        andThen (replace n state c (c.modified.getD .default) isPropagation)
          (modify fun w =>
            if state = .committing ∨ state = .rollbacking then w
            else portTable.alter n (Conf.updateCurrentAttr state) w)
      else
        finally_ (startOrStop n state c isPropagation isEnableDisableCmd)
          (portTable.alter n Conf.clearMarks))

end Port

open Prog in
/-- Ports. -/
def port : Kind PortAttr where
  table := portTable
  doUpdate := Port.doUpdate
  namesUsedSet := Port.namesUsedSet
  namesDisableAll a state := a.elim fail fun a => Port.namesDisable a a.queues state true true
  dpDestroy n a := a.elim ok (Port.destroy n)
  hasParent := true

/-- `port_cmd_disable_propagation`: the port may be being destroyed. -/
def portDisablePropagation (state : InterpState) (n : Name) : Prog World :=
  port.disableInternal state n true

end Lagopus.Datastore
