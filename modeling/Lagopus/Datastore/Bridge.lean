import Lagopus.Datastore.Port

/-!
# Updating a bridge

`bridge_cmd.c`: what is done when a bridge is brought to the attribute that is asked for, started or
stopped, with what that propagates to the ports and controllers it names.
-/

namespace Lagopus.Datastore

namespace Bridge

open Prog World

/-- `bri_port_names_info_get`. -/
def portNamesInfo (c : Conf BridgeAttr) : NamesInfo :=
  match c.modified with
  | none => .empty
  | some m => .ofLists (c.current.elim [] BridgeAttr.ports) m.ports

/-- `bri_controller_names_info_get`: nothing is added when a bridge is created. -/
def controllerNamesInfo (c : Conf BridgeAttr) : NamesInfo :=
  match c.current, c.modified with
  | some a, some m => .ofLists a.controllers m.controllers
  | _, _ => .empty

/-- `bri_names_used_set`. -/
def namesUsedSet (a : BridgeAttr) (b : Bool) (w : World) : World :=
  a.controllers.foldl (fun w c => (leafTable .controller).setUsed b c w)
    (a.ports.foldl (fun w p => portTable.setUsed b p w) w)

/-- `bri_names_disable`: `bri_ports_disable` and `bri_controllers_disable`. -/
def namesDisable (ports controllers : List Name) (state : InterpState)
    (isPropagation isUnsetUsed : Bool) : Prog World :=
  andThen
    (disableEach (portDisablePropagation state) (portTable.setUsed false) ports state
      isPropagation isUnsetUsed)
    (disableEach (leafDisablePropagation .controller state) ((leafTable .controller).setUsed false)
      controllers state isPropagation isUnsetUsed)

/-- `bri_names_update`. -/
def namesUpdate (state : InterpState) (c : Conf BridgeAttr) : Prog World :=
  andThen ((portNamesInfo c).update (port.update state))
    ((controllerNamesInfo c).update ((leaf .controller).update state))

/-- The port's number is read from the attribute asked for if there is one. -/
def portNumber (c : Conf PortAttr) : Nat := ((c.modified.or c.current).getD .default).portNumber

variable (n : Name)

/-- `bri_ports_add`.  What is registered in `port_table` is the name of the bridge. -/
def portsAdd (ports : List Name) : Prog World :=
  forEach (fun p =>
    portTable.withConf p fun c =>
      andThen (dp (.bridgePortSet n p (portNumber c)))
        (modify fun w => { w with portTableKeys := n :: w.portTableKeys })) ports

/-- `bri_ports_delete`. -/
def portsDelete (ports : List Name) : Prog World :=
  forEach (fun p =>
    portTable.withConf p fun _ =>
      andThen (dp (.bridgePortUnset n p))
        (modify fun w => { w with portTableKeys := w.portTableKeys.filter (· ≠ n) })) ports

/-- `bri_port_is_modified` looks the name of a port up among the names of bridges, and what it finds
there is the address of a variable that is gone: the comparison may then give anything. -/
def portIsModified (p : Name) : Prog World :=
  read fun w =>
    if (portTable.find w p).elim false (·.current.isSome) ∧ p ∈ w.portTableKeys then answer
    else fail

/-- `bri_ports_is_modified`. -/
def portsIsModified (info : NamesInfo) : Prog World :=
  (info.notChange ++ info.add ++ info.del).foldr
    (fun p rest => bind (portIsModified p) fun found => if found then ok else rest) fail

/-- `bri_controllers_add`. -/
def controllersAdd (controllers : List Name) : Prog World :=
  forEach (fun c => (leafTable .controller).withConf c fun _ => dp (.channelDpidSet c)) controllers

/-- `bri_controllers_delete`, whose retries count as one call. -/
def controllersDelete (controllers : List Name) : Prog World :=
  forEach (fun c => (leafTable .controller).withConf c fun _ => dp (.channelDpidUnset c)) controllers

/-- `bri_create`. -/
def create (a : BridgeAttr) : Prog World :=
  andThen (andThen (dp (.bridgeRegister n)) (dp (.bridgeCreate n)))
    (andThen (portsAdd n a.ports) (controllersAdd a.controllers))

/-- `bri_destroy`.  That a bridge cannot be unregistered is reported as a success. -/
def destroy (a : BridgeAttr) : Prog World :=
  andThen (controllersDelete a.controllers)
    (andThen (portsDelete n a.ports)
      (andThen (dp (.bridgeDestroy n)) (regardless (dp (.bridgeUnregister n)) ok)))

/-- `bri_queue_max_batches_set`.  Only a failure of the first call is reported. -/
def queueMaxBatchesSet : Prog World :=
  andThen (dp (.dataqMaxBatchesSet n))
    (regardless (andThen (dp (.eventqMaxBatchesSet n)) (dp (.eventDataqMaxBatchesSet n))) ok)

/-- `bri_bridge_start`.  When ports or controllers were added only those are enabled. -/
def start (a : BridgeAttr) (ports controllers : NamesInfo) (state : InterpState)
    (isPropagation withoutNames : Bool) : Prog World :=
  andThen
    (if isPropagation then
      forEach (port.enablePropagation state) (if ports.add.isEmpty then a.ports else ports.add)
    else ok)
    (andThen
      (if isPropagation then
        forEach ((leaf .controller).enablePropagation state)
          (if controllers.add.isEmpty then a.controllers else controllers.add)
      else ok)
      (if withoutNames then dp (.bridgeStart n) else ok))

/-- `bri_bridge_stop`. -/
def stop (a : BridgeAttr) (state : InterpState) : Prog World :=
  andThen (namesDisable a.ports a.controllers state true false) (dp (.bridgeStop n))

/-- The attribute in force is taken down. -/
def takeDown (state : InterpState) (ports controllers : NamesInfo)
    (withoutNames withoutQmaxBatches isPropagation : Bool) (a : BridgeAttr) : Prog World :=
  andThen (namesDisable ports.del controllers.del state isPropagation true)
    (if withoutNames then (if withoutQmaxBatches then destroy n a else ok)
    else andThen (controllersDelete controllers.del) (portsDelete n ports.del))

/-- The attribute asked for is put up in the place of the one in force. -/
def replace (state : InterpState) (c : Conf BridgeAttr) (m : BridgeAttr)
    (isPropagation : Bool) : Prog World :=
  let ports := portNamesInfo c
  let controllers := controllerNamesInfo c
  let withoutNames := c.current.elim true fun a => !a.equalsWithoutNames m
  let withoutQmaxBatches := c.current.elim true fun a => !a.equalsWithoutQmaxBatches m
  andThen
    (c.current.elim ok
      (takeDown n state ports controllers withoutNames withoutQmaxBatches isPropagation))
    (andThen
      (if withoutNames then (if withoutQmaxBatches then create n m else queueMaxBatchesSet n)
      else andThen (portsAdd n ports.add) (controllersAdd controllers.add))
      (if withoutQmaxBatches then
        andThen (modify (namesUsedSet m true))
          (if c.isEnabled then start n m ports controllers state isPropagation withoutNames else ok)
      else ok))

/-- Started or stopped, if that is asked for. -/
def startOrStop (state : InterpState) (c : Conf BridgeAttr)
    (isPropagation isEnableDisableCmd : Bool) : Prog World :=
  if isEnableDisableCmd ∨ c.isEnabling ∨ c.isDisabling then
    c.current.elim fail fun a =>
      if c.isEnabled then
        start n a (portNamesInfo c) (controllerNamesInfo c) state isPropagation true
      else stop n a state
  else ok

/-- Whether there is anything to replace: the attribute asked for differs from the one in force, or a
port seems to have another number. -/
def isModified (c : Conf BridgeAttr) : Prog World :=
  c.modified.elim fail fun m =>
    if c.current.elim true fun a => !a.equals m then ok else portsIsModified (portNamesInfo c)

/-- `bridge_cmd_do_update`. -/
def doUpdate (state : InterpState) (n : Name) (isPropagation isEnableDisableCmd : Bool) :
    Prog World :=
  bridgeTable.withConf n fun c =>
    bind (isModified c) fun modified =>
      andThen (if isPropagation then namesUpdate state c else ok)
        (if modified then
          andThen (replace n state c (c.modified.getD .default) isPropagation)
            (modify fun w =>
              if state = .committing ∨ state = .rollbacking then w
              else bridgeTable.alter n (Conf.updateCurrentAttr state) w)
        else
          finally_ (startOrStop n state c isPropagation isEnableDisableCmd)
            (bridgeTable.alter n Conf.clearMarks))

end Bridge

open Prog in
/-- Bridges. -/
def bridge : Kind BridgeAttr where
  table := bridgeTable
  doUpdate := Bridge.doUpdate
  namesUsedSet := Bridge.namesUsedSet
  namesDisableAll a state := a.elim fail fun a => Bridge.namesDisable a.ports a.controllers state true true
  dpDestroy n a := a.elim ok (Bridge.destroy n)
  hasParent := false

end Lagopus.Datastore
