import Lagopus.Lib.Memory

/-!
# The dataplane's interfaces, ports and bridges

The dataplane keeps the objects the datastore configures in tables by name, and refers from one object
to another by pointer: a port to its interface and to its bridge, an interface to its port, a bridge to
its ports by their OpenFlow numbers.  Two more tables find a port by the number of its physical
interface and a bridge by its datapath id.  This file is the model of the calls that change them
(`dp_apis.c`).

What the device drivers and the allocator answer is not determined by the tables; a call takes it as an
`Env`.
-/

namespace Lagopus.Mgr

abbrev InterfaceRef := Nat
abbrev PortRef := Nat
abbrev BridgeRef := Nat

/-- `datastore_interface_type_t`. -/
inductive InterfaceType where
  | unknown | ethernetDpdkPhy | ethernetDpdkVdev | ethernetRawsock
  | gre | nvgre | vxlan | vhostUser
  deriving DecidableEq, Repr

/-- The types whose interface is a device with a driver. -/
def InterfaceType.hasDriver : InterfaceType → Bool
  | .ethernetDpdkPhy | .ethernetDpdkVdev | .ethernetRawsock => true
  | .unknown | .gre | .nvgre | .vxlan | .vhostUser => false

/-- The types `dp_interface_info_set` takes. -/
def InterfaceType.isSettable : InterfaceType → Bool
  | .ethernetDpdkPhy | .ethernetRawsock | .vxlan | .unknown => true
  | .ethernetDpdkVdev | .gre | .nvgre | .vhostUser => false

/-- The part of `datastore_interface_info_t` the tables depend on.  All the members of the source's
union begin with the port number, which is read as `eth.port_number` whatever the type. -/
structure InterfaceInfo where
  type : InterfaceType
  portNumber : Nat
  deriving DecidableEq, Repr

/-- `memset(&ifp->info, 0, sizeof(ifp->info))`. -/
def InterfaceInfo.zero : InterfaceInfo := ⟨.unknown, 0⟩

/-- `struct interface`. -/
structure Interface where
  info : InterfaceInfo
  port : Option PortRef

/-- `struct port`.  `ifindex` is the port number of the interface when it was attached. -/
structure Port where
  interface : Option InterfaceRef
  ifindex : Nat
  bridge : Option BridgeRef
  portNo : Nat

/-- `struct bridge`. -/
structure Bridge where
  dpid : Nat
  ports : Hashmap Nat PortRef

/-- `datastore_bridge_fail_mode_t`. -/
inductive FailMode where
  | unknown | secure | standalone
  deriving DecidableEq, Repr

/-- The part of `datastore_bridge_info_t` that `dp_bridge_create` reads. -/
structure BridgeInfo where
  dpid : Nat
  failMode : FailMode
  deriving DecidableEq, Repr

inductive Result where
  | ok | anyFailures | alreadyExists | noMemory | notFound | invalidArgs | posixApiError
  deriving DecidableEq, Repr

/-- The answers a call gets from outside the tables: whether there is memory for a new object, the
results of the drivers (`dpdk_*`, `rawsock_*`) and of the tap device of a `HYBRID` build, and the port
number that a driver writes into the information of an interface it configures, if it writes one. -/
structure Env where
  hasMemory : Bool
  stop : Result
  configure : Result
  unconfigure : Result
  tapCreate : Result
  queueConfigure : Result
  portNumber : Option Nat
  deriving DecidableEq, Repr

/-- There is memory and every driver succeeds; the number is the one it writes. -/
def Env.allOk (portNumber : Option Nat) : Env := ⟨true, .ok, .ok, .ok, .ok, .ok, portNumber⟩

structure Graph where
  interfaces : Heap Interface
  ports : Heap Port
  bridges : Heap Bridge
  interfaceHashmap : Hashmap String InterfaceRef
  portHashmap : Hashmap String PortRef
  bridgeHashmap : Hashmap String BridgeRef
  dpidHashmap : Hashmap Nat BridgeRef
  portidHashmap : InterfaceType → Hashmap Nat PortRef

namespace Graph

/-- `dp_api_init`. -/
def init : Graph where
  interfaces := .empty
  ports := .empty
  bridges := .empty
  interfaceHashmap := ∅
  portHashmap := ∅
  bridgeHashmap := ∅
  dpidHashmap := ∅
  portidHashmap := fun _ => ∅

/-! ## Interfaces -/

variable (g : Graph) (name : String)

/-- `lagopus_hashmap_find(&interface_hashmap, name, &ifp)`, with the object read through the pointer
found. -/
def findInterface : Option (InterfaceRef × Interface) :=
  Hashmap.find g.interfaceHashmap g.interfaces name

variable (env : Env)

def dpInterfaceCreate (name : String) : Result × Graph :=
  match g.interfaceHashmap.lookup name with
  | some _ => (.alreadyExists, g)
  | none =>
    if env.hasMemory then
      (.ok, { g with
        interfaces := g.interfaces.alloc ⟨.zero, none⟩
        interfaceHashmap := g.interfaceHashmap.insert name g.interfaces.next })
    else (.noMemory, g)

/-- The number of an interface once a driver, if it has one, was asked to configure it: a raw socket
gets the next one whatever was asked for, a DPDK device that of its name. -/
def configuredNumber (info : InterfaceInfo) : Nat :=
  if info.type.hasDriver then env.portNumber.getD info.portNumber else info.portNumber

/-- A failure of the driver leaves the new information in place but for its type. -/
def dpInterfaceConfigureInternal (info : InterfaceInfo) : Result × InterfaceInfo :=
  let rv := if info.type.hasDriver then env.configure else .ok
  let info := { info with portNumber := configuredNumber env info }
  if rv = .ok then (env.tapCreate, info) else (rv, { info with type := .unknown })

def dpInterfaceUnconfigureInternal (info : InterfaceInfo) : Result :=
  if info.type.hasDriver then env.unconfigure else .ok

def dpInterfaceStopInternal (info : InterfaceInfo) : Result :=
  if info.type.hasDriver then env.stop else .ok

def setInfo (i : InterfaceRef) (info : InterfaceInfo) : Graph :=
  { g with interfaces := g.interfaces.modify i fun ifp => { ifp with info := info } }

/-- `dp_interface_info_set`, where no information stands for the source's `NULL`. -/
def dpInterfaceInfoSet (name : String) (info : Option InterfaceInfo) :
    Result × Graph :=
  match g.findInterface name with
  | none => (.notFound, g)
  | some (i, ifp) =>
    match info with
    | none =>
      let rv := dpInterfaceUnconfigureInternal env ifp.info
      if rv = .ok then (rv, g.setInfo i .zero) else (rv, g)
    | some info =>
      if info.type.isSettable then
        let (rv, info) := dpInterfaceConfigureInternal env info
        (rv, g.setInfo i info)
      else (.invalidArgs, g)

/-- `dp_port_interface_unset_internal`.  The table to remove the port from is the one of the type the
interface has now; the number is the one remembered by the port. -/
def dpPortInterfaceUnsetInternal (p : PortRef) : Graph :=
  match g.ports.get p with
  | none => g
  | some port =>
    match port.interface with
    | none => g
    | some i =>
      match g.interfaces.get i with
      | none => g
      | some ifp =>
        { g with
          portidHashmap := Function.update g.portidHashmap ifp.info.type
            ((g.portidHashmap ifp.info.type).erase port.ifindex)
          interfaces := g.interfaces.modify i fun ifp => { ifp with port := none }
          ports := g.ports.modify p fun port => { port with interface := none } }

/-- The entry of a name is deleted from the table and the object freed. -/
def removeInterface (i : InterfaceRef) : Graph :=
  { g with
    interfaces := g.interfaces.free i
    interfaceHashmap := g.interfaceHashmap.erase name }

/-- `dp_interface_destroy`.  The information is cleared before the port is detached. -/
def dpInterfaceDestroy (name : String) : Result × Graph :=
  match g.findInterface name with
  | none => (.notFound, g)
  | some (i, ifp) =>
    let rv := dpInterfaceStopInternal env ifp.info
    if rv ≠ .ok then (rv, g)
    else
      let (rv, g) := g.dpInterfaceInfoSet env name none
      if rv ≠ .ok then (rv, g)
      else
        let g := match ifp.port with
          | some p => g.dpPortInterfaceUnsetInternal p
          | none => g
        (.ok, g.removeInterface name i)

/-! ## Ports -/

/-- `lagopus_hashmap_find(&port_hashmap, name, &port)`. -/
def findPort : Option (PortRef × Port) :=
  Hashmap.find g.portHashmap g.ports name

def dpPortCreate (name : String) : Result × Graph :=
  match g.portHashmap.lookup name with
  | some _ => (.alreadyExists, g)
  | none =>
    if env.hasMemory then
      (.ok, { g with
        ports := g.ports.alloc ⟨none, 0, none, 0⟩
        portHashmap := g.portHashmap.insert name g.ports.next })
    else (.noMemory, g)

/-- `dp_port_interface_set`.  Neither the port's former interface nor the interface's former port is
told, and an entry under the physical number is overwritten. -/
def dpPortInterfaceSet (name ifname : String) : Result × Graph :=
  match g.findPort name with
  | none => (.notFound, g)
  | some (p, _) =>
    match g.findInterface ifname with
    | none => (.notFound, g)
    | some (i, ifp) =>
      (if ifp.info.type = .ethernetDpdkPhy ∨ ifp.info.type = .ethernetDpdkVdev then
        env.queueConfigure else .ok,
      { g with
        ports := g.ports.modify p fun port =>
          { port with interface := some i, ifindex := ifp.info.portNumber }
        interfaces := g.interfaces.modify i fun ifp => { ifp with port := some p }
        portidHashmap := Function.update g.portidHashmap ifp.info.type
          ((g.portidHashmap ifp.info.type).insert ifp.info.portNumber p) })

def dpPortInterfaceUnset : Result × Graph :=
  match g.portHashmap.lookup name with
  | none => (.notFound, g)
  | some p => (.ok, g.dpPortInterfaceUnsetInternal p)

/-- The entry of a name is deleted from the table and the object freed. -/
def removePort (p : PortRef) : Graph :=
  { g with
    ports := g.ports.free p
    portHashmap := g.portHashmap.erase name }

/-- `dp_port_destroy`.  The bridge of the port is not told. -/
def dpPortDestroy : Result × Graph :=
  match g.portHashmap.lookup name with
  | none => (.ok, g)
  | some p =>
    (.ok, (g.dpPortInterfaceUnsetInternal p).removePort name p)

/-! ## Bridges -/

/-- `lagopus_hashmap_find(&bridge_hashmap, name, &bridge)`. -/
def findBridge : Option (BridgeRef × Bridge) :=
  Hashmap.find g.bridgeHashmap g.bridges name

/-- `dp_bridge_create`.  A bridge with an unknown fail mode stays allocated without a name; one whose
datapath id is taken stays in the table of names. -/
def dpBridgeCreate (name : String) (info : BridgeInfo) : Result × Graph :=
  match g.bridgeHashmap.lookup name with
  | some _ => (.alreadyExists, g)
  | none =>
    if env.hasMemory then
      let b := g.bridges.next
      let g := { g with bridges := g.bridges.alloc ⟨info.dpid, ∅⟩ }
      match info.failMode with
      | .unknown => (.invalidArgs, g)
      | .secure | .standalone =>
        let g := { g with bridgeHashmap := g.bridgeHashmap.insert name b }
        match g.dpidHashmap.lookup info.dpid with
        | some _ => (.alreadyExists, g)
        | none => (.ok, { g with dpidHashmap := g.dpidHashmap.insert info.dpid b })
    else (.noMemory, g)

/-- `bridge_free`, from which the ports of the bridge lose it. -/
def bridgeFree (b : BridgeRef) (bridge : Bridge) : Graph :=
  { g with
    ports := g.ports.modifyAll (Hashmap.values bridge.ports) fun port => { port with bridge := none }
    bridges := g.bridges.free b }

def dpBridgeDestroy : Result × Graph :=
  match g.findBridge name with
  | none => (.notFound, g)
  | some (b, bridge) =>
    let g := { g with dpidHashmap := g.dpidHashmap.erase bridge.dpid }
    let g := g.bridgeFree b bridge
    (.ok, { g with bridgeHashmap := g.bridgeHashmap.erase name })

/-- `dp_bridge_port_set`.  The port takes the number also when it is taken in the bridge. -/
def dpBridgePortSet (name portName : String) (portNum : Nat) : Result × Graph :=
  match g.findBridge name with
  | none => (.notFound, g)
  | some (b, bridge) =>
    match g.findPort portName with
    | none => (.notFound, g)
    | some (p, port) =>
      if port.bridge.isSome then (.alreadyExists, g)
      else
        let g := { g with ports := g.ports.modify p fun port => { port with portNo := portNum } }
        match bridge.ports.lookup portNum with
        | some _ => (.alreadyExists, g)
        | none =>
          (.ok, { g with
            bridges := g.bridges.modify b fun br => { br with ports := br.ports.insert portNum p }
            ports := g.ports.modify p fun port => { port with bridge := some b } })

/-- The entry of number `n` leaves the table of bridge `b`, and port `p` its bridge. -/
def detach (b : BridgeRef) (n : Nat) (p : PortRef) : Graph :=
  { g with
    bridges := g.bridges.modify b fun br => { br with ports := br.ports.erase n }
    ports := g.ports.modify p fun port => { port with bridge := none } }

/-- `dp_bridge_port_unset`.  The port need not be one of the bridge. -/
def dpBridgePortUnset (name portName : String) : Result × Graph :=
  match g.findBridge name with
  | none => (.notFound, g)
  | some (b, _) =>
    match g.findPort portName with
    | none => (.notFound, g)
    | some (p, port) => (.ok, g.detach b port.portNo p)

def dpBridgePortUnsetNum (portNo : Nat) : Result × Graph :=
  match g.findBridge name with
  | none => (.notFound, g)
  | some (b, bridge) =>
    match bridge.ports.lookup portNo with
    | none => (.notFound, g)
    | some p => (.ok, g.detach b portNo p)

end Graph

/-! ## Sequences of calls -/

/-- One call of the object interface. -/
inductive Call where
  | interfaceCreate (name : String)
  | interfaceInfoSet (name : String) (info : Option InterfaceInfo)
  | interfaceDestroy (name : String)
  | portCreate (name : String)
  | portDestroy (name : String)
  | portInterfaceSet (name ifname : String)
  | portInterfaceUnset (name : String)
  | bridgeCreate (name : String) (info : BridgeInfo)
  | bridgeDestroy (name : String)
  | bridgePortSet (name portName : String) (portNum : Nat)
  | bridgePortUnset (name portName : String)
  | bridgePortUnsetNum (name : String) (portNo : Nat)
  deriving DecidableEq, Repr

def Graph.call (g : Graph) (env : Env) : Call → Result × Graph
  | .interfaceCreate name => g.dpInterfaceCreate env name
  | .interfaceInfoSet name info => g.dpInterfaceInfoSet env name info
  | .interfaceDestroy name => g.dpInterfaceDestroy env name
  | .portCreate name => g.dpPortCreate env name
  | .portDestroy name => g.dpPortDestroy name
  | .portInterfaceSet name ifname => g.dpPortInterfaceSet env name ifname
  | .portInterfaceUnset name => g.dpPortInterfaceUnset name
  | .bridgeCreate name info => g.dpBridgeCreate env name info
  | .bridgeDestroy name => g.dpBridgeDestroy name
  | .bridgePortSet name portName portNum => g.dpBridgePortSet name portName portNum
  | .bridgePortUnset name portName => g.dpBridgePortUnset name portName
  | .bridgePortUnsetNum name portNo => g.dpBridgePortUnsetNum name portNo

/-- The graph after a call and the answers it got, whatever the call returned. -/
def Graph.step (g : Graph) (event : Call × Env) : Graph := (g.call event.2 event.1).2

end Lagopus.Mgr
