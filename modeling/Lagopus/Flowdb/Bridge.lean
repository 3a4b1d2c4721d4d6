import Lagopus.Flowdb.Examine
import Lagopus.Pipeline.Cache

/-!
# The flow database

`flowdb.c` keeps the flow entries of a bridge: for each table the flow list, in priority order, and
next to it the index of `flowinfo.c`.  A flow entry that names a meter or a group is counted
there, so the meters and the groups of the bridge are part of the state.

* `Bridge` is that state, and `Flow` a flow entry with everything the requests set in it.
* `flowActionCheck` is the check of the ports, groups and meters a flow entry names; it counts the
  entry while it checks, and what was counted before an error stays counted.
* `Bridge.delFromMeter` and `Bridge.delFromGroup` undo the counting.

An operation gives back the state it leaves behind together with its result, for an error does not
mean that nothing has changed.
-/

namespace Lagopus

/-! ## Flow entries -/

/-- `table_id`. The 256th number is `OFPTT_ALL` and has no table. -/
abbrev TableId := Fin 255

instance neZeroTables : NeZero 255 := ⟨by decide⟩

def OFPFF_SEND_FLOW_REM : BitVec 16 := 1
def OFPFF_CHECK_OVERLAP : BitVec 16 := 2
def OFPFF_RESET_COUNTS : BitVec 16 := 4
def OFPFF_NO_PKT_COUNTS : BitVec 16 := 8
def OFPFF_NO_BYT_COUNTS : BitVec 16 := 16

/-- `CHECK_FLAG`. -/
def checkFlag (flags flag : BitVec 16) : Bool := flags &&& flag ≠ 0

/-- `struct flow`. -/
structure Flow where
  head : FlowHead
  tableId : TableId := 0
  flags : BitVec 16 := 0
  cookie : BitVec 64 := 0
  idleTimeout : BitVec 16 := 0
  hardTimeout : BitVec 16 := 0
  instruction : Instructions := {}
  packetCount : Nat := 0
  byteCount : Nat := 0
  /-- There is an entry of the timer list for it. -/
  flowTimer : Bool := false
deriving DecidableEq

/-- A flow entry, as the data path reads it. -/
def Flow.entry (f : Flow) : FlowEntry where
  head := f.head
  tableId := f.tableId
  noPktCounts := checkFlag f.flags OFPFF_NO_PKT_COUNTS
  noBytCounts := checkFlag f.flags OFPFF_NO_BYT_COUNTS
  instruction := f.instruction

/-- `struct ofp_flow_mod`. -/
structure FlowMod where
  cookie : BitVec 64 := 0
  cookieMask : BitVec 64 := 0
  /-- `none` is `OFPTT_ALL`. -/
  tableId : Option TableId
  /-- The command is `OFPFC_MODIFY_STRICT` or `OFPFC_DELETE_STRICT`. -/
  strict : Bool := false
  idleTimeout : BitVec 16 := 0
  hardTimeout : BitVec 16 := 0
  priority : Nat := 0
  outPort : Nat := OFPP_ANY
  outGroup : Nat := OFPG_ANY
  flags : BitVec 16 := 0

/-- `struct instruction`, as a request lists them. -/
inductive Instruction
  | meter (meterId : Nat)
  | applyActions (actionList : List Action)
  | clearActions
  | writeActions (actionList : List Action)
  | writeMetadata (metadata mask : BitVec 64)
  | gotoTable (tableId : Nat)
  | other (type : Nat)
deriving DecidableEq

/-- One round of `map_instruction_list_to_array`. -/
def Instructions.place (dest : Instructions) (inst : Instruction) : Except OfpError Instructions :=
  let put (taken : Bool) (dest : Instructions) : Except OfpError Instructions :=
    if taken then .error .flowModFailedUnknown else .ok dest
  match inst with
  | .meter id => put dest.meter.isSome { dest with meter := some id }
  | .applyActions as => put dest.applyActions.isSome { dest with applyActions := some as }
  | .clearActions => put dest.clearActions { dest with clearActions := true }
  | .writeActions as => put dest.writeActions.isSome { dest with writeActions := some as }
  | .writeMetadata v m => put dest.writeMetadata.isSome { dest with writeMetadata := some (v, m) }
  | .gotoTable t => put dest.gotoTable.isSome { dest with gotoTable := some t }
  | .other _ => .error .badInstructionUnknownInst

/-- `map_instruction_list_to_array`. -/
def mapInstructionListToArray (list : List Instruction) : Except OfpError Instructions :=
  list.foldlM Instructions.place {}

/-- `flow_alloc`, at the address `addr`. The actions come from the parser, with their `flags` 0. -/
def flowAlloc (addr : Nat) (fm : FlowMod) (matchList : List Match)
    (instructionList : List Instruction) : Except OfpError Flow :=
  (mapInstructionListToArray instructionList).map fun ins =>
    { head := ⟨addr, fm.priority, matchList⟩
      flags := fm.flags
      cookie := fm.cookie
      idleTimeout := fm.idleTimeout
      hardTimeout := fm.hardTimeout
      instruction := ins.unflagged }

/-! ## The state of a bridge -/

/-- `struct table`. -/
structure FlowTable where
  flowList : List Flow := []
  userdata : Option Index := none

/-- `struct meter`, as far as flow entries are concerned. -/
structure Meter where
  meterId : Nat
  flowCount : BitVec 32 := 0
deriving DecidableEq

/-- `OFPRR_*`. -/
inductive RemovedReason
  | idleTimeout | hardTimeout | delete | groupDelete
deriving DecidableEq

/-- `struct bridge`. -/
structure Bridge where
  /-- `flowdb->tables[]`. -/
  tables : TableId → Option FlowTable := fun _ => none
  groups : GroupTable := []
  meters : List Meter := []
  ports : List Nat := []
  /-- Where the next flow is allocated. Addresses are not used again. -/
  next : Nat := 0
  /-- The flow-removed messages sent, each with the flow it is filled in from. -/
  removed : List (Flow × RemovedReason) := []

namespace Bridge

variable (b : Bridge)

/-- The flow entries of a table. -/
def flows (t : TableId) : List Flow := ((b.tables t).map FlowTable.flowList).getD []

def setTable (t : TableId) (table : FlowTable) : Bridge :=
  { b with tables := fun i => if i = t then some table else b.tables i }

/-- `flowdb_get_table`. -/
def getTable (t : TableId) : FlowTable := (b.tables t).getD {}

/-- The tables, as the data path reads them. -/
def flowdb : Flowdb := fun id =>
  if h : id < 255 then
    (b.tables ⟨id, h⟩).map fun table => ⟨table.userdata, table.flowList.map Flow.entry⟩
  else none

/-! ## Meters and groups -/

/-- Change the flow count of a meter, if it exists. -/
def countMeter (meterId : Nat) (f : BitVec 32 → BitVec 32) : Bridge :=
  { b with meters := b.meters.map fun m =>
      if m.meterId = meterId then { m with flowCount := f m.flowCount } else m }

/-- Change the flows that refer to a group, if it exists. -/
def referGroup (groupId : Nat) (f : List Nat → List Nat) : Bridge :=
  { b with groups := b.groups.map fun g =>
      if g.id = groupId then { g with flows := f g.flows } else g }

/-- `group_add_ref_flow`. -/
def groupAddRefFlow (groupId addr : Nat) : Bridge :=
  b.referGroup groupId fun flows => if addr ∈ flows then flows else flows ++ [addr]

/-- `group_remove_ref_flow`. -/
def groupRemoveRefFlow (groupId addr : Nat) : Bridge :=
  b.referGroup groupId fun flows => flows.filter (· ≠ addr)

/-- `flow_del_from_meter`. -/
def delFromMeter (flow : Flow) : Bridge :=
  match flow.instruction.meter with
  | some id => b.countMeter id (· - 1)
  | none => b

/-- The inner loop of `flow_del_from_group`: the first group action only. -/
def delFirstGroup (addr : Nat) (actionList : List Action) : Bridge :=
  match (groupIds actionList).head? with
  | some id => b.groupRemoveRefFlow id addr
  | none => b

/-- `flow_del_from_group`. -/
def delFromGroup (flow : Flow) : Bridge :=
  (b.delFirstGroup flow.head.id (flow.instruction.applyActions.getD [])).delFirstGroup flow.head.id
    (flow.instruction.writeActions.getD [])

end Bridge

/-! ## The check of the actions -/

/-- What an operation leaves behind, and its result. -/
abbrev Result := Bridge × Except OfpError Unit

/-- Go on unless there is an error. -/
def Result.next (r : Result) (k : Bridge → Result) : Result :=
  match r with
  | (b, .ok ()) => k b
  | r => r

/-- The ports that need not exist: `OFPP_IN_PORT`, `TABLE`, `NORMAL`, `FLOOD`, `ALL`, `CONTROLLER`
and `LOCAL`. -/
def reservedPort (port : Nat) : Bool := 0xfffffff8 ≤ port ∧ port ≤ 0xfffffffe

/-- One round of the loop of `flow_action_check` over the actions of an instruction. -/
def checkAction (addr : Nat) (b : Bridge) : Action → Result
  | .output port _ =>
    if reservedPort port ∨ port ∈ b.ports then (b, .ok ()) else (b, .error .badActionBadOutPort)
  | .group id =>
    if (b.groups.lookup id).isSome then (b.groupAddRefFlow id addr, .ok ())
    else (b, .error .badActionBadOutGroup)
  | _ => (b, .ok ())

def checkActions (addr : Nat) (b : Bridge) : List Action → Result
  | [] => (b, .ok ())
  | a :: as => Result.next (checkAction addr b a) fun b => checkActions addr b as

def checkMeter (b : Bridge) : Option Nat → Result
  | some id =>
    if b.meters.any fun m => m.meterId = id then (b.countMeter id (· + 1), .ok ())
    else (b, .error .meterModFailedUnknownMeter)
  | none => (b, .ok ())

def OFPTT_MAX : Nat := 254

def checkGotoTable (b : Bridge) : Option Nat → Result
  | some t => if OFPTT_MAX < t then (b, .error .badInstructionBadTableId) else (b, .ok ())
  | none => (b, .ok ())

/-- `flow_action_check`, in the order of the instruction array, for the flow at `addr`. -/
def flowActionCheck (b : Bridge) (addr : Nat) (ins : Instructions) : Result :=
  Result.next (checkMeter b ins.meter) fun b =>
    Result.next (checkActions addr b (ins.applyActions.getD [])) fun b =>
      Result.next (checkActions addr b (ins.writeActions.getD [])) fun b =>
        checkGotoTable b ins.gotoTable

end Lagopus
