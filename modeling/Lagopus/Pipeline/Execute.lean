import Lagopus.Flowinfo.Tree
import Lagopus.Group.Table

/-!
# Executing instructions and actions

What `datapath.c` does to a packet once a flow entry has been found for it. The packet, its action
set and what is done with it are one state, `Run`; everything it is executed against (group table,
ports, meters) is an `Env`.

* `execAction`, `executeGroupAction`: actions, and the groups they name;
* `executeInstruction`: the instructions of a flow entry, in the order of the array;
* `dpOpenflowDoActionSet`: the action set at the end of the pipeline.

Sending a packet is recorded in `Run.sent`; a packet that is sent to `OFPP_TABLE` is processed again
by another call of `lagopus_match_and_action`, with the state noted in `Run.reentries`.
-/

namespace Lagopus

/-! ## Flow entries -/

/-- The instruction array of a flow, by type. -/
structure Instructions where
  meter : Option Nat := none
  applyActions : Option (List Action) := none
  clearActions : Bool := false
  writeActions : Option (List Action) := none
  writeMetadata : Option (BitVec 64 × BitVec 64) := none
  gotoTable : Option Nat := none
deriving DecidableEq

/-- `struct flow`, as the data path reads it. -/
structure FlowEntry where
  head : FlowHead
  tableId : Nat
  noPktCounts : Bool := false
  noBytCounts : Bool := false
  instruction : Instructions := {}
deriving DecidableEq

/-! ## The state of a packet -/

/-- What `lagopus_meter_packet` says about a packet. -/
inductive MeterBand
  | pass | drop | dscpRemark (precLevel : Nat)
deriving DecidableEq

/-- What a packet is executed against. `fuel` is for the classifications on the way, `groupFuel` for
chains of groups. -/
structure Env where
  fuel : Nat
  groupFuel : Nat
  hasCache : Bool
  groups : GroupTable
  portLiveness : Nat → Bool
  /-- `lagopus_meter_packet`; a meter that does not exist lets everything pass. -/
  meterPacket : Nat → Packet → MeterBand
  /-- `calc_packet_hash`. -/
  calcPacketHash : Packet → Nat

/-- The results of the functions below, `LAGOPUS_RESULT_*`. -/
inductive Rv
  | ok | cont | stop | noMoreAction | notFound
deriving DecidableEq

/-- Why there is no result: a group recursion that is too deep for the fuel, or behaviour that is not
defined. -/
inductive Stuck
  | fuel | undefined
deriving DecidableEq

/-- The counters of flows, by their addresses, and of tables, by their numbers: what a packet has
added to them. -/
structure Stats where
  packetCount : Nat → Nat := fun _ => 0
  byteCount : Nat → Nat := fun _ => 0
  lookupCount : Nat → Nat := fun _ => 0
  matchedCount : Nat → Nat := fun _ => 0

def OFPP_TABLE : Nat := 0xfffffff9

/-- The state of a packet that is given to `OFPP_TABLE`. A copy made for the output has none of its
headers found yet; a copy made for a bucket has no cache. -/
structure Reentry where
  pkt : Packet
  copied : Bool
  hasCache : Bool
  cached : Bool
  actions : Option ActionSet
  matched : List FlowEntry

/-- The packet and what goes with it. `actions` is there when `PKT_FLAG_HAS_ACTION` is set. -/
structure Run where
  pkt : Packet
  hash64 : Nat := 0
  tableId : Nat := 0
  /-- `PKT_FLAG_CACHED_FLOW`. -/
  cached : Bool := false
  actions : Option ActionSet := none
  /-- `matched_flow[]`. -/
  matched : List FlowEntry := []
  /-- The packets given to `dp_interface_tx_packet`, with the port. -/
  sent : List (Nat × Packet) := []
  /-- Those among them given to `OFPP_TABLE`. -/
  reentries : List Reentry := []
  /-- The calls of `register_cache` under `hash64`. -/
  registered : List (List FlowEntry) := []
  stats : Stats := {}

abbrev Outcome := Except Stuck (Run × Rv)

/-- Go on as long as the result is `LAGOPUS_RESULT_OK`. -/
def andThen (o : Outcome) (k : Run → Outcome) : Outcome :=
  match o with
  | .ok (run, .ok) => k run
  | o => o

/-! ## Actions -/

variable (env : Env)

/-- `register_cache`, when the packet did not come from the cache itself. -/
def Run.register (run : Run) : Run :=
  if run.cached = false ∧ env.hasCache = true ∧ run.hash64 ≠ 0 then
    { run with registered := run.registered ++ [run.matched] }
  else run

/-- `dp_interface_tx_packet`. -/
def Run.send (port : Nat) (copied : Bool) (run : Run) : Run :=
  { run with
    sent := run.sent ++ [(port, run.pkt)]
    reentries :=
      if port = OFPP_TABLE then
        run.reentries ++
          [⟨run.pkt, copied, env.hasCache, run.cached, run.actions, run.matched⟩]
      else run.reentries }

/-- `execute_action_output`. -/
def executeActionOutput (port : Nat) (copied : Bool) (run : Run) : Run × Rv :=
  if copied then (run.send env port true, .ok)
  else ((run.register env).send env port false, .noMoreAction)

section

variable (execGroup : Nat → Run → Outcome)

/-- The `exec` of one action; `execGroup` executes a group. -/
def execAction (run : Run) : Action → Outcome
  | .output port copied => .ok (executeActionOutput env port copied run)
  | .group id => execGroup id run
  | .setQueue _ => .ok (run, .ok)
  | .rewrite r =>
    match run.pkt.rewrite env.fuel r with
    | none => .error .undefined
    | some (p, goesOn) => .ok ({ run with pkt := p }, if goesOn then .ok else .stop)
  | .experimenter => .ok (run, .ok)

/-- `execute_action`: until one does not return `LAGOPUS_RESULT_OK`. -/
def executeActionList (env : Env) (execGroup : Nat → Run → Outcome) : List Action → Run → Outcome
  | [], run => .ok (run, .ok)
  | a :: as, run => andThen (execAction env execGroup run a) (executeActionList env execGroup as)

/-- The loop of `execute_action_set` over the lists of a set. The packet's own set can be cleared by a
group on the way, so each list is looked up when it is reached. -/
def executeSlots (env : Env) (execGroup : Nat → Run → Outcome) (slot : Run → Nat → List Action) :
    List Nat → Run → Outcome
  | [], run => .ok (run, .ok)
  | i :: is, run =>
    andThen (executeActionList env execGroup (slot run i) run) (executeSlots env execGroup slot is)

/-- `execute_action_set`: whatever set was executed, the packet's own one is cleared. -/
def executeActionSet (slot : Run → Nat → List Action)
    (run : Run) : Outcome :=
  (executeSlots env execGroup slot (List.range ACTION_SET_ORDER_MAX) run).map fun (run, rv) =>
    ({ run with actions := none }, rv)

/-! ## Groups -/

/-- The first bucket at which the running sum of weights reaches `sel`. -/
def bucketAt (weight : Bucket → Nat) (sel : Nat) : Nat → List Bucket → Option Bucket
  | _, [] => none
  | sum, b :: bs => if sel ≤ sum + weight b then some b else bucketAt weight sel (sum + weight b) bs

/-- `group_select_bucket`, by the packet's hash. -/
def groupSelectBucket (hash64 : Nat) (buckets : List Bucket) : Option Bucket :=
  let total := (buckets.map Bucket.weight).sum
  if total = 0 then
    if buckets.length = 0 then none
    else bucketAt (fun _ => 1) (hash64 % buckets.length + 1) 0 buckets
  else bucketAt Bucket.weight (hash64 % total + 1) 0 buckets

/-- The copy of a packet for a bucket: `copy_packet` and `re_classify_packet`. The out-of-band data is
not copied. -/
def copyPacket (p : Packet) : Option Packet :=
  ({ p with oob := {}, oob2 := {} } : Packet).reClassifyPacket env.fuel

/-- A bucket of an `OFPGT_ALL` group: its actions, on a copy. What the copy sends is all that is
left of it. -/
def executeCopy (b : Bucket) (run : Run) :
    Except Stuck Run :=
  match copyPacket env run.pkt with
  | none => .error .undefined
  | some p =>
    (executeActionSet env execGroup (fun _ => b.actions) { pkt := p, cached := true }).map
      fun (copy, _) =>
        { run with
          sent := run.sent ++ copy.sent
          reentries := run.reentries ++ copy.reentries.map fun r => { r with hasCache := false } }

/-- The loop over the buckets of an `OFPGT_ALL` group. -/
def executeCopies (env : Env) (execGroup : Nat → Run → Outcome) : List Bucket → Run → Except Stuck Run
  | [], run => .ok run
  | b :: bs, run => (executeCopy env execGroup b run).bind (executeCopies env execGroup bs)

/-- Execute the one bucket of a group that was chosen, if any. -/
def executeBucket (run : Run) : Option Bucket → Outcome
  | none => .ok (run, .ok)
  | some b => executeActionSet env execGroup (fun _ => b.actions) run

end


/-- `execute_group_action`. -/
def executeGroupAction (env : Env) : Nat → Nat → Run → Outcome
  | 0, _, _ => .error .fuel
  | fuel + 1, id, run =>
    match env.groups.lookup id with
    | none => .ok (run, .notFound)
    | some g =>
      match g.type with
      | .all =>
        (executeCopies env (executeGroupAction env fuel) g.buckets run).map fun run =>
          (run.register env, .noMoreAction)
      | .select =>
        let run := if run.hash64 = 0 then { run with hash64 := env.calcPacketHash run.pkt } else run
        executeBucket env (executeGroupAction env fuel) run (groupSelectBucket run.hash64 g.buckets)
      | .indirect => executeBucket env (executeGroupAction env fuel) run g.buckets.head?
      | .ff =>
        match groupLiveBucket env.groups env.portLiveness (fuel + 1) g with
        | none => .error .fuel
        | some b => executeBucket env (executeGroupAction env fuel) run b
      | .other _ => .ok (run, .ok)

/-- `execute_action_group`. -/
def execGroup : Nat → Run → Outcome := executeGroupAction env env.groupFuel

/-! ## Instructions -/

/-- The DSCP of an IP packet. -/
def Packet.dscp (p : Packet) : Nat := (p.trafficClass >>> 2).toNat

/-- How `apply_meter` remarks a DSCP. -/
def remarkDscp (dscp precLevel : Nat) : Nat :=
  if dscp % 8 = 0 then if precLevel * 8 ≤ dscp then dscp - precLevel * 8 else dscp
  else if dscp % 8 = 2 ∨ dscp % 8 = 4 then
    if dscp % 8 + precLevel * 2 ≤ 7 then dscp + precLevel * 2 else dscp
  else dscp

/-- `apply_meter`; `none` when the packet is dropped. -/
def applyMeter (id : Nat) (p : Packet) : Option Packet :=
  match env.meterPacket id p with
  | .pass => some p
  | .drop => none
  | .dscpRemark level =>
    if p.etherType = ETHERTYPE_IP ∨ p.etherType = ETHERTYPE_IPV6 then
      some (p.setDscp (BitVec.ofNat 8 (remarkDscp p.dscp level)))
    else some p

/-- `execute_instruction_meter`. Dropping clears the lists of the action set. -/
def executeInstructionMeter (id : Nat) (run : Run) : Run × Rv :=
  match applyMeter env id run.pkt with
  | some p => ({ run with pkt := p }, .ok)
  | none => ({ run with actions := run.actions.map fun _ _ => [] }, .stop)

/-- `execute_instruction_apply_actions`. -/
def executeInstructionApplyActions (actionList : List Action) (run : Run) : Outcome :=
  executeActionList env (execGroup env) actionList run

/-- `execute_instruction_write_actions`. -/
def executeInstructionWriteActions (actionList : List Action) (run : Run) : Run :=
  { run with actions := some (mergeActionSet (run.actions.getD fun _ => []) actionList) }

/-- `execute_instruction_write_metadata`. -/
def executeInstructionWriteMetadata (metadata mask : BitVec 64) (run : Run) : Run :=
  { run with pkt := { run.pkt with oob := { run.pkt.oob with metadata :=
      (run.pkt.oob.metadata &&& ~~~mask) ||| (metadata &&& mask) } } }

/-- `execute_instruction_goto_table`: a packet from the cache goes on by itself. -/
def executeInstructionGotoTable (tableId : Nat) (run : Run) : Run × Rv :=
  if env.hasCache = true ∧ run.cached = true then (run, .ok)
  else ({ run with tableId := tableId % 256 }, .cont)

/-- The instructions behind apply-actions, none of which fails. -/
def executeLater (ins : Instructions) (run : Run) : Run × Rv :=
  let run := if ins.clearActions then { run with actions := none } else run
  let run := match ins.writeActions with
    | some as => executeInstructionWriteActions as run
    | none => run
  let run := match ins.writeMetadata with
    | some (v, m) => executeInstructionWriteMetadata v m run
    | none => run
  match ins.gotoTable with
  | some t => executeInstructionGotoTable env t run
  | none => (run, .ok)

/-- `execute_instruction`. -/
def executeInstruction (ins : Instructions) (run : Run) : Outcome :=
  let metered := match ins.meter with
    | some id => executeInstructionMeter env id run
    | none => (run, .ok)
  andThen (.ok metered) fun run =>
    andThen (executeInstructionApplyActions env (ins.applyActions.getD []) run) fun run =>
      .ok (executeLater env ins run)

/-- `dp_openflow_do_action_set`. -/
def dpOpenflowDoActionSet (run : Run) : Outcome :=
  if run.actions.isSome then
    executeActionSet env (execGroup env) (fun run i => (run.actions.map (· i)).getD []) run
  else .ok (run, .ok)

end Lagopus
