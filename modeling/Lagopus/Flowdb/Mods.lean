import Lagopus.Flowdb.Bridge

/-!
# Flow mods

The requests of a controller to the flow database, and the removal of a single flow entry.

* `flowdbFlowAdd` adds a flow entry, or gives the identical one that is there new instructions.
* `flowdbFlowModify` gives the entries it selects new instructions: copies of those of the
  request.
* `flowdbFlowDelete` removes the entries it selects.  A non-strict delete first leaves holes in the
  flow list and then closes them; a strict one takes the match list away from its caller, which
  has it no more when it comes to the next table.
* `flowRemoveWithReason` removes the entry at an address.

What is sent to the controller, and the flow caches the requests clear, are not read by any of them.
-/

namespace Lagopus

/-! ## Selecting entries -/

/-- `match_compare`: `ml₁` has all the matches of `ml₂`. -/
def matchCompare (ml₁ ml₂ : List Match) : Bool := ml₂.all fun m => ml₁.contains m

/-- The filter by cookie. -/
def Flow.cookieAgrees (f : Flow) (fm : FlowMod) : Bool :=
  fm.cookieMask = 0 ∨ f.cookie &&& fm.cookieMask = fm.cookie &&& fm.cookieMask

/-- The actions `find_action_output` and `find_action_group` look at. -/
def Flow.actions (f : Flow) : List Action :=
  f.instruction.applyActions.getD [] ++ f.instruction.writeActions.getD []

/-- `find_action_output`. -/
def Flow.findActionOutput (f : Flow) (outPort : Nat) : Bool :=
  f.actions.any fun
    | .output port _ => port = outPort
    | _ => false

/-- `find_action_group`. -/
def Flow.findActionGroup (f : Flow) (outGroup : Nat) : Bool :=
  f.actions.any fun
    | .group id => outGroup = id
    | _ => false

/-- The entries a non-strict modify selects. -/
def Flow.modifiedBy (f : Flow) (fm : FlowMod) (matchList : List Match) : Bool :=
  f.cookieAgrees fm && matchCompare f.head.matchList matchList

/-- The entries a non-strict delete selects. -/
def Flow.deletedBy (f : Flow) (fm : FlowMod) (matchList : List Match) : Bool :=
  f.cookieAgrees fm && (fm.outPort = OFPP_ANY || f.findActionOutput fm.outPort) &&
    (fm.outGroup = OFPG_ANY || f.findActionGroup fm.outGroup) &&
    matchCompare f.head.matchList matchList

/-- `OFPFF_RESET_COUNTS`. -/
def Flow.resetCounts (f : Flow) (fm : FlowMod) : Flow :=
  if checkFlag fm.flags OFPFF_RESET_COUNTS then { f with packetCount := 0, byteCount := 0 } else f

/-! ## Add -/

/-- `flow_add_sub`: behind the entries of the same or a higher priority. -/
def flowListAdd (flowList : List Flow) (flow : Flow) : List Flow :=
  SortedInsert.insertWith (fun f => decide ((flow.head.priority : Int) ≤ f.head.priority)) flow
    flowList

/-- `lagopus_find_flow_hook`, and the flow it points to. -/
def FlowTable.identical (table : FlowTable) (flow : Flow) : Option Flow :=
  (Index.findFlow table.userdata flow.head).bind fun found =>
    table.flowList.find? fun f => f.head.id = found.id

/-- Write to the flow at an address. -/
def FlowTable.put (table : FlowTable) (flow : Flow) : FlowTable :=
  { table with flowList := table.flowList.map fun f => if f.head.id = flow.head.id then flow else f }

variable (b : Bridge)

/-- The identical entry gets the match list and the instructions of the new one. -/
def replaceIdentical (t : TableId) (fm : FlowMod) (flow old : Flow) : Result :=
  if checkFlag fm.flags OFPFF_CHECK_OVERLAP then (b, .error .flowModFailedOverlap)
  else
    let b := (b.delFromMeter old).delFromGroup old
    let new := { old.resetCounts fm with
      head := { old.head with matchList := flow.head.matchList }
      instruction := flow.instruction.examine }
    let b := b.setTable t ((b.getTable t).put new)
    flowActionCheck b new.head.id new.instruction

/-- The entry goes into the flow list and the index, and gets its timer. -/
def addNew (t : TableId) (flow : Flow) : Result :=
  Result.next (flowActionCheck b flow.head.id flow.instruction) fun b =>
    let flow := { flow with
      instruction := flow.instruction.examine
      flowTimer := flow.idleTimeout ≠ 0 ∨ flow.hardTimeout ≠ 0 }
    let table := b.getTable t
    (b.setTable t
      { flowList := flowListAdd table.flowList flow
        userdata := Index.addFlow t table.userdata flow.head }, .ok ())

/-- `flow_alloc` for table `t`, and the checks of the match list. -/
def flowPrepare (t : TableId) (fm : FlowMod) (matchList : List Match)
    (instructionList : List Instruction) : Except OfpError Flow :=
  match flowAlloc b.next fm matchList instructionList with
  | .error e => .error e
  | .ok flow =>
    match flowPreRequisiteCheck matchList with
    | .error e => .error e
    | .ok () => .ok { flow with tableId := t }

/-- `flowdb_flow_add`. -/
def flowdbFlowAdd (fm : FlowMod) (matchList : List Match)
    (instructionList : List Instruction) : Result :=
  match fm.tableId with
  | none => (b, .error .flowModFailedBadTableId)
  | some t =>
    let b := b.setTable t (b.getTable t)
    match flowPrepare b t fm matchList instructionList with
    | .error e => (b, .error e)
    | .ok flow =>
      match flowMaskCheck matchList with
      | .error e => (b, .error e)
      | .ok () =>
        let b := { b with next := b.next + 1 }
        match (b.getTable t).identical flow with
        | some old => replaceIdentical b t fm flow old
        | none => addNew b t flow

/-! ## Modify -/

/-- The loop of a strict modify: the first identical entry gets a copy of the instructions, and the
entry of the request, `flow`, is checked and examined in its place. -/
def modifyStrict (fm : FlowMod) (flow : Flow) : List Flow → Bridge → List Flow × Result
  | [], b => ([], b, .ok ())
  | f :: fs, b =>
    if flowCompare flow.head f.head then
      let b := (b.delFromMeter f).delFromGroup f
      let new := { f.resetCounts fm with instruction := flow.instruction.unflagged }
      (new :: fs, flowActionCheck b flow.head.id flow.instruction)
    else
      let (fs, r) := modifyStrict fm flow fs b
      (f :: fs, r)

/-- The loop of a non-strict one: every entry selected gets a copy, is checked, and then
examined. -/
def modifyLoop (fm : FlowMod) (matchList : List Match) (ins : Instructions) :
    List Flow → Bridge → List Flow × Result
  | [], b => ([], b, .ok ())
  | f :: fs, b =>
    if f.modifiedBy fm matchList then
      let b := (b.delFromMeter f).delFromGroup f
      let new := { f.resetCounts fm with instruction := ins.unflagged }
      match flowActionCheck b new.head.id new.instruction with
      | (b, .error e) => (new :: fs, b, .error e)
      | (b, .ok ()) =>
        let (fs, r) := modifyLoop fm matchList ins fs b
        ({ new with instruction := new.instruction.examine } :: fs, r)
    else
      let (fs, r) := modifyLoop fm matchList ins fs b
      (f :: fs, r)

/-- `flow_modify_sub`. The flow of the request is examined before the loops. -/
def flowModifySub (t : TableId) (fm : FlowMod) (matchList : List Match)
    (instructionList : List Instruction) : Result :=
  match flowPrepare b t fm matchList instructionList with
  | .error e => (b, .error e)
  | .ok flow =>
    let table := b.getTable t
    let flow := { flow with instruction := flow.instruction.examine }
    let b := { b with next := b.next + 1 }
    let (flowList, b, r) :=
      if fm.strict then modifyStrict fm flow table.flowList b
      else modifyLoop fm matchList flow.instruction table.flowList b
    (b.setTable t { table with flowList := flowList }, r)

/-- `flowdb_flow_modify`. The result of `flow_modify_sub` is dropped by `table_flow_modify`. -/
def flowdbFlowModify (fm : FlowMod) (matchList : List Match)
    (instructionList : List Instruction) : Result :=
  match flowPreRequisiteCheck matchList with
  | .error e => (b, .error e)
  | .ok () =>
    match fm.tableId with
    | none => (b, .error .flowModFailedBadTableId)
    | some t =>
      let b := b.setTable t (b.getTable t)
      ((flowModifySub b t fm matchList instructionList).1, .ok ())

/-! ## Delete -/

/-- What is done to an entry that leaves the table `t`, beside the flow list; `sent` is the flow the
flow-removed message is filled in from. -/
def Bridge.unlink (t : TableId) (f sent : Flow) (reason : RemovedReason) : Bridge :=
  let table := b.getTable t
  let b := b.setTable t { table with userdata := Index.delFlow table.userdata f.head }
  let b := (b.delFromGroup f).delFromMeter f
  if checkFlag f.flags OFPFF_SEND_FLOW_REM then { b with removed := b.removed ++ [(sent, reason)] }
  else b

/-- The loop of a strict delete: the first entry identical to that of the request, `flow`. -/
def deleteStrict (t : TableId) (flow : Flow) : List Flow → Bridge → List Flow × Bridge
  | [], b => ([], b)
  | f :: fs, b =>
    if flowCompare flow.head f.head then (fs, b.unlink t f flow .delete)
    else
      let (fs, b) := deleteStrict t flow fs b
      (f :: fs, b)

/-- The first loop of a non-strict one: every entry selected becomes `NULL`. -/
def deleteLoop (t : TableId) (fm : FlowMod) (matchList : List Match) :
    List Flow → Bridge → List (Option Flow) × Bridge
  | [], b => ([], b)
  | f :: fs, b =>
    if f.deletedBy fm matchList then
      let (fs, b) := deleteLoop t fm matchList fs (b.unlink t f f .delete)
      (none :: fs, b)
    else
      let (fs, b) := deleteLoop t fm matchList fs b
      (some f :: fs, b)

/-- The second loop, on the part of the array from `i` on: the entries behind a gap are moved to its
beginning, and a gap at the end is cut off. -/
def compaction : List (Option Flow) → List Flow
  | [] => []
  | some f :: rest => f :: compaction rest
  | none :: rest =>
    match _ : rest.dropWhile Option.isNone with
    | some f :: rest' => f :: compaction rest'
    | _ => []
termination_by flows => flows.length
decreasing_by
  · simp
  · rename_i hgap
    have := (List.dropWhile_sublist Option.isNone (l := rest)).length_le
    rw [hgap] at this
    simp only [List.length_cons] at this ⊢
    omega

/-- `flow_del_sub`, and the match list it leaves to its caller: a strict one moves it to a flow
that is freed. -/
def flowDelSub (t : TableId) (fm : FlowMod) (matchList : List Match) :
    Bridge × List Match :=
  let table := b.getTable t
  if fm.strict then
    match flowPreRequisiteCheck matchList with
    | .error _ => (b, [])
    | .ok () =>
      let flow : Flow :=
        { head := ⟨b.next, fm.priority, matchList⟩
          flags := fm.flags
          cookie := fm.cookie
          idleTimeout := fm.idleTimeout
          hardTimeout := fm.hardTimeout }
      let (flowList, b) := deleteStrict t flow table.flowList b
      (b.setTable t { b.getTable t with flowList := flowList }, [])
  else
    let (marked, b) := deleteLoop t fm matchList table.flowList b
    (b.setTable t { b.getTable t with flowList := compaction marked }, matchList)

/-- The loop of `flowdb_flow_delete` over all tables. -/
def deleteTables (fm : FlowMod) : List TableId → Bridge → List Match → Bridge
  | [], b, _ => b
  | t :: ts, b, matchList =>
    if (b.tables t).isSome then
      let (b, matchList) := flowDelSub b t fm matchList
      deleteTables fm ts b matchList
    else deleteTables fm ts b matchList

/-- `flowdb_flow_delete`. -/
def flowdbFlowDelete (fm : FlowMod) (matchList : List Match) : Result :=
  match flowPreRequisiteCheck matchList with
  | .error e => (b, .error e)
  | .ok () =>
    match fm.tableId with
    | none => (deleteTables fm (List.finRange 255) b matchList, .ok ())
    | some t =>
      let b := b.setTable t (b.getTable t)
      ((flowDelSub b t fm matchList).1, .ok ())

/-- `flow_remove_with_reason`, for the flow at an address. -/
def flowRemoveWithReason (t : TableId) (addr : Nat) (reason : RemovedReason) : Bridge :=
  let table := b.getTable t
  let b := b.setTable t table
  match table.flowList.find? fun f => f.head.id = addr with
  | none => b
  | some f =>
    let b := b.unlink t f f reason
    b.setTable t { b.getTable t with
      flowList := table.flowList.eraseP fun f => f.head.id = addr }

end Lagopus
