import Lagopus.Flowdb.Delete

/-!
# Statistics of flow entries

`flowdb_flow_stats` lists the entries a request selects, and `flowdb_aggregate_stats` adds up their
counters.  Each has a scan of its own over the tables, and so has the delete; the request has the
same filters in all three.

* `Bridge.listed` is what both statistics select: the one lists it, the other one counts it
  (`flowdbFlowStats_eq`, `flowdbAggregateStats_eq`).
* `aggregate_stats_right_iff`: when the aggregate is the sum of what is listed, and what is listed
  is what a delete removes.  The scans of the statistics do not look at the port and the group of
  the request, nor check its match list.
-/

namespace Lagopus

/-! ## The scans -/

/-- `struct ofp_flow_stats_request`. -/
structure FlowStatsRequest where
  /-- `none` is `OFPTT_ALL`. -/
  tableId : Option TableId
  outPort : Nat := OFPP_ANY
  outGroup : Nat := OFPG_ANY
  cookie : BitVec 64 := 0
  cookieMask : BitVec 64 := 0

/-- `struct flow_stats`, without the time the entry has been there. -/
structure FlowStats where
  tableId : TableId
  priority : BitVec 16
  idleTimeout : BitVec 16
  hardTimeout : BitVec 16
  flags : BitVec 16
  cookie : BitVec 64
  packetCount : BitVec 64
  byteCount : BitVec 64
  matchList : List Match
  instruction : Instructions
deriving DecidableEq

/-- `struct ofp_aggregate_stats_reply`. -/
structure AggregateStatsReply where
  packetCount : BitVec 64 := 0
  byteCount : BitVec 64 := 0
  flowCount : BitVec 32 := 0
deriving DecidableEq

/-- The entries the scans of the statistics select. -/
def Flow.listedBy (f : Flow) (request : FlowStatsRequest) (matchList : List Match) : Bool :=
  (request.cookieMask = 0 ∨ f.cookie &&& request.cookieMask = request.cookie &&& request.cookieMask) &&
    matchCompare f.head.matchList matchList

/-- The entry as `table_flow_stats` reports it. -/
def Flow.stats (tableId : TableId) (f : Flow) : FlowStats where
  tableId := tableId
  priority := .ofNat 16 f.head.priority
  idleTimeout := f.idleTimeout
  hardTimeout := f.hardTimeout
  flags := f.flags
  cookie := f.cookie
  packetCount := if checkFlag f.flags OFPFF_NO_PKT_COUNTS then .allOnes 64 else .ofNat 64 f.packetCount
  byteCount := if checkFlag f.flags OFPFF_NO_BYT_COUNTS then .allOnes 64 else .ofNat 64 f.byteCount
  matchList := f.head.matchList
  instruction := f.instruction

/-- `table_flow_stats`. -/
def tableFlowStats (table : FlowTable) (tableId : TableId) (request : FlowStatsRequest)
    (matchList : List Match) (flowStatsList : List FlowStats) : List FlowStats :=
  table.flowList.foldl (fun list f =>
    if f.listedBy request matchList then list ++ [f.stats tableId] else list) flowStatsList

/-- What `table_flow_counts` does for an entry that is selected. -/
def AggregateStatsReply.count (reply : AggregateStatsReply) (f : Flow) : AggregateStatsReply where
  packetCount :=
    if checkFlag f.flags OFPFF_NO_PKT_COUNTS then reply.packetCount
    else reply.packetCount + .ofNat 64 f.packetCount
  byteCount :=
    if checkFlag f.flags OFPFF_NO_BYT_COUNTS then reply.byteCount
    else reply.byteCount + .ofNat 64 f.byteCount
  flowCount := reply.flowCount + 1

/-- `table_flow_counts`. -/
def tableFlowCounts (table : FlowTable) (request : FlowStatsRequest) (matchList : List Match)
    (reply : AggregateStatsReply) : AggregateStatsReply :=
  table.flowList.foldl (fun reply f =>
    if f.listedBy request matchList then reply.count f else reply) reply

/-- The loop over all tables: those that are there. -/
def Bridge.eachTable {α : Type} (b : Bridge) (scan : FlowTable → TableId → α → α) (a : α) : α :=
  (List.finRange 255).foldl (fun a t => ((b.tables t).map (scan · t a)).getD a) a

/-- `flowdb_flow_stats`. A table that is asked for is there afterwards. -/
def flowdbFlowStats (b : Bridge) (request : FlowStatsRequest) (matchList : List Match) :
    Bridge × List FlowStats :=
  match request.tableId with
  | none => (b, b.eachTable (fun table t => tableFlowStats table t request matchList) [])
  | some t => (b.setTable t (b.getTable t), tableFlowStats (b.getTable t) t request matchList [])

/-- `flowdb_aggregate_stats`. -/
def flowdbAggregateStats (b : Bridge) (request : FlowStatsRequest) (matchList : List Match) :
    Bridge × AggregateStatsReply :=
  match request.tableId with
  | none => (b, b.eachTable (fun table _ => tableFlowCounts table request matchList) {})
  | some t => (b.setTable t (b.getTable t), tableFlowCounts (b.getTable t) request matchList {})

/-! ## What is selected -/

/-- The tables of a request. -/
def FlowStatsRequest.tableIds (request : FlowStatsRequest) : List TableId :=
  match request.tableId with
  | none => List.finRange 255
  | some t => [t]

theorem mem_tableIds_iff (request : FlowStatsRequest) (t : TableId) :
    t ∈ request.tableIds ↔ request.tableId = none ∨ request.tableId = some t := by
  unfold FlowStatsRequest.tableIds
  cases request.tableId <;> simp [eq_comm]

/-- The entries selected, each with its table. -/
def Bridge.listed (b : Bridge) (request : FlowStatsRequest) (ml : List Match) :
    List (TableId × Flow) :=
  request.tableIds.flatMap fun t => ((b.flows t).filter (·.listedBy request ml)).map (t, ·)

variable (b : Bridge)

theorem eachTable_eq {α : Type} {scan : FlowTable → TableId → α → α} {step : TableId → α → Flow → α}
    (hscan : ∀ table t a, scan table t a = table.flowList.foldl (step t) a) (a : α) : b.eachTable scan a =
      (List.finRange 255).foldl (fun a t => (b.flows t).foldl (step t) a) a := by
  unfold Bridge.eachTable
  congr 1
  funext a t
  unfold Bridge.flows
  cases b.tables t with
  | none => rfl
  | some table => exact hscan table t a

theorem foldl_listed {α : Type} (request : FlowStatsRequest) (ml : List Match)
    (take : α → TableId → Flow → α) (a : α) : (b.listed request ml).foldl (fun a e => take a e.1 e.2) a =
      request.tableIds.foldl (fun a t =>
        (b.flows t).foldl (fun a f => if f.listedBy request ml then take a t f else a) a) a := by
  simp only [Bridge.listed, List.foldl_flatMap, List.foldl_map, List.foldl_filter]

theorem flowdbFlowStats_eq (request : FlowStatsRequest) (ml : List Match) :
    (flowdbFlowStats b request ml).2 = (b.listed request ml).map fun e => e.2.stats e.1 := by
  have hmap : ∀ es : List (TableId × Flow), ∀ list : List FlowStats,
      es.foldl (fun list e => list ++ [e.2.stats e.1]) list = list ++ es.map fun e => e.2.stats e.1 := by
    intro es
    induction es with
    | nil => simp
    | cons e es ih => intro list; simp [ih]
  have hscan := foldl_listed b request ml (fun list t f => list ++ [f.stats t]) []
  rw [hmap, List.nil_append] at hscan
  rw [hscan]
  unfold flowdbFlowStats FlowStatsRequest.tableIds
  cases request.tableId with
  | none =>
    rw [eachTable_eq b fun table t list => show tableFlowStats table t request ml list = _ from rfl]
  | some t => simp [tableFlowStats, b.flowList_getTable]

theorem flowdbAggregateStats_eq (request : FlowStatsRequest) (ml : List Match) :
    (flowdbAggregateStats b request ml).2 =
      (b.listed request ml).foldl (fun reply e => reply.count e.2) {} := by
  rw [foldl_listed b request ml fun (reply : AggregateStatsReply) _ f => reply.count f]
  unfold flowdbAggregateStats FlowStatsRequest.tableIds
  cases request.tableId with
  | none =>
    rw [eachTable_eq b fun table _ reply => show tableFlowCounts table request ml reply = _ from rfl]
  | some t => simp [tableFlowCounts, b.flowList_getTable]

/-! ## The sums -/

/-- The counts of the entries that keep them. -/
def packetCounts (list : List FlowStats) : List Nat :=
  (list.filter fun s => !checkFlag s.flags OFPFF_NO_PKT_COUNTS).map fun s => s.packetCount.toNat

def byteCounts (list : List FlowStats) : List Nat :=
  (list.filter fun s => !checkFlag s.flags OFPFF_NO_BYT_COUNTS).map fun s => s.byteCount.toNat

theorem toNat_foldl_counter {ρ α : Type} {w : Nat} {counter : ρ → BitVec w} {step : ρ → α → ρ}
    {keeps : α → Bool} {value : α → BitVec w}
    (hstep : ∀ r a, counter (step r a) = if keeps a then counter r + value a else counter r)
    (l : List α) (r : ρ) : (counter (l.foldl step r)).toNat =
      ((counter r).toNat + ((l.filter keeps).map fun a => (value a).toNat).sum) % 2 ^ w := by
  induction l generalizing r with
  | nil => simp
  | cons a l ih =>
    rw [List.foldl_cons, ih, hstep]
    cases hkeeps : keeps a with
    | true => simp [hkeeps, Nat.add_assoc]
    | false => simp [hkeeps]

section Sums

variable (b : Bridge) (request : FlowStatsRequest) (ml : List Match)

theorem toNat_flowCount : (flowdbAggregateStats b request ml).2.flowCount.toNat =
    (flowdbFlowStats b request ml).2.length % 2 ^ 32 := by
  have hstep : ∀ (reply : AggregateStatsReply) (e : TableId × Flow),
      (reply.count e.2).flowCount = if true then reply.flowCount + 1 else reply.flowCount :=
    fun _ _ => rfl
  rw [flowdbAggregateStats_eq, flowdbFlowStats_eq, toNat_foldl_counter hstep]
  simp

theorem toNat_packetCount : (flowdbAggregateStats b request ml).2.packetCount.toNat =
    (packetCounts (flowdbFlowStats b request ml).2).sum % 2 ^ 64 := by
  have hstep : ∀ (reply : AggregateStatsReply) (e : TableId × Flow), (reply.count e.2).packetCount =
        if !checkFlag (e.2.stats e.1).flags OFPFF_NO_PKT_COUNTS then
          reply.packetCount + (e.2.stats e.1).packetCount
        else reply.packetCount := by
    intro reply e
    cases hno : checkFlag e.2.flags OFPFF_NO_PKT_COUNTS <;>
      simp [AggregateStatsReply.count, Flow.stats, hno]
  rw [flowdbAggregateStats_eq, flowdbFlowStats_eq, toNat_foldl_counter hstep]
  simp [packetCounts, List.filter_map, Function.comp_def]

theorem toNat_byteCount : (flowdbAggregateStats b request ml).2.byteCount.toNat =
    (byteCounts (flowdbFlowStats b request ml).2).sum % 2 ^ 64 := by
  have hstep : ∀ (reply : AggregateStatsReply) (e : TableId × Flow), (reply.count e.2).byteCount =
        if !checkFlag (e.2.stats e.1).flags OFPFF_NO_BYT_COUNTS then
          reply.byteCount + (e.2.stats e.1).byteCount
        else reply.byteCount := by
    intro reply e
    cases hno : checkFlag e.2.flags OFPFF_NO_BYT_COUNTS <;>
      simp [AggregateStatsReply.count, Flow.stats, hno]
  rw [flowdbAggregateStats_eq, flowdbFlowStats_eq, toNat_foldl_counter hstep]
  simp [byteCounts, List.filter_map, Function.comp_def]

end Sums

/-! ## The statistics beside the delete -/

/-- The delete with the filters of the request. -/
def FlowStatsRequest.delete (request : FlowStatsRequest) : FlowMod where
  tableId := request.tableId
  cookie := request.cookie
  cookieMask := request.cookieMask
  outPort := request.outPort
  outGroup := request.outGroup

/-- The aggregate is the sum of the entries listed, and these are the entries a delete removes. -/
structure StatsRight (b : Bridge) (request : FlowStatsRequest) (ml : List Match) : Prop where
  flows : (flowdbAggregateStats b request ml).2.flowCount.toNat =
    (flowdbFlowStats b request ml).2.length
  packets : (flowdbAggregateStats b request ml).2.packetCount.toNat =
    (packetCounts (flowdbFlowStats b request ml).2).sum
  bytes : (flowdbAggregateStats b request ml).2.byteCount.toNat =
    (byteCounts (flowdbFlowStats b request ml).2).sum
  listed : (flowdbFlowStats b request ml).2 = request.tableIds.flatMap fun t =>
    ((b.flows t).filter (·.listedBy request ml)).map (Flow.stats t)
  removed : ∀ t, (flowdbFlowDelete b request.delete ml).1.flows t =
    if t ∈ request.tableIds then (b.flows t).filter fun f => !f.listedBy request ml else b.flows t

/-- Every entry selected has the port and the group of the request, whose match list is well formed,
and the sums fit in the reply. -/
structure StatsCond (b : Bridge) (request : FlowStatsRequest) (ml : List Match) : Prop where
  flows : (b.listed request ml).length < 2 ^ 32
  packets : (packetCounts ((b.listed request ml).map fun e => e.2.stats e.1)).sum < 2 ^ 64
  bytes : (byteCounts ((b.listed request ml).map fun e => e.2.stats e.1)).sum < 2 ^ 64
  filtered : ∀ t ∈ request.tableIds, ∀ f ∈ b.flows t, f.listedBy request ml = true →
    flowPreRequisiteCheck ml = .ok () ∧
      (request.outPort = OFPP_ANY ∨ f.findActionOutput request.outPort = true) ∧
      (request.outGroup = OFPG_ANY ∨ f.findActionGroup request.outGroup = true)

theorem deletedBy_delete (f : Flow) (request : FlowStatsRequest) (ml : List Match) :
    f.deletedBy request.delete ml = true ↔ f.listedBy request ml = true ∧
      (request.outPort = OFPP_ANY ∨ f.findActionOutput request.outPort = true) ∧
      (request.outGroup = OFPG_ANY ∨ f.findActionGroup request.outGroup = true) := by
  simp only [Flow.deletedBy, Flow.listedBy, Flow.cookieAgrees, Bool.and_eq_true, Bool.or_eq_true,
    decide_eq_true_eq]
  tauto

theorem flows_delete (b : Bridge) (request : FlowStatsRequest) (ml : List Match) (t : TableId) :
    (flowdbFlowDelete b request.delete ml).1.flows t =
      if t ∈ request.tableIds ∧ flowPreRequisiteCheck ml = .ok () then
        (b.flows t).filter fun f => !f.deletedBy request.delete ml
      else b.flows t := by
  cases hcheck : flowPreRequisiteCheck ml with
  | error e => simp [flowdbFlowDelete, hcheck]
  | ok u =>
    have hhits : ¬ request.delete.MissesList ml b := fun hmiss => by cases hmiss.1
    rw [(delete_exact_iff_of_check hcheck).2 hhits t, ← remaining_eq_leaves, FlowMod.remaining]
    simp only [FlowMod.Addresses, mem_tableIds_iff, and_true]
    rfl

theorem filter_not_eq_iff {α : Type} (l : List α) (p q : α → Bool) :
    (l.filter fun a => !p a) = (l.filter fun a => !q a) ↔ ∀ a ∈ l, p a = q a := by
  refine ⟨fun heq a ha => ?_, fun h => List.filter_congr fun a ha => by rw [h a ha]⟩
  have hmem : (a ∈ l.filter fun a => !p a) ↔ a ∈ l.filter fun a => !q a := by rw [heq]
  simp only [List.mem_filter, ha, true_and] at hmem
  cases hp : p a <;> cases hq : q a <;> simp_all

/-- **The aggregate is the sum of the entries listed, and these are the ones a delete removes**, as
long as every entry selected has the port and the group the request asks for. -/
theorem aggregate_stats_right_iff (b : Bridge) (request : FlowStatsRequest) (ml : List Match) :
    StatsRight b request ml ↔ StatsCond b request ml := by
  have hlisted : (flowdbFlowStats b request ml).2 = request.tableIds.flatMap fun t =>
      ((b.flows t).filter (·.listedBy request ml)).map (Flow.stats t) := by
    rw [flowdbFlowStats_eq, Bridge.listed, List.map_flatMap]
    simp [Function.comp_def]
  have hremoved : ∀ t, ((flowdbFlowDelete b request.delete ml).1.flows t =
      if t ∈ request.tableIds then (b.flows t).filter fun f => !f.listedBy request ml
      else b.flows t) ↔ (t ∈ request.tableIds → ∀ f ∈ b.flows t, f.listedBy request ml = true →
        flowPreRequisiteCheck ml = .ok () ∧
          (request.outPort = OFPP_ANY ∨ f.findActionOutput request.outPort = true) ∧
          (request.outGroup = OFPG_ANY ∨ f.findActionGroup request.outGroup = true)) := by
    intro t
    rw [flows_delete]
    by_cases ht : t ∈ request.tableIds
    · by_cases hcheck : flowPreRequisiteCheck ml = .ok ()
      · simp only [ht, hcheck, and_self, if_true, true_and, true_imp_iff, filter_not_eq_iff]
        refine forall₂_congr fun f _ => ?_
        rw [Bool.eq_iff_iff, deletedBy_delete]
        tauto
      · -- a delete with a match list that is not well formed leaves everything
        simp only [ht, hcheck, and_false, if_false, if_true, false_and, true_imp_iff, imp_false]
        rw [eq_comm, List.filter_eq_self]
        exact forall₂_congr fun f _ => by simp
    · simp [ht]
  constructor
  · intro h
    refine ⟨?_, ?_, ?_, fun t ht => (hremoved t).1 (h.removed t) ht⟩
    · have hlen : (b.listed request ml).length = (flowdbFlowStats b request ml).2.length := by
        rw [flowdbFlowStats_eq, List.length_map]
      rw [hlen, ← h.flows]
      exact BitVec.isLt _
    · rw [← flowdbFlowStats_eq, ← h.packets]
      exact BitVec.isLt _
    · rw [← flowdbFlowStats_eq, ← h.bytes]
      exact BitVec.isLt _
  · intro h
    refine ⟨?_, ?_, ?_, hlisted, fun t => (hremoved t).2 fun ht => h.filtered t ht⟩
    · have hflows := h.flows
      rw [← List.length_map (fun e => e.2.stats e.1), ← flowdbFlowStats_eq] at hflows
      rw [toNat_flowCount, Nat.mod_eq_of_lt hflows]
    · have hpackets := h.packets
      rw [← flowdbFlowStats_eq] at hpackets
      rw [toNat_packetCount, Nat.mod_eq_of_lt hpackets]
    · have hbytes := h.bytes
      rw [← flowdbFlowStats_eq] at hbytes
      rw [toNat_byteCount, Nat.mod_eq_of_lt hbytes]

/-! ## A port that is not asked for -/

/-- An entry that outputs to port 1. -/
def toPortOne : Bridge :=
  (flowdbFlowAdd { ports := [1] } { tableId := some 0, priority := 1 } []
    [.applyActions [.output 1 false]]).1

/-- **The statistics of the entries to port 2** have the entry to port 1, which a delete of the
entries to port 2 leaves. -/
theorem port_two_listed :
    (flowdbFlowStats toPortOne { tableId := some 0, outPort := 2 } []).2.length = 1 ∧
      (flowdbAggregateStats toPortOne { tableId := some 0, outPort := 2 } []).2.flowCount = 1 ∧
      (toPortOne.flows 0).length = 1 ∧
      ((flowdbFlowDelete toPortOne (FlowStatsRequest.delete { tableId := some 0, outPort := 2 })
        []).1.flows 0) = toPortOne.flows 0 := by
  rw [flows_delete]
  decide

end Lagopus
