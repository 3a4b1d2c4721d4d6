import Lagopus.Flowdb.Mods

/-!
# What the flow mods do to the tables

The counting of meters and groups, and the messages to the controller, leave the tables alone;
and what is done to a table is done to its flow list and its index.  Each operation is described
here by what it does to these two, once and for all.

* `sameTables_flowActionCheck`, `tables_unlink` and their like: what an operation leaves alone.
* `flowActionCheck_checks`: what the check accepts.
* `modifyStrict_some`, `modifyLoop_knows`: the flow list a modify leaves.
* `deleteLoop_eq` and `compaction_eq`: leaving holes and closing them is filtering.
* `flows_flowDelSub`: the flow list a delete leaves.
-/

namespace Lagopus

namespace Bridge

variable (b : Bridge)

@[simp]
theorem getTable_setTable (t : TableId) (table : FlowTable) : (b.setTable t table).getTable t = table := by
  simp [getTable, setTable]

@[simp]
theorem flows_setTable (t i : TableId) (table : FlowTable) :
    (b.setTable t table).flows i = if i = t then table.flowList else b.flows i := by
  unfold flows setTable
  split_ifs with h <;> simp [h]

theorem flowList_getTable (t : TableId) : (b.getTable t).flowList = b.flows t := by
  unfold getTable flows
  cases b.tables t <;> rfl

theorem flows_touch (t i : TableId) : (b.setTable t (b.getTable t)).flows i = b.flows i := by
  rw [flows_setTable, flowList_getTable]
  split_ifs with h
  · rw [h]
  · rfl

theorem flows_congr {b' : Bridge} (h : b'.tables = b.tables) (t : TableId) : b'.flows t = b.flows t := by
  rw [flows, h, flows]

theorem setTable_congr {b' : Bridge} (h : b'.tables = b.tables) (t : TableId) (table : FlowTable) :
    (b'.setTable t table).tables = (b.setTable t table).tables := by
  simp [setTable, h]

@[simp]
theorem tables_delFromMeter (f : Flow) : (b.delFromMeter f).tables = b.tables := by
  unfold delFromMeter
  split <;> rfl

@[simp]
theorem tables_delFirstGroup (addr : Nat) (as : List Action) :
    (b.delFirstGroup addr as).tables = b.tables := by
  unfold delFirstGroup
  split <;> rfl

@[simp]
theorem tables_delFromGroup (f : Flow) : (b.delFromGroup f).tables = b.tables := by
  simp [delFromGroup]

end Bridge

/-! ## The check -/

/-- What the check leaves alone. -/
structure Bridge.SameTables (b b' : Bridge) : Prop where
  tables : b'.tables = b.tables
  next : b'.next = b.next

theorem Bridge.SameTables.refl (b : Bridge) : b.SameTables b := ⟨rfl, rfl⟩

variable {b b' : Bridge}

theorem Bridge.SameTables.trans {b'' : Bridge} (h : b.SameTables b') (h' : b'.SameTables b'') :
    b.SameTables b'' := ⟨h'.tables.trans h.tables, h'.next.trans h.next⟩

theorem Bridge.SameTables.flows (h : b.SameTables b') (t : TableId) :
    b'.flows t = b.flows t := b.flows_congr h.tables t

theorem Bridge.SameTables.getTable (h : b.SameTables b') (t : TableId) : b'.getTable t = b.getTable t := by
  rw [Bridge.getTable, h.tables, Bridge.getTable]

variable {k : Bridge → Result}

theorem sameTables_next {r : Result} (hr : b.SameTables r.1)
    (hk : ∀ b', b.SameTables b' → b'.SameTables (k b').1) : b.SameTables (r.next k).1 := by
  obtain ⟨b', result⟩ := r
  cases result with
  | error e => exact hr
  | ok u => exact hr.trans (hk b' hr)

theorem sameTables_checkActions (addr : Nat) (b : Bridge) (as : List Action) :
    b.SameTables (checkActions addr b as).1 := by
  induction as generalizing b with
  | nil => exact .refl b
  | cons a as ih =>
    refine sameTables_next ?_ fun b' _ => ih b'
    cases a with
    | output port copied =>
      rw [checkAction]
      split_ifs <;> exact .refl b
    | group id =>
      rw [checkAction]
      split_ifs
      · exact ⟨rfl, rfl⟩
      · exact .refl b
    | _ => exact .refl b

theorem sameTables_flowActionCheck (b : Bridge) (addr : Nat) (ins : Instructions) :
    b.SameTables (flowActionCheck b addr ins).1 := by
  refine sameTables_next ?_ fun b _ => sameTables_next (sameTables_checkActions addr b _) fun b _ =>
    sameTables_next (sameTables_checkActions addr b _) fun b _ => ?_
  · cases ins.meter with
    | none => exact .refl b
    | some id =>
      rw [checkMeter]
      split_ifs
      · exact ⟨rfl, rfl⟩
      · exact .refl b
  · cases ins.gotoTable with
    | none => exact .refl b
    | some t =>
      rw [checkGotoTable]
      split_ifs <;> exact .refl b

theorem sameTables_uncount (b : Bridge) (f : Flow) : b.SameTables ((b.delFromMeter f).delFromGroup f) := by
  refine ⟨by simp, ?_⟩
  unfold Bridge.delFromGroup Bridge.delFirstGroup Bridge.delFromMeter
  repeat' split
  all_goals rfl

/-! ## What the check accepts -/

/-- The port, or group, of an action exists. -/
def Bridge.KnowsAction (b : Bridge) : Action → Prop
  | .output port _ => reservedPort port = true ∨ port ∈ b.ports
  | .group id => (b.groups.lookup id).isSome = true
  | _ => True

/-- Everything the instructions name exists. -/
structure Bridge.Knows (b : Bridge) (ins : Instructions) : Prop where
  meter : ∀ id, ins.meter = some id → ∃ m ∈ b.meters, m.meterId = id
  apply : ∀ a ∈ ins.applyActions.getD [], b.KnowsAction a
  write : ∀ a ∈ ins.writeActions.getD [], b.KnowsAction a
  goto : ∀ t, ins.gotoTable = some t → t ≤ OFPTT_MAX

/-- The same ports, groups and meters, with other counts. -/
structure Bridge.SameNames (b b' : Bridge) : Prop where
  ports : b'.ports = b.ports
  groups : b'.groups.map Group.id = b.groups.map Group.id
  meters : b'.meters.map Meter.meterId = b.meters.map Meter.meterId

theorem Bridge.SameNames.refl (b : Bridge) : b.SameNames b := ⟨rfl, rfl, rfl⟩

theorem Bridge.SameNames.trans {b'' : Bridge} (h : b.SameNames b') (h' : b'.SameNames b'') :
    b.SameNames b'' :=
  ⟨h'.ports.trans h.ports, h'.groups.trans h.groups, h'.meters.trans h.meters⟩

theorem sameNames_countMeter (b : Bridge) (id : Nat) (f : BitVec 32 → BitVec 32) :
    b.SameNames (b.countMeter id f) := by
  refine ⟨rfl, rfl, ?_⟩
  simp only [Bridge.countMeter, List.map_map]
  refine List.map_congr_left fun m _ => ?_
  simp only [Function.comp_apply]
  split_ifs <;> rfl

theorem sameNames_referGroup (b : Bridge) (id : Nat) (f : List Nat → List Nat) :
    b.SameNames (b.referGroup id f) := by
  refine ⟨rfl, ?_, rfl⟩
  simp only [Bridge.referGroup, List.map_map]
  refine List.map_congr_left fun g _ => ?_
  simp only [Function.comp_apply]
  split_ifs <;> rfl

theorem sameNames_delFirstGroup (b : Bridge) (addr : Nat) (as : List Action) :
    b.SameNames (b.delFirstGroup addr as) := by
  unfold Bridge.delFirstGroup
  split
  · exact sameNames_referGroup b _ _
  · exact .refl b

theorem sameNames_uncount (b : Bridge) (f : Flow) : b.SameNames ((b.delFromMeter f).delFromGroup f) := by
  have hmeter : b.SameNames (b.delFromMeter f) := by
    unfold Bridge.delFromMeter
    split
    · exact sameNames_countMeter b _ _
    · exact .refl b
  exact hmeter.trans ((sameNames_delFirstGroup _ _ _).trans (sameNames_delFirstGroup _ _ _))

theorem Bridge.SameNames.lookup (h : b.SameNames b') (id : Nat) :
    (b'.groups.lookup id).isSome = (b.groups.lookup id).isSome := by
  have hmem : ∀ T : GroupTable, (T.lookup id).isSome = true ↔ id ∈ T.map Group.id := fun T => by
    rw [GroupTable.lookup_isSome, List.mem_map]
  rw [Bool.eq_iff_iff, hmem, hmem, h.groups]

theorem Bridge.SameNames.knowsAction (h : b.SameNames b') (a : Action) :
    b'.KnowsAction a ↔ b.KnowsAction a := by
  cases a with
  | output port copied => simp [Bridge.KnowsAction, h.ports]
  | group id => simp [Bridge.KnowsAction, h.lookup]
  | _ => exact Iff.rfl

theorem Bridge.SameNames.knows (h : b.SameNames b') (ins : Instructions) : b'.Knows ins ↔ b.Knows ins := by
  have hmeter : ∀ id, (∃ m ∈ b'.meters, m.meterId = id) ↔ ∃ m ∈ b.meters, m.meterId = id := by
    intro id
    rw [← List.mem_map, ← List.mem_map, h.meters]
  constructor
  · intro hk
    exact ⟨fun id hid => (hmeter id).1 (hk.meter id hid), fun a ha => (h.knowsAction a).1 (hk.apply a ha),
      fun a ha => (h.knowsAction a).1 (hk.write a ha), hk.goto⟩
  · intro hk
    exact ⟨fun id hid => (hmeter id).2 (hk.meter id hid), fun a ha => (h.knowsAction a).2 (hk.apply a ha),
      fun a ha => (h.knowsAction a).2 (hk.write a ha), hk.goto⟩

/-- One part of the check: what it accepts, and that it changes counts only. -/
structure Checks (b : Bridge) (r : Result) (P : Prop) : Prop where
  ok_iff : r.2 = .ok () ↔ P
  names : b.SameNames r.1

theorem Checks.next {r : Result} {P Q : Prop} (h : Checks b r P)
    (hk : ∀ b', b.SameNames b' → Checks b' (k b') Q) : Checks b (r.next k) (P ∧ Q) := by
  obtain ⟨b', result⟩ := r
  have hnames := h.names
  cases result with
  | error e =>
    refine ⟨⟨fun hr => ?_, fun hpq => ?_⟩, hnames⟩
    · cases hr
    · cases h.ok_iff.2 hpq.1
  | ok u =>
    obtain ⟨hok, hrest⟩ := hk b' hnames
    refine ⟨⟨fun hr => ⟨h.ok_iff.1 rfl, hok.1 hr⟩, fun hpq => hok.2 hpq.2⟩, hnames.trans hrest⟩

theorem checks_action (addr : Nat) (b : Bridge) (a : Action) :
    Checks b (checkAction addr b a) (b.KnowsAction a) := by
  cases a with
  | output port copied =>
    rw [checkAction]
    split_ifs with hport
    · exact ⟨iff_of_true rfl hport, .refl b⟩
    · exact ⟨iff_of_false (fun h => nomatch h) hport, .refl b⟩
  | group id =>
    rw [checkAction]
    split_ifs with hgroup
    · have hnames : b.SameNames (b.groupAddRefFlow id addr) := sameNames_referGroup b id _
      exact ⟨iff_of_true rfl hgroup, hnames⟩
    · exact ⟨iff_of_false (fun h => nomatch h) hgroup, .refl b⟩
  | _ => exact ⟨iff_of_true rfl trivial, .refl b⟩

theorem checks_actions (addr : Nat) (b : Bridge) (as : List Action) :
    Checks b (checkActions addr b as) (∀ a ∈ as, b.KnowsAction a) := by
  induction as generalizing b with
  | nil => exact ⟨iff_of_true rfl (fun a ha => nomatch ha), .refl b⟩
  | cons a as ih =>
    rw [List.forall_mem_cons]
    refine (checks_action addr b a).next fun b' hnames => ?_
    have hrest := ih b'
    exact ⟨hrest.ok_iff.trans (forall₂_congr fun a _ => hnames.knowsAction a), hrest.names⟩

theorem checks_meter (b : Bridge) (meter : Option Nat) :
    Checks b (checkMeter b meter) (∀ id, meter = some id → ∃ m ∈ b.meters, m.meterId = id) := by
  cases meter with
  | none => exact ⟨iff_of_true rfl (fun id h => nomatch h), .refl b⟩
  | some id =>
    rw [checkMeter]
    split_ifs with hany
    · refine ⟨iff_of_true rfl fun id' hid => ?_, sameNames_countMeter b id (· + 1)⟩
      cases hid
      simpa using hany
    · refine ⟨iff_of_false (fun h => nomatch h) fun h => hany ?_, .refl b⟩
      simpa using h id rfl

theorem checks_gotoTable (b : Bridge) (goto : Option Nat) :
    Checks b (checkGotoTable b goto) (∀ t, goto = some t → t ≤ OFPTT_MAX) := by
  cases goto with
  | none => exact ⟨iff_of_true rfl (fun t h => nomatch h), .refl b⟩
  | some t =>
    rw [checkGotoTable]
    split_ifs with hlt
    · exact ⟨iff_of_false (fun h => nomatch h) fun h => absurd (h t rfl) (by omega), .refl b⟩
    · refine ⟨iff_of_true rfl fun t' h => ?_, .refl b⟩
      cases h
      omega

/-- **The check** accepts the instructions that name nothing unknown, at whatever counts. -/
theorem flowActionCheck_checks (b : Bridge) (addr : Nat) (ins : Instructions) :
    Checks b (flowActionCheck b addr ins) (b.Knows ins) := by
  have hknows : b.Knows ins ↔ (∀ id, ins.meter = some id → ∃ m ∈ b.meters, m.meterId = id) ∧
        (∀ a ∈ ins.applyActions.getD [], b.KnowsAction a) ∧
          (∀ a ∈ ins.writeActions.getD [], b.KnowsAction a) ∧
            ∀ t, ins.gotoTable = some t → t ≤ OFPTT_MAX :=
    ⟨fun h => ⟨h.meter, h.apply, h.write, h.goto⟩, fun ⟨h₁, h₂, h₃, h₄⟩ => ⟨h₁, h₂, h₃, h₄⟩⟩
  rw [hknows]
  refine (checks_meter b _).next fun b₁ h₁ => ?_
  have hlist : ∀ {b' : Bridge} (as : List Action), b.SameNames b' →
      Checks b' (checkActions addr b' as) (∀ a ∈ as, b.KnowsAction a) := fun as h =>
    ⟨(checks_actions addr _ as).ok_iff.trans (forall₂_congr fun a _ => h.knowsAction a),
      (checks_actions addr _ as).names⟩
  refine (hlist _ h₁).next fun b₂ h₂ => (hlist _ (h₁.trans h₂)).next fun b₃ _ => ?_
  exact checks_gotoTable b₃ _

theorem knowsAction_unflagged (b : Bridge) (a : Action) : b.KnowsAction a.unflagged ↔ b.KnowsAction a := by
  cases a with
  | rewrite r => cases r <;> exact Iff.rfl
  | _ => exact Iff.rfl

theorem knows_unflagged (b : Bridge) (ins : Instructions) : b.Knows ins.unflagged ↔ b.Knows ins := by
  have hmap : ∀ o : Option (List Action),
      (∀ a ∈ (o.map (·.map Action.unflagged)).getD [], b.KnowsAction a) ↔
        ∀ a ∈ o.getD [], b.KnowsAction a := by
    intro o
    cases o with
    | none => exact Iff.rfl
    | some as => simp [knowsAction_unflagged]
  exact ⟨fun h => ⟨h.meter, (hmap _).1 h.apply, (hmap _).1 h.write, h.goto⟩,
    fun h => ⟨h.meter, (hmap _).2 h.apply, (hmap _).2 h.write, h.goto⟩⟩

theorem knows_examine (b : Bridge) (ins : Instructions) : b.Knows ins.unflagged.examine ↔ b.Knows ins := by
  rw [← knows_unflagged b ins.unflagged.examine, ins.unflagged_examine, knows_unflagged]

/-! ## The entry of a request -/

/-- The entry a request describes, at an address of a table. -/
def FlowMod.flow (fm : FlowMod) (addr : Nat) (t : TableId) (ml : List Match) (ins : Instructions) :
    Flow where
  head := ⟨addr, fm.priority, ml⟩
  tableId := t
  flags := fm.flags
  cookie := fm.cookie
  idleTimeout := fm.idleTimeout
  hardTimeout := fm.hardTimeout
  instruction := ins.unflagged

variable {t : TableId} {fm : FlowMod} {ml : List Match} {il : List Instruction} {flow : Flow}

theorem flowPrepare_of_ok {ins : Instructions} (hins : mapInstructionListToArray il = .ok ins)
    (hpre : flowPreRequisiteCheck ml = .ok ()) :
    flowPrepare b t fm ml il = .ok (fm.flow b.next t ml ins) := by
  simp only [flowPrepare, flowAlloc, hins, hpre, Except.map]
  rfl

theorem flowPrepare_of_error {e : OfpError} (hins : mapInstructionListToArray il = .error e) :
    flowPrepare b t fm ml il = .error e := by
  simp [flowPrepare, flowAlloc, hins, Except.map]

/-- The identical entry with the match list and the instructions of the request. -/
def Flow.replacedBy (old : Flow) (fm : FlowMod) (flow : Flow) : Flow :=
  { old.resetCounts fm with
    head := { old.head with matchList := flow.head.matchList }
    instruction := flow.instruction.examine }

theorem resetCounts_eq (f : Flow) (fm : FlowMod) :
    ∃ packets bytes, f.resetCounts fm = { f with packetCount := packets, byteCount := bytes } := by
  unfold Flow.resetCounts
  split_ifs
  · exact ⟨0, 0, rfl⟩
  · exact ⟨f.packetCount, f.byteCount, rfl⟩

theorem replaceIdentical_overlap {old : Flow} (h : checkFlag fm.flags OFPFF_CHECK_OVERLAP = true) :
    replaceIdentical b t fm flow old = (b, .error .flowModFailedOverlap) := by
  simp [replaceIdentical, h]

theorem tables_replaceIdentical {old : Flow} (h : checkFlag fm.flags OFPFF_CHECK_OVERLAP = false) :
    (replaceIdentical b t fm flow old).1.tables =
        (b.setTable t ((b.getTable t).put (old.replacedBy fm flow))).tables ∧
      (replaceIdentical b t fm flow old).1.next = b.next := by
  have hun := sameTables_uncount b old
  simp only [replaceIdentical, h, Bool.false_eq_true, if_false]
  constructor
  · rw [(sameTables_flowActionCheck _ _ _).tables, hun.getTable]
    exact b.setTable_congr hun.tables t _
  · exact (sameTables_flowActionCheck _ _ _).next.trans hun.next

/-- The bridge in which an add looks for an identical entry. -/
def Bridge.touched (b : Bridge) (t : TableId) : Bridge :=
  { b.setTable t (b.getTable t) with next := b.next + 1 }

/-- **The ways of an add**: the request is refused, or there is a new entry, or one that is replaced. -/
theorem flowdbFlowAdd_cases (b : Bridge) (ml : List Match) (il : List Instruction)
    (ht : fm.tableId = some t) : (∃ e, flowdbFlowAdd b fm ml il = (b.setTable t (b.getTable t), .error e) ∧
      (mapInstructionListToArray il = .error e ∨ flowPreRequisiteCheck ml = .error e ∨
        flowMaskCheck ml = .error e)) ∨
    ∃ ins, mapInstructionListToArray il = .ok ins ∧ Accepted ml ∧
      (((b.touched t).getTable t).identical (fm.flow b.next t ml ins) = none ∧
          flowdbFlowAdd b fm ml il = addNew (b.touched t) t (fm.flow b.next t ml ins) ∨
        ∃ old, ((b.touched t).getTable t).identical (fm.flow b.next t ml ins) = some old ∧
          flowdbFlowAdd b fm ml il = replaceIdentical (b.touched t) t fm (fm.flow b.next t ml ins) old) := by
  cases hins : mapInstructionListToArray il with
  | error e =>
    refine .inl ⟨e, ?_, .inl rfl⟩
    simp [flowdbFlowAdd, ht, flowPrepare_of_error hins]
  | ok ins =>
    cases hpre : flowPreRequisiteCheck ml with
    | error e =>
      refine .inl ⟨e, ?_, .inr (.inl rfl)⟩
      simp [flowdbFlowAdd, ht, flowPrepare, flowAlloc, hins, hpre, Except.map]
    | ok u =>
      have hprep : flowPrepare (b.setTable t (b.getTable t)) t fm ml il = _ := flowPrepare_of_ok hins hpre
      cases hmask : flowMaskCheck ml with
      | error e =>
        refine .inl ⟨e, ?_, .inr (.inr rfl)⟩
        simp [flowdbFlowAdd, ht, hprep, hmask]
      | ok u =>
        refine .inr ⟨ins, rfl, ⟨hpre, hmask⟩, ?_⟩
        simp only [flowdbFlowAdd, ht, hprep, hmask]
        split
        · rename_i old hident
          exact .inr ⟨old, hident, rfl⟩
        · rename_i hident
          exact .inl ⟨hident, rfl⟩

/-! ## Modify -/

/-- The entry with other instructions. -/
def Flow.given (f : Flow) (fm : FlowMod) (ins : Instructions) : Flow :=
  { f.resetCounts fm with instruction := ins }

/-- What every operation leaves of an entry that stays: all but its counters and instructions. -/
def Flow.Keeps (f g : Flow) : Prop :=
  ∃ packets bytes ins, g = { f with packetCount := packets, byteCount := bytes, instruction := ins }

theorem Flow.Keeps.refl (f : Flow) : f.Keeps f := ⟨f.packetCount, f.byteCount, f.instruction, rfl⟩

theorem keeps_given (f : Flow) (fm : FlowMod) (ins : Instructions) : f.Keeps (f.given fm ins) := by
  obtain ⟨packets, bytes, hreset⟩ := resetCounts_eq f fm
  exact ⟨packets, bytes, ins, by rw [Flow.given, hreset]⟩

section Modify

variable {fm : FlowMod} {flow : Flow} {ml : List Match} {ins : Instructions} (fs : List Flow)

theorem keeps_modifyStrict (b : Bridge) : List.Forall₂ Flow.Keeps fs (modifyStrict fm flow fs b).1 := by
  induction fs with
  | nil => exact .nil
  | cons f fs ih =>
    rw [modifyStrict]
    split_ifs
    · exact .cons (keeps_given f fm _) (List.forall₂_same.2 fun f _ => .refl f)
    · exact .cons (.refl f) ih

theorem keeps_modifyLoop (b : Bridge) : List.Forall₂ Flow.Keeps fs (modifyLoop fm ml ins fs b).1 := by
  induction fs generalizing b with
  | nil => exact .nil
  | cons f fs ih =>
    rw [modifyLoop]
    split_ifs
    · simp only
      split
      · exact .cons (keeps_given f fm _) (List.forall₂_same.2 fun f _ => .refl f)
      · exact .cons (keeps_given f fm _) (ih _)
    · exact .cons (.refl f) (ih b)

theorem sameTables_modifyStrict (b : Bridge) : b.SameTables (modifyStrict fm flow fs b).2.1 := by
  induction fs with
  | nil => exact .refl b
  | cons f fs ih =>
    rw [modifyStrict]
    split_ifs
    · exact (sameTables_uncount b f).trans (sameTables_flowActionCheck _ _ _)
    · exact ih

theorem sameTables_modifyLoop (b : Bridge) : b.SameTables (modifyLoop fm ml ins fs b).2.1 := by
  induction fs generalizing b with
  | nil => exact .refl b
  | cons f fs ih =>
    rw [modifyLoop]
    split_ifs
    · have hstep := (sameTables_uncount b f).trans
        (sameTables_flowActionCheck ((b.delFromMeter f).delFromGroup f)
          (f.resetCounts fm).head.id ins.unflagged)
      simp only
      split
      · rename_i b' e hcheck
        rw [hcheck] at hstep
        exact hstep
      · rename_i b' hcheck
        rw [hcheck] at hstep
        exact hstep.trans (ih b')
    · exact ih b

variable {fs pre post : List Flow}

theorem modifyStrict_none (h : ∀ f ∈ fs, flowCompare flow.head f.head = false)
    (b : Bridge) : modifyStrict fm flow fs b = (fs, b, .ok ()) := by
  induction fs with
  | nil => rfl
  | cons f fs ih =>
    obtain ⟨hf, hrest⟩ := List.forall_mem_cons.1 h
    simp [modifyStrict, hf, ih hrest]

/-- The first identical entry gets a copy without notes. -/
theorem modifyStrict_some {f : Flow} (hpre : ∀ g ∈ pre, flowCompare flow.head g.head = false)
    (hf : flowCompare flow.head f.head = true) (b : Bridge) : modifyStrict fm flow (pre ++ f :: post) b =
      (pre ++ f.given fm flow.instruction.unflagged :: post,
        flowActionCheck ((b.delFromMeter f).delFromGroup f) flow.head.id flow.instruction) := by
  induction pre with
  | nil => simp [modifyStrict, hf, Flow.given]
  | cons g pre ih =>
    obtain ⟨hg, hrest⟩ := List.forall_mem_cons.1 hpre
    simp [modifyStrict, hg, ih hrest]

theorem modifyLoop_none (h : ∀ f ∈ fs, f.modifiedBy fm ml = false) (b : Bridge) :
    modifyLoop fm ml ins fs b = (fs, b, .ok ()) := by
  induction fs with
  | nil => rfl
  | cons f fs ih =>
    obtain ⟨hf, hrest⟩ := List.forall_mem_cons.1 h
    simp [modifyLoop, hf, ih hrest]

theorem modifyLoop_knows (h : b.Knows ins) (fs : List Flow) : (modifyLoop fm ml ins fs b).1 =
        fs.map (fun f => if f.modifiedBy fm ml then f.given fm ins.unflagged.examine else f) ∧
      (modifyLoop fm ml ins fs b).2.2 = .ok () := by
  induction fs generalizing b with
  | nil => exact ⟨rfl, rfl⟩
  | cons f fs ih =>
    rw [modifyLoop]
    cases hsel : f.modifiedBy fm ml with
    | true =>
      have hnames := sameNames_uncount b f
      have hcheck := flowActionCheck_checks ((b.delFromMeter f).delFromGroup f)
        (f.given fm ins.unflagged).head.id ins.unflagged
      have hok := hcheck.ok_iff.2 ((hnames.knows _).2 ((knows_unflagged b ins).2 h))
      have hnext := hnames.trans hcheck.names
      generalize hr : flowActionCheck ((b.delFromMeter f).delFromGroup f)
        (f.given fm ins.unflagged).head.id ins.unflagged = r at hok hnext
      obtain ⟨b', result⟩ := r
      subst hok
      obtain ⟨hlist, hres⟩ := ih ((hnext.knows ins).2 h)
      simp only [Flow.given] at hr
      simp [hr, hlist, hres, hsel, Flow.given]
    | false =>
      obtain ⟨hlist, hres⟩ := ih h
      simp [hlist, hres, hsel]

end Modify

/-! ## Unlinking -/

theorem tables_unlink (b : Bridge) (t : TableId) (f sent : Flow) (reason : RemovedReason) (i : TableId) :
    (b.unlink t f sent reason).tables i =
      if i = t then
        some { b.getTable t with userdata := Index.delFlow (b.getTable t).userdata f.head }
      else b.tables i := by
  unfold Bridge.unlink
  split
  all_goals simp [Bridge.setTable]

theorem next_unlink (b : Bridge) (t : TableId) (f sent : Flow) (reason : RemovedReason) :
    (b.unlink t f sent reason).next = b.next := by
  unfold Bridge.unlink Bridge.delFromGroup Bridge.delFirstGroup Bridge.delFromMeter
  repeat' split
  all_goals rfl

theorem flows_unlink (b : Bridge) (t : TableId) (f sent : Flow) (reason : RemovedReason)
    (i : TableId) : (b.unlink t f sent reason).flows i = b.flows i := by
  unfold Bridge.flows
  rw [tables_unlink]
  split_ifs with h
  · subst h
    exact b.flowList_getTable i
  · rfl

/-! ## Delete -/

theorem filterMap_dropWhile_isNone (l : List (Option Flow)) :
    (l.dropWhile Option.isNone).filterMap id = l.filterMap id := by
  induction l with
  | nil => rfl
  | cons o l ih =>
    cases o with
    | none => simpa using ih
    | some f => rfl

/-- **Closing the gaps** keeps the entries that are left, in their order. -/
theorem compaction_eq (l : List (Option Flow)) : compaction l = l.filterMap id := by
  fun_induction compaction l with
  | case1 => rfl
  | case2 f rest ih => simp [ih]
  | case3 rest f rest' hgap ih =>
    have hrest := filterMap_dropWhile_isNone rest
    rw [hgap] at hrest
    rw [ih, List.filterMap_cons_none rfl, ← hrest]
    rfl
  | case4 rest hnone =>
    have hrest := filterMap_dropWhile_isNone rest
    rw [List.filterMap_cons_none rfl, ← hrest]
    -- what is left behind the gap does not begin with another one
    cases hgap : rest.dropWhile Option.isNone with
    | nil => rfl
    | cons o rest' =>
      cases o with
      | some f => exact absurd hgap (hnone f rest')
      | none =>
        have hhead := List.head?_dropWhile_not Option.isNone rest
        simp [hgap] at hhead

/-- What unlinking the entries of a list one after the other leaves. -/
def Bridge.unlinkAll (t : TableId) (fs : List Flow) (b : Bridge) : Bridge :=
  fs.foldl (fun b f => b.unlink t f f .delete) b

theorem deleteLoop_eq (t : TableId) (fm : FlowMod) (ml : List Match) (fs : List Flow) (b : Bridge) :
    deleteLoop t fm ml fs b =
      (fs.map fun f => if f.deletedBy fm ml then none else some f,
        Bridge.unlinkAll t (fs.filter fun f => f.deletedBy fm ml) b) := by
  induction fs generalizing b with
  | nil => rfl
  | cons f fs ih =>
    rw [deleteLoop]
    cases hsel : f.deletedBy fm ml <;> simp [ih, hsel, Bridge.unlinkAll]

theorem compaction_deleteLoop (t : TableId) (fm : FlowMod) (ml : List Match) (fs : List Flow) (b : Bridge) :
    compaction (deleteLoop t fm ml fs b).1 = fs.filter fun f => !f.deletedBy fm ml := by
  rw [compaction_eq, deleteLoop_eq]
  induction fs with
  | nil => rfl
  | cons f fs ih => cases hsel : f.deletedBy fm ml <;> simp_all

theorem flows_unlinkAll (t : TableId) (fs : List Flow) (b : Bridge) (i : TableId) :
    (Bridge.unlinkAll t fs b).flows i = b.flows i := by
  induction fs generalizing b with
  | nil => rfl
  | cons f fs ih => exact (ih _).trans (flows_unlink b t f f .delete i)

/-- The entry is identical to a request with this priority and match list. -/
def Flow.identicalTo (priority : Nat) (ml : List Match) (f : Flow) : Bool :=
  f.head.priority = priority ∧ f.head.matchList = ml

theorem flowCompare_eq_identicalTo (addr priority : Nat) (ml : List Match) (f : Flow) :
    flowCompare ⟨addr, priority, ml⟩ f.head = f.identicalTo priority ml := by
  rw [Bool.eq_iff_iff, flowCompare_iff, Flow.identicalTo, decide_eq_true_iff]
  exact and_congr eq_comm eq_comm

theorem deleteStrict_eq (t : TableId) (flow : Flow) (fs : List Flow) (b : Bridge) :
    (deleteStrict t flow fs b).1 = fs.eraseP (fun f => flowCompare flow.head f.head) ∧
      ((fs.find? fun f => flowCompare flow.head f.head) = none ∧ (deleteStrict t flow fs b).2 = b ∨
        ∃ f, (fs.find? fun f => flowCompare flow.head f.head) = some f ∧
          (deleteStrict t flow fs b).2 = b.unlink t f flow .delete) := by
  induction fs with
  | nil => exact ⟨rfl, Or.inl ⟨rfl, rfl⟩⟩
  | cons f fs ih =>
    rw [deleteStrict]
    cases hsame : flowCompare flow.head f.head with
    | true =>
      refine ⟨by simp [hsame], Or.inr ⟨f, by simp [hsame], ?_⟩⟩
      simp
    | false => simpa [hsame] using ih

/-- What a delete is to leave of the flow list of a table it addresses. -/
def FlowMod.remaining (fm : FlowMod) (ml : List Match) (fs : List Flow) : List Flow :=
  if fm.strict then fs.eraseP (Flow.identicalTo fm.priority ml)
  else fs.filter fun f => !f.deletedBy fm ml

/-- **One table**: the entries selected go, the others stay, in their order. -/
theorem flows_flowDelSub (h : flowPreRequisiteCheck ml = .ok ()) (i : TableId) :
    (flowDelSub b t fm ml).1.flows i =
      if i = t then fm.remaining ml (b.flows t) else b.flows i := by
  unfold flowDelSub FlowMod.remaining
  cases fm.strict with
  | true =>
    simp only [h, if_true, Bridge.flows_setTable, b.flowList_getTable]
    split_ifs with hi
    · refine (deleteStrict_eq t _ _ b).1.trans ?_
      simp [flowCompare_eq_identicalTo]
    · rcases (deleteStrict_eq t _ (b.flows t) b).2 with ⟨-, hb⟩ | ⟨f, -, hb⟩
      · rw [hb]
      · rw [hb, flows_unlink]
  | false =>
    simp only [Bool.false_eq_true, if_false, Bridge.flows_setTable, b.flowList_getTable]
    split_ifs with hi
    · exact compaction_deleteLoop t fm ml _ b
    · rw [deleteLoop_eq, flows_unlinkAll]

theorem tables_unlinkAll_of_ne {i : TableId} (h : i ≠ t) (fs : List Flow) (b : Bridge) :
    (Bridge.unlinkAll t fs b).tables i = b.tables i := by
  induction fs generalizing b with
  | nil => rfl
  | cons f fs ih =>
    refine (ih _).trans ?_
    rw [tables_unlink, if_neg h]

theorem tables_flowDelSub_of_ne {i : TableId} (h : i ≠ t) (b : Bridge) (fm : FlowMod)
    (ml : List Match) : (flowDelSub b t fm ml).1.tables i = b.tables i := by
  unfold flowDelSub
  cases fm.strict with
  | true =>
    cases flowPreRequisiteCheck ml with
    | error e => rfl
    | ok u =>
      simp only [if_true, Bridge.setTable, if_neg h]
      rcases (deleteStrict_eq t _ (b.getTable t).flowList b).2 with ⟨-, hb⟩ | ⟨f, -, hb⟩
      · rw [hb]
      · rw [hb, tables_unlink, if_neg h]
  | false =>
    simp only [Bool.false_eq_true, if_false, Bridge.setTable, if_neg h]
    rw [deleteLoop_eq, tables_unlinkAll_of_ne h]

/-- A strict delete takes the match list away. -/
theorem snd_flowDelSub (b : Bridge) (t : TableId) (fm : FlowMod) (ml : List Match) :
    (flowDelSub b t fm ml).2 = if fm.strict then [] else ml := by
  unfold flowDelSub
  split_ifs
  · split <;> rfl
  · rfl

end Lagopus
