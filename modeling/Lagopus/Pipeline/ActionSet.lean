import Lagopus.Agent.Wire
import Lagopus.OpenFlow.Action
import Lagopus.Lib.Latest
import Lagopus.Lib.Trace

/-!
# Action sets

Write-actions instructions merge their actions into the action set of a packet: eleven lists, of which
`action_prop` says which one an action of a type goes to.  An action takes the place of an earlier one of
its type, a set-field action that of an earlier one for its field.

* `actionPropTable`: the table, which ends at type 27, and `mergeAction`, which reads it up to type 28;
* `ActionPacket.step`: write-actions and clear-actions instructions over decoded actions;
* `stage`: the place of an action in the order of the specification;
* `ActionPacket.Kept`: the lists have the last action of each kind;
* `action_set_right_iff`: uniqueness, contents and order along every run.
-/

namespace Lagopus.ActionSets

open Latest List

/-! ## Actions -/

/-- `ofpat.type`.  The last is not admitted by the decoder. -/
def ofpat : Wire.Action → Nat
  | .fixed t _ => t.code
  | .setField _ => Wire.OFPAT_SET_FIELD
  | .ed t _ _ => t.code
  | .experimenter _ => 0xffff
  | .unknown => 0xfffe

/-- `GET_OXM_FIELD`, of set-field actions. -/
def oxmField : Wire.Action → Option Nat
  | .setField oxm => some (Wire.oxmFieldType oxm.oxmField)
  | _ => none

/-- The type of an action, and the field it sets. -/
def kind (a : Wire.Action) : Nat × Option Nat := (ofpat a, oxmField a)

/-- `action_prop`. -/
def actionPropTable : List Nat :=
  [11, 0, 0, 0, 0, 0, 0, 0, 0, 0, 0, 6, 1, 0, 0, 8, 7, 5, 2, 3, 2, 9, 10, 1, 1, 8, 4, 2]

/-- The table beside the lists of the pipeline: they agree but for the type that is read behind its end. -/
theorem actionProp_eq (type : Nat) (h : type ≠ actionPropTable.length) :
    actionProp type = if actionPropTable.length < type then none
      else actionPropTable[type]?.bind fun priority => if priority = 0 then none else some (priority - 1) := by
  rcases Nat.lt_or_gt_of_ne h with hlt | hgt
  · rw [if_neg (Nat.not_lt.2 hlt.le)]
    clear h
    revert type
    decide
  · rw [if_pos hgt]
    have hgt' : 28 < type := hgt
    unfold actionProp
    split <;> first | omega | rfl

/-- `struct action_list actions[LAGOPUS_ACTION_SET_ORDER_MAX]`. -/
abbrev Lists := Nat → List Wire.Action

/-- One round of `merge_action_set`; `none` when it reads behind the end of the table. -/
def mergeAction (actions : Lists) (a : Wire.Action) : Option Lists :=
  if actionPropTable.length < ofpat a then some actions
  else
    match actionPropTable[ofpat a]? with
    | none => none
    | some 0 => some actions
    | some (i + 1) =>
      some (Function.update actions i ((actions i).eraseP (fun ac => kind ac = kind a) ++ [a]))

/-- `merge_action_set`. -/
def mergeActionSet (actions : Lists) (actionList : List Wire.Action) : Option Lists :=
  actionList.foldlM mergeAction actions

/-- `execute_action_set`: the actions that are executed, given which of them end the execution. -/
def executeActions (stops : Wire.Action → Bool) : List Wire.Action → List Wire.Action × Bool
  | [] => ([], true)
  | a :: as =>
    if stops a then ([a], false) else ((a :: (executeActions stops as).1), (executeActions stops as).2)

def executeLists (stops : Wire.Action → Bool) (actions : Lists) : List Nat → List Wire.Action
  | [] => []
  | i :: is =>
    if (executeActions stops (actions i)).2 then
      (executeActions stops (actions i)).1 ++ executeLists stops actions is
    else (executeActions stops (actions i)).1

/-! ## Instructions -/

/-- The actions that the decoder admits. -/
abbrev Admitted := { a : Wire.Action // a.Supported }

inductive Instr
  | writeActions (actionList : List Admitted)
  | clearActions

/-- What a packet has of its action set, with the actions that were written since the last clear. -/
structure ActionPacket where
  /-- `PKT_FLAG_HAS_ACTION`. -/
  hasAction : Bool := false
  actions : Lists := fun _ => []
  written : List Wire.Action := []

namespace ActionPacket

/-- `execute_instruction_write_actions`, as far as `merge_action_set` comes. -/
def merged (s : ActionPacket) (actionList : List Admitted) : Option Lists :=
  mergeActionSet (if s.hasAction then s.actions else fun _ => []) (actionList.map Subtype.val)

/-- `execute_instruction_write_actions`, `execute_instruction_clear_actions`. -/
def step (s : ActionPacket) : Instr → ActionPacket
  | .writeActions actionList =>
    { hasAction := true
      actions := (s.merged actionList).getD s.actions
      written := s.written ++ actionList.map Subtype.val }
  | .clearActions =>
    { hasAction := false
      actions := if s.hasAction then fun i => if i < ACTION_SET_ORDER_MAX then [] else s.actions i
        else s.actions
      written := [] }

/-- `execute_action_set`, at the end of the pipeline; without the flag there is nothing to execute. -/
def executed (s : ActionPacket) (stops : Wire.Action → Bool) : List Wire.Action :=
  if s.hasAction then executeLists stops s.actions (List.range ACTION_SET_ORDER_MAX) else []

end ActionPacket

/-! ## The specification -/

/-- The order of the action set in section 5.10 of the specification: copy TTL inwards, pop, push MPLS, push
PBB, push VLAN, copy TTL outwards, decrement TTL, set, queue, group, output. -/
def fixedStage : Wire.FixedAction → Nat
  | .copyTtlIn => 1
  | .popVlan | .popMpls | .popPbb => 2
  | .pushMpls => 3
  | .pushPbb => 4
  | .pushVlan => 5
  | .copyTtlOut => 6
  | .decMplsTtl | .decNwTtl => 7
  | .setMplsTtl | .setNwTtl => 8
  | .setQueue => 9
  | .group => 10
  | .output => 11

/-- The stage of an action, 0 for those that are not in an action set. -/
def stage : Wire.Action → Nat
  | .fixed t _ => fixedStage t
  | .setField _ => 8
  | _ => 0

namespace ActionPacket

/-- What is asked of a packet after an instruction. -/
structure Right (s : ActionPacket) (i : Instr) : Prop where
  inTable : ∀ actionList, i = .writeActions actionList → (s.merged actionList).isSome = true
  contents : ∀ a, a ∈ (s.step i).executed (fun _ => false) ↔
    IsLast kind (s.step i).written a ∧ stage a ≠ 0
  unique : ((s.step i).executed fun _ => false).Pairwise fun a b => kind a ≠ kind b
  order : ∀ stops, ((s.step i).executed stops).Pairwise fun a b => stage a ≤ stage b

/-- The actions of the first list: copy TTL inwards, and those on the TTL of the network layer. -/
def isFirst : Wire.Action → Bool
  | .fixed .copyTtlIn _ | .fixed .setNwTtl _ | .fixed .decNwTtl _ => true
  | _ => false

/-- No encap action is written; and while the set has an action on the TTL of the network layer, actions of
earlier stages are only those of the first list, in their order. -/
structure Cond (s : ActionPacket) (i : Instr) : Prop where
  noEncap : ∀ actionList, i = .writeActions actionList → ∀ a ∈ actionList, ofpat a.val ≠ 28
  firstInOrder : ((latest kind (s.step i).written).filter isFirst).Pairwise fun a b => stage a ≤ stage b
  firstFirst : ∀ a ∈ latest kind (s.step i).written, isFirst a = true →
    ∀ b ∈ latest kind (s.step i).written, isFirst b = false → stage b ≠ 0 → stage a ≤ stage b

end ActionPacket

/-! ## Places -/

/-- The list that the table gives for an action. -/
def place (a : Wire.Action) : Option Nat :=
  actionPropTable[ofpat a]?.bind fun priority => if priority = 0 then none else some (priority - 1)

variable {actions : Lists} {a : Wire.Action}

theorem mergeAction_of_place {i : Nat} (h : place a = some i) : mergeAction actions a =
      some (Function.update actions i ((actions i).eraseP (fun ac => kind ac = kind a) ++ [a])) := by
  obtain ⟨priority, hentry, hplace⟩ := Option.bind_eq_some_iff.1 h
  have hlt := (List.getElem?_eq_some_iff.1 hentry).1
  cases priority with
  | zero => cases hplace
  | succ priority =>
    cases hplace
    simp [mergeAction, if_neg (Nat.not_lt.2 hlt.le), hentry]

theorem mergeAction_of_place_none (h : place a = none) (hne : ofpat a ≠ 28) :
    mergeAction actions a = some actions := by
  rcases Nat.lt_or_gt_of_ne hne with hlt | hgt
  · obtain ⟨priority, hentry⟩ : ∃ priority, actionPropTable[ofpat a]? = some priority :=
      ⟨_, getElem?_eq_getElem hlt⟩
    rw [place, hentry, Option.bind_some] at h
    cases priority with
    | zero =>
      simp only [mergeAction, hentry]
      split <;> rfl
    | succ priority => cases h
  · rw [mergeAction, if_pos]
    exact hgt

theorem mergeAction_encap (h : ofpat a = 28) : mergeAction actions a = none := by
  have hentry : actionPropTable[28]? = none := rfl
  rw [mergeAction, h, if_neg (by decide)]
  simp [hentry]

/-- Only the actions on the TTL of the network layer are in another list than their stage says. -/
theorem place_eq (h : a.Supported) :
    place a = if stage a = 0 then none else if ActionPacket.isFirst a then some 0 else some (stage a - 1) := by
  cases a with
  | fixed t body => cases t <;> rfl
  | setField oxm => rfl
  | ed t body ps => cases t <;> rfl
  | experimenter len => exact h.elim
  | unknown => exact h.elim

theorem fixedStage_pos (t : Wire.FixedAction) : 0 < fixedStage t := by cases t <;> decide

theorem stage_le (a : Wire.Action) : stage a ≤ ACTION_SET_ORDER_MAX := by
  have hfixed (t : Wire.FixedAction) : fixedStage t ≤ ACTION_SET_ORDER_MAX := by cases t <;> decide
  cases a with
  | fixed t body => exact hfixed t
  | setField oxm => exact (by decide : 8 ≤ ACTION_SET_ORDER_MAX)
  | _ => exact Nat.zero_le _

theorem stage_ne_zero_of_isFirst (h : ActionPacket.isFirst a = true) : stage a ≠ 0 := by
  cases a with
  | fixed t body => exact (fixedStage_pos t).ne'
  | _ => cases h

theorem isFirst_of_stage (h : stage a = 1) : ActionPacket.isFirst a = true := by
  cases a with
  | fixed t body => cases t <;> first | rfl | (simp only [stage, fixedStage] at h; omega)
  | _ => simp only [stage] at h; omega

theorem place_eq_zero_iff (h : a.Supported) : place a = some 0 ↔ ActionPacket.isFirst a = true := by
  rw [place_eq h]
  constructor
  · intro hplace
    split_ifs at hplace with hstage hfirst
    · exact hfirst
    · have := Option.some.inj hplace
      exact isFirst_of_stage (by omega)
  · intro hfirst
    rw [if_neg (stage_ne_zero_of_isFirst hfirst), if_pos hfirst]

theorem stage_of_place (h : a.Supported) {i : Nat} (hplace : place a = some (i + 1)) :
    ActionPacket.isFirst a = false ∧ stage a = i + 2 := by
  rw [place_eq h] at hplace
  split_ifs at hplace with hstage hfirst
  · cases hplace
  · rw [Option.some.injEq] at hplace
    exact ⟨Bool.not_eq_true _ ▸ hfirst, by omega⟩

/-! ## Merging -/

/-- The lists have the last action of each kind. -/
def Holds (actions : Lists) (written : List Wire.Action) : Prop :=
  ∀ i, actions i = (latest kind written).filter fun a => place a = some i

variable {actions : Lists} {written : List Wire.Action}

theorem holds_nil : Holds (fun _ => []) [] := fun _ => rfl

theorem Holds.mergeAction (h : Holds actions written) (hne : ofpat a ≠ 28) :
    ∃ actions', mergeAction actions a = some actions' ∧ Holds actions' (written ++ [a]) := by
  -- the other lists keep their actions, as those of the kind of the new one are not among them
  have hothers : ∀ i, place a ≠ some i → (latest kind (written ++ [a])).filter (fun b => place b = some i) =
      actions i := by
    intro i hi
    rw [h i, latest_concat, filter_append, filter_filter, filter_cons_of_neg (by simpa using hi),
      filter_nil, append_nil]
    refine filter_congr fun b _ => ?_
    by_cases hb : place b = some i
    · have hkind : kind b ≠ kind a := by
        intro heq
        have htype : ofpat b = ofpat a := congrArg Prod.fst heq
        rw [place, htype, ← place] at hb
        exact hi hb
      simp [hb, hkind]
    · simp [hb]
  cases hplace : place a with
  | none => exact ⟨actions, mergeAction_of_place_none hplace hne, fun i => (hothers i (by simp [hplace])).symm⟩
  | some j =>
    refine ⟨_, mergeAction_of_place hplace, fun i => ?_⟩
    rcases eq_or_ne i j with rfl | hij
    · rw [Function.update_self, h i, latest_concat, filter_append, filter_filter,
        eraseP_eq_filter ((pairwise_latest kind written).filter _),
        filter_filter, filter_cons_of_pos (by simp [hplace]), filter_nil]
      congr 1
      exact filter_congr fun b _ => Bool.and_comm ..
    · rw [Function.update_of_ne hij, hothers i (by simp [hplace, hij.symm])]

variable {actionList : List Wire.Action}

theorem Holds.mergeActionSet (h : Holds actions written) (hne : ∀ a ∈ actionList, ofpat a ≠ 28) :
    ∃ actions', mergeActionSet actions actionList = some actions' ∧
      Holds actions' (written ++ actionList) := by
  induction actionList generalizing actions written with
  | nil => exact ⟨actions, rfl, by rwa [append_nil]⟩
  | cons a as ih =>
    obtain ⟨next, hnext, hholds⟩ := h.mergeAction (hne a mem_cons_self)
    obtain ⟨actions', hrest, hdone⟩ := ih hholds fun b hb => hne b (mem_cons_of_mem _ hb)
    refine ⟨actions', ?_, by rwa [append_cons]⟩
    rw [ActionSets.mergeActionSet, foldlM_cons, hnext]
    exact hrest

theorem mergeActionSet_encap (h : ∃ a ∈ actionList, ofpat a = 28) :
    mergeActionSet actions actionList = none := by
  induction actionList generalizing actions with
  | nil =>
    obtain ⟨a, ha, -⟩ := h
    cases ha
  | cons a as ih =>
    rw [mergeActionSet, foldlM_cons]
    cases hmerge : mergeAction actions a with
    | none => rfl
    | some next =>
      obtain ⟨b, hb, hcode⟩ := h
      rcases mem_cons.1 hb with rfl | hb
      · rw [mergeAction_encap hcode] at hmerge
        cases hmerge
      · exact ih ⟨b, hb, hcode⟩

/-! ## Executing -/

theorem executeActions_false (l : List Wire.Action) : executeActions (fun _ => false) l = (l, true) := by
  induction l with
  | nil => rfl
  | cons a l ih => rw [executeActions, if_neg Bool.false_ne_true, ih]

theorem executeLists_false (actions : Lists) (is : List Nat) :
    executeLists (fun _ => false) actions is = is.flatMap actions := by
  induction is with
  | nil => rfl
  | cons i is ih => rw [executeLists, executeActions_false, if_pos rfl, ih, flatMap_cons]

theorem executeActions_prefix (stops : Wire.Action → Bool) (l : List Wire.Action) :
    (executeActions stops l).1 <+: l ∧ ((executeActions stops l).2 = true → (executeActions stops l).1 = l) := by
  induction l with
  | nil => exact ⟨prefix_rfl, fun _ => rfl⟩
  | cons a l ih =>
    rw [executeActions]
    split
    · exact ⟨⟨l, rfl⟩, fun h => absurd h.symm Bool.true_eq_false.mp⟩
    · exact ⟨cons_prefix_cons.2 ⟨rfl, ih.1⟩, fun h => congrArg (a :: ·) (ih.2 h)⟩

theorem executeLists_prefix (stops : Wire.Action → Bool) (actions : Lists) (is : List Nat) :
    executeLists stops actions is <+: is.flatMap actions := by
  induction is with
  | nil => exact prefix_rfl
  | cons i is ih =>
    have hlist := executeActions_prefix stops (actions i)
    rw [executeLists, flatMap_cons]
    split
    · next hall =>
      rw [hlist.2 hall]
      exact (prefix_append_right_inj _).2 ih
    · exact hlist.1.trans (prefix_append ..)

/-! ## The order -/

section

variable (hholds : Holds actions written) (hwritten : ∀ a ∈ written, a.Supported)

/-- All lists, one after the other. -/
def inOrder (actions : Lists) : List Wire.Action := (List.range ACTION_SET_ORDER_MAX).flatMap actions

theorem mem_of_mem_latest (h : a ∈ latest kind written) : a ∈ written := by
  obtain ⟨before, after, rfl, -⟩ := mem_latest_iff.1 h
  exact mem_append_right _ mem_cons_self

include hholds hwritten

theorem mem_inOrder_iff : a ∈ inOrder actions ↔ IsLast kind written a ∧ stage a ≠ 0 := by
  rw [inOrder, mem_flatMap, ← mem_latest_iff]
  constructor
  · rintro ⟨i, -, ha⟩
    rw [hholds i, mem_filter, decide_eq_true_eq] at ha
    refine ⟨ha.1, fun hstage => ?_⟩
    rw [place_eq (hwritten a (mem_of_mem_latest ha.1)), if_pos hstage] at ha
    exact absurd ha.2 (Option.some_ne_none i).symm
  · rintro ⟨ha, hstage⟩
    have hle := stage_le a
    obtain ⟨i, hi, hplace⟩ : ∃ i < ACTION_SET_ORDER_MAX, place a = some i := by
      rw [place_eq (hwritten a (mem_of_mem_latest ha)), if_neg hstage]
      split
      · exact ⟨0, by decide, rfl⟩
      · exact ⟨stage a - 1, by omega, rfl⟩
    exact ⟨i, mem_range.2 hi, hholds i ▸ mem_filter.2 ⟨ha, decide_eq_true hplace⟩⟩

omit hwritten in
theorem unique_inOrder : (inOrder actions).Pairwise fun a b => kind a ≠ kind b := by
  rw [inOrder, pairwise_flatMap]
  constructor
  · intro i _
    rw [hholds i]
    exact (pairwise_latest kind written).filter _
  · refine pairwise_lt_range.imp fun {i j} hij a ha b hb heq => ?_
    rw [hholds i, mem_filter, decide_eq_true_eq] at ha
    rw [hholds j, mem_filter, decide_eq_true_eq] at hb
    have htype : ofpat a = ofpat b := congrArg Prod.fst heq
    rw [place, htype, ← place, hb.2, Option.some.injEq] at ha
    exact hij.ne ha.2.symm

theorem sorted_inOrder_iff : (inOrder actions).Pairwise (fun a b => stage a ≤ stage b) ↔
    ((latest kind written).filter ActionPacket.isFirst).Pairwise (fun a b => stage a ≤ stage b) ∧
    ∀ a ∈ latest kind written, ActionPacket.isFirst a = true →
      ∀ b ∈ latest kind written, ActionPacket.isFirst b = false → stage b ≠ 0 → stage a ≤ stage b := by
  have hsupported {a : Wire.Action} (ha : a ∈ latest kind written) : a.Supported :=
    hwritten a (mem_of_mem_latest ha)
  have hfirst : actions 0 = (latest kind written).filter ActionPacket.isFirst := by
    rw [hholds 0]
    refine filter_congr fun a ha => ?_
    rw [Bool.eq_iff_iff, decide_eq_true_eq]
    exact place_eq_zero_iff (hsupported ha)
  have hlater {i : Nat} {a : Wire.Action} (ha : a ∈ actions (i + 1)) :
      a ∈ latest kind written ∧ ActionPacket.isFirst a = false ∧ stage a = i + 2 := by
    rw [hholds (i + 1), mem_filter, decide_eq_true_eq] at ha
    exact ⟨ha.1, stage_of_place (hsupported ha.1) ha.2⟩
  rw [inOrder, pairwise_flatMap]
  constructor
  · rintro ⟨hlists, hbetween⟩
    refine ⟨hfirst ▸ hlists 0 (by decide), fun a ha hafirst b hb hbfirst hstage => ?_⟩
    have hmem : a ∈ actions 0 := hfirst ▸ mem_filter.2 ⟨ha, hafirst⟩
    have hone : stage b ≠ 1 := fun hone =>
      absurd ((isFirst_of_stage hone).symm.trans hbfirst) Bool.true_eq_false.mp
    have hle := stage_le b
    have hplace : place b = some (stage b - 1) := by
      rw [place_eq (hsupported hb), if_neg hstage, hbfirst]
      rfl
    have hmemb : b ∈ actions (stage b - 1) := by
      rw [hholds, mem_filter]
      exact ⟨hb, decide_eq_true hplace⟩
    rw [pairwise_iff_getElem] at hbetween
    have hlt : stage b - 1 < (List.range ACTION_SET_ORDER_MAX).length := by
      rw [length_range]
      omega
    have := hbetween 0 (stage b - 1) (by simp [ACTION_SET_ORDER_MAX]) hlt (by omega)
    rw [getElem_range, getElem_range] at this
    exact this a hmem b hmemb
  · rintro ⟨hsorted, hall⟩
    constructor
    · intro i _
      cases i with
      | zero =>
        rw [hfirst]
        exact hsorted
      | succ i =>
        refine pairwise_of_forall_mem_list fun a ha b hb => ?_
        rw [(hlater ha).2.2, (hlater hb).2.2]
    · refine pairwise_lt_range.imp fun {i j} hij a ha b hb => ?_
      cases j with
      | zero => omega
      | succ j =>
        obtain ⟨hb, hbfirst, hbstage⟩ := hlater hb
        cases i with
        | zero =>
          rw [hfirst, mem_filter] at ha
          exact hall a ha.1 ha.2 b hb hbfirst (by omega)
        | succ i =>
          rw [(hlater ha).2.2, hbstage]
          omega

end

/-! ## Runs -/

namespace ActionPacket

variable {s : ActionPacket} {i : Instr}

/-- The lists of a packet with the flag; without it nothing has been written. -/
structure Kept (s : ActionPacket) : Prop where
  holds : s.hasAction = true → Holds s.actions s.written
  empty : s.hasAction = false → s.written = []
  supported : ∀ a ∈ s.written, a.Supported

theorem kept_initial : ({} : ActionPacket).Kept :=
  ⟨fun h => absurd h.symm Bool.true_eq_false.mp, fun _ => rfl, fun _ h => absurd h not_mem_nil⟩

theorem Kept.merged (h : s.Kept) {actionList : List Admitted} (hne : ∀ a ∈ actionList, ofpat a.val ≠ 28) :
    ∃ actions', s.merged actionList = some actions' ∧
      Holds actions' (s.written ++ actionList.map Subtype.val) := by
  have hstart : Holds (if s.hasAction then s.actions else fun _ => []) s.written := by
    cases hflag : s.hasAction with
    | true => exact h.holds hflag
    | false =>
      rw [h.empty hflag]
      exact holds_nil
  refine hstart.mergeActionSet fun a ha => ?_
  obtain ⟨b, hb, rfl⟩ := mem_map.1 ha
  exact hne b hb

theorem Kept.step (h : s.Kept)
    (hne : ∀ actionList, i = .writeActions actionList → ∀ a ∈ actionList, ofpat a.val ≠ 28) :
    (s.step i).Kept := by
  cases i with
  | clearActions =>
    exact ⟨fun hflag => absurd hflag.symm Bool.true_eq_false.mp, fun _ => rfl,
      fun _ ha => absurd ha not_mem_nil⟩
  | writeActions actionList =>
    obtain ⟨actions', hmerged, hholds⟩ := h.merged (hne actionList rfl)
    refine ⟨fun _ => ?_, fun hflag => absurd hflag Bool.true_eq_false.mp, fun a ha => ?_⟩
    · show Holds ((s.merged actionList).getD s.actions) _
      rw [hmerged]
      exact hholds
    · rcases mem_append.1 ha with ha | ha
      · exact h.supported a ha
      · obtain ⟨b, -, rfl⟩ := mem_map.1 ha
        exact b.property

theorem Kept.executed_false (h : s.Kept) : ∃ actions, Holds actions s.written ∧
    s.executed (fun _ => false) = inOrder actions := by
  cases hflag : s.hasAction with
  | true =>
    refine ⟨s.actions, h.holds hflag, ?_⟩
    rw [executed, if_pos hflag, executeLists_false]
    rfl
  | false =>
    refine ⟨fun _ => [], ?_, ?_⟩
    · rw [h.empty hflag]
      exact holds_nil
    · rw [executed, hflag]
      rfl

theorem executed_leads (s : ActionPacket) (stops : Wire.Action → Bool) :
    s.executed stops <+: s.executed fun _ => false := by
  unfold executed
  split
  · rw [executeLists_false]
    exact executeLists_prefix ..
  · exact prefix_rfl

theorem right_iff (h : s.Kept) : s.Right i ↔ s.Cond i := by
  constructor
  · intro hright
    have hne : ∀ actionList, i = .writeActions actionList → ∀ a ∈ actionList, ofpat a.val ≠ 28 := by
      intro actionList hi a ha hcode
      have hsome := hright.inTable actionList hi
      rw [ActionPacket.merged, mergeActionSet_encap ⟨a.val, mem_map.2 ⟨a, ha, rfl⟩, hcode⟩] at hsome
      exact Bool.false_ne_true hsome
    have hkept := h.step hne
    obtain ⟨actions, hholds, hexecuted⟩ := hkept.executed_false
    have horder := hright.order fun _ => false
    rw [hexecuted, sorted_inOrder_iff hholds hkept.supported] at horder
    exact ⟨hne, horder.1, horder.2⟩
  · intro hcond
    have hkept := h.step hcond.noEncap
    obtain ⟨actions, hholds, hexecuted⟩ := hkept.executed_false
    refine ⟨?_, fun a => ?_, ?_, fun stops => ?_⟩
    · intro actionList hi
      obtain ⟨_, hmerged, -⟩ := h.merged (hcond.noEncap actionList hi)
      rw [hmerged]
      rfl
    · rw [hexecuted]
      exact mem_inOrder_iff hholds hkept.supported
    · rw [hexecuted]
      exact unique_inOrder hholds
    · refine List.Pairwise.sublist (executed_leads _ stops).sublist ?_
      rw [hexecuted, sorted_inOrder_iff hholds hkept.supported]
      exact ⟨hcond.firstInOrder, hcond.firstFirst⟩

/-- **Action sets are right** in exactly the runs without encap actions in which the actions on the TTL of
the network layer are not ahead of their turn. -/
theorem action_set_right_iff (is : List Instr) :
    Trace.EveryStep step Right {} is ↔ Trace.EveryStep step Cond {} is := by
  have hagree : ∀ s i, Kept s → (Right s i ↔ Cond s i) := fun _ _ h => right_iff h
  have hkeep : ∀ s i, Kept s → Cond s i → Kept (s.step i) := fun _ _ h hcond => h.step hcond.noEncap
  exact Trace.EveryStep.iff_of_invariant hagree hkeep kept_initial is

/-- An action of fixed layout, with zeros in it. -/
def fixedAction (t : Wire.FixedAction) : Admitted := ⟨.fixed t (Octets.Block.zero _), trivial⟩

/-- An encap action without properties. -/
def encapAction : Admitted := ⟨.ed .encap (Octets.Block.zero _) [], fun _ h => absurd h List.not_mem_nil⟩

/-- An encap action is looked up behind the end of the table; and the TTL is decremented before a VLAN tag is
popped, though popping comes first. -/
theorem action_set_wrong :
    ¬ Trace.EveryStep step Right {} [.writeActions [encapAction]] ∧
    ¬ Trace.EveryStep step Right {} [.writeActions [fixedAction .popVlan, fixedAction .decNwTtl]] := by
  constructor
  · rintro ⟨hright, -⟩
    exact absurd (hright.inTable _ rfl) (by decide)
  · rintro ⟨hright, -⟩
    have hcond := (right_iff kept_initial).1 hright
    have hle := hcond.firstFirst (fixedAction .decNwTtl).val (by decide) rfl (fixedAction .popVlan).val
      (by decide) rfl (by decide)
    exact absurd hle (by decide)

end ActionPacket

end Lagopus.ActionSets
