import Lagopus.Dataplane.Rewrite

/-!
# Actions, action sets and groups

* `Action`: the actions `datapath.c` executes;
* `mergeActionSet`: how a list of actions becomes an action set, eleven lists in the order of
  execution;
* `Group`, `Bucket`: the groups a group action names.
-/

namespace Lagopus

/-- An action. `copied` is `OUTPUT_COPIED_PACKET`, noted by `flow_action_examination`; the types
without a function of their own do nothing. -/
inductive Action
  | output (port : Nat) (copied : Bool)
  | group (groupId : Nat)
  | setQueue (queueId : Nat)
  | rewrite (r : Rewrite)
  | experimenter
deriving DecidableEq

/-- `OFPAT_*`. -/
def Rewrite.ofpat : Rewrite → Nat
  | .copyTtlOut => 11
  | .copyTtlIn => 12
  | .setMplsTtl _ => 15
  | .decMplsTtl => 16
  | .pushVlan _ _ => 17
  | .popVlan _ => 18
  | .pushMpls _ _ => 19
  | .popMpls _ => 20
  | .setNwTtl _ => 23
  | .decNwTtl => 24
  | .setField _ => 25
  | .pushPbb _ _ => 26
  | .popPbb => 27

/-- `OFPAT_*`. -/
def Action.ofpat : Action → Nat
  | .output _ _ => 0
  | .group _ => 22
  | .setQueue _ => 21
  | .rewrite r => r.ofpat
  | .experimenter => 0xffff

/-- `action_prop[]`: the list an action goes to, counted from 0; `none` for a reserved type. -/
def actionProp : Nat → Option Nat
  | 0 => some 10
  | 11 => some 5
  | 12 => some 0
  | 15 => some 7
  | 16 => some 6
  | 17 => some 4
  | 18 => some 1
  | 19 => some 2
  | 20 => some 1
  | 21 => some 8
  | 22 => some 9
  | 23 => some 0
  | 24 => some 0
  | 25 => some 7
  | 26 => some 3
  | 27 => some 1
  | _ => none

/-- The field a set-field action sets. -/
def Action.setFieldOf : Action → Option OxmField
  | .rewrite (.setField m) => some m.field
  | _ => none

/-- `struct action_list[LAGOPUS_ACTION_SET_ORDER_MAX]`. -/
abbrev ActionSet := Nat → List Action

/-- `LAGOPUS_ACTION_SET_ORDER_MAX`. -/
def ACTION_SET_ORDER_MAX : Nat := 11

/-- The action takes the place of one of the same type; a set-field action that of one on the same
field. -/
def Action.replaces (a ac : Action) : Bool := ac.ofpat = a.ofpat ∧ ac.setFieldOf = a.setFieldOf

/-- One round of `merge_action_set`. -/
def mergeAction (actions : ActionSet) (a : Action) : ActionSet :=
  match actionProp a.ofpat with
  | none => actions
  | some i => fun j => if j = i then (actions i).eraseP a.replaces ++ [a] else actions j

/-- `merge_action_set`. -/
def mergeActionSet (actions : ActionSet) (actionList : List Action) : ActionSet :=
  actionList.foldl mergeAction actions

/-- The group ids the actions of a list name. -/
def groupIds (actionList : List Action) : List Nat :=
  actionList.filterMap fun
    | .group id => some id
    | _ => none

variable {actionList : List Action}

theorem mem_groupIds {id : Nat} : id ∈ groupIds actionList ↔ Action.group id ∈ actionList := by
  simp only [groupIds, List.mem_filterMap]
  constructor
  · rintro ⟨a, ha, hid⟩
    cases a <;> simp at hid
    exact hid ▸ ha
  · exact fun h => ⟨_, h, rfl⟩

theorem mem_mergeActionSet {actions : ActionSet} {i : Nat} {a : Action}
    (h : a ∈ mergeActionSet actions actionList i) : a ∈ actions i ∨ a ∈ actionList := by
  induction actionList generalizing actions with
  | nil => exact .inl h
  | cons b bs ih =>
    rcases ih h with h | h
    · unfold mergeAction at h
      cases hprop : actionProp b.ofpat with
      | none =>
        rw [hprop] at h
        exact .inl h
      | some j =>
        rw [hprop] at h
        simp only at h
        split_ifs at h with hi
        · rcases List.mem_append.mp h with h | h
          · exact .inl (hi ▸ List.mem_of_mem_eraseP h)
          · exact .inr (List.mem_cons.mpr (.inl (List.mem_singleton.mp h)))
        · exact .inl h
    · exact .inr (List.mem_cons_of_mem _ h)

/-! ## Groups -/

def OFPG_MAX : Nat := 0xffffff00
def OFPG_ALL : Nat := 0xfffffffc
def OFPG_ANY : Nat := 0xffffffff

def OFPP_ANY : Nat := 0xffffffff

/-- `struct bucket`. -/
structure Bucket where
  weight : Nat := 0
  watchPort : Nat := OFPP_ANY
  watchGroup : Nat := OFPG_ANY
  actionList : List Action := []
deriving DecidableEq

/-- `bucket->actions`, as `group_alloc` and `group_modify` make it. -/
def Bucket.actions (b : Bucket) : ActionSet := mergeActionSet (fun _ => []) b.actionList

/-- `OFPGT_*`. `s_group_type_check` lets the first four into the table; the execution of a group passes
over any other. -/
inductive GroupType
  | all | select | indirect | ff | other (type : Nat)
deriving DecidableEq

/-- `struct group`; `flows` are the addresses of the flows that refer to it. -/
structure Group where
  id : Nat
  type : GroupType
  buckets : List Bucket
  flows : List Nat := []
deriving DecidableEq

end Lagopus
