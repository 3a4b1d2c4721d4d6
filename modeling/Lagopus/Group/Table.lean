import Lagopus.OpenFlow.Action

/-!
# The group table

`group.c`: looking groups up, the two recursive walks over them, and the group mods. The recursive
walks are given `fuel`, and are `none` when it runs out.

* `groupLoopDetect`, `groupLiveBucket`: the walks;
* `ofpGroupMod`: a group mod request, with its errors.
-/

namespace Lagopus

/-- `struct group_table`: the hash map by id, as the list of its groups. -/
abbrev GroupTable := List Group

namespace GroupTable

/-- `group_table_lookup`. -/
def lookup (T : GroupTable) (id : Nat) : Option Group := T.find? fun g => g.id = id

theorem lookup_eq_some {T : GroupTable} {id : Nat} {g : Group} (h : T.lookup id = some g) :
    g ∈ T ∧ g.id = id :=
  ⟨List.mem_of_find?_eq_some h, by simpa using List.find?_some h⟩

theorem lookup_isSome {T : GroupTable} {id : Nat} : (T.lookup id).isSome = true ↔ ∃ g ∈ T, g.id = id := by
  simp [lookup]

end GroupTable

/-- The groups the actions of a group's buckets name. -/
def Group.actionRefs (g : Group) : List Nat := g.buckets.flatMap fun b => groupIds b.actionList

/-- The groups its buckets watch. -/
def Group.watchRefs (g : Group) : List Nat :=
  (g.buckets.map Bucket.watchGroup).filter fun id => id ≠ OFPG_ANY

/-! ## Walks -/

/-- `group_loop_detect`. The test of `watch_group` at the end of its loop has no effect. -/
def groupLoopDetect (T : GroupTable) (id : Nat) : Nat → Group → Option Bool
  | 0, _ => none
  | fuel + 1, g => g.actionRefs.anyM fun i =>
    if i = id then some true
    else match T.lookup i with
      | none => some false
      | some g' => groupLoopDetect T id fuel g'

/-- `group_live_bucket`, the ports being up or down as `portLiveness` says. -/
def groupLiveBucket (T : GroupTable) (portLiveness : Nat → Bool) : Nat → Group → Option (Option Bucket)
  | 0, _ => none
  | fuel + 1, g => g.buckets.findM? fun b =>
    if portLiveness b.watchPort then some true
    else if b.watchGroup = OFPG_ANY then some false
    else match T.lookup b.watchGroup with
      | none => some false
      | some g' => (groupLiveBucket T portLiveness fuel g').map Option.isSome

/-! ## Group mods -/

/-- `OFPGMFC_*`, as far as `group.c` reports them. -/
inductive GroupModFailed
  | groupExists | loop | unknownGroup
deriving DecidableEq

/-- A group mod request. -/
inductive GroupMod
  | add (groupId : Nat) (type : GroupType) (buckets : List Bucket)
  | modify (groupId : Nat) (type : GroupType) (buckets : List Bucket)
  | delete (groupId : Nat)
deriving DecidableEq

/-- `group_table_add`. -/
def groupTableAdd (fuel : Nat) (T : GroupTable) (g : Group) :
    Option (Except GroupModFailed GroupTable) :=
  (groupLoopDetect T g.id fuel g).map fun found =>
    if found then .error .loop else .ok (g :: T)

/-- `group_modify`. -/
def groupModify (T : GroupTable) (groupId : Nat) (type : GroupType) (buckets : List Bucket) :
    GroupTable :=
  T.map fun g => if g.id = groupId then { g with type := type, buckets := buckets } else g

/-- `group_table_delete`. -/
def groupTableDelete (T : GroupTable) (groupId : Nat) : GroupTable :=
  if groupId = OFPG_ALL then [] else T.filter fun g => g.id ≠ groupId

/-- `ofp_group_mod_add`, `ofp_group_mod_modify`, `ofp_group_mod_delete`. -/
def ofpGroupMod (fuel : Nat) (T : GroupTable) : GroupMod → Option (Except GroupModFailed GroupTable)
  | .add id type buckets =>
    if (T.lookup id).isSome then some (.error .groupExists)
    else groupTableAdd fuel T { id := id, type := type, buckets := buckets }
  | .modify id type buckets =>
    if (T.lookup id).isSome then some (.ok (groupModify T id type buckets))
    else some (.error .unknownGroup)
  | .delete id => some (.ok (groupTableDelete T id))

end Lagopus
