import Lagopus.Datastore.Object

/-!
# Bringing an object to the attribute that is asked for

Every kind of object has the same functions under its own names: `…_cmd_update_internal` goes by the
state of the interpreter and calls `…_cmd_do_update` and `…_cmd_do_destroy`, which differ.  They are one
definition each here, over the `Kind` that says what differs.
-/

namespace Lagopus.Datastore

open Prog World

variable {α : Type}

/-! ## Changes of one object -/

namespace Conf

/-- An attribute is asked for and none is in force. -/
def isCreating (c : Conf α) : Bool := c.current.isNone && c.modified.isSome

/-- `…_cmd_update_current_attr`. -/
def updateCurrentAttr (state : InterpState) (c : Conf α) : Conf α :=
  if state = .rollbacked ∧ c.isCreating then c
  else if c.modified.isSome then { c with current := c.modified, modified := none }
  else c

/-- `…_cmd_update_switch_attr`. -/
def switchAttr (c : Conf α) : Conf α :=
  if c.modified.isSome then { c with current := c.modified, modified := c.current } else c

/-- `…_cmd_is_enabled_set`. -/
def isEnabledSet (c : Conf α) : Conf α :=
  if c.isEnabled then (if c.isDisabling then { c with isEnabled := false } else c)
  else if c.isEnabling then { c with isEnabled := true } else c

def clearMarks (c : Conf α) : Conf α := { c with isEnabling := false, isDisabling := false }

end Conf

/-- What differs from kind to kind. -/
structure Kind (α : Type) where
  table : Table α
  /-- `…_cmd_do_update`. -/
  doUpdate : InterpState → Name → (isPropagation isEnableDisableCmd : Bool) → Prog World
  /-- `…_names_used_set`. -/
  namesUsedSet : α → Bool → World → World
  /-- `…_names_disable` of all the names of the attribute in force, whose flags are cleared. -/
  namesDisableAll : Option α → InterpState → Prog World
  /-- The dataplane's object is destroyed; the callers ignore the answer. -/
  dpDestroy : Name → Option α → Prog World
  /-- Only an object that is used can be enabled, and only one that is not can be destroyed. -/
  hasParent : Bool

namespace Kind

variable (K : Kind α)

/-- The flags of the objects that both attributes name. -/
def unsetUsed (c : Conf α) (w : World) : World :=
  let w := c.current.elim w fun a => K.namesUsedSet a false w
  c.modified.elim w fun a => K.namesUsedSet a false w

variable (state : InterpState) (n : Name)

/-- `…_cmd_do_destroy`. -/
def doDestroy (w : World) : World :=
  match K.table.find w n with
  | none => w
  | some c =>
    if state = .rollbacked ∧ c.isCreating then K.table.delete n w
    else if state = .dryrun then K.table.delete n (K.unsetUsed c w)
    else if c.isDestroying ∨ state = .autoCommit then
      let w := K.unsetUsed c w
      let w := (K.dpDestroy n c.current w).2
      K.table.delete n w
    else w

/-- `…_cmd_update_aborted`. -/
def updateAborted (w : World) : World :=
  match K.table.find w n with
  | none => w
  | some c =>
    if c.modified.isSome then
      if c.current.isNone then K.table.delete n w
      else K.table.put n { c with modified := none } w
    else w

/-- The loop of the automatic commit.  What cannot be done is tried once more with the attributes
exchanged, and the answer is the one of the last trial. -/
def autoCommit (n : Name) (isPropagation isEnableDisableCmd : Bool) : Nat → Prog World
  | 0 => fail
  | trials + 1 => fun w =>
    let (ok, w) := K.doUpdate .autoCommit n isPropagation isEnableDisableCmd w
    if ok ∨ isEnableDisableCmd then (ok, w)
    else
      match K.table.find w n with
      | none => (false, w)
      | some c =>
        if c.isCreating then (false, K.doDestroy .autoCommit n w)
        else autoCommit n isPropagation isEnableDisableCmd trials (K.table.put n c.switchAttr w)

/-- `UPDATE_CNT_MAX`. -/
def updateCntMax : Nat := 2

/-- `…_cmd_update_internal`. -/
def updateInternal (isPropagation isEnableDisableCmd : Bool) :
    Prog World :=
  K.table.withConf n fun c =>
    match state with
    | .autoCommit => K.autoCommit n isPropagation isEnableDisableCmd updateCntMax
    | .committing =>
      andThen (modify (K.table.alter n Conf.isEnabledSet))
        (K.doUpdate state n isPropagation isEnableDisableCmd)
    | .atomic => modify fun w => c.modified.elim w fun a => K.namesUsedSet a true w
    | .committed | .rollbacked =>
      modify fun w => K.doDestroy state n (K.table.alter n (Conf.updateCurrentAttr state) w)
    | .rollbacking =>
      if c.isCreating then modify fun w => c.modified.elim w fun a => K.namesUsedSet a false w
      else
        andThen (modify (K.table.alter n fun c => c.switchAttr.isEnabledSet))
          (K.doUpdate state n isPropagation isEnableDisableCmd)
    | .aborting =>
      modify fun w =>
        let w := K.table.alter n (fun c => { c.clearMarks with isDestroying := false }) w
        let w := c.modified.elim w fun a => K.namesUsedSet a false w
        c.current.elim w fun a => K.namesUsedSet a true w
    | .aborted => modify (K.updateAborted n)
    | .dryrun => modify (K.table.alter n (Conf.updateCurrentAttr .dryrun))
    | .commitFailure => fail

/-- `…_cmd_update`, which is also what `…_cmd_update_propagation` calls. -/
def update : Prog World := K.updateInternal state n false false

/-- The flag `is_enabled` is set, the object is updated, and after a failure the flag is set to the
opposite, whatever it was. -/
def switchTo (isPropagation b : Bool) : Prog World :=
  orElse
    (andThen (modify (K.table.alter n fun c => { c with isEnabled := b }))
      (K.updateInternal state n isPropagation true))
    (K.table.alter n fun c => { c with isEnabled := !b })

/-- `enable_sub_cmd_parse_internal`.  An object that is enabled is left alone. -/
def enableInternal (isPropagation : Bool) : Prog World :=
  K.table.withConf n fun c =>
    if K.hasParent ∧ ¬ c.isUsed then fail
    else if c.isEnabled then ok
    else if state = .atomic then
      modify (K.table.alter n fun c => { c with isEnabling := true, isDisabling := false })
    else K.switchTo state n isPropagation true

/-- `disable_sub_cmd_parse_internal`.  What is propagated goes by the attribute that the update left in
force. -/
def disableInternal (isPropagation : Bool) : Prog World :=
  K.table.withConf n fun _ =>
    if state = .atomic then
      modify (K.table.alter n fun c => { c with isEnabling := false, isDisabling := true })
    else
      andThen (K.switchTo state n false false)
        (if isPropagation then K.table.withConf n fun c => K.namesDisableAll c.current state else ok)

/-- `destroy_sub_cmd_parse_internal`. -/
def destroyInternal (isPropagation : Bool) : Prog World :=
  K.table.withConf n fun c =>
    if K.hasParent ∧ c.isUsed then fail
    else if state = .atomic then
      modify (K.table.alter n fun c =>
        { c with isDestroying := true, isEnabling := false, isDisabling := true })
    else
      regardless (K.namesDisableAll c.current state)
        (andThen (if c.isEnabled then K.switchTo state n isPropagation false else ok)
          (modify (K.doDestroy state n)))

/-- Most commands take no object that is being destroyed. -/
def notDestroying (m : Prog World) : Prog World :=
  K.table.withConf n fun c => if c.isDestroying then fail else m

variable {K} in
theorem notDestroying_eq (m : Prog World) (w : World) :
    K.notDestroying n m w = (false, w) ∨ K.notDestroying n m w = m w := by
  cases hc : K.table.find w n with
  | none => exact .inl (Table.withConf_of_none hc)
  | some c =>
    have hr : K.notDestroying n m w = _ := Table.withConf_of_some hc
    rw [hr]
    split
    · exact .inl rfl
    · exact .inr rfl

/-- `…_cmd_enable_propagation`. -/
def enablePropagation : Prog World :=
  K.notDestroying n (K.enableInternal state n true)

end Kind

/-! ## The difference of two lists of names -/

/-- `struct names_info`: unchanged, added and deleted names. -/
structure NamesInfo where
  notChange : List Name
  add : List Name
  del : List Name

namespace NamesInfo

def empty : NamesInfo := ⟨[], [], []⟩

def ofLists (current modified : List Name) : NamesInfo where
  notChange := (current.filter (· ∈ modified)).eraseDups
  add := (modified.filter (· ∉ current)).eraseDups
  del := (current.filter (· ∉ modified)).eraseDups

/-- The objects of the three lists are updated.  An error is forgotten unless it is the one of the last
of those deleted. -/
def update (f : Name → Prog World) (info : NamesInfo) : Prog World :=
  regardless (forEachRegardless f info.notChange)
    (regardless (forEachRegardless f info.add) (forEachRegardless f info.del))

end NamesInfo

/-- An optional name, and nothing to do without one. -/
def named (f : Name → Prog World) (n : Option Name) : Prog World := n.elim ok f

/-- What `…_disable` does with every name: the object is disabled, and a flag `is_used` may be
cleared. -/
def disableEach (disable : Name → Prog World) (unset : Name → World → World) (names : List Name)
    (state : InterpState) (isPropagation isUnsetUsed : Bool) : Prog World :=
  forEach (fun n =>
    andThen
      (if isPropagation ∨ state = .committing ∨ state = .rollbacking then disable n else ok)
      (if isUnsetUsed then modify (unset n) else ok)) names

/-! ## Objects that name no other -/

/-- `interface_cmd_do_update`, `queue_cmd_do_update`, `policer_action_cmd_do_update` and
`channel_cmd_do_update`, which reads the channel's dpid and sets it again.  The former object of the
dataplane is destroyed whatever it answers; the marks are cleared only when there is nothing to
replace. -/
def plainDoUpdate (k : LeafKind) (state : InterpState) (n : Name)
    (_isPropagation isEnableDisableCmd : Bool) : Prog World :=
  (leafTable k).withConf n fun c =>
    if c.modified.isSome ∧ c.current ≠ c.modified then
      bind (if k = .channel ∧ c.current.isSome then answer else fail) fun hasDpid =>
        regardless (if c.current.isSome then dp (.leafDestroy k n) else ok)
          (andThen (dp (.leafCreate k n))
            (regardless (if hasDpid then dp (.channelDpidSet n) else ok)
              (andThen (if c.isEnabled then dp (.leafStart k n) else ok)
                (modify fun w =>
                  if state = .committing ∨ state = .rollbacking then w
                  else (leafTable k).alter n (Conf.updateCurrentAttr state) w))))
    else
      finally_
        (if isEnableDisableCmd ∨ c.isEnabling ∨ c.isDisabling then
          (if c.isEnabled then dp (.leafStart k n) else dp (.leafStop k n))
        else ok)
        ((leafTable k).alter n Conf.clearMarks)

/-- Policer actions, queues, interfaces and channels. -/
def plain (k : LeafKind) : Kind LeafAttr where
  table := leafTable k
  doUpdate := plainDoUpdate k
  namesUsedSet _ _ w := w
  namesDisableAll _ _ := ok
  dpDestroy n _ := dp (.leafDestroy k n)
  hasParent := true

/-- `…_cmd_disable_propagation`. -/
def plainDisablePropagation (k : LeafKind) (state : InterpState) (n : Name) : Prog World :=
  (plain k).notDestroying n ((plain k).disableInternal state n true)

/-! ## Policers -/

namespace Policer

/-- `poli_action_names_info_get`. -/
def actionNamesInfo (c : Conf LeafAttr) : NamesInfo :=
  match c.modified with
  | none => .empty
  | some m => .ofLists (c.current.elim [] LeafAttr.names) m.names

/-- `poli_actions_used_set`. -/
def actionsUsedSet (a : LeafAttr) (b : Bool) (w : World) : World :=
  a.names.foldl (fun w n => (leafTable .policerAction).setUsed b n w) w

/-- `poli_actions_disable`.  The flag that is cleared is the one of the *policer* that has the name of
the action. -/
def actionsDisable (actions : List Name) (state : InterpState)
    (isPropagation isUnsetUsed : Bool) : Prog World :=
  disableEach (plainDisablePropagation .policerAction state) ((leafTable .policer).setUsed false)
    actions state isPropagation isUnsetUsed

variable (n : Name)

/-- `poli_actions_add`. -/
def actionsAdd (actions : List Name) : Prog World :=
  forEach (fun a => dp (.policerActionAdd n a)) actions

/-- `poli_actions_delete`. -/
def actionsDelete (actions : List Name) : Prog World :=
  forEach (fun a => dp (.policerActionDelete n a)) actions

/-- `poli_create`. -/
def create (a : LeafAttr) : Prog World :=
  andThen (dp (.leafCreate .policer n)) (actionsAdd n a.names)

/-- `poli_start`.  When actions were added only those are enabled. -/
def start (a : LeafAttr) (info : NamesInfo) (state : InterpState) (isPropagation : Bool) :
    Prog World :=
  andThen
    (if isPropagation then
      forEach ((plain .policerAction).enablePropagation state)
        (if info.add.isEmpty then a.names else info.add)
    else ok)
    (dp (.leafStart .policer n))

/-- `poli_stop`. -/
def stop (a : LeafAttr) (state : InterpState) : Prog World :=
  andThen (actionsDisable a.names state true false) (dp (.leafStop .policer n))

/-- The attribute asked for is put up in the place of the one in force.  `poli_policer_destroy` does
nothing, so that a policer is taken down with its actions. -/
def replace (state : InterpState) (c : Conf LeafAttr) (m : LeafAttr) (isPropagation : Bool) :
    Prog World :=
  let info := actionNamesInfo c
  let withoutNames := c.current.elim true fun a => !a.equalsWithoutNames m
  andThen
    (c.current.elim ok fun a =>
      andThen (actionsDisable info.del state isPropagation true)
        (actionsDelete n (if withoutNames then a.names else info.del)))
    (andThen (if withoutNames then create n m else actionsAdd n info.add)
      (andThen (modify (actionsUsedSet m true))
        (if c.isEnabled then start n m info state isPropagation else ok)))

/-- Started or stopped, if that is asked for. -/
def startOrStop (state : InterpState) (c : Conf LeafAttr)
    (isPropagation isEnableDisableCmd : Bool) : Prog World :=
  if isEnableDisableCmd ∨ c.isEnabling ∨ c.isDisabling then
    c.current.elim fail fun a =>
      if c.isEnabled then start n a (actionNamesInfo c) state isPropagation else stop n a state
  else ok

/-- An attribute is asked for that differs from the one in force. -/
def isModified (c : Conf LeafAttr) : Bool :=
  c.modified.elim false fun m => c.current.elim true fun a => !a.equals m

/-- `policer_cmd_do_update`. -/
def doUpdate (state : InterpState) (n : Name) (isPropagation isEnableDisableCmd : Bool) :
    Prog World :=
  (leafTable .policer).withConf n fun c =>
    andThen
      (if isPropagation then (actionNamesInfo c).update ((plain .policerAction).update state) else ok)
      (if isModified c then
        andThen (replace n state c (c.modified.getD .default) isPropagation)
          (modify fun w =>
            if state = .committing ∨ state = .rollbacking then w
            else (leafTable .policer).alter n (Conf.updateCurrentAttr state) w)
      else
        finally_ (startOrStop n state c isPropagation isEnableDisableCmd)
          ((leafTable .policer).alter n Conf.clearMarks))

end Policer

/-! ## Controllers -/

namespace Controller

/-- `controller_channel_used_set`. -/
def channelUsedSet (a : LeafAttr) (b : Bool) (w : World) : World :=
  a.names.head?.elim w fun ch => (leafTable .channel).setUsed b ch w

/-- `controller_channel_disable`. -/
def channelDisable (a : LeafAttr) (state : InterpState) : Prog World :=
  named (plainDisablePropagation .channel state) a.names.head?

/-- `channel_update`. -/
def channelUpdate (state : InterpState) (c : Conf LeafAttr) : Prog World :=
  (c.modified.or c.current).elim fail fun a => named ((plain .channel).update state) a.names.head?

variable (n : Name)

/-- The dpid of the channel and whether it is alive are read; what is done next depends on whether both
are as `controller_start` or `controller_stop` needs them. -/
def channelStatus (f : Bool → Prog World) : Prog World :=
  andThen (dp (.channelDpidGet n)) (andThen (dp (.channelIsAlive n)) (bind answer f))

/-- `controller_start`. -/
def start (a : LeafAttr) (state : InterpState) (isPropagation : Bool) : Prog World :=
  channelStatus n fun isDown =>
    named (fun ch =>
      andThen (if isPropagation then (plain .channel).enablePropagation state ch else ok)
        (if isDown then dp (.leafStart .controller n) else ok)) a.names.head?

/-- `controller_stop`. -/
def stop : Prog World :=
  channelStatus n fun isUp => if isUp then dp (.leafStop .controller n) else ok

/-- The attribute asked for is put up in the place of the one in force; `controller_destroy` does
nothing. -/
def replace (state : InterpState) (c : Conf LeafAttr) (m : LeafAttr) (isPropagation : Bool) :
    Prog World :=
  andThen
    (c.current.elim ok fun a =>
      andThen (modify (channelUsedSet a false)) (if isPropagation then channelDisable a state else ok))
    (andThen (dp (.leafCreate .controller n))
      (andThen (modify (channelUsedSet m true))
        (if c.isEnabled then start n m state isPropagation else ok)))

/-- Started or stopped, if that is asked for. -/
def startOrStop (state : InterpState) (c : Conf LeafAttr)
    (isPropagation isEnableDisableCmd : Bool) : Prog World :=
  if isEnableDisableCmd ∨ c.isEnabling ∨ c.isDisabling then
    c.current.elim fail fun a => if c.isEnabled then start n a state isPropagation else stop n
  else ok

/-- `controller_cmd_do_update`. -/
def doUpdate (state : InterpState) (n : Name) (isPropagation isEnableDisableCmd : Bool) :
    Prog World :=
  (leafTable .controller).withConf n fun c =>
    andThen (if isPropagation then channelUpdate state c else ok)
      (if c.modified.isSome ∧ c.current ≠ c.modified then
        andThen (replace n state c (c.modified.getD .default) isPropagation)
          (modify fun w =>
            if state = .committing ∨ state = .rollbacking then w
            else (leafTable .controller).alter n (Conf.updateCurrentAttr state) w)
      else
        finally_ (startOrStop n state c isPropagation isEnableDisableCmd)
          ((leafTable .controller).alter n Conf.clearMarks))

end Controller

/-! ## All the objects below ports and bridges -/

def leafDoUpdate : LeafKind → InterpState → Name → Bool → Bool → Prog World
  | .policer => Policer.doUpdate
  | .controller => Controller.doUpdate
  | k => plainDoUpdate k

def leafNamesUsedSet : LeafKind → LeafAttr → Bool → World → World
  | .policer, a, b, w => Policer.actionsUsedSet a b w
  | .controller, a, b, w => Controller.channelUsedSet a b w
  | _, _, _, w => w

def leafNamesDisableAll : LeafKind → Option LeafAttr → InterpState → Prog World
  | .policer, a, state => a.elim fail fun a => Policer.actionsDisable a.names state true true
  | .controller, a, state => a.elim fail fun a => Controller.channelDisable a state
  | _, _, _ => ok

/-- Of a policer only the actions are taken away. -/
def leafDpDestroy : LeafKind → Name → Option LeafAttr → Prog World
  | .policer, n, a => a.elim ok fun a => Policer.actionsDelete n a.names
  | .controller, _, _ => ok
  | k, n, _ => dp (.leafDestroy k n)

/-- Policer actions, policers, queues, interfaces, channels and controllers. -/
def leaf (k : LeafKind) : Kind LeafAttr where
  table := leafTable k
  doUpdate := leafDoUpdate k
  namesUsedSet := leafNamesUsedSet k
  namesDisableAll := leafNamesDisableAll k
  dpDestroy := leafDpDestroy k
  hasParent := true

/-- `…_cmd_disable_propagation`: a policer or controller may be being destroyed. -/
def leafDisablePropagation (k : LeafKind) (state : InterpState) (n : Name) : Prog World :=
  if k = .policer ∨ k = .controller then (leaf k).disableInternal state n true
  else (leaf k).notDestroying n ((leaf k).disableInternal state n true)

end Lagopus.Datastore
