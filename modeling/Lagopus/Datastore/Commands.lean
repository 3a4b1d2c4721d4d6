import Lagopus.Datastore.Bridge

/-!
# The commands on objects

`create`, `config`, `enable`, `disable` and `destroy`, with the options of every kind of object.  The
options are taken one by one, each as soon as it is read: what those before a wrong one changed stays
changed.  They come as the parser of a value leaves them; `show` is an option without its value at the
end of a line, `bad` one that is unknown or whose value is wrong.
-/

namespace Lagopus.Datastore

open Prog World

variable {α ω : Type}

/-- `namespace_get_namespace`: what stands before the first colon. -/
def namespaceOf (n : Name) : List Char := n.toList.takeWhile (· ≠ ':')

/-- `namespace_exists` of the namespace of a full name; the empty one always does. -/
def World.namespaceExists (w : World) (n : Name) : Bool :=
  namespaceOf n = [] ∨ namespaceOf n ∈ w.namespaces.map String.toList

/-- What a command needs to know of a kind of object besides how to update it. -/
structure Commands (α ω : Type) extends Kind α where
  default : α
  /-- `…_opt_parse`. -/
  optParse : InterpState → (isConfig : Bool) → Name → ω → Prog World
  /-- Whether an option is only to be shown. -/
  isShow : ω → Bool
  /-- What `destroy_sub_cmd_parse` passes on. -/
  destroyPropagates : Bool

namespace Commands

variable (C : Commands α ω) (state : InterpState) (n : Name) (opts : List ω)

/-- The options of a new object are read. -/
def createOptions : Prog World :=
  andThen (modify (C.table.put n (Conf.create C.default)))
    (forEach (C.optParse state false n) opts)

/-- `create_sub_cmd_parse_internal`. -/
def createInternal : Prog World :=
  orElse (andThen (C.createOptions state n opts) (C.updateInternal state n true false))
    (C.table.delete n)

/-- `…_attr_dup_modified`. -/
def dupModified : Prog World :=
  C.table.withConf n fun c =>
    if c.modified.isSome then ok
    else if c.current.isSome then modify (C.table.put n { c with modified := c.current })
    else fail

/-- The options of an object that exists are read, into the copy of its attribute. -/
def configOptions : Prog World :=
  andThen (C.dupModified n)
    (andThen (modify (C.table.alter n fun c => { c with isDestroying := false }))
      (forEach (C.optParse state true n) opts))

/-- Whether a `config` shows the object and does not update it. -/
def shows : Bool := opts.isEmpty || opts.any C.isShow

/-- `config_sub_cmd_parse_internal`. -/
def configInternal : Prog World :=
  andThen (C.configOptions state n opts)
    (if C.shows opts then ok else C.updateInternal state n true false)

/-- `create_sub_cmd_parse`.  An object that is being destroyed is configured, not created. -/
def create : Prog World :=
  read fun w =>
    match C.table.find w n with
    | none => if w.namespaceExists n ∨ state = .dryrun then C.createInternal state n opts else fail
    | some c => if c.isDestroying then C.configInternal state n opts else fail

/-- `config_sub_cmd_parse`.  An object that does not exist is created. -/
def config : Prog World :=
  read fun w =>
    match C.table.find w n with
    | none => C.createInternal state n opts
    | some _ => C.configInternal state n opts

/-- `enable_sub_cmd_parse`. -/
def enable : Prog World := C.enablePropagation state n

/-- `disable_sub_cmd_parse`. -/
def disable : Prog World :=
  C.notDestroying n (C.disableInternal state n false)

/-- `destroy_sub_cmd_parse`. -/
def destroy : Prog World :=
  C.notDestroying n (C.destroyInternal state n C.destroyPropagates)

section Branches

variable {C} {state : InterpState} {n : Name} {opts : List ω} {w : World}

theorem create_of_none (h : C.table.find w n = none) : C.create state n opts w =
      if w.namespaceExists n ∨ state = .dryrun then C.createInternal state n opts w else (false, w) := by
  unfold create Prog.read
  simp only [h]
  split <;> rfl

theorem create_of_some {c : Conf α} (h : C.table.find w n = some c) : C.create state n opts w =
      if c.isDestroying then C.configInternal state n opts w else (false, w) := by
  unfold create Prog.read
  simp only [h]
  split <;> rfl

theorem config_of_none (h : C.table.find w n = none) :
    C.config state n opts w = C.createInternal state n opts w := by
  unfold config Prog.read
  simp only [h]

theorem config_of_some {c : Conf α} (h : C.table.find w n = some c) :
    C.config state n opts w = C.configInternal state n opts w := by
  unfold config Prog.read
  simp only [h]

end Branches

end Commands

/-! ## The objects below ports and bridges -/

inductive LeafOption where
  | id (v : Nat)
  | other (v : Nat)
  /-- An action of a policer that is added or deleted, or the channel of a controller. -/
  | name (isAdded : Bool) (m : Name)
  | «show»
  | bad
  deriving DecidableEq, Repr

/-- `action_opt_parse`. -/
def Policer.actionOptParse (n : Name) (isAdded : Bool) (action : Name) : Prog World :=
  (leafTable .policer).withConf n fun c =>
    if isAdded then
      if action ∈ c.modified.elim [] LeafAttr.names then fail
      else
        (leafTable .policerAction).withConf action fun ac =>
          if ac.isUsed then fail
          else modify ((leafTable .policer).setModified n fun a => { a with names := a.names ++ [action] })
    else if action ∉ c.modified.elim [] LeafAttr.names then fail
    else modify fun w =>
      (leafTable .policerAction).setUsed false action
        ((leafTable .policer).setModified n (fun a => { a with names := a.names.erase action }) w)

/-- `channel_opt_parse`. -/
def Controller.channelOptParse (n ch : Name) : Prog World :=
  (leafTable .channel).withConf ch fun cc =>
    if cc.isUsed then fail
    else
      (leafTable .controller).withConf n fun c =>
        modify fun w =>
          let w := c.current.elim w fun a => channelUsedSet a false w
          let w := c.modified.elim w fun a => channelUsedSet a false w
          (leafTable .controller).setModified n (fun a => { a with names := [ch] }) w

/-- The name of an action or a channel, which no other kind takes. -/
def leafNameOptParse (k : LeafKind) (n : Name) (isAdded : Bool) (m : Name) : Prog World :=
  if k = .policer then Policer.actionOptParse n isAdded m
  else if k = .controller then Controller.channelOptParse n m
  else fail

def leafOptParse (k : LeafKind) (isConfig : Bool) (n : Name) : LeafOption → Prog World
  | .id v => modify ((leafTable k).setModified n fun a => { a with id := v })
  | .other v => modify ((leafTable k).setModified n fun a => { a with other := v })
  | .name isAdded m => leafNameOptParse k n isAdded m
  | .show => if isConfig then ok else fail
  | .bad => fail

def leafCommands (k : LeafKind) : Commands LeafAttr LeafOption where
  toKind := leaf k
  default := .default
  optParse _ := leafOptParse k
  isShow o := o = .show
  destroyPropagates := k ≠ .policer ∧ k ≠ .controller

/-! ## Ports -/

inductive PortOption where
  | interface (i : Name)
  | policer (isAdded : Bool) (p : Name)
  /-- A queue with its id, or with none that can be read. -/
  | queueAdd (q : Name) (id : Option Nat)
  | queueDelete (q : Name) (idGiven : Bool)
  | «show»
  | bad
  deriving DecidableEq, Repr

namespace Port

/-- `interface_opt_parse`. -/
def interfaceOptParse (n i : Name) : Prog World :=
  (leafTable .interface).withConf i fun ic =>
    if ic.isUsed then fail
    else
      portTable.withConf n fun c =>
        modify fun w =>
          let w := c.current.elim w fun a => interfaceUsedSet a false w
          let w := c.modified.elim w fun a => interfaceUsedSet a false w
          portTable.setModified n (fun a => { a with interface := some i }) w

/-- `policer_opt_parse`.  The flag of the former policer is cleared before the new one is looked at. -/
def policerOptParse (n : Name) (isAdded : Bool) (p : Name) : Prog World :=
  portTable.withConf n fun c =>
    c.modified.elim fail fun m =>
      if isAdded then
        andThen (modify (policerUsedSet m false))
          ((leafTable .policer).withConf p fun pc =>
            if pc.isUsed then fail
            else modify (portTable.setModified n fun a => { a with policer := some p }))
      else if m.policer.isNone then fail
      else modify fun w =>
        portTable.setModified n (fun a => { a with policer := none }) (policerUsedSet m false w)

/-- `queue_cmd_queue_id_is_exists`. -/
def queueIdIsExists (w : World) (id : Nat) (q : Name) : Bool :=
  ((leafTable .queue).find w q).elim false fun c =>
    c.current.elim false (·.id = id) || c.modified.elim false (·.id = id)

/-- `queue_opt_id_is_exists`. -/
def queueOptIdIsExists (w : World) (c : Conf PortAttr) (id : Nat) : Bool :=
  (c.current.elim [] PortAttr.queues ++ c.modified.elim [] PortAttr.queues).any
    (queueIdIsExists w id)

/-- `queue_opt_parse` of a queue that is added.  Its id is set by a command of its own. -/
def queueAddOptParse (state : InterpState) (n q : Name) (id : Option Nat) : Prog World :=
  portTable.withConf n fun c =>
    if q ∈ c.modified.elim [] PortAttr.queues then fail
    else
      (leafTable .queue).withConf q fun qc =>
        id.elim fail fun id =>
          read fun w =>
            if queueOptIdIsExists w c id then fail
            else if qc.isUsed then fail
            else
              andThen (modify (portTable.setModified n fun a => { a with queues := a.queues ++ [q] }))
                ((leafCommands .queue).config state q [.id id])

/-- `queue_opt_parse` of a queue that is deleted. -/
def queueDeleteOptParse (n q : Name) (idGiven : Bool) : Prog World :=
  portTable.withConf n fun c =>
    if q ∉ c.modified.elim [] PortAttr.queues then fail
    else if idGiven then fail
    else modify fun w =>
      (leafTable .queue).setUsed false q
        (portTable.setModified n (fun a => { a with queues := a.queues.erase q }) w)

def optParse (state : InterpState) (isConfig : Bool) (n : Name) : PortOption → Prog World
  | .interface i => interfaceOptParse n i
  | .policer isAdded p => policerOptParse n isAdded p
  | .queueAdd q id => queueAddOptParse state n q id
  | .queueDelete q idGiven => queueDeleteOptParse n q idGiven
  | .show => if isConfig then ok else fail
  | .bad => fail

/-- `port_cmd_set_port_number`.  The number 0 is written into both attributes at once; a missing port is
no error. -/
def setPortNumber (number : Nat) (p : Name) (w : World) : World :=
  let set (a : PortAttr) : PortAttr := { a with portNumber := number }
  portTable.alter p (fun c =>
    if number = 0 then { c with current := c.current.map set, modified := c.modified.map set }
    else { c with modified := (c.modified.or c.current).map set }) w

end Port

def portCommands : Commands PortAttr PortOption where
  toKind := port
  default := .default
  optParse := Port.optParse
  isShow o := o = .show
  destroyPropagates := false

/-! ## Command lines -/

/-- A command on an object of one kind. -/
inductive ObjCommand (ω : Type) where
  | create (n : Name) (opts : List ω)
  | config (n : Name) (opts : List ω)
  | enable (n : Name)
  | disable (n : Name)
  | destroy (n : Name)

def Commands.run (C : Commands α ω) (state : InterpState) : ObjCommand ω → Prog World
  | .create n opts => C.create state n opts
  | .config n opts => C.config state n opts
  | .enable n => C.enable state n
  | .disable n => C.disable state n
  | .destroy n => C.destroy state n

end Lagopus.Datastore
