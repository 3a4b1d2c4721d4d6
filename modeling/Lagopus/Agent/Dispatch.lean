import Lagopus.Agent.Role
import Lagopus.Agent.Multipart
import Lagopus.Lib.Octets

/-!
# Dispatching the messages of controllers

The handler thread takes the messages of all channels one after the other.  A slave may read but not
write: the dispatcher looks at the type of a message, and, since one multipart request writes too, the
multipart handler looks at the body of each fragment.

* `sProcessChannelqEntry`: the dispatcher, with the handler that it calls;
* `writes_only_if_not_slave_iff`: when a message is handled as the role of its channel allows;
* `slaves_do_not_write_iff`: the same along every run of messages from any channels.
-/

namespace Lagopus

/-- `enum ofp_type`, in the order of its values. -/
inductive OfpType where
  | hello | error | echoRequest | echoReply | experimenter
  | featuresRequest | featuresReply | getConfigRequest | getConfigReply | setConfig
  | packetIn | flowRemoved | portStatus
  | packetOut | flowMod | groupMod | portMod | tableMod
  | multipartRequest | multipartReply
  | barrierRequest | barrierReply
  | queueGetConfigRequest | queueGetConfigReply
  | roleRequest | roleReply
  | getAsyncRequest | getAsyncReply | setAsync
  | meterMod
  deriving DecidableEq, Repr

def OfpType.all : List OfpType :=
  [.hello, .error, .echoRequest, .echoReply, .experimenter, .featuresRequest, .featuresReply,
    .getConfigRequest, .getConfigReply, .setConfig, .packetIn, .flowRemoved, .portStatus, .packetOut,
    .flowMod, .groupMod, .portMod, .tableMod, .multipartRequest, .multipartReply, .barrierRequest,
    .barrierReply, .queueGetConfigRequest, .queueGetConfigReply, .roleRequest, .roleReply,
    .getAsyncRequest, .getAsyncReply, .setAsync, .meterMod]

/-- The type with a value, if there is one. -/
def OfpType.ofWire (type : BitVec 8) : Option OfpType := OfpType.all[type.toNat]?

/-- `enum ofp_multipart_type`. -/
inductive OfpMultipartType where
  | desc | flow | aggregate | table | portStats | queue | group | groupDesc | groupFeatures
  | meter | meterConfig | meterFeatures | tableFeatures | portDesc
  | experimenter
  deriving DecidableEq, Repr

def OfpMultipartType.ofWire (type : BitVec 16) : Option OfpMultipartType :=
  if type = 0xffff then some .experimenter
  else [desc, flow, aggregate, table, portStats, queue, group, groupDesc, groupFeatures, meter,
    meterConfig, meterFeatures, tableFeatures, portDesc][type.toNat]?

/-- The errors that the dispatcher, the multipart handler and the role handler set. -/
inductive RequestError where
  | badVersion | badType | badMultipart | badExperimenter | badLen | isSlave
  | multipartBufferOverflow
  | roleRequestFailed (code : RoleRequestFailed)
  deriving DecidableEq, Repr

/-- A message: the fields of its header that are looked at, and what comes after the header. -/
structure Message where
  version : BitVec 8
  type : BitVec 8
  xid : BitVec 32
  payload : List Octet
  deriving DecidableEq, Repr

/-- `struct ofp_multipart_request` after the header. -/
structure MultipartRequest where
  type : BitVec 16
  flags : BitVec 16
  body : List Octet
  deriving DecidableEq, Repr

/-- `ofp_multipart_request_decode`. -/
def ofpMultipartRequestDecode (payload : List Octet) : Option MultipartRequest :=
  if payload.length < 8 then none
  else some
    { type := BitVec.ofNat 16 (Octets.toNat (payload.take 2))
      flags := BitVec.ofNat 16 (Octets.toNat ((payload.drop 2).take 2))
      body := payload.drop 8 }

/-- `ofp_role_request_decode`. -/
def ofpRoleRequestDecode (payload : List Octet) : Option RoleRequest :=
  if payload.length < 16 then none
  else some
    { role := BitVec.ofNat 32 (Octets.toNat (payload.take 4))
      generationId := BitVec.ofNat 64 (Octets.toNat ((payload.drop 8).take 8)) }

/-- What the bridge says about itself: its protocol version and its capabilities. -/
structure BridgeInfo where
  version : BitVec 8
  capabilities : BitVec 32
  deriving DecidableEq, Repr

/-- The handlers that are called, with the reassembled body of a multipart request. -/
inductive Handler where
  | message (type : OfpType)
  | multipart (type : OfpMultipartType) (body : List Octet)
  deriving DecidableEq, Repr

/-- How the dispatcher is done with a message. -/
inductive Dispatched where
  /-- An error is sent, and no handler has been called. -/
  | error (e : RequestError)
  /-- A fragment waits for the rest of its request. -/
  | kept
  | called (handler : Handler)
  deriving DecidableEq, Repr

/-- The channels of one datapath, with their roles and their multipart slots. -/
structure Controllers (n : Nat) extends DpidChannels n where
  multipart : Fin n → MultipartSlots (List Octet)

/-- `s_ofp_version_check`. -/
def sOfpVersionCheck (info : BridgeInfo) (msg : Message) : Bool :=
  OfpType.ofWire msg.type = some .hello ∨ OfpType.ofWire msg.type = some .error ∨
    info.version = msg.version

/-- `ofp_role_check`. -/
def ofpRoleCheck (role : Role) (type : Option OfpType) : Bool :=
  if role = .slave then
    match type with
    | some .setConfig | some .tableMod | some .flowMod | some .groupMod | some .portMod
    | some .meterMod | some .packetOut | some .packetIn | some .flowRemoved => false
    | _ => true
  else true

/-- `ofp_role_mp_check`, with the bytes that are left of the fragment. -/
def ofpRoleMpCheck (role : Role) (type : Option OfpMultipartType) (body : List Octet) : Bool :=
  if role = .slave then
    match type with
    | some .tableFeatures => body.length = 0
    | _ => true
  else true

/-- `multipart_capability_get`. -/
def multipartCapabilityGet : Option OfpMultipartType → BitVec 32
  | some .flow => 1 <<< 0
  | some .table => 1 <<< 1
  | some .portStats => 1 <<< 2
  | some .queue => 1 <<< 6
  | some .group => 1 <<< 3
  | _ => BitVec.allOnes 32

/-- `multipart_request_features_check`. -/
def multipartRequestFeaturesCheck (info : BridgeInfo) (type : Option OfpMultipartType) : Bool :=
  info.capabilities &&& multipartCapabilityGet type ≠ 0

/-- The handler of a reassembled request. -/
def multipartCall (type : Option OfpMultipartType) (all : List Octet) : Dispatched :=
  match type with
  | none => .error .badMultipart
  | some .experimenter => .error .badExperimenter
  | some type => .called (.multipart type all)

theorem multipartCall_eq_called {type : Option OfpMultipartType} {all : List Octet} {h : Handler}
    (hcall : multipartCall type all = .called h) : ∃ t, type = some t ∧ h = .multipart t all := by
  cases type with
  | none => cases hcall
  | some t =>
    refine ⟨t, rfl, ?_⟩
    cases t <;> cases hcall <;> rfl

namespace Controllers

variable {n : Nat}

def initial (n : Nat) : Controllers n :=
  { DpidChannels.initial n with multipart := fun _ => MultipartSlots.init _ }

/-- `ofp_multipart_request_handle`. -/
def ofpMultipartRequestHandle (s : Controllers n) (info : BridgeInfo) (c : Fin n) (msg : Message) :
    Controllers n × Dispatched :=
  match ofpMultipartRequestDecode msg.payload with
  | none => (s, .error .badLen)
  | some multipart =>
    let type := OfpMultipartType.ofWire multipart.type
    if multipartRequestFeaturesCheck info type = false then
      (s, .error .badMultipart)
    -- The check sees this fragment only, and the role at this moment.
    else if ofpRoleMpCheck (s.role c) type multipart.body = false then
      (s, .error .isSlave)
    else
      match channelMultipartPut (s.multipart c) multipart.body msg.xid multipart.type with
      | .error .noMemory => (s, .error .multipartBufferOverflow)
      | .error .ofpError => (s, .error .badMultipart)
      | .ok slots =>
        let s := { s with multipart := Function.update s.multipart c slots }
        if multipart.flags = 0 then
          match channelMultipartGet msg.xid multipart.type slots with
          | none => (s, .error .badMultipart)
          | some (all, slots) =>
            ({ s with multipart := Function.update s.multipart c slots }, multipartCall type all.flatten)
        else
          (s, .kept)

/-- `ofp_role_request_handle`. -/
def ofpRoleRequestHandle (s : Controllers n) (c : Fin n) (msg : Message) : Controllers n × Dispatched :=
  match ofpRoleRequestDecode msg.payload with
  | none => (s, .error .badLen)
  | some req =>
    let (channels, result) := s.toDpidChannels.ofpRoleRequestHandle c req
    ({ s with toDpidChannels := channels },
      match result with
      | .ok _ => .called (.message .roleRequest)
      | .error code => .error (.roleRequestFailed code))

/-- `s_process_channelq_entry`, for a message whose length is the one in its header. -/
def sProcessChannelqEntry (s : Controllers n) (info : BridgeInfo) (c : Fin n) (msg : Message) :
    Controllers n × Dispatched :=
  let type := OfpType.ofWire msg.type
  if sOfpVersionCheck info msg = false then
    (s, .error .badVersion)
  else if ofpRoleCheck (s.role c) type = false then
    (s, .error .isSlave)
  else
    match type with
    | some .experimenter => (s, .error .badExperimenter)
    | some .featuresReply | some .getConfigReply | some .packetIn | some .flowRemoved
    | some .portStatus | some .multipartReply | some .barrierReply | some .queueGetConfigReply
    | some .roleReply | some .getAsyncReply | none => (s, .error .badType)
    | some .multipartRequest => s.ofpMultipartRequestHandle info c msg
    | some .roleRequest => s.ofpRoleRequestHandle c msg
    -- The other handlers change neither roles nor fragments.
    | some type => (s, .called (.message type))

/-- The handler of a multipart request is called with what the channel holds and the last
fragment. -/
theorem called_ofpMultipartRequestHandle {s : Controllers n} {info : BridgeInfo} {c : Fin n}
    {msg : Message} {h : Handler} : (s.ofpMultipartRequestHandle info c msg).2 = .called h ↔
      ∃ req, ofpMultipartRequestDecode msg.payload = some req ∧
        multipartRequestFeaturesCheck info (OfpMultipartType.ofWire req.type) = true ∧
        ofpRoleMpCheck (s.role c) (OfpMultipartType.ofWire req.type) req.body = true ∧
        (∃ slots, channelMultipartPut (s.multipart c) req.body msg.xid req.type = .ok slots) ∧
        req.flags = 0 ∧
        multipartCall (OfpMultipartType.ofWire req.type)
          ((multipartHeld msg.xid (s.multipart c)).flatten ++ req.body) = .called h := by
  unfold ofpMultipartRequestHandle
  cases ofpMultipartRequestDecode msg.payload with
  | none => simp
  | some req =>
    simp only [Option.some.injEq, exists_eq_left']
    cases multipartRequestFeaturesCheck info (OfpMultipartType.ofWire req.type) with
    | false => simp
    | true =>
      cases ofpRoleMpCheck (s.role c) (OfpMultipartType.ofWire req.type) req.body with
      | false => simp
      | true =>
        simp only [Bool.true_eq_false, if_false, true_and]
        cases hput : channelMultipartPut (s.multipart c) req.body msg.xid req.type with
        | error e => cases e <;> simp
        | ok slots =>
          obtain ⟨rest, hget⟩ := channelMultipartGet_of_put hput
          by_cases hflags : req.flags = 0
          · simp [hflags, hget]
          · dsimp only
            rw [if_neg hflags]
            refine iff_of_false (by simp) ?_
            rintro ⟨-, hlast, -⟩
            exact hflags hlast

end Controllers

/-! ## What slaves may do -/

/-- The handlers that change the state of the switch. -/
def Handler.Writes : Handler → Prop
  | .message type =>
    type ∈ [OfpType.flowMod, .groupMod, .meterMod, .portMod, .tableMod, .setConfig, .packetOut]
  | .multipart type body => type = .tableFeatures ∧ body ≠ []

instance : DecidablePred Handler.Writes := fun h => by
  cases h <;> unfold Handler.Writes <;> infer_instance

theorem ofpRoleCheck_slave_of_writes {type : OfpType} (h : (Handler.message type).Writes) :
    ofpRoleCheck .slave (some type) = false := by
  cases type <;> first | rfl | exact absurd h (by decide)

/-- A message from channel `c`, and the bridge at that time. -/
structure Arrival (n : Nat) where
  info : BridgeInfo
  c : Fin n
  msg : Message

namespace Controllers

variable {n : Nat}

/-- A handler that changes the state of the switch is called for channels that are not slaves
only. -/
def Allowed (s : Controllers n) (e : Arrival n) : Prop :=
  ∀ h, (s.sProcessChannelqEntry e.info e.c e.msg).2 = .called h → h.Writes → s.role e.c ≠ .slave

/-- A slave completes, with an empty last fragment, a table features request of which the channel
holds some of the body from before. -/
structure Completes (s : Controllers n) (e : Arrival n) (req : MultipartRequest)
    (m : Multipart (List Octet)) :
    Prop where
  slave : s.role e.c = .slave
  version : sOfpVersionCheck e.info e.msg = true
  multipart : OfpType.ofWire e.msg.type = some .multipartRequest
  decoded : ofpMultipartRequestDecode e.msg.payload = some req
  features : multipartRequestFeaturesCheck e.info (some .tableFeatures) = true
  tableFeatures : OfpMultipartType.ofWire req.type = some .tableFeatures
  last : req.flags = 0
  empty : req.body = []
  held : multipartFind e.msg.xid (s.multipart e.c) = some m
  sameType : m.multipartType = req.type
  body : m.multipartList.flatten ≠ []

theorem sProcessChannelqEntry_multipart {s : Controllers n} {e : Arrival n}
    (hversion : sOfpVersionCheck e.info e.msg = true)
    (htype : OfpType.ofWire e.msg.type = some .multipartRequest) :
    s.sProcessChannelqEntry e.info e.c e.msg = s.ofpMultipartRequestHandle e.info e.c e.msg := by
  unfold sProcessChannelqEntry ofpRoleCheck
  simp [hversion, htype]

/-- A slave is kept from writing by the check of the type, for all messages that are not multipart
requests. -/
theorem multipart_of_writes {s : Controllers n} {e : Arrival n} {h : Handler} (hslave : s.role e.c = .slave)
    (hcalled : (s.sProcessChannelqEntry e.info e.c e.msg).2 = .called h) (hw : h.Writes) :
    sOfpVersionCheck e.info e.msg = true ∧
      OfpType.ofWire e.msg.type = some .multipartRequest := by
  unfold sProcessChannelqEntry at hcalled
  rw [hslave] at hcalled
  cases hversion : sOfpVersionCheck e.info e.msg with
  | false => simp [hversion] at hcalled
  | true =>
    refine ⟨rfl, ?_⟩
    cases hcheck : ofpRoleCheck .slave (OfpType.ofWire e.msg.type) with
    | false => simp [hversion, hcheck] at hcalled
    | true =>
      simp only [hversion, hcheck, Bool.true_eq_false, if_false] at hcalled
      cases htype : OfpType.ofWire e.msg.type with
      | none => simp [htype] at hcalled
      | some type =>
        rw [htype] at hcalled hcheck
        have hmsg : h ≠ .message type := by
          rintro rfl
          rw [ofpRoleCheck_slave_of_writes hw] at hcheck
          cases hcheck
        cases type
        case multipartRequest => rfl
        case roleRequest =>
          simp only [ofpRoleRequestHandle] at hcalled
          split at hcalled
          · cases hcalled
          · simp only at hcalled
            split at hcalled
            · cases hcalled
              exact absurd rfl hmsg
            · cases hcalled
        all_goals
          cases hcalled
          try exact absurd rfl hmsg

/-- A message is handled as the role of its channel allows, unless a slave completes a request that
was begun before. -/
theorem writes_only_if_not_slave_iff (s : Controllers n) (e : Arrival n) :
    s.Allowed e ↔ ¬ ∃ req m, s.Completes e req m := by
  constructor
  · rintro hall ⟨req, m, hc⟩
    have hheld : multipartHeld e.msg.xid (s.multipart e.c) = m.multipartList := by
      simp [multipartHeld, hc.held]
    refine hall (.multipart .tableFeatures (m.multipartList.flatten ++ req.body)) ?_
      ⟨rfl, by simp [hc.body]⟩ hc.slave
    rw [sProcessChannelqEntry_multipart hc.version hc.multipart, called_ofpMultipartRequestHandle]
    refine ⟨req, hc.decoded, ?_, ?_, ⟨multipartAppend e.msg.xid req.body (s.multipart e.c), ?_⟩,
      hc.last, ?_⟩
    · rw [hc.tableFeatures, hc.features]
    · simp [ofpRoleMpCheck, hc.tableFeatures, hc.empty]
    · simp [channelMultipartPut, hc.held, hc.sameType]
    · rw [hc.tableFeatures, hheld, multipartCall]
      simp
  · intro hnot h hcalled hw hslave
    obtain ⟨hversion, htype⟩ := multipart_of_writes hslave hcalled hw
    rw [sProcessChannelqEntry_multipart hversion htype, called_ofpMultipartRequestHandle] at hcalled
    obtain ⟨req, hdec, hfeat, hmp, ⟨slots, hput⟩, hlast, hcall⟩ := hcalled
    obtain ⟨t, ht, rfl⟩ := multipartCall_eq_called hcall
    obtain ⟨rfl, hbody⟩ := hw
    have hempty : req.body = [] := by
      simpa [ofpRoleMpCheck, hslave, ht] using hmp
    rw [hempty, List.append_nil] at hbody
    cases hfind : multipartFind e.msg.xid (s.multipart e.c) with
    | none => exact hbody (by simp [multipartHeld, hfind])
    | some m =>
      have hsame : m.multipartType = req.type := by
        by_contra hne
        simp [channelMultipartPut, hfind, hne] at hput
      refine hnot ⟨req, m, hslave, hversion, htype, hdec, ?_, ht, hlast, hempty, hfind, hsame, ?_⟩
      · rw [← ht, hfeat]
      · simpa [multipartHeld, hfind] using hbody

/-- The state after a message. -/
def step (s : Controllers n) (e : Arrival n) : Controllers n :=
  (s.sProcessChannelqEntry e.info e.c e.msg).1

/-- Along every run of messages from any channels, no handler that changes the state of the switch is
called for a slave, if and only if no slave completes a table features request whose body it sent
before it became one. -/
theorem slaves_do_not_write_iff (s : Controllers n) (es : List (Arrival n)) :
    Trace.EveryStep step Allowed s es ↔
      Trace.EveryStep step (fun s e => ¬ ∃ req m, s.Completes e req m) s es := by
  apply @Trace.EveryStep.iff_of_invariant _ _ _ _ _ (fun _ => True)
  · intro s e _
    exact writes_only_if_not_slave_iff s e
  · intro s e _ _
    trivial
  · trivial

/-- A fragment of a table features request, with transaction id 7. -/
def tableFeaturesFragment (more : Bool) (body : List Octet) : Message :=
  { version := 4, type := 18, xid := 7
    payload := [0, 12, 0, if more then 1 else 0, 0, 0, 0, 0] ++ body }

/-- A request for the role of a slave. -/
def slaveRequest : Message :=
  { version := 4, type := 24, xid := 8, payload := [0, 0, 0, 3, 0, 0, 0, 0, 0, 0, 0, 0, 0, 0, 0, 0] }

/-- The controller sends a body, becomes a slave and then ends its request. -/
def slaveEndsRequest : List (Arrival 1) :=
  [tableFeaturesFragment true [1], slaveRequest, tableFeaturesFragment false []].map
    (Arrival.mk ⟨4, 1⟩ 0)

/-- The handler of table features is called for a slave, with the body from before. -/
theorem slaveEndsRequest_writes :
    ((slaveEndsRequest.take 2).foldl step (initial 1)).role 0 = .slave ∧
      (((slaveEndsRequest.take 2).foldl step (initial 1)).sProcessChannelqEntry ⟨4, 1⟩ 0
        (tableFeaturesFragment false [])).2 = .called (.multipart .tableFeatures [1]) ∧
      ¬ Trace.EveryStep step Allowed (initial 1) slaveEndsRequest := by
  refine ⟨by decide, by decide, ?_⟩
  rintro ⟨-, -, hlast, -⟩
  exact hlast (.multipart .tableFeatures [1]) (by decide) ⟨rfl, by decide⟩ (by decide)

end Controllers

end Lagopus
