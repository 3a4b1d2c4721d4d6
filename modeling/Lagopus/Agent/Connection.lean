import Lagopus.Agent.ChannelRead
import Lagopus.Agent.ChannelWrite
import Lagopus.Agent.Dispatch

/-!
# Connections of a channel

A channel outlives its connections.  A state machine opens and closes them; the input buffer, the
output list and the multipart slots belong to the channel, and so does its part of the queue for the
handler thread.

* `fsm`, `channelEvent`: the state machine, with the functions that it calls;
* `Channel.step`: a call, an event or a round of a loop, as the lock of the channel lets them in;
* `Seen.Own`: what a step hands on belongs to the connection at that time;
* `connections_do_not_leak`: so it is in every run that connects with nothing left over.

The model keeps book of connections, which the code does not: each message that is queued or sent has
the number of its connection, and `stale` counts the bytes at the front of the input buffer that came
on an earlier one.
-/

namespace Lagopus

open PartialQueue List

/-- `enum channel_status`. -/
inductive ChannelStatus where
  | idle | connect | helloSent | established | disable
  deriving DecidableEq, Repr

/-- `enum channel_event`. -/
inductive ChannelEvent where
  | channelStart | channelStop | channelExpired
  | tcpConnectionOpen | tcpConnectionClosed | tcpConnectionFailed
  | openFlowHelloReceived | openFlowMessageReceived
  deriving DecidableEq, Repr

/-- The functions of the state machine. -/
inductive FsmFunc where
  | start | stop | expire | connectCheck | connectSuccess | connectFail | ignore | helloConfirm
  | process
  deriving DecidableEq, Repr

/-- The table `FSM`. -/
def fsm : ChannelStatus → ChannelEvent → FsmFunc × ChannelStatus
  | .idle, .channelStart => (.start, .connect)
  | .idle, .channelExpired => (.expire, .disable)
  | .idle, _ => (.stop, .idle)
  | .connect, .channelStart => (.connectCheck, .connect)
  | .connect, .channelExpired => (.expire, .disable)
  | .connect, .tcpConnectionOpen => (.connectSuccess, .helloSent)
  | .connect, .tcpConnectionFailed => (.connectFail, .idle)
  | .connect, _ => (.stop, .idle)
  | .helloSent, .channelStart => (.ignore, .helloSent)
  | .helloSent, .channelExpired => (.expire, .disable)
  | .helloSent, .openFlowHelloReceived => (.helloConfirm, .established)
  | .helloSent, _ => (.stop, .idle)
  | .established, .channelStart => (.ignore, .established)
  | .established, .channelExpired => (.expire, .disable)
  | .established, .openFlowHelloReceived => (.process, .established)
  | .established, .openFlowMessageReceived => (.process, .established)
  | .established, _ => (.stop, .idle)
  | .disable, .channelExpired => (.expire, .disable)
  | .disable, _ => (.ignore, .disable)

/-- A message for the controller, and the connection during or after which it was queued. -/
structure Sent where
  connection : Nat
  bytes : List Octet
  deriving DecidableEq, Repr

def Sent.content (m : Sent) : List (Nat × Octet) := m.bytes.map fun b => (m.connection, b)

/-- A channel. -/
structure Channel where
  status : ChannelStatus
  /-- `session_is_alive`. -/
  sessionAlive : Bool
  isAlive : Bool
  /-- The number of connections so far. -/
  connection : Nat
  input : List Octet
  stale : Nat
  out : List (Entry Sent)
  /-- The messages in the handler's queue, each with the connection it came on. -/
  channelq : List (Nat × List Octet)
  /-- The slots, with the connection that each fragment came on. -/
  multipart : MultipartSlots (Nat × List Octet)
  deriving DecidableEq

/-- `session_connect_check`. -/
inductive ConnectCheck where
  | ok | inProgress | failed
  deriving DecidableEq, Repr

/-- The event that a check of the connection raises. -/
def ConnectCheck.event : ConnectCheck → ChannelEvent
  | .ok => .tcpConnectionOpen
  | .inProgress => .channelStart
  | .failed => .tcpConnectionFailed

/-- What the functions of the state machine meet with. -/
structure Surroundings where
  /-- `session_connect` succeeds, or is in progress. -/
  connects : Bool
  /-- The results of `session_connect_check`, in turn. -/
  checks : List ConnectCheck
  hello : List Octet
  /-- The timer tasks can be created. -/
  timers : Bool
  deriving DecidableEq, Repr

namespace Channel

/-- `channel_alloc`. -/
def initial : Channel :=
  { status := .idle, sessionAlive := false, isAlive := false, connection := 0, input := [], stale := 0
    out := [], channelq := [], multipart := MultipartSlots.init _ }

/-- `channel_start`; `none` stands for -1. -/
def channelStart (env : Surroundings) (c : Channel) : Option Channel :=
  if c.sessionAlive then none
  else if env.connects = false then none
  else some
    { c with
      sessionAlive := true
      isAlive := true
      connection := c.connection + 1
      stale := c.input.length }

/-- `channel_stop`. -/
def channelStop (c : Channel) : Channel := { c with sessionAlive := false }

/-- `channel_send_packet_by_event_nolock`. -/
def channelSendPacketByEvent (c : Channel) (bytes : List Octet) : Channel :=
  { c with out := c.out ++ [⟨⟨c.connection, bytes⟩, 0⟩] }

/-- The functions of the state machine, apart from `channel_connect_check`. -/
def fsmCall (env : Surroundings) (c : Channel) : FsmFunc → Option Channel
  | .start => c.channelStart env
  | .stop | .expire | .connectFail => some c.channelStop
  | .connectSuccess => some (c.channelSendPacketByEvent env.hello)
  | .helloConfirm => if env.timers then some c else none
  | .ignore | .process | .connectCheck => some c

/-- `channel_event_nolock`, with `channel_connect_check` as `check`. -/
def channelEventWith (env : Surroundings) (check : Channel → Channel) (c : Channel)
    (cevent : ChannelEvent) : Channel :=
  if (fsm c.status cevent).1 = .connectCheck then
    -- events inside the check change the status, but it ends as the table says
    { check c with status := (fsm c.status cevent).2 }
  else
    match c.fsmCall env (fsm c.status cevent).1 with
    | none => c
    | some c => { c with status := (fsm c.status cevent).2 }

/-- `channel_connect_check`, which is called again by the event it raises while the connection is in
progress. -/
def channelConnectCheck (env : Surroundings) : List ConnectCheck → Channel → Channel
  | [], c => c
  | check :: checks, c =>
    if c.status = .disable then channelEventWith env id c .channelExpired
    else channelEventWith env (channelConnectCheck env checks) c check.event

/-- `channel_event`. -/
def channelEvent (env : Surroundings) (c : Channel) (cevent : ChannelEvent) : Channel :=
  channelEventWith env (channelConnectCheck env env.checks) c cevent

end Channel

/-! ## Steps -/

/-- The results of `session_read`. -/
inductive SessionRead where
  | eagain | failed | closed
  | bytes (l : List Octet)
  deriving DecidableEq, Repr

/-- The results of `session_write`: at most so many bytes are taken. -/
inductive SessionWrite where
  | eagain | failed
  | taken (k : Nat)
  deriving DecidableEq, Repr

/-- What can happen to a channel.  `channel_read` gives up the lock each time it has queued a message,
so that its rounds are steps of their own. -/
inductive ChannelCall where
  | event (env : Surroundings) (cevent : ChannelEvent)
  | read (env : Surroundings) (r : SessionRead)
  | readRound
  | write (env : Surroundings) (w : SessionWrite)
  | sendPacket (bytes : List Octet) (w : SessionWrite)
  | sendPacketByEvent (bytes : List Octet)
  | sendPacketList (list : List (List Octet)) (ws : List (Option Nat))
  /-- The handler thread takes a message from its queue; the checks of its version, its type and the
  role of the channel let it pass or not. -/
  | dispatch (passes : Bool)
  | enable
  | disable
  deriving DecidableEq, Repr

/-- What a step hands on. -/
structure Seen where
  /-- A message for the handler thread, and how many of its bytes came on an earlier connection. -/
  queued : Option (Nat × List Octet) := none
  /-- The bytes written to the session, with the connections they were queued for. -/
  written : List (Nat × Octet) := []
  /-- The connection on which a multipart request ends, and its fragments. -/
  reassembled : Option (Nat × List (Nat × List Octet)) := none
  deriving DecidableEq, Repr

namespace Channel

/-- `channel_read`, up to its loop. -/
def channelRead (env : Surroundings) (c : Channel) (r : SessionRead) : Channel :=
  if c.status = .connect ∨ c.status = .disable then channelConnectCheck env env.checks c
  else if c.sessionAlive = false then c.channelEvent env .tcpConnectionFailed
  else
    match r with
    | .eagain => c
    | .failed => c.channelEvent env .tcpConnectionFailed
    | .closed => c.channelEvent env .tcpConnectionClosed
    | .bytes l => { c with input := c.input ++ l.take (ofpPbufSize - c.input.length) }

variable (c : Channel)

/-- A round of the loop of `channel_read`. -/
def readRound : Channel × Seen :=
  match channelqDataCreate c.input with
  | none => (c, {})
  | some (pbuf, input) =>
    ({ c with
        input := input
        stale := c.stale - pbuf.length
        channelq := c.channelq ++ [(c.connection, pbuf)] },
      { queued := some (min c.stale pbuf.length, pbuf) })

/-- `pbuf_list_session_write` of the output list. -/
def writeOut (w : Option Nat) : Channel × Seen :=
  let r := pbufListSessionWrite Sent.content w c.out
  ({ c with out := r.2.2 }, { written := r.2.1 })

/-- `channel_write`. -/
def channelWrite (env : Surroundings) (c : Channel) (w : SessionWrite) : Channel × Seen :=
  if c.status = .connect ∨ c.status = .disable then (channelConnectCheck env env.checks c, {})
  else if c.sessionAlive = false then (c.channelEvent env .tcpConnectionFailed, {})
  else
    match w with
    | .eagain => c.writeOut none
    | .failed => (c.channelEvent env .tcpConnectionFailed, {})
    | .taken k =>
      let r := c.writeOut (some k)
      if (pbufListSessionWrite Sent.content (some k) c.out).1 = some 0 then
        (r.1.channelEvent env .tcpConnectionClosed, r.2)
      else r

/-- `channel_send_packet`. -/
def channelSendPacket (bytes : List Octet) (w : SessionWrite) : Channel × Seen :=
  let c := c.channelSendPacketByEvent bytes
  if c.sessionAlive = false then (c, {})
  else
    match w with
    | .eagain => c.writeOut none
    | .failed => (c, {})
    | .taken k => c.writeOut (some k)

/-- `channel_send_packet_list`. -/
def channelSendPacketList (list : List (List Octet)) (ws : List (Option Nat)) :
    Channel × Seen :=
  if c.sessionAlive = false then (c, {})
  else
    (c, { written := (sendPacketListLoop Sent.content ws
      (list.map fun bytes => ⟨⟨c.connection, bytes⟩, 0⟩)).1 })

/-- A multipart request with its header. -/
def multipartRequestOf (bytes : List Octet) : Option (BitVec 32 × MultipartRequest) :=
  if bytes[1]? = some 18 then
    (ofpMultipartRequestDecode (bytes.drop 8)).map fun req =>
      (BitVec.ofNat 32 (Octets.toNat ((bytes.drop 4).take 4)), req)
  else none

/-- The handler thread takes the next message, of which only multipart requests stay in the channel. -/
def dispatch (passes : Bool) : Channel × Seen :=
  match c.channelq with
  | [] => (c, {})
  | (connection, bytes) :: channelq =>
    let c := { c with channelq := channelq }
    match (if passes then multipartRequestOf bytes else none) with
    | none => (c, {})
    | some (xid, req) =>
      match channelMultipartPut c.multipart (connection, req.body) xid req.type with
      | .error _ => (c, {})
      | .ok slots =>
        let c := { c with multipart := slots }
        if req.flags = 0 then
          match channelMultipartGet xid req.type slots with
          | none => (c, {})
          | some (all, slots) =>
            ({ c with multipart := slots }, { reassembled := some (connection, all) })
        else (c, {})

/-- `channel_disable`. -/
def channelDisable : Channel :=
  if c.isAlive then { c with isAlive := false, status := .disable } else c

def step : ChannelCall → Channel × Seen
  | .event env cevent => (c.channelEvent env cevent, {})
  | .read env r => (c.channelRead env r, {})
  | .readRound => c.readRound
  | .write env w => c.channelWrite env w
  | .sendPacket bytes w => c.channelSendPacket bytes w
  | .sendPacketByEvent bytes => (c.channelSendPacketByEvent bytes, {})
  | .sendPacketList list ws => c.channelSendPacketList list ws
  | .dispatch passes => c.dispatch passes
  | .enable => ({ c with status := .idle }, {})
  | .disable => (c.channelDisable, {})

end Channel

/-- What a step hands on belongs to the connection at that time. -/
structure Seen.Own (connection : Nat) (seen : Seen) : Prop where
  /-- A message begins with a byte of this connection. -/
  queued : ∀ q, seen.queued = some q → q.1 = 0
  written : ∀ b ∈ seen.written, b.1 = connection
  /-- The fragments have come on the connection on which the request ends. -/
  reassembled : ∀ r, seen.reassembled = some r → ∀ f ∈ r.2, f.1 = r.1

/-- Nothing is left of earlier connections. -/
structure Channel.Clean (c : Channel) : Prop where
  input : c.input = []
  out : c.out = []
  channelq : c.channelq = []
  multipart : ∀ slot ∈ c.multipart, slot = none

namespace Channel

instance (c : Channel) : Decidable c.Clean :=
  decidable_of_iff (c.input = [] ∧ c.out = [] ∧ c.channelq = [] ∧ ∀ slot ∈ c.multipart, slot = none)
    ⟨fun ⟨hi, ho, hq, hm⟩ => ⟨hi, ho, hq, hm⟩, fun h => ⟨h.input, h.out, h.channelq, h.multipart⟩⟩

/-! ## Nothing of another connection -/

/-- All that the channel holds belongs to its last connection. -/
structure OwnOnly (c : Channel) : Prop where
  stale : c.stale = 0
  out : ∀ e ∈ c.out, e.item.connection = c.connection
  channelq : ∀ q ∈ c.channelq, q.1 = c.connection
  multipart : c.multipart.All fun f => f.1 = c.connection

theorem ownOnly_initial : initial.OwnOnly := by
  constructor <;> simp [initial, MultipartSlots.All, MultipartSlots.init]

variable {c c' : Channel}

theorem Clean.ownOnly (h : c.Clean) (hstale : c'.stale = c.input.length)
    (hout : c'.out = c.out) (hq : c'.channelq = c.channelq) (hm : c'.multipart = c.multipart) :
    c'.OwnOnly := by
  constructor
  · rw [hstale, h.input, length_nil]
  · rw [hout, h.out]
    simp
  · rw [hq, h.channelq]
    simp
  · intro m hmem
    rw [hm] at hmem
    cases h.multipart _ hmem

theorem OwnOnly.congr (h : c.OwnOnly) (hc : c'.connection = c.connection)
    (hstale : c'.stale = c.stale) (hout : c'.out = c.out) (hq : c'.channelq = c.channelq)
    (hm : c'.multipart = c.multipart) : c'.OwnOnly := by
  constructor
  · rw [hstale, h.stale]
  · rw [hout, hc]
    exact h.out
  · rw [hq, hc]
    exact h.channelq
  · rw [hm, hc]
    exact h.multipart

theorem OwnOnly.channelSendPacketByEvent (h : c.OwnOnly) (bytes : List Octet) :
    (c.channelSendPacketByEvent bytes).OwnOnly := by
  exact ⟨h.stale, forall_mem_append.2 ⟨h.out, forall_mem_singleton.2 rfl⟩, h.channelq, h.multipart⟩

/-- A change after which the channel holds nothing of earlier connections, provided that nothing is
left over when it connects. -/
def KeepsOwn (f : Channel → Channel) : Prop :=
  ∀ c, c.OwnOnly → ((f c).connection ≠ c.connection → c.Clean) → (f c).OwnOnly

theorem keepsOwn_fsmCall {env : Surroundings} {func : FsmFunc} (h : c.OwnOnly)
    (hcall : c.fsmCall env func = some c') (hclean : c'.connection ≠ c.connection → c.Clean) :
    c'.OwnOnly := by
  cases func with
  | start =>
    simp only [fsmCall, channelStart] at hcall
    split_ifs at hcall
    cases hcall
    exact (hclean (Nat.succ_ne_self _)).ownOnly rfl rfl rfl rfl
  | stop => cases hcall; exact h.congr rfl rfl rfl rfl rfl
  | expire => cases hcall; exact h.congr rfl rfl rfl rfl rfl
  | connectFail => cases hcall; exact h.congr rfl rfl rfl rfl rfl
  | connectSuccess => cases hcall; exact h.channelSendPacketByEvent _
  | helloConfirm =>
    simp only [fsmCall] at hcall
    split_ifs at hcall
    cases hcall
    exact h
  | ignore => cases hcall; exact h
  | process => cases hcall; exact h
  | connectCheck => cases hcall; exact h

theorem keepsOwn_channelEventWith {env : Surroundings} {check : Channel → Channel}
    (hcheck : KeepsOwn check) (cevent : ChannelEvent) :
    KeepsOwn fun c => channelEventWith env check c cevent := by
  intro c h hclean
  simp only [channelEventWith] at hclean ⊢
  split_ifs at hclean ⊢ with hfunc
  · exact (hcheck c h hclean).congr rfl rfl rfl rfl rfl
  · cases hcall : c.fsmCall env (fsm c.status cevent).1 with
    | none => exact h
    | some c' =>
      rw [hcall] at hclean
      exact (keepsOwn_fsmCall h hcall hclean).congr rfl rfl rfl rfl rfl

variable (env : Surroundings)

theorem keepsOwn_channelConnectCheck (checks : List ConnectCheck) :
    KeepsOwn (channelConnectCheck env checks) := by
  induction checks with
  | nil => exact fun c h _ => h
  | cons check checks ih =>
    intro c h hclean
    rw [channelConnectCheck] at hclean ⊢
    split_ifs at hclean ⊢
    · exact keepsOwn_channelEventWith (fun c h _ => h) _ c h hclean
    · exact keepsOwn_channelEventWith ih _ c h hclean

theorem keepsOwn_channelEvent (cevent : ChannelEvent) : KeepsOwn fun c => c.channelEvent env cevent :=
  keepsOwn_channelEventWith (keepsOwn_channelConnectCheck env env.checks) cevent

variable {cevent : ChannelEvent}

theorem connection_of_lost (c : Channel)
    (hlost : cevent = .tcpConnectionClosed ∨ cevent = .tcpConnectionFailed) :
    (c.channelEvent env cevent).connection = c.connection := by
  unfold channelEvent channelEventWith
  rcases hlost with rfl | rfl <;> cases c.status <;> rfl

variable (h : c.OwnOnly)

include h

theorem OwnOnly.lost (hlost : cevent = .tcpConnectionClosed ∨ cevent = .tcpConnectionFailed) :
    (c.channelEvent env cevent).OwnOnly :=
  keepsOwn_channelEvent env cevent c h fun hne => absurd (connection_of_lost env c hlost) hne

omit h in
theorem own_nothing (connection : Nat) : Seen.Own connection {} := by
  constructor <;> simp

theorem OwnOnly.writeOut (w : Option Nat) : (c.writeOut w).2.Own c.connection ∧ (c.writeOut w).1.OwnOnly ∧
      (c.writeOut w).1.connection = c.connection := by
  obtain ⟨hbytes, hrest⟩ :=
    @pbufListSessionWrite_all _ _ _ Sent.content (fun m => m.connection = c.connection) h.out w
  refine ⟨⟨by simp [Channel.writeOut], ?_, by simp [Channel.writeOut]⟩,
    ⟨h.stale, hrest, h.channelq, h.multipart⟩, rfl⟩
  intro b hb
  obtain ⟨m, hm, hb⟩ := hbytes b hb
  obtain ⟨o, -, rfl⟩ := mem_map.1 hb
  exact hm

theorem OwnOnly.channelRead (r : SessionRead)
    (hclean : (c.channelRead env r).connection ≠ c.connection → c.Clean) :
    (c.channelRead env r).OwnOnly := by
  unfold Channel.channelRead at hclean ⊢
  split_ifs at hclean ⊢
  · exact keepsOwn_channelConnectCheck env env.checks c h hclean
  · exact h.lost env (.inr rfl)
  · cases r with
    | eagain => exact h
    | failed => exact h.lost env (.inr rfl)
    | closed => exact h.lost env (.inl rfl)
    | bytes l => exact h.congr rfl rfl rfl rfl rfl

theorem OwnOnly.readRound : c.readRound.2.Own c.connection ∧ c.readRound.1.OwnOnly := by
  unfold Channel.readRound
  cases channelqDataCreate c.input with
  | none => exact ⟨own_nothing _, h⟩
  | some cut =>
    refine ⟨⟨?_, by simp, by simp⟩, ⟨by simp [h.stale], h.out, ?_, h.multipart⟩⟩
    · intro q hq
      cases hq
      simp [h.stale]
    · exact forall_mem_append.2 ⟨h.channelq, forall_mem_singleton.2 rfl⟩

theorem OwnOnly.channelWrite (w : SessionWrite)
    (hclean : (c.channelWrite env w).1.connection ≠ c.connection → c.Clean) :
    (c.channelWrite env w).2.Own c.connection ∧ (c.channelWrite env w).1.OwnOnly := by
  unfold Channel.channelWrite at hclean ⊢
  split_ifs at hclean ⊢
  · exact ⟨own_nothing _, keepsOwn_channelConnectCheck env env.checks c h hclean⟩
  · exact ⟨own_nothing _, h.lost env (.inr rfl)⟩
  · cases w with
    | eagain => exact ⟨(h.writeOut none).1, (h.writeOut none).2.1⟩
    | failed => exact ⟨own_nothing _, h.lost env (.inr rfl)⟩
    | taken k =>
      obtain ⟨hown, honly, -⟩ := h.writeOut (some k)
      dsimp only
      split_ifs
      · exact ⟨hown, honly.lost env (.inl rfl)⟩
      · exact ⟨hown, honly⟩

theorem OwnOnly.channelSendPacket (bytes : List Octet) (w : SessionWrite) :
    (c.channelSendPacket bytes w).2.Own c.connection ∧ (c.channelSendPacket bytes w).1.OwnOnly := by
  have hsent := h.channelSendPacketByEvent bytes
  unfold Channel.channelSendPacket
  dsimp only
  split_ifs
  · exact ⟨own_nothing _, hsent⟩
  · cases w with
    | eagain => exact ⟨(hsent.writeOut none).1, (hsent.writeOut none).2.1⟩
    | failed => exact ⟨own_nothing _, hsent⟩
    | taken k => exact ⟨(hsent.writeOut (some k)).1, (hsent.writeOut (some k)).2.1⟩

theorem OwnOnly.channelSendPacketList (list : List (List Octet)) (ws : List (Option Nat)) :
    (c.channelSendPacketList list ws).2.Own c.connection ∧
      (c.channelSendPacketList list ws).1.OwnOnly := by
  unfold Channel.channelSendPacketList
  split_ifs
  · exact ⟨own_nothing _, h⟩
  · refine ⟨⟨by simp, ?_, by simp⟩, h⟩
    have hfresh : ∀ e ∈ list.map (fun bytes => (⟨⟨c.connection, bytes⟩, 0⟩ : Entry Sent)),
        e.item.connection = c.connection := by
      intro e he
      obtain ⟨bytes, -, rfl⟩ := mem_map.1 he
      rfl
    intro b hb
    obtain ⟨m, hm, hb⟩ :=
      @sendPacketListLoop_all _ _ _ Sent.content (fun m => m.connection = c.connection) ws hfresh b hb
    obtain ⟨o, -, rfl⟩ := mem_map.1 hb
    exact hm

theorem OwnOnly.dispatch (passes : Bool) :
    (c.dispatch passes).2.Own c.connection ∧ (c.dispatch passes).1.OwnOnly := by
  have hq := h.channelq
  unfold Channel.dispatch
  cases hchannelq : c.channelq with
  | nil => exact ⟨own_nothing _, h⟩
  | cons q channelq =>
    rw [hchannelq, forall_mem_cons] at hq
    obtain ⟨connection, bytes⟩ := q
    obtain ⟨rfl, hq⟩ := hq
    have htaken : OwnOnly { c with channelq := channelq } := ⟨h.stale, h.out, hq, h.multipart⟩
    dsimp only
    cases (if passes = true then multipartRequestOf bytes else none) with
    | none => exact ⟨own_nothing _, htaken⟩
    | some r =>
      obtain ⟨xid, req⟩ := r
      dsimp only
      cases hput : channelMultipartPut c.multipart (c.connection, req.body) xid req.type with
      | error e => exact ⟨own_nothing _, htaken⟩
      | ok slots =>
        have hslots := channelMultipartPut_all h.multipart rfl hput
        have hkept : OwnOnly { c with channelq := channelq, multipart := slots } :=
          ⟨h.stale, h.out, hq, hslots⟩
        dsimp only
        split_ifs
        · cases hget : channelMultipartGet xid req.type slots with
          | none => exact ⟨own_nothing _, hkept⟩
          | some all =>
            obtain ⟨hall, hrest⟩ := channelMultipartGet_all hslots hget
            refine ⟨⟨by simp, by simp, ?_⟩, ⟨h.stale, h.out, hq, hrest⟩⟩
            intro r hr
            cases hr
            exact hall
        · exact ⟨own_nothing _, hkept⟩

/-- A step hands on what belongs to the connection, if nothing is left over when it connects. -/
theorem own_step (call : ChannelCall) (hclean : (c.step call).1.connection ≠ c.connection → c.Clean) :
    (c.step call).2.Own c.connection ∧ (c.step call).1.OwnOnly := by
  cases call with
  | event env cevent => exact ⟨own_nothing _, keepsOwn_channelEvent env cevent c h hclean⟩
  | read env r => exact ⟨own_nothing _, h.channelRead env r hclean⟩
  | readRound => exact h.readRound
  | write env w => exact h.channelWrite env w hclean
  | sendPacket bytes w => exact h.channelSendPacket bytes w
  | sendPacketByEvent bytes => exact ⟨own_nothing _, h.channelSendPacketByEvent bytes⟩
  | sendPacketList list ws => exact h.channelSendPacketList list ws
  | dispatch passes => exact h.dispatch passes
  | enable => exact ⟨own_nothing _, h.congr rfl rfl rfl rfl rfl⟩
  | disable =>
    refine ⟨own_nothing _, ?_⟩
    unfold step channelDisable
    split_ifs
    · exact h.congr rfl rfl rfl rfl rfl
    · exact h

omit h

/-- The next state. -/
def next (c : Channel) (call : ChannelCall) : Channel := (c.step call).1

/-- In every run of a channel in which each connection is opened with nothing left over, all that is
queued, written and reassembled belongs to the connection at that time. -/
theorem connections_do_not_leak {calls : List ChannelCall}
    (hclean : Trace.EveryStep next
      (fun c call => (c.next call).connection ≠ c.connection → c.Clean) initial calls) :
    Trace.EveryStep next (fun c call => (c.step call).2.Own c.connection) initial calls := by
  apply Trace.EveryStep.of_invariant _ ownOnly_initial hclean
  intro c call hown hc
  exact own_step hown call hc

/-- A controller that accepts the connection at once. -/
def accepting : Surroundings := ⟨true, [.ok], [4, 0, 0, 8, 0, 0, 0, 0], true⟩

/-- The timer starts a connection, and the channel is writable when it is there. -/
def connecting : List ChannelCall := [.event accepting .channelStart, .write accepting .eagain]

/-- A connection that is closed after some bytes were received and perhaps dispatched. -/
def connectionWith (bytes : List Octet) (more : List ChannelCall) : List ChannelCall :=
  connecting ++ [.read accepting (.bytes bytes)] ++ more ++ [.read accepting .closed]

/-- A fragment of a table features request, with its header. -/
def fragment (more : Octet) : List Octet := [4, 18, 0, 16, 0, 0, 0, 7, 0, 12, 0, more, 0, 0, 0, 0]

/-- Three bytes of a message, and then another connection. -/
def cutMessage : List ChannelCall := connectionWith [4, 0, 0] [] ++ connecting

/-- The first fragment of a request, and then another connection. -/
def cutRequest : List ChannelCall :=
  connectionWith (fragment 1) [.readRound, .dispatch true] ++ connecting

/-- The hello of the second connection is received. -/
def cutMessageThenHello : List ChannelCall :=
  cutMessage ++ [.read accepting (.bytes [4, 0, 0, 8, 0, 0, 0, 1])]

/-- The last fragment is received on the second connection. -/
def cutRequestThenRest : List ChannelCall :=
  cutRequest ++ [.read accepting (.bytes (fragment 0)), .readRound]

/-- On the second connection, the first message begins with the bytes from the first, the hello for
the first is written, and a request ends that began on the first. -/
theorem second_connection_leaks :
    ((cutMessageThenHello.foldl next initial).step .readRound).2.queued = some (3, [4, 0, 0, 4]) ∧
      ((cutMessage.foldl next initial).step (.write accepting (.taken 1))).2.written = [(1, 4)] ∧
      ((cutRequestThenRest.foldl next initial).step (.dispatch true)).2.reassembled =
        some (2, [(1, []), (2, [])]) ∧
      ¬ Trace.EveryStep next (fun c call => (c.step call).2.Own c.connection) initial
        (cutMessageThenHello ++ [.readRound]) := by
  refine ⟨by decide, by decide +kernel, by decide +kernel, ?_⟩
  intro hrun
  have hround := hrun.2.2.2.2.2.2.2.1
  exact absurd (hround.queued (3, [4, 0, 0, 4]) (by decide)) (by decide)

/-- A channel that is closed after whole messages, and with nothing left to write, may connect
again. -/
theorem connections_do_not_leak_again :
    Trace.EveryStep next (fun c call => (c.step call).2.Own c.connection) initial
      (connectionWith [4, 0, 0, 8, 0, 0, 0, 1]
        [.readRound, .dispatch true, .write accepting (.taken 8)] ++ connecting) :=
  connections_do_not_leak (by decide)

end Channel

end Lagopus
