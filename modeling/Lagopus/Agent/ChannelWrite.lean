import Lagopus.Lib.PartialQueue
import Lagopus.Lib.Trace
import Lagopus.Lib.Octets

/-!
# Writing to a controller

Messages go to a session on two ways.  The output list of a channel is written from its front, one
`session_write` at a time, and a message that is not written to its end stays there.  A list of
replies is written directly, until all of it is written.

* `pbufListSessionWrite`: one write from the front of a list;
* `channelSendPacket`, `channelSendPacketByEvent`, `channelSendPacketList`, `channelWrite`: the calls,
  each under the lock of the channel;
* `calls_intact_iff`: which calls leave whole messages on the session.
-/

namespace Lagopus

open PartialQueue List Entry

variable {α β : Type}

/-- A message for the controller: when it was queued, and whether it came in a list of replies. -/
structure Queued where
  number : Nat
  direct : Bool
  bytes : List Octet
  deriving DecidableEq, Repr

/-- The bytes of a message, each with the message that it belongs to. -/
def Queued.content (m : Queued) : List (Queued × Octet) := m.bytes.map fun b => (m, b)

open Queued (content)

/-- The output side of a channel. -/
structure Output where
  /-- The output list. -/
  out : List (Entry Queued)
  /-- All that has been queued so far, in order. -/
  queued : List Queued
  /-- What the session has taken. -/
  written : List (Queued × Octet)
  /-- The connection is open, and no call is still at work under the lock. -/
  live : Bool
  deriving DecidableEq

/-- `pbuf_list_session_write`, where the session takes at most `w` bytes, or `none` stands for
`EAGAIN`: the result, the bytes taken and the list. -/
def pbufListSessionWrite (content : α → List β) (w : Option Nat) :
    List (Entry α) → Option Nat × List β × List (Entry α)
  | [] => (some 0, [], [])
  | pbuf :: l =>
    let writeSize := (pbuf.left content).length
    let nbytes := w.map fun k => min k writeSize
    let getp := pbuf.offset + nbytes.getD 0
    (nbytes, (pbuf.left content).take (nbytes.getD 0),
      if getp = (content pbuf.item).length then l else ⟨pbuf.item, getp⟩ :: l)

/-- The loop of `channel_send_packet_list`, for the results of `session_write` in turn: what is written
and what is left of the list. -/
def sendPacketListLoop (content : α → List β) : List (Option Nat) → List (Entry α) →
    List β × List (Entry α)
  | _, [] => ([], [])
  | [], l => ([], l)
  | w :: ws, l =>
    -- neither `EAGAIN` nor a short write ends the loop
    let r := pbufListSessionWrite content w l
    let rest := sendPacketListLoop content ws r.2.2
    (r.2.1 ++ rest.1, rest.2)

namespace Output

variable (s : Output)

/-- A message that is queued next. -/
def message (direct : Bool) (bytes : List Octet) : Queued :=
  ⟨s.queued.length, direct, bytes⟩

/-- `channel_send_packet_by_event`. -/
def channelSendPacketByEvent (bytes : List Octet) : Output :=
  { s with
    out := s.out ++ [⟨s.message false bytes, 0⟩]
    queued := s.queued ++ [s.message false bytes] }

/-- One write from the output list. -/
def writeOut (w : Option Nat) : Output :=
  let r := pbufListSessionWrite content w s.out
  { s with out := r.2.2, written := s.written ++ r.2.1 }

/-- `channel_send_packet`. -/
def channelSendPacket (bytes : List Octet) (w : Option Nat) : Output :=
  (s.channelSendPacketByEvent bytes).writeOut w

/-- `channel_write`: nothing written is taken for a closed connection. -/
def channelWrite (w : Option Nat) : Output :=
  { s.writeOut w with live := (pbufListSessionWrite content w s.out).1 ≠ some 0 }

/-- The messages of a list of replies. -/
def replies (list : List (List Octet)) : List Queued :=
  list.mapIdx fun i bytes => ⟨s.queued.length + i, true, bytes⟩

/-- What writing the replies sends, and what is left of them. -/
abbrev sending (list : List (List Octet)) (ws : List (Option Nat)) :=
  sendPacketListLoop content ws ((s.replies list).map fun m => ⟨m, 0⟩)

/-- `channel_send_packet_list`, for the results of `session_write` until now.  While the list is not
written, the lock is held. -/
def channelSendPacketList (list : List (List Octet)) (ws : List (Option Nat)) : Output :=
  let r := sendPacketListLoop content ws ((s.replies list).map fun m => ⟨m, 0⟩)
  { s with
    queued := s.queued ++ s.replies list
    written := s.written ++ r.1
    live := r.2.isEmpty }

end Output

/-- The calls on a channel, with what `session_write` returns to each. -/
inductive Call where
  | sendPacket (bytes : List Octet) (w : Option Nat)
  | sendPacketByEvent (bytes : List Octet)
  | sendPacketList (list : List (List Octet)) (ws : List (Option Nat))
  | write (w : Option Nat)
  deriving DecidableEq, Repr

namespace Output

/-- A call, as long as there are some. -/
def call (s : Output) (c : Call) : Output :=
  if s.live then
    match c with
    | .sendPacket bytes w => s.channelSendPacket bytes w
    | .sendPacketByEvent bytes => s.channelSendPacketByEvent bytes
    | .sendPacketList list ws => s.channelSendPacketList list ws
    | .write w => s.channelWrite w
  else s

/-- A new connection. -/
def initial : Output := ⟨[], [], [], true⟩

/-- What is written is the beginning of whole messages, none of them twice, with those of the output
list in the order in which they were queued. -/
def Intact (s : Output) : Prop :=
  ∃ order : List Queued, s.written <+: order.flatMap content ∧ order.Nodup ∧
    (∀ m ∈ order, m ∈ s.queued) ∧
    (order.filter fun m => !m.direct).Pairwise fun a b => a.number < b.number

/-- A list of replies is written while the first message of the output list is written in part. -/
def Interrupts (s : Output) : Call → Prop
  | .sendPacketList list ws => s.live ∧ started content s.out ≠ [] ∧
      (sendPacketListLoop content ws ((s.replies list).map fun m => ⟨m, 0⟩)).1 ≠ []
  | _ => False

instance (s : Output) (c : Call) : Decidable (s.Interrupts c) := by
  cases c <;> unfold Interrupts <;> infer_instance

end Output

/-! ## Writes from the front -/

variable {l : List (Entry α)}

theorem advances_pbufListSessionWrite {content : α → List β} (h : WellFormed content l) (w : Option Nat) :
    ∃ fin, Advances content l (pbufListSessionWrite content w l).2.1 fin
      (pbufListSessionWrite content w l).2.2 := by
  cases l with
  | nil => exact ⟨[], .refl h⟩
  | cons pbuf l =>
    have hn : (w.map fun k => min k (pbuf.left content).length).getD 0 ≤
        (pbuf.left content).length := by
      cases w with
      | none => exact Nat.zero_le _
      | some k => exact min_le_right _ _
    have hadv := Advances.write h hn
    simp only [pbufListSessionWrite]
    split_ifs at hadv ⊢ with hend
    · exact ⟨_, hadv⟩
    · exact ⟨_, hadv⟩

theorem advances_sendPacketListLoop {content : α → List β} (ws : List (Option Nat))
    (h : WellFormed content l) : ∃ fin, Advances content l (sendPacketListLoop content ws l).1 fin
      (sendPacketListLoop content ws l).2 := by
  induction ws generalizing l with
  | nil =>
    cases l with
    | nil => exact ⟨[], .refl h⟩
    | cons pbuf l => exact ⟨[], .refl h⟩
  | cons w ws ih =>
    cases l with
    | nil => exact ⟨[], .refl h⟩
    | cons pbuf l =>
      obtain ⟨fin, hfirst⟩ := advances_pbufListSessionWrite h w
      obtain ⟨fin', hrest⟩ := ih hfirst.wellFormed
      exact ⟨fin ++ fin', hfirst.trans hrest⟩

theorem pbufListSessionWrite_all {content : α → List β} {P : α → Prop}
    (h : ∀ e ∈ l, P e.item) (w : Option Nat) :
    (∀ b ∈ (pbufListSessionWrite content w l).2.1, ∃ a, P a ∧ b ∈ content a) ∧
      ∀ e ∈ (pbufListSessionWrite content w l).2.2, P e.item := by
  cases l with
  | nil => exact ⟨by simp [pbufListSessionWrite], h⟩
  | cons pbuf l =>
    rw [forall_mem_cons] at h
    constructor
    · intro b hb
      exact ⟨pbuf.item, h.1, mem_of_mem_drop (mem_of_mem_take hb)⟩
    · intro e he
      simp only [pbufListSessionWrite] at he
      split_ifs at he
      · exact h.2 e he
      · rcases mem_cons.1 he with rfl | he
        · exact h.1
        · exact h.2 e he

theorem sendPacketListLoop_all {content : α → List β} {P : α → Prop} (ws : List (Option Nat))
    (h : ∀ e ∈ l, P e.item) : ∀ b ∈ (sendPacketListLoop content ws l).1, ∃ a, P a ∧ b ∈ content a := by
  induction ws generalizing l with
  | nil => cases l <;> simp [sendPacketListLoop]
  | cons w ws ih =>
    cases l with
    | nil => simp [sendPacketListLoop]
    | cons pbuf l =>
      obtain ⟨hbytes, hrest⟩ := pbufListSessionWrite_all h w
      intro b hb
      rcases mem_append.1 hb with hb | hb
      · exact hbytes b hb
      · exact ih hrest b hb

namespace Output

/-! ## Calls -/

/-- The messages of `done` have been written, and the first one of the output list in part. -/
structure Tracks (s : Output) (done : List Queued) : Prop where
  wellFormed : WellFormed content s.out
  written : s.written = done.flatMap content ++ started content s.out
  nodup : (done ++ s.out.map item).Nodup
  mem : ∀ m ∈ done ++ s.out.map item, m ∈ s.queued
  inOrder : ((done ++ s.out.map item).filter fun m => !m.direct).Pairwise
    fun a b => a.number < b.number
  number : ∀ m ∈ s.queued, m.number < s.queued.length

theorem tracks_initial : Tracks initial [] := by
  constructor <;> simp [initial, WellFormed, started]

variable {done : List Queued} {s : Output} (h : s.Tracks done)

include h

theorem Tracks.intact : s.Intact := by
  refine ⟨done ++ s.out.map item, ?_, h.nodup, h.mem, h.inOrder⟩
  rw [h.written, flatMap_append, prefix_append_right_inj]
  exact prefix_started s.out

theorem Tracks.channelSendPacketByEvent
    (bytes : List Octet) : (s.channelSendPacketByEvent bytes).Tracks done := by
  have hnew : s.message false bytes ∉ s.queued := by
    intro hmem
    exact absurd (h.number _ hmem) (lt_irrefl _)
  have hitems : done ++ (s.channelSendPacketByEvent bytes).out.map item =
      (done ++ s.out.map item) ++ [s.message false bytes] := by
    simp [Output.channelSendPacketByEvent]
  constructor
  case wellFormed => exact h.wellFormed.append _
  case written =>
    rw [Output.channelSendPacketByEvent, started_append h.wellFormed]
    exact h.written
  case nodup =>
    rw [hitems]
    exact List.Nodup.append h.nodup (by simp) (by
      rw [disjoint_singleton]
      exact fun hmem => hnew (h.mem _ hmem))
  case mem =>
    intro m hm
    rw [hitems] at hm
    exact mem_append.2 ((mem_append.1 hm).imp (h.mem m) id)
  case inOrder =>
    rw [hitems, filter_append, pairwise_append]
    refine ⟨h.inOrder, List.Pairwise.sublist filter_sublist (by simp), ?_⟩
    intro a ha b hb
    rw [mem_singleton.1 (mem_of_mem_filter hb)]
    exact h.number a (h.mem a (mem_of_mem_filter ha))
  case number =>
    simp only [Output.channelSendPacketByEvent, length_append, length_singleton]
    exact forall_mem_append.2 ⟨fun m hm => (h.number m hm).trans (Nat.lt_succ_self _),
      forall_mem_singleton.2 (Nat.lt_succ_self _)⟩

theorem Tracks.writeOut (w : Option Nat) : ∃ done', (s.writeOut w).Tracks done' := by
  obtain ⟨fin, hadv⟩ := advances_pbufListSessionWrite h.wellFormed w
  have hitems : done ++ fin ++ (s.writeOut w).out.map item =
      done ++ s.out.map item := by
    rw [append_assoc, hadv.items]
    rfl
  refine ⟨done ++ fin, ?_⟩
  constructor
  case wellFormed => exact hadv.wellFormed
  case written =>
    rw [Output.writeOut, h.written, append_assoc, hadv.bytes, flatMap_append, append_assoc]
  case nodup => rw [hitems]; exact h.nodup
  case mem => rw [hitems]; exact h.mem
  case inOrder => rw [hitems]; exact h.inOrder
  case number => exact h.number

variable {list : List (List Octet)}

omit h in
theorem mem_replies {m : Queued} (h : m ∈ s.replies list) :
    m.direct = true ∧ s.queued.length ≤ m.number ∧ m.number < s.queued.length + list.length := by
  obtain ⟨i, hi, rfl⟩ := mem_mapIdx.1 h
  exact ⟨rfl, Nat.le_add_right _ _, by dsimp only; omega⟩

omit h in
theorem nodup_replies (s : Output) (list : List (List Octet)) : (s.replies list).Nodup := by
  apply pairwise_iff_getElem.2
  intro i j hi hj hij heq
  simp only [replies, getElem_mapIdx, Queued.mk.injEq] at heq
  omega

theorem Tracks.replies (list : List (List Octet)) : (done ++ s.replies list ++ s.out.map item).Nodup ∧
      (∀ m ∈ done ++ s.replies list ++ s.out.map item, m ∈ s.queued ++ s.replies list) ∧
      ((done ++ s.replies list ++ s.out.map item).filter fun m => !m.direct).Pairwise
        fun a b => a.number < b.number := by
  have hperm : (done ++ s.replies list ++ s.out.map item).Perm
      (done ++ s.out.map item ++ s.replies list) := by
    rw [append_assoc, append_assoc]
    exact List.Perm.append_left _ perm_append_comm
  refine ⟨?_, ?_, ?_⟩
  · rw [hperm.nodup_iff]
    refine List.Nodup.append h.nodup (s.nodup_replies list) ?_
    intro m hm hnew
    exact absurd (h.number m (h.mem m hm)) (not_lt.2 (mem_replies hnew).2.1)
  · intro m hm
    exact mem_append.2 ((mem_append.1 (hperm.mem_iff.1 hm)).imp (h.mem m) id)
  · have hnone : (s.replies list).filter (fun m => !m.direct) = [] := by
      apply filter_eq_nil_iff.2
      intro m hm
      simp [(mem_replies hm).1]
    rw [filter_append, filter_append, hnone, append_nil, ← filter_append]
    exact h.inOrder

omit h in
/-- What a list of replies writes is the beginning of the replies, and all of them when the call is
over. -/
theorem sendPacketListLoop_replies (s : Output) (list : List (List Octet)) (ws : List (Option Nat)) :
    (s.sending list ws).1 <+:
        (s.replies list).flatMap content ∧
      ((s.sending list ws).2 = [] →
        (s.sending list ws).1 =
          (s.replies list).flatMap content) := by
  have hfresh : ∀ e ∈ (s.replies list).map (fun m => (⟨m, 0⟩ : Entry Queued)), e.offset = 0 := by
    intro e he
    obtain ⟨m, -, rfl⟩ := mem_map.1 he
    rfl
  obtain ⟨fin, hadv⟩ := advances_sendPacketListLoop ws (wellFormed_of_fresh hfresh)
  have hitems : s.replies list = fin ++
      (s.sending list ws).2.map item := by
    rw [← hadv.items, map_map]
    exact (map_id _).symm
  have hbytes := hadv.bytes
  rw [started_of_fresh hfresh, nil_append] at hbytes
  constructor
  · rw [hbytes]
    conv_rhs => rw [hitems, flatMap_append]
    exact (prefix_append_right_inj _).2 (prefix_started _)
  · intro hend
    rw [hend, map_nil, append_nil] at hitems
    rw [hbytes, hend, ← hitems]
    exact append_nil _

variable {ws : List (Option Nat)}

theorem Tracks.channelSendPacketList (hno : started content s.out = [] ∨
      (s.sending list ws).1 = []) :
    (s.channelSendPacketList list ws).Intact ∧
      ((s.channelSendPacketList list ws).live →
        (s.channelSendPacketList list ws).Tracks (done ++ s.replies list)) := by
  obtain ⟨hpre, hall⟩ := s.sendPacketListLoop_replies list ws
  obtain ⟨hnodup, hmem, horder⟩ := h.replies list
  have hwritten : (s.channelSendPacketList list ws).written = done.flatMap content ++
      (started content s.out ++
        (s.sending list ws).1) := by
    rw [Output.channelSendPacketList, h.written, append_assoc]
  constructor
  · rcases hno with hno | hno
    · refine ⟨_, ?_, hnodup, hmem, horder⟩
      rw [hwritten, hno, nil_append, append_assoc, flatMap_append, flatMap_append]
      exact (prefix_append_right_inj _).2 (hpre.trans (prefix_append _ _))
    · obtain ⟨order, hw, hn, hm, ho⟩ := h.intact
      refine ⟨order, ?_, hn, fun m hmo => mem_append_left _ (hm m hmo), ho⟩
      rw [hwritten, hno, append_nil, ← h.written]
      exact hw
  · intro hlive
    have hbytes := hall (isEmpty_iff.1 hlive)
    constructor
    case wellFormed => exact h.wellFormed
    case written =>
      rw [hwritten, flatMap_append, append_assoc, ← hbytes]
      congr 1
      rcases hno with hno | hno
      · rw [show (s.channelSendPacketList list ws).out = s.out from rfl, hno]
        simp
      · rw [show (s.channelSendPacketList list ws).out = s.out from rfl, hno]
        simp
    case nodup => exact hnodup
    case mem => exact hmem
    case inOrder => exact horder
    case number =>
      intro m hm
      have hlen : (s.channelSendPacketList list ws).queued.length =
          s.queued.length + list.length := by
        simp [Output.channelSendPacketList, Output.replies]
      rw [hlen]
      rcases mem_append.1 hm with hm | hm
      · exact (h.number m hm).trans_le (Nat.le_add_right _ _)
      · exact (mem_replies hm).2.2

omit h in
theorem owner_of_mem_content (m : Queued) (b : Queued × Octet) (h : b ∈ m.content) : b.1 = m := by
  obtain ⟨o, -, rfl⟩ := mem_map.1 h
  rfl

omit h in
theorem owner_of_mem_flatMap {ms : List Queued} {b : Queued × Octet}
    (h : b ∈ ms.flatMap content) : b.1 ∈ ms := by
  obtain ⟨m, hm, hb⟩ := mem_flatMap.1 h
  rwa [owner_of_mem_content m b hb]

theorem Tracks.not_intact (hpart : started content s.out ≠ [])
    (hx : (s.sending list ws).1 ≠ []) :
    ¬ (s.channelSendPacketList list ws).Intact := by
  rintro ⟨order, hpre, -⟩
  have hreply := (s.sendPacketListLoop_replies list ws).1
  obtain ⟨b, post, hb⟩ := exists_cons_of_ne_nil hx
  have hwf := h.wellFormed
  have hnodup := h.nodup
  have hmem := h.mem
  have hwritten := h.written
  cases hout : s.out with
  | nil => rw [hout] at hpart; exact hpart rfl
  | cons e l =>
    rw [hout] at hpart hwf hnodup hmem hwritten
    have hqueued : e.item ∈ s.queued := hmem _ (by simp)
    have hpos : 0 < e.offset := by
      rcases Nat.eq_zero_or_pos e.offset with h0 | h0
      · rw [started, h0, take_zero] at hpart
        exact absurd rfl hpart
      · exact h0
    have hlt : e.offset < e.item.content.length := by
      rcases hwf.1 with h0 | h0
      · omega
      · exact h0
    have hdone : ∀ b ∈ done.flatMap content, b.1 ≠ e.item := by
      intro b hb heq
      have hb := owner_of_mem_flatMap hb
      rw [heq] at hb
      exact disjoint_of_nodup_append hnodup hb (by simp)
    have hother : b.1 ≠ e.item := by
      intro heq
      have hmem := owner_of_mem_flatMap (hreply.subset (by rw [hb]; exact mem_cons_self))
      rw [heq] at hmem
      exact absurd (h.number _ hqueued) (not_lt.2 (mem_replies hmem).2.1)
    rw [Output.channelSendPacketList, hwritten, hb] at hpre
    exact not_prefix_of_interrupted owner_of_mem_content hpos hlt hdone hother hpre

omit h in
/-- Before each call: what is written is intact, and tracked as long as there are calls. -/
def Inv (s : Output) : Prop := s.Intact ∧ (s.live → ∃ done, s.Tracks done)

theorem inv_of_tracks : s.Inv :=
  ⟨h.intact, fun _ => ⟨done, h⟩⟩

theorem Tracks.congr {s' : Output} (hout : s'.out = s.out)
    (hqueued : s'.queued = s.queued) (hwritten : s'.written = s.written) : s'.Tracks done := by
  obtain ⟨out, queued, written, live⟩ := s
  obtain ⟨out', queued', written', live'⟩ := s'
  subst hout hqueued hwritten
  exact ⟨h.wellFormed, h.written, h.nodup, h.mem, h.inOrder, h.number⟩

omit h

theorem inv_call (h : s.Inv) {c : Call} (hno : ¬ s.Interrupts c) : (s.call c).Inv := by
  unfold call
  by_cases hlive : s.live
  · obtain ⟨done, ht⟩ := h.2 hlive
    rw [if_pos hlive]
    cases c with
    | sendPacket bytes w =>
      obtain ⟨done', ht'⟩ := (ht.channelSendPacketByEvent bytes).writeOut w
      exact inv_of_tracks ht'
    | sendPacketByEvent bytes => exact inv_of_tracks (ht.channelSendPacketByEvent bytes)
    | sendPacketList list ws =>
      have hfree : started content s.out = [] ∨
          (s.sending list ws).1 = [] := by
        by_contra hboth
        rw [not_or] at hboth
        exact hno ⟨hlive, hboth.1, hboth.2⟩
      obtain ⟨hintact, htracks⟩ := ht.channelSendPacketList hfree
      exact ⟨hintact, fun hl => ⟨_, htracks hl⟩⟩
    | write w =>
      obtain ⟨done', ht'⟩ := ht.writeOut w
      exact inv_of_tracks (ht'.congr rfl rfl rfl)
  · rw [if_neg hlive]
    exact h

theorem intact_call_iff (h : s.Inv) (c : Call) : (s.call c).Intact ↔ ¬ s.Interrupts c := by
  refine ⟨?_, fun hno => (inv_call h hno).1⟩
  intro hintact hinter
  cases c with
  | sendPacketList list ws =>
    obtain ⟨hlive, hpart, hx⟩ := hinter
    obtain ⟨done, ht⟩ := h.2 hlive
    rw [call, if_pos hlive] at hintact
    exact ht.not_intact hpart hx hintact
  | sendPacket bytes w => exact hinter
  | sendPacketByEvent bytes => exact hinter
  | write w => exact hinter

/-- Along every sequence of calls and every behaviour of the session, what is written is intact after
each call if and only if no list of replies is written while a message of the output list is written
in part. -/
theorem calls_intact_iff (cs : List Call) :
    Trace.EveryStep call (fun s c => (s.call c).Intact) initial cs ↔
      Trace.EveryStep call (fun s c => ¬ s.Interrupts c) initial cs := by
  apply Trace.EveryStep.iff_of_invariant _ _ (inv_of_tracks tracks_initial)
  · intro s c hs
    exact intact_call_iff hs c
  · intro s c hs hno
    exact inv_call hs hno

/-- A message of two bytes of which the session takes one, and then a reply. -/
def replyInBetween : List Call := [.sendPacket [1, 2] (some 1), .sendPacketList [[3]] [some 1]]

/-- The reply is written after the first byte of the message. -/
theorem replyInBetween_not_intact :
    ((replyInBetween.foldl call initial).written.map Prod.snd = [1, 3]) ∧
      ¬ (replyInBetween.foldl call initial).Intact ∧
      ¬ Trace.EveryStep call (fun s c => (s.call c).Intact) initial replyInBetween := by
  have hfirst : (initial.call (.sendPacket [1, 2] (some 1))).Inv :=
    inv_call (inv_of_tracks tracks_initial) (by decide)
  have hnot : ¬ (replyInBetween.foldl call initial).Intact := by
    intro hintact
    exact (intact_call_iff hfirst (.sendPacketList [[3]] [some 1])).1 hintact (by decide)
  exact ⟨by decide, hnot, fun hrun => hnot hrun.2.1⟩

end Output

end Lagopus
