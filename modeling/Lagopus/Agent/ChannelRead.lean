import Lagopus.Lib.Framing
import Lagopus.Lib.Octets

/-!
# Reading from a controller

A read appends to the input buffer of the channel whatever the session has for it, as far as there is
room.  Then the complete messages at its beginning are cut off and queued for the handler thread; what
is left goes to the beginning of a new buffer.

* `channelReadLoop`: the loop that cuts off messages, for a number of rounds;
* `not_returns_of_zero`: it does not return from a message of length zero;
* `Reading.length_lt`: what it leaves is not the whole buffer;
* `channelRead_splits_iff`: what has been queued is the split of what has been received, as long as no
  message announces less than its header.
-/

namespace Lagopus

open Framing

/-- `OFP_PBUF_SIZE`. -/
def ofpPbufSize : Nat := 64 * 1024

variable (bytes : List Octet)

/-- The length field of an OpenFlow header. -/
def ofpHeaderLength : Nat := Octets.toNat ((bytes.drop 2).take 2)

/-- `ofp_header_decode_sneak`, as far as the length goes. -/
def ofpHeaderDecodeSneak : Option Nat :=
  if bytes.length < 8 then none else some (ofpHeaderLength bytes)

/-- `channel_packet_ready`. -/
def channelPacketReady : Option Nat :=
  match ofpHeaderDecodeSneak bytes with
  | none => none
  | some length => if bytes.length < length then none else some length

/-- `channelq_data_create`: the message that is queued, and the new input buffer. -/
def channelqDataCreate : Option (List Octet × List Octet) :=
  (channelPacketReady bytes).map fun length => (bytes.take length, bytes.drop length)

/-- The loop of `channel_read`, with the messages that it queues; `none` when it needs more rounds. -/
def channelReadLoop : Nat → List Octet → Option (List (List Octet) × List Octet)
  | 0, _ => none
  | rounds + 1, bytes =>
    match channelqDataCreate bytes with
    | none => some ([], bytes)
    | some (pbuf, bytes) => (channelReadLoop rounds bytes).map fun r => (pbuf :: r.1, r.2)

/-- The loop ends with these messages queued and this input buffer. -/
def ChannelReadReturns (queued : List (List Octet)) (left : List Octet) : Prop :=
  ∃ rounds, channelReadLoop rounds bytes = some (queued, left)

/-- What reads can lead to: the bytes received so far, the messages queued and the input buffer. -/
inductive Reading : List Octet → List (List Octet) → List Octet → Prop
  | start : Reading [] [] []
  /-- `session_read` returns no more bytes than there is room for. -/
  | read {received left left' bytes : List Octet} {queued queued' : List (List Octet)} :
      Reading received queued left → left.length + bytes.length ≤ ofpPbufSize →
      ChannelReadReturns (left ++ bytes) queued' left' →
      Reading (received ++ bytes) (queued ++ queued') left'

/-! ## Messages as frames -/

variable {l left received : List Octet}

theorem ofpHeaderLength_append (h : 8 ≤ l.length) (m : List Octet) :
    ofpHeaderLength (l ++ m) = ofpHeaderLength l := by
  unfold ofpHeaderLength
  rw [List.drop_append_of_le_length (by omega), List.take_append_of_le_length]
  rw [List.length_drop]
  omega

theorem ofpHeaderLength_lt (l : List Octet) : ofpHeaderLength l < 65536 := by
  have hlen : ((l.drop 2).take 2).length ≤ 2 := by
    rw [List.length_take]
    omega
  exact (Octets.toNat_lt _).trans_le (Nat.pow_le_pow_right (by omega) hlen)

theorem ofpHeaderDecodeSneak_eq_some {k : Nat} :
    ofpHeaderDecodeSneak l = some k ↔ 8 ≤ l.length ∧ ofpHeaderLength l = k := by
  unfold ofpHeaderDecodeSneak
  split_ifs with h
  · simp [not_le.2 h]
  · simp [not_lt.1 h]

/-- OpenFlow messages are frames. -/
def ofpHeader : Header Octet where
  least := 8
  least_pos := by decide
  announced := ofpHeaderDecodeSneak
  isSome_iff l := by
    rw [Option.isSome_iff_exists]
    simp [ofpHeaderDecodeSneak_eq_some]
  announced_append {l k} m h := by
    rw [ofpHeaderDecodeSneak_eq_some] at h ⊢
    refine ⟨by rw [List.length_append]; omega, ?_⟩
    rw [ofpHeaderLength_append h.1, h.2]

theorem channelPacketReady_eq_some {k : Nat} :
    channelPacketReady l = some k ↔ ofpHeaderDecodeSneak l = some k ∧ k ≤ l.length := by
  unfold channelPacketReady
  cases ofpHeaderDecodeSneak l with
  | none => simp
  | some length =>
    simp only [Option.some.injEq]
    split_ifs with h
    · simp only [false_iff]
      rintro ⟨rfl, hle⟩
      omega
    · simp only [Option.some.injEq]
      constructor
      · rintro rfl
        exact ⟨rfl, not_lt.1 h⟩
      · exact fun hk => hk.1

theorem channelqDataCreate_of_ready {k : Nat} (hk : ofpHeaderDecodeSneak l = some k) (hlen : k ≤ l.length) :
    channelqDataCreate l = some (l.take k, l.drop k) := by
  rw [channelqDataCreate, channelPacketReady_eq_some.2 ⟨hk, hlen⟩, Option.map_some]

theorem channelqDataCreate_eq_none : channelqDataCreate l = none ↔ Incomplete ofpHeader l := by
  rw [channelqDataCreate, Option.map_eq_none_iff, Option.eq_none_iff_forall_ne_some]
  simp only [ne_eq, channelPacketReady_eq_some, not_and, not_le]
  exact Iff.rfl

/-! ## The loop -/

theorem channelReadReturns_of_splits {rest : List Octet} {ms : List (List Octet)}
    (h : Splits ofpHeader l ms rest) : ChannelReadReturns l ms rest := by
  induction h with
  | rest hinc => exact ⟨1, by rw [channelReadLoop, channelqDataCreate_eq_none.2 hinc]⟩
  | frame hk _ hlen _ ih =>
    obtain ⟨rounds, ih⟩ := ih
    exact ⟨rounds + 1, by simp [channelReadLoop, channelqDataCreate_of_ready hk hlen, ih]⟩

variable {queued : List (List Octet)}

theorem ChannelReadReturns.unique {left' : List Octet} {queued' : List (List Octet)}
    (h : ChannelReadReturns l queued left) (h' : ChannelReadReturns l queued' left') :
    queued = queued' ∧ left = left' := by
  obtain ⟨rounds, h⟩ := h
  obtain ⟨rounds', h'⟩ := h'
  induction rounds generalizing rounds' l queued queued' with
  | zero => cases h
  | succ rounds ih =>
    cases rounds' with
    | zero => cases h'
    | succ rounds' =>
      rw [channelReadLoop] at h h'
      cases hcut : channelqDataCreate l with
      | none =>
        rw [hcut] at h h'
        cases h
        cases h'
        exact ⟨rfl, rfl⟩
      | some cut =>
        rw [hcut] at h h'
        obtain ⟨r, hr, heq⟩ := Option.map_eq_some_iff.1 h
        obtain ⟨r', hr', heq'⟩ := Option.map_eq_some_iff.1 h'
        cases heq
        cases heq'
        obtain ⟨hms, hleft⟩ := ih hr rounds' hr'
        exact ⟨by rw [hms], hleft⟩

/-- A message of length zero is queued over and over. -/
theorem not_returns_of_zero (hlen : 8 ≤ l.length) (hzero : ofpHeaderLength l = 0)
    (queued : List (List Octet)) (left : List Octet) : ¬ ChannelReadReturns l queued left := by
  rintro ⟨rounds, h⟩
  induction rounds generalizing queued with
  | zero => cases h
  | succ rounds ih =>
    have hcut := channelqDataCreate_of_ready (ofpHeaderDecodeSneak_eq_some.2 ⟨hlen, hzero⟩) (Nat.zero_le _)
    rw [channelReadLoop, hcut] at h
    obtain ⟨r, hr, heq⟩ := Option.map_eq_some_iff.1 h
    cases heq
    exact ih _ hr

/-! ## Reads -/

theorem length_lt_of_incomplete (h : Incomplete ofpHeader l) : l.length < ofpPbufSize := by
  by_cases hlen : 8 ≤ l.length
  · have hlt := h _ (ofpHeaderDecodeSneak_eq_some.2 ⟨hlen, rfl⟩)
    exact hlt.trans (ofpHeaderLength_lt l)
  · unfold ofpPbufSize
    omega

theorem Reading.splits (h : Reading received queued left) (hsize : ¬ Undersized ofpHeader received) :
    Splits ofpHeader received queued left := by
  induction h with
  | start => exact .rest (by intro k hk; cases hk)
  | @read received left left' bytes queued queued' _ _ hret ih =>
    have hbefore := ih fun hu => hsize (hu.append bytes)
    rw [hbefore.undersized_append] at hsize
    obtain ⟨ms, rest, hsplits⟩ := splits_iff_not_undersized.2 hsize
    obtain ⟨rfl, rfl⟩ := hret.unique (channelReadReturns_of_splits hsplits)
    exact hbefore.append hsplits

/-- After every read that follows on any others, what has been queued is the only split of what has
been received, with the rest kept in a buffer that has room for more, if and only if no message has
announced less than its header. -/
theorem channelRead_splits_iff {received left : List Octet} {queued : List (List Octet)}
    (h : Reading received queued left) (bytes : List Octet) :
    (∃ queued' left', ChannelReadReturns (left ++ bytes) queued' left' ∧
      Splits ofpHeader (received ++ bytes) (queued ++ queued') left' ∧
      (∀ ms rest, Splits ofpHeader (received ++ bytes) ms rest →
        ms = queued ++ queued' ∧ rest = left') ∧
      left'.length < ofpPbufSize) ↔
    ¬ Undersized ofpHeader (received ++ bytes) := by
  constructor
  · rintro ⟨queued', left', -, hsplits, -⟩
    exact hsplits.not_undersized
  · intro hsize
    have hbefore := h.splits fun hu => hsize (hu.append bytes)
    have hrest := hsize
    rw [hbefore.undersized_append] at hrest
    obtain ⟨queued', left', hnew⟩ := splits_iff_not_undersized.2 hrest
    have hsplits := hbefore.append hnew
    exact ⟨queued', left', channelReadReturns_of_splits hnew, hsplits,
      fun ms rest hother => hother.unique hsplits, length_lt_of_incomplete hnew.incomplete⟩

/-- A header that announces nothing. -/
def zeroLength : List Octet := [4, 0, 0, 0, 0, 0, 0, 1]

/-- The first read may be the last one: the loop does not return. -/
theorem zeroLength_loops :
    Reading [] [] [] ∧ zeroLength.length ≤ ofpPbufSize ∧
      ∀ queued left, ¬ ChannelReadReturns ([] ++ zeroLength) queued left :=
  ⟨.start, by decide, not_returns_of_zero (by decide) (by decide)⟩

/-- Two messages, of which the second is cut. -/
def helloAndMore : List Octet := [4, 0, 0, 8, 0, 0, 0, 1, 4, 5, 0]

theorem helloAndMore_splits : Splits ofpHeader helloAndMore [[4, 0, 0, 8, 0, 0, 0, 1]] [4, 5, 0] :=
  .frame (l := helloAndMore) (k := 8) rfl (by decide) (by decide) (.rest (by intro k hk; cases hk))

theorem channelRead_splits_iff_hello :
    helloAndMore.length ≤ ofpPbufSize ∧ ∃ queued left,
      ChannelReadReturns helloAndMore queued left ∧ Splits ofpHeader helloAndMore queued left := by
  refine ⟨by decide, ?_⟩
  obtain ⟨queued, left, hret, hsplits, -⟩ :=
    (channelRead_splits_iff .start helloAndMore).2 helloAndMore_splits.not_undersized
  exact ⟨queued, left, hret, hsplits⟩

end Lagopus
