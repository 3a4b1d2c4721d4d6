import Lagopus.Lib.Octets

/-!
# Packet buffers

A `struct pbuf` is a piece of memory with a cursor for reading and one for writing.  Its `plen` stands for
what is left to read, or for the room that is left to write to, and is kept apart from the cursors.

* `pbufCopy`, `pbufAppend`, `pbufLengthGet`: the functions of `pbuf.c` that move bytes between buffers;
* `Pbuf.filled`: a buffer that was written from its beginning and not read;
* `pbufAppend_filled`, `pbufCopy_filled`: what is written there comes behind what was there.
-/

namespace Lagopus.Pbufs

open List

/-- `struct pbuf`, with the cursors as positions in the data. -/
structure Pbuf where
  data : List Octet
  getp : Nat
  putp : Nat
  plen : Nat
deriving DecidableEq

inductive PbufError
  /-- `LAGOPUS_RESULT_OUT_OF_RANGE`. -/
  | outOfRange
  /-- Memory beyond the buffer is read or written. -/
  | overrun
deriving DecidableEq

/-- `PBUF_MIN_SIZE`. -/
def PBUF_MIN_SIZE : Nat := 1024

/-- `OFP_PACKET_MAX_SIZE`. -/
def OFP_PACKET_MAX_SIZE : Nat := 64 * 1024 - 1

/-- `pbuf_alloc`. -/
def pbufAlloc (size : Nat) : Pbuf :=
  { data := List.replicate (if size < PBUF_MIN_SIZE then PBUF_MIN_SIZE else size) 0
    getp := 0
    putp := 0
    plen := 0 }

namespace Pbuf

/-- The bytes between the cursors. -/
def unread (p : Pbuf) : List Octet := (p.data.drop p.getp).take (p.putp - p.getp)

/-- The cursors are in order, and in the data. -/
structure Sound (p : Pbuf) : Prop where
  ordered : p.getp ≤ p.putp
  inside : p.putp ≤ p.data.length

/-- Bytes are written at `putp`. -/
def store (p : Pbuf) (l : List Octet) : Except PbufError Pbuf :=
  if p.putp + l.length ≤ p.data.length then
    .ok { p with
      data := p.data.take p.putp ++ (l ++ p.data.drop (p.putp + l.length))
      putp := p.putp + l.length }
  else .error .overrun

/-- The bytes at `getp`. -/
def fetch (p : Pbuf) (length : Nat) : Except PbufError (List Octet) :=
  if p.getp + length ≤ p.data.length then .ok ((p.data.drop p.getp).take length) else .error .overrun

/-- `pbuf_reset`. -/
def reset (p : Pbuf) : Pbuf := { p with getp := 0, putp := 0, plen := 0 }

/-- `pbuf_info_load`, from a stored `info`. -/
def infoLoad (p info : Pbuf) : Pbuf := { p with putp := info.putp, getp := info.getp, plen := info.plen }

end Pbuf

/-- `copy`, from the read cursor on. -/
def copy (dst src : Pbuf) (length : Nat) : Except PbufError Pbuf := do
  dst.store (← src.fetch length)

/-- `pbuf_copy`. -/
def pbufCopy (dst src : Pbuf) : Except PbufError Pbuf :=
  let length := src.putp - src.getp
  if src.getp ≤ src.putp ∧ length ≤ dst.data.length then
    (copy dst src length).map fun p => { p with plen := p.plen + length }
  else .error .outOfRange

/-- `pbuf_append`. -/
def pbufAppend (dst src : Pbuf) : Except PbufError Pbuf :=
  let length := src.putp - src.getp
  if src.getp ≤ src.putp ∧ length ≤ dst.plen then
    (copy dst src length).map fun p => { p with plen := p.plen - length }
  else .error .outOfRange

/-- `pbuf_length_get`. -/
def pbufLengthGet (p : Pbuf) : Except PbufError (BitVec 16) :=
  if p.getp ≤ p.putp then
    let length := BitVec.ofNat 16 (p.putp - p.getp)
    if p.getp + length.toNat = p.putp then .ok length else .error .outOfRange
  else .error .outOfRange

/-! ## Buffers that are written -/

namespace Pbuf

/-- A buffer with `msg` in it, and `rest` in the memory behind. -/
def filled (msg rest : List Octet) (plen : Nat) : Pbuf := ⟨msg ++ rest, 0, msg.length, plen⟩

variable {msg rest l : List Octet} {plen : Nat} {src : Pbuf}

@[simp]
theorem unread_filled (msg rest : List Octet) (plen : Nat) : (filled msg rest plen).unread = msg := by
  simp [unread, filled]

theorem sound_filled (msg rest : List Octet) (plen : Nat) : (filled msg rest plen).Sound :=
  ⟨Nat.zero_le _, by simp [filled]⟩

theorem Sound.length_unread (h : src.Sound) : src.unread.length = src.putp - src.getp := by
  have := h.inside
  rw [unread, length_take, length_drop]
  omega

theorem Sound.fetch_eq (h : src.Sound) : src.fetch (src.putp - src.getp) = .ok src.unread := by
  have hin := h.inside
  have hord := h.ordered
  rw [fetch, if_pos (by omega)]
  rfl

theorem store_filled (h : l.length ≤ rest.length) :
    (filled msg rest plen).store l = .ok (filled (msg ++ l) (rest.drop l.length) plen) := by
  have hfits : msg.length + l.length ≤ (msg ++ rest).length := by
    rw [length_append]
    omega
  rw [store, filled, if_pos hfits]
  simp only [filled, take_left, drop_length_add_append, append_assoc, length_append]

theorem store_reset_filled (h : l.length ≤ msg.length) (n : Nat) :
    ({ (filled msg rest plen).reset with plen := n }).store l =
      .ok ⟨l ++ (msg.drop l.length ++ rest), 0, l.length, n⟩ := by
  have hfits : l.length ≤ (msg ++ rest).length := by
    rw [length_append]
    omega
  simp only [store, filled, reset, Nat.zero_add, if_pos hfits, take_zero, nil_append,
    drop_append_of_le_length h]

theorem fetch_head (l m : List Octet) (putp plen : Nat) :
    (⟨l ++ m, 0, putp, plen⟩ : Pbuf).fetch l.length = .ok l := by
  have hin : 0 + l.length ≤ (l ++ m).length := by
    rw [length_append]
    omega
  rw [fetch, if_pos hin, drop_zero, take_left]

end Pbuf

section

open Pbuf

variable {msg rest : List Octet} {plen : Nat} {src : Pbuf} (hsrc : src.Sound)

include hsrc

theorem copy_filled (hroom : src.unread.length ≤ rest.length) :
    copy (filled msg rest plen) src (src.putp - src.getp) =
      .ok (filled (msg ++ src.unread) (rest.drop src.unread.length) plen) := by
  rw [copy, hsrc.fetch_eq]
  exact store_filled hroom

theorem pbufAppend_filled (hplen : src.unread.length ≤ plen) (hroom : src.unread.length ≤ rest.length) :
    pbufAppend (filled msg rest plen) src =
      .ok (filled (msg ++ src.unread) (rest.drop src.unread.length)
        (plen - src.unread.length)) := by
  have hcond : src.getp ≤ src.putp ∧ src.putp - src.getp ≤ (filled msg rest plen).plen :=
    ⟨hsrc.ordered, hsrc.length_unread ▸ hplen⟩
  rw [pbufAppend, if_pos hcond, copy_filled hsrc hroom, hsrc.length_unread]
  rfl

theorem pbufAppend_outOfRange (hplen : plen < src.unread.length) :
    pbufAppend (filled msg rest plen) src = .error .outOfRange := by
  rw [hsrc.length_unread] at hplen
  have hcond : ¬ (src.getp ≤ src.putp ∧ src.putp - src.getp ≤ (filled msg rest plen).plen) :=
    fun h => absurd h.2 (Nat.not_le.2 hplen)
  rw [pbufAppend, if_neg hcond]

theorem pbufCopy_filled (hroom : src.unread.length ≤ rest.length) : pbufCopy (filled msg rest plen) src =
      .ok (filled (msg ++ src.unread) (rest.drop src.unread.length)
        (plen + src.unread.length)) := by
  have hcond : src.getp ≤ src.putp ∧
      src.putp - src.getp ≤ (filled msg rest plen).data.length := by
    refine ⟨hsrc.ordered, ?_⟩
    rw [← hsrc.length_unread, filled, length_append]
    omega
  rw [pbufCopy, if_pos hcond, copy_filled hsrc hroom, hsrc.length_unread]
  rfl

omit hsrc

theorem pbufLengthGet_filled (h : msg.length < 2 ^ 16) :
    pbufLengthGet (filled msg rest plen) = .ok (BitVec.ofNat 16 msg.length) := by
  have hlength : 0 + (BitVec.ofNat 16 (msg.length - 0)).toNat = msg.length := by
    rw [BitVec.toNat_ofNat, Nat.mod_eq_of_lt] <;> omega
  rw [pbufLengthGet, filled, if_pos (Nat.zero_le _), if_pos hlength, Nat.sub_zero]

end

end Lagopus.Pbufs
