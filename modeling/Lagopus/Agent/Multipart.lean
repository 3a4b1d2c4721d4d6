import Mathlib.Tactic

/-!
# Multipart requests

A multipart request arrives in fragments with one transaction id.  A channel keeps the fragments of at
most sixteen requests until the last one of a request is there.

* `channelMultipartPut`, `channelMultipartGet`: the slots of a channel;
* `channelMultipartGet_of_put`: what is reassembled when the last fragment has come;
* `channelMultipartPut_all`, `channelMultipartGet_all`: slots add no fragments of their own.
-/

namespace Lagopus

variable {φ : Type}

/-- A used `struct multipart`: the header's transaction id, the type, and the fragments. -/
structure Multipart (φ : Type) where
  xid : BitVec 32
  multipartType : BitVec 16
  multipartList : List φ
  deriving DecidableEq, Repr

/-- The slots of a channel, `none` where `used` is 0. -/
abbrev MultipartSlots (φ : Type) := List (Option (Multipart φ))

/-- `CHANNEL_SIMULTANEOUS_MULTIPART_MAX` unused slots. -/
def MultipartSlots.init (φ : Type) : MultipartSlots φ := List.replicate 16 none

/-- Why a fragment is not taken. -/
inductive MultipartError where
  | ofpError
  | noMemory
  deriving DecidableEq, Repr

/-- The request that the loops stop at. -/
def multipartFind (xid : BitVec 32) : MultipartSlots φ → Option (Multipart φ)
  | [] => none
  | none :: slots => multipartFind xid slots
  | some m :: slots => if m.xid = xid then some m else multipartFind xid slots

/-- One more fragment for the request at which the loop stops. -/
def multipartAppend (xid : BitVec 32) (pbuf : φ) : MultipartSlots φ → MultipartSlots φ
  | [] => []
  | none :: slots => none :: multipartAppend xid pbuf slots
  | some m :: slots =>
    if m.xid = xid then some { m with multipartList := m.multipartList ++ [pbuf] } :: slots
    else some m :: multipartAppend xid pbuf slots

/-- The last unused slot is taken. -/
def multipartFill (new : Multipart φ) : MultipartSlots φ → Option (MultipartSlots φ)
  | [] => none
  | slot :: slots =>
    match multipartFill new slots, slot with
    | some filled, _ => some (slot :: filled)
    | none, none => some (some new :: slots)
    | none, some _ => none

/-- `channel_multipart_put`. -/
def channelMultipartPut (slots : MultipartSlots φ) (pbuf : φ) (xid : BitVec 32)
    (mtype : BitVec 16) : Except MultipartError (MultipartSlots φ) :=
  match multipartFind xid slots with
  | some m =>
    if m.multipartType ≠ mtype then .error .ofpError
    else .ok (multipartAppend xid pbuf slots)
  | none =>
    match multipartFill ⟨xid, mtype, [pbuf]⟩ slots with
    | none => .error .noMemory
    | some slots => .ok slots

/-- `channel_multipart_get`: the fragments of a request, and its slot unused again. -/
def channelMultipartGet (xid : BitVec 32) (mtype : BitVec 16) :
    MultipartSlots φ → Option (List φ × MultipartSlots φ)
  | [] => none
  | none :: slots =>
    (channelMultipartGet xid mtype slots).map fun r => (r.1, none :: r.2)
  | some m :: slots =>
    if m.xid = xid ∧ m.multipartType = mtype then some (m.multipartList, none :: slots)
    else (channelMultipartGet xid mtype slots).map fun r => (r.1, some m :: r.2)

/-- The fragments a channel holds of the request with a transaction id. -/
def multipartHeld (xid : BitVec 32) (slots : MultipartSlots φ) : List φ :=
  (multipartFind xid slots).elim [] fun m => m.multipartList

variable {xid : BitVec 32} {slots : MultipartSlots φ}

theorem channelMultipartGet_append {m : Multipart φ} (h : multipartFind xid slots = some m) (pbuf : φ) :
    ∃ rest, channelMultipartGet xid m.multipartType (multipartAppend xid pbuf slots) =
      some (m.multipartList ++ [pbuf], rest) := by
  induction slots with
  | nil => cases h
  | cons slot slots ih =>
    cases slot with
    | none =>
      obtain ⟨rest, hrest⟩ := ih h
      exact ⟨none :: rest, by simp [multipartAppend, channelMultipartGet, hrest]⟩
    | some m' =>
      by_cases hxid : m'.xid = xid
      · rw [multipartFind, if_pos hxid] at h
        cases h
        exact ⟨none :: slots, by simp [multipartAppend, channelMultipartGet, hxid]⟩
      · rw [multipartFind, if_neg hxid] at h
        obtain ⟨rest, hrest⟩ := ih h
        exact ⟨some m' :: rest, by simp [multipartAppend, channelMultipartGet, hxid, hrest]⟩

variable {mtype : BitVec 16} {pbuf : φ}

theorem channelMultipartGet_fill : ∀ {slots filled : MultipartSlots φ}, multipartFind xid slots = none →
      multipartFill ⟨xid, mtype, [pbuf]⟩ slots = some filled →
      ∃ rest, channelMultipartGet xid mtype filled = some ([pbuf], rest) := by
  intro slots
  induction slots with
  | nil =>
    intro filled _ h
    cases h
  | cons slot slots ih =>
    intro filled hfind hfill
    -- no slot before the new one has this transaction id
    have hslots : multipartFind xid slots = none := by
      cases slot with
      | none => exact hfind
      | some m =>
        rw [multipartFind] at hfind
        split_ifs at hfind
        exact hfind
    cases hrec : multipartFill ⟨xid, mtype, [pbuf]⟩ slots with
    | some later =>
      obtain ⟨rest, hrest⟩ := ih hslots hrec
      have hfilled : filled = slot :: later := by
        simpa [multipartFill, hrec] using hfill.symm
      subst hfilled
      cases slot with
      | none => exact ⟨none :: rest, by simp [channelMultipartGet, hrest]⟩
      | some m =>
        have hne : m.xid ≠ xid := by
          intro hxid
          rw [multipartFind, if_pos hxid] at hfind
          cases hfind
        exact ⟨some m :: rest, by simp [channelMultipartGet, hne, hrest]⟩
    | none =>
      cases slot with
      | none =>
        have hfilled : filled = some ⟨xid, mtype, [pbuf]⟩ :: slots := by
          simpa [multipartFill, hrec] using hfill.symm
        exact ⟨none :: slots, by simp [hfilled, channelMultipartGet]⟩
      | some m => simp [multipartFill, hrec] at hfill

variable {put : MultipartSlots φ}

/-- The request that a last fragment completes: what the channel holds already, and the fragment. -/
theorem channelMultipartGet_of_put (h : channelMultipartPut slots pbuf xid mtype = .ok put) :
    ∃ rest, channelMultipartGet xid mtype put = some (multipartHeld xid slots ++ [pbuf], rest) := by
  unfold channelMultipartPut at h
  unfold multipartHeld
  cases hfind : multipartFind xid slots with
  | some m =>
    rw [hfind] at h
    simp only at h
    split_ifs at h with htype
    cases h
    rw [not_not] at htype
    rw [← htype]
    exact channelMultipartGet_append hfind pbuf
  | none =>
    rw [hfind] at h
    simp only at h
    cases hfill : multipartFill ⟨xid, mtype, [pbuf]⟩ slots with
    | none =>
      rw [hfill] at h
      cases h
    | some filled =>
      rw [hfill] at h
      cases h
      exact channelMultipartGet_fill hfind hfill

/-! ## What is true of all fragments -/

/-- `P` holds of every fragment that is held. -/
def MultipartSlots.All (P : φ → Prop) (slots : MultipartSlots φ) : Prop :=
  ∀ m, some m ∈ slots → ∀ f ∈ m.multipartList, P f

variable {P : φ → Prop}

theorem MultipartSlots.all_cons {slot : Option (Multipart φ)} : MultipartSlots.All P (slot :: slots) ↔
      (∀ m, slot = some m → ∀ f ∈ m.multipartList, P f) ∧ MultipartSlots.All P slots := by
  simp only [MultipartSlots.All, List.mem_cons, or_imp, forall_and]
  exact and_congr_left' (forall_congr' fun m => by rw [eq_comm])

open MultipartSlots (all_cons)

theorem multipartAppend_all (hp : P pbuf) (h : slots.All P) : (multipartAppend xid pbuf slots).All P := by
  induction slots with
  | nil => exact h
  | cons slot slots ih =>
    rw [all_cons] at h
    cases slot with
    | none => exact all_cons.2 ⟨h.1, ih h.2⟩
    | some m =>
      rw [multipartAppend]
      split_ifs
      · refine all_cons.2 ⟨?_, h.2⟩
        rintro m' ⟨⟩
        exact List.forall_mem_append.2 ⟨h.1 m rfl, List.forall_mem_singleton.2 hp⟩
      · exact all_cons.2 ⟨h.1, ih h.2⟩

theorem multipartFill_all {new : Multipart φ} (hnew : ∀ f ∈ new.multipartList, P f)
    {filled : MultipartSlots φ} (h : slots.All P) (hfill : multipartFill new slots = some filled) :
    filled.All P := by
  induction slots generalizing filled with
  | nil => cases hfill
  | cons slot slots ih =>
    rw [all_cons] at h
    cases hrec : multipartFill new slots with
    | some later =>
      simp only [multipartFill, hrec] at hfill
      cases hfill
      exact all_cons.2 ⟨h.1, ih h.2 hrec⟩
    | none =>
      cases slot with
      | none =>
        simp only [multipartFill, hrec] at hfill
        cases hfill
        refine all_cons.2 ⟨?_, h.2⟩
        intro m hm
        cases hm
        exact hnew
      | some m => simp [multipartFill, hrec] at hfill

theorem channelMultipartPut_all (h : slots.All P) (hp : P pbuf)
    (hput : channelMultipartPut slots pbuf xid mtype = .ok put) : put.All P := by
  unfold channelMultipartPut at hput
  cases hfind : multipartFind xid slots with
  | some m =>
    rw [hfind] at hput
    simp only at hput
    split_ifs at hput
    cases hput
    exact multipartAppend_all hp h
  | none =>
    rw [hfind] at hput
    simp only at hput
    cases hfill : multipartFill ⟨xid, mtype, [pbuf]⟩ slots with
    | none =>
      rw [hfill] at hput
      cases hput
    | some filled =>
      rw [hfill] at hput
      cases hput
      exact multipartFill_all (by simpa using hp) h hfill

theorem channelMultipartGet_all {rest : MultipartSlots φ} {all : List φ} (h : slots.All P)
    (hget : channelMultipartGet xid mtype slots = some (all, rest)) : (∀ f ∈ all, P f) ∧ rest.All P := by
  induction slots generalizing rest with
  | nil => cases hget
  | cons slot slots ih =>
    rw [all_cons] at h
    cases slot with
    | none =>
      obtain ⟨r, hr, heq⟩ := Option.map_eq_some_iff.1 hget
      cases heq
      obtain ⟨hall, hrest⟩ := ih h.2 hr
      exact ⟨hall, all_cons.2 ⟨by simp, hrest⟩⟩
    | some m =>
      rw [channelMultipartGet] at hget
      split_ifs at hget
      · cases hget
        exact ⟨h.1 m rfl, all_cons.2 ⟨by simp, h.2⟩⟩
      · obtain ⟨r, hr, heq⟩ := Option.map_eq_some_iff.1 hget
        cases heq
        obtain ⟨hall, hrest⟩ := ih h.2 hr
        exact ⟨hall, all_cons.2 ⟨h.1, hrest⟩⟩

end Lagopus
