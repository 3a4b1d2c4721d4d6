import Lagopus.Agent.Pbuf
import Lagopus.Agent.Multipart
import Lagopus.Lib.Trace

/-!
# Reassembling multipart requests

The objects of a channel in which fragments wait, with the lengths that are counted beside the buffers,
and the buffer that the fragments of a request are copied to.

* `MultipartObj`, `channelMultipartPut`, `channelMultipartGet`: the code;
* `view`: the slots that the objects stand for; `view_channelMultipartPut`, `view_channelMultipartGet`: the
  code does with the objects what is done with the slots;
* `Desk.step`: fragments arriving on a connection, with those that each unfinished request has so far;
* `reassembly_right`: every interleaving of fragments, and `view_run`: the slots go with the objects.
-/

namespace Lagopus.Reassembly

open Pbufs Pbuf List

/-- `struct multipart`. -/
structure MultipartObj where
  xid : BitVec 32 := 0
  multipartType : BitVec 16 := 0
  used : Bool := false
  len : Nat := 0
  multipartList : List Pbuf := []
deriving DecidableEq

/-- `channel->multipart`, when the channel is allocated. -/
def initial : List MultipartObj := List.replicate 16 {}

/-- The loop of `channel_multipart_put` over the objects that are left, and what comes behind it: `i` is
the index of the first of them, `m` that of the last unused object before them. -/
def putLoop (objs : List MultipartObj) (pbuf : Pbuf) (xid : BitVec 32) (mtype : BitVec 16) :
    List MultipartObj → Nat → Option Nat → Except MultipartError (List MultipartObj)
  | [], _, none => .error .noMemory
  | [], _, some m => .ok (objs.modify m fun o =>
      { xid, multipartType := mtype, used := true, len := pbuf.plen
        multipartList := o.multipartList ++ [pbuf] })
  | o :: left, i, m =>
    if o.used = false then putLoop objs pbuf xid mtype left (i + 1) (some i)
    else if o.xid = xid then
      if o.multipartType ≠ mtype then .error .ofpError
      else .ok (objs.set i
        { o with len := o.len + pbuf.plen, multipartList := o.multipartList ++ [pbuf] })
    else putLoop objs pbuf xid mtype left (i + 1) m

/-- `channel_multipart_put`. -/
def channelMultipartPut (objs : List MultipartObj) (pbuf : Pbuf) (xid : BitVec 32)
    (mtype : BitVec 16) : Except MultipartError (List MultipartObj) :=
  putLoop objs pbuf xid mtype objs 0 none

inductive GetError
  | notFound
  | noMemory
  | overrun
deriving DecidableEq

/-- The loop over the fragments in `channel_multipart_get`. -/
def copyAll (dst : Pbuf) : List Pbuf → Except GetError Pbuf
  | [] => .ok dst
  | p :: ps =>
    match pbufCopy dst p with
    | .ok dst => copyAll dst ps
    | .error .outOfRange => .error .noMemory
    | .error .overrun => .error .overrun

/-- `channel_multipart_get`.  The object is free again whether the fragments were copied or not. -/
def channelMultipartGet (objs : List MultipartObj) (xid : BitVec 32) (mtype : BitVec 16) :
    List MultipartObj × Except GetError Pbuf :=
  match objs.findIdx? fun o => o.used && o.xid = xid && o.multipartType = mtype with
  | none => (objs, .error .notFound)
  | some i =>
    let o := objs.getD i {}
    (objs.set i { o with used := false, multipartList := [] },
      copyAll (pbufAlloc o.len) o.multipartList)

/-- `channel_multipart_used_count_get`. -/
def channelMultipartUsedCountGet (objs : List MultipartObj) : Nat := objs.countP fun o => o.used

/-! ## Fragments -/

/-- A fragment that was decoded.  `channelq_data_create` cuts messages off with their length in `plen`, and
decoding takes as much from `plen` as it reads. -/
structure Fragment where
  xid : BitVec 32
  type : BitVec 16
  flags : BitVec 16
  pbuf : Pbuf
  sound : pbuf.Sound
  plen_eq : pbuf.plen = pbuf.unread.length

inductive Outcome
  | refused (e : MultipartError)
  | kept
  | complete (all : Except GetError Pbuf)
deriving DecidableEq

/-- `ofp_multipart_request_handle`, from the checks of a fragment to the handler of its request. -/
def takeFragment (objs : List MultipartObj) (f : Fragment) : List MultipartObj × Outcome :=
  match channelMultipartPut objs f.pbuf f.xid f.type with
  | .error e => (objs, .refused e)
  | .ok objs =>
    if f.flags = 0 then
      ((channelMultipartGet objs f.xid f.type).1, .complete (channelMultipartGet objs f.xid f.type).2)
    else (objs, .kept)

/-- A channel, with the requests that are not finished and the fragments that came for each. -/
structure Desk where
  objs : List MultipartObj := initial
  unfinished : Finset (BitVec 32) := ∅
  waiting : BitVec 32 → List Fragment := fun _ => []

/-- The request that is stored under a transaction id. -/
def stored (objs : List MultipartObj) (xid : BitVec 32) : Option MultipartObj :=
  objs.find? fun o => o.used && o.xid = xid

namespace Desk

/-- Another request while sixteen are not finished. -/
def Refuses (s : Desk) (f : Fragment) : Prop := f.xid ∉ s.unfinished ∧ s.unfinished.card = 16

instance (s : Desk) (f : Fragment) : Decidable (s.Refuses f) := inferInstanceAs (Decidable (_ ∧ _))

def step (s : Desk) (f : Fragment) : Desk :=
  if s.Refuses f then { s with objs := (takeFragment s.objs f).1 }
  else if f.flags = 0 then
    { objs := (takeFragment s.objs f).1
      unfinished := s.unfinished.erase f.xid
      waiting := Function.update s.waiting f.xid [] }
  else
    { objs := (takeFragment s.objs f).1
      unfinished := insert f.xid s.unfinished
      waiting := Function.update s.waiting f.xid (s.waiting f.xid ++ [f]) }

/-- All fragments of a request have its type. -/
def SameType (s : Desk) (f : Fragment) : Prop := ∀ g ∈ s.waiting f.xid, g.type = f.type

/-- What is asked of a fragment that arrives. -/
structure Right (s : Desk) (f : Fragment) : Prop where
  refused : s.Refuses f → takeFragment s.objs f = (s.objs, .refused .noMemory)
  kept : ¬ s.Refuses f → f.flags ≠ 0 → (takeFragment s.objs f).2 = .kept
  complete : ¬ s.Refuses f → f.flags = 0 → ∃ all, (takeFragment s.objs f).2 = .complete (.ok all) ∧
    all.unread = (s.waiting f.xid ++ [f]).flatMap (fun g => g.pbuf.unread) ∧
    all.plen = all.unread.length
  freed : f.flags = 0 → stored (s.step f).objs f.xid = none
  others : ∀ xid, xid ≠ f.xid → stored (s.step f).objs xid = stored s.objs xid
  used : channelMultipartUsedCountGet (s.step f).objs = (s.step f).unfinished.card

end Desk

/-! ## Objects -/

/-- Fragments are sound and as long as they say, the length of an object is that of its fragments, and
an unused object has none. -/
structure MultipartObj.Counted (o : MultipartObj) : Prop where
  sound : ∀ p ∈ o.multipartList, p.Sound
  len_eq : o.used = true → o.len = (o.multipartList.flatMap unread).length
  unused : o.used = false → o.multipartList = []

/-- An object that takes another fragment. -/
def MultipartObj.more (o : MultipartObj) (pbuf : Pbuf) : MultipartObj :=
  { o with len := o.len + pbuf.plen, multipartList := o.multipartList ++ [pbuf] }

/-- An unused object that takes the first fragment of a request. -/
def MultipartObj.taken (o : MultipartObj) (pbuf : Pbuf) (xid : BitVec 32) (mtype : BitVec 16) :
    MultipartObj :=
  { xid, multipartType := mtype, used := true, len := pbuf.plen
    multipartList := o.multipartList ++ [pbuf] }

/-- The object is not that of the request. -/
def MultipartObj.Other (xid : BitVec 32) (o : MultipartObj) : Prop := o.used = true → o.xid ≠ xid

/-- How a fragment is put. -/
inductive Put (objs : List MultipartObj) (pbuf : Pbuf) (xid : BitVec 32) (mtype : BitVec 16) :
    Except MultipartError (List MultipartObj) → Prop
  | appended {before after : List MultipartObj} {o : MultipartObj} :
      objs = before ++ o :: after → (∀ o ∈ before, o.Other xid) → o.used = true → o.xid = xid →
      o.multipartType = mtype → Put objs pbuf xid mtype (.ok (before ++ o.more pbuf :: after))
  | mismatch {before after : List MultipartObj} {o : MultipartObj} :
      objs = before ++ o :: after → (∀ o ∈ before, o.Other xid) → o.used = true → o.xid = xid →
      o.multipartType ≠ mtype → Put objs pbuf xid mtype (.error .ofpError)
  | filled {before after : List MultipartObj} {o : MultipartObj} :
      objs = before ++ o :: after → (∀ o ∈ objs, o.Other xid) → o.used = false →
      (∀ o ∈ after, o.used = true) →
      Put objs pbuf xid mtype (.ok (before ++ o.taken pbuf xid mtype :: after))
  | full : (∀ o ∈ objs, o.Other xid) → (∀ o ∈ objs, o.used = true) →
      Put objs pbuf xid mtype (.error .noMemory)

theorem put_putLoop {before left : List MultipartObj} {pbuf : Pbuf} {xid : BitVec 32}
    {mtype : BitVec 16} {m : Option Nat} (hother : ∀ o ∈ before, o.Other xid)
    (hnone : m = none → ∀ o ∈ before, o.used = true)
    (hsome : ∀ k, m = some k → ∃ before' o after, before = before' ++ o :: after ∧
      before'.length = k ∧ o.used = false ∧ ∀ o ∈ after, o.used = true) :
    Put (before ++ left) pbuf xid mtype
      (putLoop (before ++ left) pbuf xid mtype left before.length m) := by
  induction left generalizing before m with
  | nil =>
    rw [append_nil]
    cases m with
    | none => exact .full hother (hnone rfl)
    | some k =>
      obtain ⟨before', o, after, rfl, rfl, hunused, hafter⟩ := hsome k rfl
      have hmodify : (before' ++ o :: after).modify before'.length
          (fun o => o.taken pbuf xid mtype) = before' ++ o.taken pbuf xid mtype :: after := by
        simp [modify_eq_take_cons_drop]
      rw [putLoop]
      exact hmodify ▸ .filled rfl hother hunused hafter
  | cons o left ih =>
    have hnext : before ++ o :: left = before ++ [o] ++ left := append_cons ..
    have hlength : before.length + 1 = (before ++ [o]).length := by simp
    rw [putLoop]
    split
    · next hunused =>
      rw [hnext, hlength]
      refine ih (forall_mem_append.2 ⟨hother, forall_mem_singleton.2 ?_⟩) (by simp) ?_
      · simp [MultipartObj.Other, hunused]
      · rintro k ⟨⟩
        exact ⟨before, o, [], rfl, rfl, hunused, by simp⟩
    · next hused =>
      rw [Bool.not_eq_false] at hused
      split
      · next hxid =>
        split
        · next htype => exact .mismatch rfl hother hused hxid htype
        · next htype =>
          rw [not_not] at htype
          have hset : (before ++ o :: left).set before.length (o.more pbuf) =
              before ++ o.more pbuf :: left := by simp
          exact hset ▸ .appended rfl hother hused hxid htype
      · next hxid =>
        rw [hnext, hlength]
        refine ih (forall_mem_append.2 ⟨hother, forall_mem_singleton.2 fun _ => hxid⟩)
          (fun hm => forall_mem_append.2 ⟨hnone hm, forall_mem_singleton.2 hused⟩) fun k hk => ?_
        obtain ⟨before', o', after, rfl, hlen, hunused, hafter⟩ := hsome k hk
        exact ⟨before', o', after ++ [o], by simp, hlen, hunused,
          forall_mem_append.2 ⟨hafter, forall_mem_singleton.2 hused⟩⟩

theorem put_channelMultipartPut (objs : List MultipartObj) (pbuf : Pbuf) (xid : BitVec 32)
    (mtype : BitVec 16) : Put objs pbuf xid mtype (channelMultipartPut objs pbuf xid mtype) := by
  have hloop : Put ([] ++ objs) pbuf xid mtype
      (putLoop ([] ++ objs) pbuf xid mtype objs ([] : List MultipartObj).length none) :=
    put_putLoop (by simp) (by simp) (by simp)
  exact hloop

theorem channelMultipartGet_split {before after : List MultipartObj} {o : MultipartObj}
    (hbefore : ∀ o' ∈ before, o'.Other o.xid) (hused : o.used = true) :
    channelMultipartGet (before ++ o :: after) o.xid o.multipartType =
      (before ++ { o with used := false, multipartList := [] } :: after,
        copyAll (pbufAlloc o.len) o.multipartList) := by
  have hfind : (before ++ o :: after).findIdx? (fun o' => o'.used && o'.xid = o.xid &&
      o'.multipartType = o.multipartType) = some before.length := by
    rw [findIdx?_append, findIdx?_eq_none_iff.2]
    · simp [findIdx?_cons, hused]
    · intro o' ho'
      cases hu : o'.used with
      | false => rfl
      | true => simp [hbefore o' ho' hu]
  rw [channelMultipartGet, hfind]
  simp

/-! ## Objects as slots -/

/-- The slot that an object stands for. -/
def MultipartObj.view (o : MultipartObj) : Option (Multipart Pbuf) :=
  if o.used then some ⟨o.xid, o.multipartType, o.multipartList⟩ else none

/-- The slots of the objects. -/
def view (objs : List MultipartObj) : MultipartSlots Pbuf := objs.map MultipartObj.view

section

variable {before after : List MultipartObj} {xid : BitVec 32} {mtype : BitVec 16} {pbuf : Pbuf}
  {o : MultipartObj}

theorem view_append (before after : List MultipartObj) (o : MultipartObj) :
    view (before ++ o :: after) = view before ++ o.view :: view after := by
  rw [view, map_append, map_cons]
  rfl

theorem view_of_used (hused : o.used = true) :
    o.view = some ⟨o.xid, o.multipartType, o.multipartList⟩ := if_pos hused

theorem view_of_unused (hunused : o.used = false) : o.view = none := by
  rw [MultipartObj.view, hunused]
  rfl

theorem multipartFind_view (h : ∀ o ∈ before, o.Other xid) (slots : MultipartSlots Pbuf) :
    multipartFind xid (view before ++ slots) = multipartFind xid slots := by
  induction before with
  | nil => rfl
  | cons o before ih =>
    have hrest := ih fun o' ho' => h o' (mem_cons_of_mem _ ho')
    cases hused : o.used with
    | false => rw [view, map_cons, view_of_unused hused]; exact hrest
    | true =>
      rw [view, map_cons, view_of_used hused, cons_append, multipartFind, if_neg (h o mem_cons_self hused)]
      exact hrest

theorem multipartAppend_view (h : ∀ o ∈ before, o.Other xid) (slots : MultipartSlots Pbuf) :
    multipartAppend xid pbuf (view before ++ slots) = view before ++ multipartAppend xid pbuf slots := by
  induction before with
  | nil => rfl
  | cons o before ih =>
    have hrest := ih fun o' ho' => h o' (mem_cons_of_mem _ ho')
    cases hused : o.used with
    | false =>
      rw [view, map_cons, view_of_unused hused]
      exact congrArg (none :: ·) hrest
    | true =>
      rw [view, map_cons, view_of_used hused, cons_append, multipartAppend,
        if_neg (h o mem_cons_self hused)]
      exact congrArg (_ :: ·) hrest

variable {new : Multipart Pbuf}

theorem multipartFill_view_of_used (h : ∀ o ∈ after, o.used = true) :
    multipartFill new (view after) = none := by
  induction after with
  | nil => rfl
  | cons o after ih =>
    have hrest := ih fun o' ho' => h o' (mem_cons_of_mem _ ho')
    rw [view] at hrest
    rw [view, map_cons, view_of_used (h o mem_cons_self)]
    simp [multipartFill, hrest]

theorem multipartFill_view (h : ∀ o ∈ after, o.used = true) (slots : MultipartSlots Pbuf) :
    multipartFill new (slots ++ none :: view after) = some (slots ++ some new :: view after) := by
  induction slots with
  | nil => simp [multipartFill, multipartFill_view_of_used h]
  | cons slot slots ih => simp [multipartFill, ih]

/-- **What is done to the objects is done to the slots.** -/
theorem view_channelMultipartPut {objs : List MultipartObj} (h : ∀ o ∈ objs, o.Counted) :
    (channelMultipartPut objs pbuf xid mtype).map view =
      Lagopus.channelMultipartPut (view objs) pbuf xid mtype := by
  have hput := put_channelMultipartPut objs pbuf xid mtype
  generalize channelMultipartPut objs pbuf xid mtype = r at hput
  cases hput with
  | @appended before after o hobjs hother hused hxid htype =>
    have hfind : multipartFind xid (view objs) = some ⟨o.xid, o.multipartType, o.multipartList⟩ := by
      rw [hobjs, view_append, multipartFind_view hother, view_of_used hused, multipartFind, if_pos hxid]
    have happend : multipartAppend xid pbuf (view objs) = view (before ++ o.more pbuf :: after) := by
      rw [hobjs, view_append, multipartAppend_view hother, view_of_used hused, multipartAppend,
        if_pos hxid, view_append]
      exact congrArg (fun slot => view before ++ slot :: view after)
        (view_of_used (o := o.more pbuf) hused).symm
    simp [Lagopus.channelMultipartPut, hfind, htype, happend, Except.map]
  | @mismatch before after o hobjs hother hused hxid htype =>
    have hfind : multipartFind xid (view objs) = some ⟨o.xid, o.multipartType, o.multipartList⟩ := by
      rw [hobjs, view_append, multipartFind_view hother, view_of_used hused, multipartFind, if_pos hxid]
    simp [Lagopus.channelMultipartPut, hfind, htype, Except.map]
  | @filled before after o hobjs hother hunused hafter =>
    have hnone := multipartFind_view hother []
    rw [append_nil] at hnone
    have hempty := (h o (hobjs ▸ mem_append_right _ mem_cons_self)).unused hunused
    have hfill : multipartFill ⟨xid, mtype, [pbuf]⟩ (view objs) =
        some (view (before ++ o.taken pbuf xid mtype :: after)) := by
      rw [hobjs, view_append, view_of_unused hunused, multipartFill_view hafter, view_append,
        MultipartObj.taken, hempty]
      rfl
    simp [Lagopus.channelMultipartPut, hnone, multipartFind, hfill, Except.map]
  | full hother hused =>
    have hnone := multipartFind_view hother []
    rw [append_nil] at hnone
    simp [Lagopus.channelMultipartPut, hnone, multipartFind, multipartFill_view_of_used hused, Except.map]

theorem channelMultipartGet_view (h : ∀ o ∈ before, o.Other xid) (slots : MultipartSlots Pbuf) :
    Lagopus.channelMultipartGet xid mtype (view before ++ slots) =
      (Lagopus.channelMultipartGet xid mtype slots).map fun r => (r.1, view before ++ r.2) := by
  induction before with
  | nil => exact (Option.map_id' ..).symm
  | cons o before ih =>
    have hrest := ih fun o' ho' => h o' (mem_cons_of_mem _ ho')
    rw [view] at hrest ⊢
    rw [map_cons, cons_append]
    cases hused : o.used with
    | false =>
      rw [view_of_unused hused, Lagopus.channelMultipartGet, hrest, Option.map_map]
      rfl
    | true =>
      rw [view_of_used hused, Lagopus.channelMultipartGet,
        if_neg fun heq => h o mem_cons_self hused heq.1, hrest, Option.map_map]
      rfl

/-- A request that is taken out of the objects is taken out of the slots. -/
theorem view_channelMultipartGet (hbefore : ∀ o' ∈ before, o'.Other o.xid) (hused : o.used = true) :
    Lagopus.channelMultipartGet o.xid o.multipartType (view (before ++ o :: after)) =
      some (o.multipartList,
        view (channelMultipartGet (before ++ o :: after) o.xid o.multipartType).1) := by
  rw [channelMultipartGet_split hbefore hused, view_append, channelMultipartGet_view hbefore,
    view_of_used hused, Lagopus.channelMultipartGet, if_pos ⟨rfl, rfl⟩, view_append]
  rfl

end

/-! ## Copying -/

theorem copyAll_filled {ps : List Pbuf} (hsound : ∀ p ∈ ps, p.Sound) {msg rest : List Octet}
    {plen : Nat} (hroom : (ps.flatMap unread).length ≤ rest.length) :
    copyAll (filled msg rest plen) ps = .ok (filled (msg ++ ps.flatMap unread)
      (rest.drop (ps.flatMap unread).length) (plen + (ps.flatMap unread).length)) := by
  induction ps generalizing msg rest plen with
  | nil => simp [copyAll]
  | cons p ps ih =>
    rw [flatMap_cons, length_append] at hroom ⊢
    have hp : p.unread.length ≤ rest.length := by omega
    have hps : (ps.flatMap unread).length ≤ (rest.drop p.unread.length).length := by
      rw [length_drop]
      omega
    rw [copyAll, pbufCopy_filled (hsound p mem_cons_self) hp]
    simp only
    rw [ih (fun q hq => hsound q (mem_cons_of_mem _ hq)) hps, append_assoc, drop_drop, Nat.add_assoc]

theorem copyAll_alloc {o : MultipartObj} (h : o.Counted) (hused : o.used = true) :
    ∃ all, copyAll (pbufAlloc o.len) o.multipartList = .ok all ∧
      all.unread = o.multipartList.flatMap unread ∧ all.plen = all.unread.length := by
  obtain ⟨size, hsize, halloc⟩ : ∃ size, o.len ≤ size ∧
      pbufAlloc o.len = filled [] (List.replicate size 0) 0 := by
    refine ⟨if o.len < PBUF_MIN_SIZE then PBUF_MIN_SIZE else o.len, ?_, rfl⟩
    split <;> omega
  have hroom : (o.multipartList.flatMap unread).length ≤
      (List.replicate size (0 : Octet)).length := by
    rw [length_replicate, ← h.len_eq hused]
    exact hsize
  rw [halloc, copyAll_filled h.sound hroom]
  refine ⟨_, rfl, unread_filled .., ?_⟩
  rw [unread_filled, filled, Nat.zero_add, nil_append]

/-! ## The objects and the requests -/

namespace Desk

/-- The used objects have the fragments of the requests that are not finished. -/
structure Inv (s : Desk) : Prop where
  length_eq : s.objs.length = 16
  counted : ∀ o ∈ s.objs, o.Counted
  distinct : s.objs.Pairwise fun o o' => o.used = true → o'.Other o.xid
  mem_unfinished : ∀ o ∈ s.objs, o.used = true → o.xid ∈ s.unfinished
  fragments : ∀ o ∈ s.objs, o.used = true → o.multipartList = (s.waiting o.xid).map Fragment.pbuf
  types : ∀ o ∈ s.objs, o.used = true → ∃ g ∈ s.waiting o.xid, g.type = o.multipartType
  held : ∀ xid ∈ s.unfinished, ∃ o ∈ s.objs, o.used = true ∧ o.xid = xid
  idle : ∀ xid ∉ s.unfinished, s.waiting xid = []

variable {s : Desk} {f : Fragment}

theorem Inv.used_eq (h : s.Inv) : channelMultipartUsedCountGet s.objs = s.unfinished.card := by
  have hnodup : ((s.objs.filter fun o => o.used).map MultipartObj.xid).Nodup := by
    rw [List.Nodup, pairwise_map, pairwise_filter]
    exact h.distinct.imp fun hne hused hused' heq => hne hused hused' heq.symm
  have hset : ((s.objs.filter fun o => o.used).map MultipartObj.xid).toFinset = s.unfinished := by
    ext xid
    rw [mem_toFinset, mem_map]
    constructor
    · rintro ⟨o, ho, rfl⟩
      rw [mem_filter] at ho
      exact h.mem_unfinished o ho.1 ho.2
    · intro hxid
      obtain ⟨o, ho, hused, rfl⟩ := h.held xid hxid
      exact ⟨o, mem_filter.2 ⟨ho, hused⟩, rfl⟩
  rw [← hset, toFinset_card_of_nodup hnodup, length_map, channelMultipartUsedCountGet,
    countP_eq_length_filter]

/-- The object in which the request of a fragment is, and the objects of the others. -/
structure Slot (s : Desk) (f : Fragment) (before after : List MultipartObj) (old new : MultipartObj) :
    Prop where
  objs_eq : s.objs = before ++ old :: after
  old_xid : old.used = true → old.xid = f.xid
  before_other : ∀ o ∈ before, o.Other f.xid
  after_other : ∀ o ∈ after, o.Other f.xid
  used : new.used = true
  xid_eq : new.xid = f.xid
  type_eq : new.multipartType = f.type
  counted : new.Counted
  fragments : new.multipartList = (s.waiting f.xid ++ [f]).map Fragment.pbuf

theorem length_flatMap_concat (f : Fragment) (l : List Pbuf) :
    ((l ++ [f.pbuf]).flatMap unread).length = (l.flatMap unread).length + f.pbuf.plen := by
  rw [flatMap_append, length_append, flatMap_singleton, f.plen_eq]

theorem Inv.put (h : s.Inv) (htype : s.SameType f) :
    (s.Refuses f ∧ channelMultipartPut s.objs f.pbuf f.xid f.type = .error .noMemory) ∨
    (¬ s.Refuses f ∧ ∃ before after old new, s.Slot f before after old new ∧
      channelMultipartPut s.objs f.pbuf f.xid f.type = .ok (before ++ new :: after)) := by
  have hput := put_channelMultipartPut s.objs f.pbuf f.xid f.type
  generalize channelMultipartPut s.objs f.pbuf f.xid f.type = r at hput
  cases hput with
  | @appended before after o hobjs _ hused hxid htype' =>
    right
    have ho : o ∈ s.objs := hobjs ▸ mem_append_right _ mem_cons_self
    have hdistinct := h.distinct
    rw [hobjs, pairwise_append, pairwise_cons] at hdistinct
    refine ⟨fun hrefuses => hrefuses.1 (hxid ▸ h.mem_unfinished o ho hused), before, after, o,
      o.more f.pbuf, ⟨hobjs, fun _ => hxid, ?_, ?_, hused, hxid, htype', ⟨?_, ?_, ?_⟩, ?_⟩, rfl⟩
    · intro o' ho' hused' heq
      exact hdistinct.2.2 o' ho' o mem_cons_self hused' hused (hxid.trans heq.symm)
    · intro o' ho'
      exact hxid ▸ hdistinct.2.1.1 o' ho' hused
    · exact forall_mem_append.2 ⟨(h.counted o ho).sound, forall_mem_singleton.2 f.sound⟩
    · intro _
      exact ((h.counted o ho).len_eq hused ▸ length_flatMap_concat f o.multipartList).symm
    · intro hunused
      exact absurd (hused.symm.trans hunused) Bool.true_eq_false.mp
    · show o.multipartList ++ [f.pbuf] = _
      rw [h.fragments o ho hused, hxid, map_append, map_singleton]
  | @mismatch before after o hobjs _ hused hxid hne =>
    have ho : o ∈ s.objs := hobjs ▸ mem_append_right _ mem_cons_self
    obtain ⟨g, hg, hgtype⟩ := h.types o ho hused
    exact absurd (hgtype.symm.trans (htype g (hxid ▸ hg))) hne
  | @filled before after o hobjs hother hunused _ =>
    right
    have ho : o ∈ s.objs := hobjs ▸ mem_append_right _ mem_cons_self
    have hempty := (h.counted o ho).unused hunused
    have hidle : f.xid ∉ s.unfinished := by
      intro hmem
      obtain ⟨o', ho', hused', hxid'⟩ := h.held _ hmem
      exact hother o' ho' hused' hxid'
    have hlist : o.multipartList ++ [f.pbuf] = (s.waiting f.xid ++ [f]).map Fragment.pbuf := by
      rw [hempty, h.idle _ hidle, nil_append, nil_append, map_singleton]
    refine ⟨?_, before, after, o, o.taken f.pbuf f.xid f.type, ⟨hobjs, ?_, ?_, ?_, rfl, rfl, rfl,
      ⟨?_, ?_, ?_⟩, hlist⟩, rfl⟩
    · rintro ⟨-, hcard⟩
      rw [← h.used_eq, channelMultipartUsedCountGet, ← h.length_eq, countP_eq_length] at hcard
      exact absurd ((hcard o ho).symm.trans hunused) Bool.true_eq_false.mp
    · intro hused
      exact absurd (hused.symm.trans hunused) Bool.true_eq_false.mp
    · exact fun o' ho' => hother o' (hobjs ▸ mem_append_left _ ho')
    · exact fun o' ho' => hother o' (hobjs ▸ mem_append_right _ (mem_cons_of_mem _ ho'))
    · intro p hp
      rw [MultipartObj.taken, hempty, nil_append, mem_singleton] at hp
      exact hp ▸ f.sound
    · intro _
      show f.pbuf.plen = ((o.multipartList ++ [f.pbuf]).flatMap unread).length
      rw [length_flatMap_concat, hempty, flatMap_nil, length_nil, Nat.zero_add]
    · intro hcontra
      exact absurd hcontra Bool.true_eq_false.mp
  | full hother hused =>
    left
    refine ⟨⟨?_, ?_⟩, rfl⟩
    · intro hmem
      obtain ⟨o, ho, hused', hxid⟩ := h.held _ hmem
      exact hother o ho hused' hxid
    · rw [← h.used_eq, channelMultipartUsedCountGet, ← h.length_eq, countP_eq_length]
      exact hused

/-! ## Steps -/

section

variable {before after : List MultipartObj} {old new o : MultipartObj}
  (hslot : s.Slot f before after old new)

include hslot

theorem Slot.mem_objs {o' : MultipartObj}
    (ho' : o' ∈ before ∨ o' ∈ after) : o' ∈ s.objs ∧ o'.Other f.xid := by
  rw [hslot.objs_eq]
  rcases ho' with ho' | ho'
  · exact ⟨mem_append_left _ ho', hslot.before_other o' ho'⟩
  · exact ⟨mem_append_right _ (mem_cons_of_mem _ ho'), hslot.after_other o' ho'⟩

/-- What is asked of a state in which the object of a request was replaced by `o`. -/
structure Replaced (s s' : Desk) (xid : BitVec 32) (o : MultipartObj) : Prop where
  counted : o.Counted
  xid_eq : o.used = true → o.xid = xid
  unfinished_iff : ∀ x, x ≠ xid → (x ∈ s'.unfinished ↔ x ∈ s.unfinished)
  waiting_eq : ∀ x, x ≠ xid → s'.waiting x = s.waiting x
  mem_unfinished : xid ∈ s'.unfinished ↔ o.used = true
  fragments : o.used = true → o.multipartList = (s'.waiting xid).map Fragment.pbuf
  types : o.used = true → ∃ g ∈ s'.waiting xid, g.type = o.multipartType
  idle : o.used = false → s'.waiting xid = []

theorem Inv.of_replaced (h : s.Inv) {s' : Desk}
    (hobjs : s'.objs = before ++ o :: after) (hr : s.Replaced s' f.xid o) : s'.Inv := by
  have hall : ∀ o' ∈ s'.objs, o' = o ∨ (o' ∈ s.objs ∧ o'.Other f.xid) := by
    intro o' ho'
    rw [hobjs, mem_append, mem_cons] at ho'
    rcases ho' with ho' | rfl | ho'
    · exact .inr (hslot.mem_objs (.inl ho'))
    · exact .inl rfl
    · exact .inr (hslot.mem_objs (.inr ho'))
  have hdistinct := h.distinct
  rw [hslot.objs_eq, pairwise_append, pairwise_cons] at hdistinct
  refine ⟨?_, ?_, ?_, ?_, ?_, ?_, ?_, ?_⟩
  · rw [hobjs, ← h.length_eq, hslot.objs_eq, length_append, length_append, length_cons, length_cons]
  · intro o' ho'
    rcases hall o' ho' with rfl | ⟨hmem, -⟩
    · exact hr.counted
    · exact h.counted o' hmem
  · rw [hobjs, pairwise_append, pairwise_cons]
    refine ⟨hdistinct.1, ⟨?_, hdistinct.2.1.2⟩, ?_⟩
    · intro o' ho' hused
      rw [hr.xid_eq hused]
      exact hslot.after_other o' ho'
    · intro o' ho' o'' ho'' hused' hused''
      rcases mem_cons.1 ho'' with rfl | ho''
      · rw [hr.xid_eq hused'']
        exact (hslot.before_other o' ho' hused').symm
      · exact hdistinct.2.2 o' ho' o'' (mem_cons_of_mem _ ho'') hused' hused''
  · intro o' ho' hused
    rcases hall o' ho' with rfl | ⟨hmem, hother⟩
    · rw [hr.xid_eq hused]
      exact hr.mem_unfinished.2 hused
    · exact (hr.unfinished_iff _ (hother hused)).2 (h.mem_unfinished o' hmem hused)
  · intro o' ho' hused
    rcases hall o' ho' with rfl | ⟨hmem, hother⟩
    · rw [hr.xid_eq hused]
      exact hr.fragments hused
    · rw [hr.waiting_eq _ (hother hused)]
      exact h.fragments o' hmem hused
  · intro o' ho' hused
    rcases hall o' ho' with rfl | ⟨hmem, hother⟩
    · rw [hr.xid_eq hused]
      exact hr.types hused
    · rw [hr.waiting_eq _ (hother hused)]
      exact h.types o' hmem hused
  · intro xid hxid
    rcases eq_or_ne xid f.xid with rfl | hne
    · have hused := hr.mem_unfinished.1 hxid
      exact ⟨o, hobjs ▸ mem_append_right _ mem_cons_self, hused, hr.xid_eq hused⟩
    · obtain ⟨o', ho', hused, heq⟩ := h.held xid ((hr.unfinished_iff xid hne).1 hxid)
      refine ⟨o', ?_, hused, heq⟩
      rw [hslot.objs_eq, mem_append, mem_cons] at ho'
      rw [hobjs, mem_append, mem_cons]
      rcases ho' with ho' | rfl | ho'
      · exact .inl ho'
      · exact absurd (heq.symm.trans (hslot.old_xid hused)) hne
      · exact .inr (.inr ho')
  · intro xid hxid
    rcases eq_or_ne xid f.xid with rfl | hne
    · refine hr.idle ?_
      rw [← Bool.not_eq_true]
      exact fun hused => hxid (hr.mem_unfinished.2 hused)
    · rw [hr.waiting_eq xid hne]
      exact h.idle xid fun hmem => hxid ((hr.unfinished_iff xid hne).2 hmem)

theorem stored_eq_of_ne (hxid : o.used = true → o.xid = f.xid)
    {xid : BitVec 32} (hne : xid ≠ f.xid) : stored (before ++ o :: after) xid = stored s.objs xid := by
  have hskip {o' : MultipartObj} (h' : o'.used = true → o'.xid = f.xid) :
      stored (o' :: after) xid = stored after xid := by
    refine find?_cons_of_neg ?_
    rw [Bool.and_eq_true, decide_eq_true_eq]
    rintro ⟨hused, heq⟩
    exact hne (heq.symm.trans (h' hused))
  have happend (l : List MultipartObj) :
      stored (before ++ l) xid = (stored before xid).or (stored l xid) := find?_append
  rw [hslot.objs_eq, happend, happend, hskip hxid, hskip hslot.old_xid]

theorem stored_eq_none (hunused : o.used = false) : stored (before ++ o :: after) f.xid = none := by
  rw [stored, find?_eq_none]
  intro o' ho'
  rw [Bool.and_eq_true, decide_eq_true_eq, not_and]
  rw [mem_append, mem_cons] at ho'
  rcases ho' with ho' | rfl | ho'
  · exact hslot.before_other o' ho'
  · rw [hunused]
    exact fun hused => absurd hused.symm Bool.true_eq_false.mp
  · exact hslot.after_other o' ho'

variable (h : s.Inv) (hkeeps : ¬ s.Refuses f)
  (hput : channelMultipartPut s.objs f.pbuf f.xid f.type = .ok (before ++ new :: after))

include h hkeeps hput

theorem Inv.more (hflags : f.flags ≠ 0) : s.Right f ∧ (s.step f).Inv := by
  have htake : takeFragment s.objs f = (before ++ new :: after, .kept) := by
    simp only [takeFragment, hput, if_neg hflags]
  have hstep : s.step f =
      { objs := before ++ new :: after
        unfinished := insert f.xid s.unfinished
        waiting := Function.update s.waiting f.xid (s.waiting f.xid ++ [f]) } := by
    rw [step, if_neg hkeeps, if_neg hflags, htake]
  have hself : (s.step f).waiting f.xid = s.waiting f.xid ++ [f] := by
    rw [hstep]
    exact Function.update_self ..
  have hinv : (s.step f).Inv := by
    refine h.of_replaced hslot (by rw [hstep])
      ⟨hslot.counted, fun _ => hslot.xid_eq, ?_, ?_, ?_, ?_, ?_, ?_⟩
    · intro x hx
      rw [hstep]
      exact ⟨fun hmem => (Finset.mem_insert.1 hmem).resolve_left hx, Finset.mem_insert_of_mem⟩
    · intro x hx
      rw [hstep]
      exact Function.update_of_ne hx ..
    · rw [hstep]
      exact ⟨fun _ => hslot.used, fun _ => Finset.mem_insert_self ..⟩
    · intro _
      rw [hself]
      exact hslot.fragments
    · intro _
      rw [hself]
      exact ⟨f, mem_append_right _ mem_cons_self, hslot.type_eq.symm⟩
    · intro hunused
      exact absurd (hslot.used.symm.trans hunused) Bool.true_eq_false.mp
  refine ⟨⟨?_, ?_, ?_, ?_, ?_, hinv.used_eq⟩, hinv⟩
  · exact fun hrefuses => absurd hrefuses hkeeps
  · intro _ _
    rw [htake]
  · exact fun _ hlast => absurd hlast hflags
  · exact fun hlast => absurd hlast hflags
  · intro xid hne
    rw [hstep]
    exact stored_eq_of_ne hslot (fun _ => hslot.xid_eq) hne

theorem Inv.last (hflags : f.flags = 0) : s.Right f ∧ (s.step f).Inv := by
  obtain ⟨all, hcopy, hunread, hplen⟩ := copyAll_alloc hslot.counted hslot.used
  have hget : channelMultipartGet (before ++ new :: after) f.xid f.type =
      (before ++ { new with used := false, multipartList := [] } :: after, .ok all) := by
    rw [← hslot.xid_eq, ← hslot.type_eq, channelMultipartGet_split ?_ hslot.used, hcopy]
    exact fun o ho => hslot.xid_eq ▸ hslot.before_other o ho
  have htake : takeFragment s.objs f =
      (before ++ { new with used := false, multipartList := [] } :: after, .complete (.ok all)) := by
    simp only [takeFragment, hput, if_pos hflags, hget]
  have hstep : s.step f =
      { objs := before ++ { new with used := false, multipartList := [] } :: after
        unfinished := s.unfinished.erase f.xid
        waiting := Function.update s.waiting f.xid [] } := by
    rw [step, if_neg hkeeps, if_pos hflags, htake]
  have hinv : (s.step f).Inv := by
    refine h.of_replaced hslot (by rw [hstep]) ⟨⟨?_, ?_, ?_⟩, ?_, ?_, ?_, ?_, ?_, ?_, ?_⟩
    · exact fun p hp => absurd hp not_mem_nil
    · exact fun hused => absurd hused.symm Bool.true_eq_false.mp
    · exact fun _ => rfl
    · exact fun hused => absurd hused.symm Bool.true_eq_false.mp
    · intro x hx
      rw [hstep]
      exact ⟨Finset.mem_of_mem_erase, Finset.mem_erase_of_ne_of_mem hx⟩
    · intro x hx
      rw [hstep]
      exact Function.update_of_ne hx ..
    · rw [hstep]
      exact ⟨fun hmem => absurd hmem (Finset.notMem_erase f.xid s.unfinished),
        fun hused => absurd hused.symm Bool.true_eq_false.mp⟩
    · exact fun hused => absurd hused.symm Bool.true_eq_false.mp
    · exact fun hused => absurd hused.symm Bool.true_eq_false.mp
    · intro _
      rw [hstep]
      exact Function.update_self ..
  refine ⟨⟨?_, ?_, ?_, ?_, ?_, hinv.used_eq⟩, hinv⟩
  · exact fun hrefuses => absurd hrefuses hkeeps
  · exact fun _ hmore => absurd hflags hmore
  · intro _ _
    refine ⟨all, by rw [htake], ?_, hplen⟩
    rw [hunread, hslot.fragments, flatMap_map]
  · intro _
    rw [hstep]
    exact stored_eq_none hslot rfl
  · intro xid hne
    rw [hstep]
    exact stored_eq_of_ne hslot (fun hused => absurd hused.symm Bool.true_eq_false.mp) hne

end

theorem Inv.step (h : s.Inv) (htype : s.SameType f) : s.Right f ∧ (s.step f).Inv := by
  rcases h.put htype with ⟨hrefuses, hput⟩ | ⟨hkeeps, before, after, old, new, hslot, hput⟩
  · have htake : takeFragment s.objs f = (s.objs, .refused .noMemory) := by
      simp [takeFragment, hput]
    have hstep : s.step f = s := by rw [Desk.step, if_pos hrefuses, htake]
    refine ⟨⟨fun _ => htake, ?_, ?_, ?_, ?_, ?_⟩, by rw [hstep]; exact h⟩
    · exact fun hkeeps => absurd hrefuses hkeeps
    · exact fun hkeeps => absurd hrefuses hkeeps
    · intro _
      rw [hstep, stored, find?_eq_none]
      intro o ho
      rw [Bool.and_eq_true, decide_eq_true_eq]
      rintro ⟨hused, hxid⟩
      exact hrefuses.1 (hxid ▸ h.mem_unfinished o ho hused)
    · intro xid _
      rw [hstep]
    · rw [hstep]
      exact h.used_eq
  · by_cases hflags : f.flags = 0
    · exact h.last hslot hkeeps hput hflags
    · exact h.more hslot hkeeps hput hflags

theorem inv_initial : ({} : Desk).Inv := by
  have hall : ∀ o ∈ initial, o = {} := fun o ho => eq_of_mem_replicate ho
  have hunused : ∀ o ∈ initial, ¬ o.used = true := fun o ho => by
    rw [hall o ho]
    exact Bool.false_ne_true
  refine ⟨rfl, ?_, ?_, ?_, ?_, ?_, ?_, fun _ _ => rfl⟩
  · intro o ho
    rw [hall o ho]
    exact ⟨fun p hp => absurd hp not_mem_nil,
      fun hused => absurd hused.symm Bool.true_eq_false.mp, fun _ => rfl⟩
  · refine pairwise_of_forall_mem_list fun o ho o' _ hused => ?_
    exact absurd hused (hunused o ho)
  · exact fun o ho hused => absurd hused (hunused o ho)
  · exact fun o ho hused => absurd hused (hunused o ho)
  · exact fun o ho hused => absurd hused (hunused o ho)
  · exact fun xid hxid => absurd hxid (Finset.notMem_empty xid)

/-- **Requests are reassembled**, however their fragments are interleaved. -/
theorem reassembly_right {fs : List Fragment} (h : Trace.EveryStep step SameType {} fs) :
    Trace.EveryStep step Right {} fs :=
  Trace.EveryStep.of_invariant (fun _ _ hinv htype => hinv.step htype) inv_initial h

/-- A fragment of one byte. -/
def sample (xid : BitVec 32) (flags : BitVec 16) (byte : Octet) : Fragment where
  xid := xid
  type := 12
  flags := flags
  pbuf := filled [byte] [] 1
  sound := sound_filled ..
  plen_eq := by rw [unread_filled]; rfl

theorem reassembly_right_of_two :
    Trace.EveryStep step Right {} [sample 1 1 10, sample 2 1 20, sample 1 0 30, sample 2 0 40] := by
  refine reassembly_right ⟨?_, ?_, ?_, ?_, trivial⟩ <;> intro g hg
  · cases hg
  · cases hg
  · rw [List.mem_singleton.1 hg]
    rfl
  · rw [List.mem_singleton.1 hg]
    rfl

/-- What a fragment does to the slots. -/
def takeSlots (slots : MultipartSlots Pbuf) (f : Fragment) : MultipartSlots Pbuf :=
  match Lagopus.channelMultipartPut slots f.pbuf f.xid f.type with
  | .error _ => slots
  | .ok slots =>
    if f.flags = 0 then (Lagopus.channelMultipartGet f.xid f.type slots).elim slots Prod.snd else slots

theorem Inv.view_step (h : s.Inv) (htype : s.SameType f) :
    view (s.step f).objs = takeSlots (view s.objs) f := by
  have hobjs : (s.step f).objs = (takeFragment s.objs f).1 := by
    unfold Desk.step
    split
    · rfl
    · split <;> rfl
  have hview : (channelMultipartPut s.objs f.pbuf f.xid f.type).map view =
      Lagopus.channelMultipartPut (view s.objs) f.pbuf f.xid f.type := view_channelMultipartPut h.counted
  rw [hobjs, takeSlots, ← hview, takeFragment]
  rcases h.put htype with ⟨-, hput⟩ | ⟨-, before, after, old, new, hslot, hput⟩
  · rw [hput]
    rfl
  · have hget : Lagopus.channelMultipartGet new.xid new.multipartType (view (before ++ new :: after)) = _ :=
      view_channelMultipartGet (fun o ho => hslot.xid_eq ▸ hslot.before_other o ho) hslot.used
    rw [hslot.xid_eq, hslot.type_eq] at hget
    rw [hput]
    show view (if f.flags = 0 then _ else _ : List MultipartObj × Outcome).1 = ite _ _ _
    split
    · rw [hget]
      rfl
    · rfl

theorem view_foldl {fs : List Fragment} (h : s.Inv) (htypes : Trace.EveryStep step SameType s fs) :
    view (fs.foldl step s).objs = fs.foldl takeSlots (view s.objs) := by
  induction fs generalizing s with
  | nil => rfl
  | cons f fs ih =>
    rw [foldl_cons, foldl_cons, ← h.view_step htypes.1]
    exact ih (h.step htypes.1).2 htypes.2

/-- **The objects refine the slots**, through all the fragments that arrive. -/
theorem view_run {fs : List Fragment} (h : Trace.EveryStep step SameType {} fs) :
    view (fs.foldl step {}).objs = fs.foldl takeSlots (MultipartSlots.init Pbuf) :=
  view_foldl inv_initial h

theorem view_run_of_two :
    view ([sample 1 1 10, sample 2 1 20, sample 1 0 30].foldl step {}).objs =
      [sample 1 1 10, sample 2 1 20, sample 1 0 30].foldl takeSlots (MultipartSlots.init Pbuf) := by
  refine view_run ⟨?_, ?_, ?_, trivial⟩ <;> intro g hg
  · cases hg
  · cases hg
  · rw [List.mem_singleton.1 hg]
    rfl

end Desk

end Lagopus.Reassembly
