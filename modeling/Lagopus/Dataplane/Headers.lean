import Lagopus.Dataplane.Rewrite

/-!
# The headers of a frame

What `re_classify_packet` leaves in a packet depends on the bytes of the frame and on nothing else but
for two members it does not always set.  Here it is computed from the bytes: first the stack of
VLAN and PBB headers, in offsets from the start of the frame, and then what lies behind it.

* `scan`, `stack`: the stack of headers;
* `Cached`, `Packet.cached`: the members of a packet that say where its headers are;
* `cached_reClassifyPacket`: classification leaves what the stack says;
* `scan_shift`: the stack does not depend on where the frame begins.
-/

namespace Lagopus

open Option

/-- The big-endian word at an offset. -/
def wordAt (f : Nat → Byte) (i : Nat) : BitVec 16 := f i ++ f (i + 1)

/-- Both ethertypes of a VLAN tag. -/
def IsVlan (etherType : BitVec 16) : Prop := etherType = ETHERTYPE_VLAN ∨ etherType = ETHERTYPE_QINQ

instance (etherType : BitVec 16) : Decidable (IsVlan etherType) := inferInstanceAs (Decidable (_ ∨ _))

/-- Both ethertypes of an MPLS label. -/
def IsMpls (etherType : BitVec 16) : Prop :=
  etherType = ETHERTYPE_MPLS ∨ etherType = ETHERTYPE_MPLS_MCAST

instance (etherType : BitVec 16) : Decidable (IsMpls etherType) := inferInstanceAs (Decidable (_ ∨ _))

/-! ## The stack -/

/-- What the tags of a frame come to: the first of each kind, what is behind the last one, and how
much of the length is left. -/
structure Stack where
  vlan : Option Nat := none
  pbb : Option Nat := none
  l3 : Nat
  etherType : BitVec 16
  pktlen : Int
  /-- The frame ends within its tags. -/
  short : Bool := false

/-- The tags from offset `a` on, the first of which is announced by `etherType`. -/
def scan (f : Nat → Byte) : Nat → Nat → BitVec 16 → Int → Option Stack
  | 0, _, _, _ => none
  | fuel + 1, a, etherType, n =>
    if etherType = ETHERTYPE_PBB then
      (scan f fuel (a + 18) (wordAt f (a + 16)) n).map fun s => { s with pbb := some a }
    else if IsVlan etherType then
      if n - 4 < 0 then some { l3 := a, etherType := etherType, pktlen := n, short := true }
      else (scan f fuel (a + 4) (wordAt f (a + 2)) (n - 4)).map fun s => { s with vlan := some a }
    else some { l3 := a, etherType := etherType, pktlen := n }

/-- The tags of a frame. The first one is treated differently: its length is not checked, and that
of a PBB header is taken to be 8. -/
def stack (f : Nat → Byte) (fuel : Nat) (n : Int) : Option Stack :=
  if wordAt f 12 = ETHERTYPE_PBB then
    (scan f fuel 22 (wordAt f 30) n).map fun s => { s with pbb := some 14 }
  else if IsVlan (wordAt f 12) then
    (scan f fuel 18 (wordAt f 16) n).map fun s => { s with vlan := some 14 }
  else scan f fuel 14 (wordAt f 12) n

/-- The stack, `d` bytes further on. -/
def Stack.shift (d : Nat) (s : Stack) : Stack :=
  { s with vlan := s.vlan.map (· + d), pbb := s.pbb.map (· + d), l3 := s.l3 + d }

theorem scan_shift (f : Nat → Byte) (d fuel a : Nat) (t : BitVec 16) (n : Int) :
    scan f fuel (a + d) t n = (scan (fun i => f (i + d)) fuel a t n).map (Stack.shift d) := by
  induction fuel generalizing a t n with
  | zero => rfl
  | succ fuel ih =>
    have hword : ∀ k, wordAt f (a + d + k) = wordAt (fun i => f (i + d)) (a + k) := fun k => by
      simp only [wordAt]
      congr 2 <;> omega
    have hnext : ∀ k t n, scan f fuel (a + d + k) t n =
        (scan (fun i => f (i + d)) fuel (a + k) t n).map (Stack.shift d) := fun k t n => by
      rw [← ih, Nat.add_right_comm]
    rw [scan, scan]
    split_ifs
    · rw [hword, hnext, map_map, map_map]
      rfl
    · rfl
    · rw [hword, hnext, map_map, map_map]
      rfl
    · rfl

/-- Where the tags are, and that they end with something else unless the frame does. -/
structure Stack.Within (s : Stack) (a : Nat) : Prop where
  l3 : a ≤ s.l3
  vlan : ∀ v, s.vlan = some v → a ≤ v ∧ v + 4 ≤ s.l3
  pbb : ∀ b, s.pbb = some b → a ≤ b ∧ b + 18 ≤ s.l3
  ends : s.short = false → s.etherType ≠ ETHERTYPE_PBB ∧ ¬ IsVlan s.etherType

variable {a fuel : Nat} {s : Stack}

theorem Stack.Within.mono {a' : Nat} (h : s.Within a') (ha : a ≤ a') : s.Within a :=
  ⟨ha.trans h.l3, fun v hv => ⟨ha.trans (h.vlan v hv).1, (h.vlan v hv).2⟩,
    fun b hb => ⟨ha.trans (h.pbb b hb).1, (h.pbb b hb).2⟩, h.ends⟩

theorem scan_within {f : Nat → Byte} {t : BitVec 16} {n : Int}
    (h : scan f fuel a t n = some s) : s.Within a := by
  induction fuel generalizing a t n s with
  | zero => cases h
  | succ fuel ih =>
    rw [scan] at h
    split_ifs at h with hpbb hvlan hshort
    · obtain ⟨s', hs', rfl⟩ := map_eq_some_iff.1 h
      have hw := ih hs'
      refine ⟨(hw.mono (by omega)).l3, (hw.mono (by omega)).vlan, fun b hb => ?_, hw.ends⟩
      cases hb
      exact ⟨le_rfl, hw.l3⟩
    · cases h
      exact ⟨le_rfl, fun v hv => (by cases hv), fun b hb => (by cases hb), fun hs => (by cases hs)⟩
    · obtain ⟨s', hs', rfl⟩ := map_eq_some_iff.1 h
      have hw := ih hs'
      refine ⟨(hw.mono (by omega)).l3, fun v hv => ?_, (hw.mono (by omega)).pbb, hw.ends⟩
      cases hv
      exact ⟨le_rfl, hw.l3⟩
    · cases h
      exact ⟨le_rfl, fun v hv => (by cases hv), fun b hb => (by cases hb), fun _ => ⟨hpbb, hvlan⟩⟩

/-- The stack of a frame is within the frame, with the exception of a first PBB header that is longer
than it is taken to be. -/
structure Stack.InFrame (s : Stack) (f : Nat → Byte) : Prop where
  l3 : 14 ≤ s.l3
  vlan : ∀ v, s.vlan = some v → 14 ≤ v ∧ v + 4 ≤ s.l3
  pbb : ∀ b, s.pbb = some b → 14 ≤ b ∧ b + 4 ≤ s.l3
  ends : s.short = false → s.etherType ≠ ETHERTYPE_PBB ∧ ¬ IsVlan s.etherType
  outer : wordAt f 12 ≠ ETHERTYPE_PBB → s.Within 14

theorem stack_within {f : Nat → Byte} {n : Int} (h : stack f fuel n = some s) : s.InFrame f := by
  rw [stack] at h
  split_ifs at h with hpbb hvlan
  · obtain ⟨s', hs', rfl⟩ := map_eq_some_iff.1 h
    have hw := (scan_within hs').mono (show 14 ≤ 22 by omega)
    refine ⟨hw.l3, hw.vlan, fun b hb => ?_, hw.ends, fun hno => absurd hpbb hno⟩
    cases hb
    have := (scan_within hs').l3
    exact ⟨le_rfl, by simp only; omega⟩
  · obtain ⟨s', hs', rfl⟩ := map_eq_some_iff.1 h
    have hw := scan_within hs'
    have hw' : Stack.Within { s' with vlan := some 14 } 14 := by
      refine ⟨(hw.mono (by omega)).l3, fun v hv => ?_, (hw.mono (by omega)).pbb, hw.ends⟩
      cases hv
      exact ⟨le_rfl, hw.l3⟩
    exact ⟨hw'.l3, hw'.vlan, fun b hb => ⟨(hw'.pbb b hb).1, by have := (hw'.pbb b hb).2; omega⟩,
      hw'.ends, fun _ => hw'⟩
  · have hw := scan_within h
    exact ⟨hw.l3, hw.vlan, fun b hb => ⟨(hw.pbb b hb).1, by have := (hw.pbb b hb).2; omega⟩,
      hw.ends, fun _ => hw⟩

/-! ## What classification leaves -/

/-- The members that say where the headers of a packet are. -/
structure Cached where
  vlan : Option Nat
  vlanTci : BitVec 16
  pbb : Option Nat
  mpls : Option Nat
  etherType : BitVec 16
  l3 : Nat
  proto : Option Nat
  l4 : Option Nat
deriving DecidableEq

/-- The ethertype of what is behind an MPLS label, guessed from its first byte. -/
def guess (first : Byte) (etherType : BitVec 16) : BitVec 16 :=
  if 0x45 ≤ first ∧ first ≤ 0x4f then ETHERTYPE_IP
  else if first &&& 0xf0 = 0x60 then ETHERTYPE_IPV6
  else etherType

/-- The MPLS label behind the tags. -/
def Stack.label (s : Stack) : Option Nat :=
  if s.short = false ∧ IsMpls s.etherType ∧ ¬ s.pktlen - 4 < 0 then some s.l3 else none

theorem Stack.label_eq (s : Stack) (h : s.label = some a) : a = s.l3 := by
  unfold Stack.label at h
  split_ifs at h
  exact (Option.some.inj h).symm

/-- What is behind tags and label. -/
def Stack.inner (s : Stack) : Nat := if s.label.isSome then s.l3 + 4 else s.l3

namespace Packet

variable (p : Packet)

def cached : Cached where
  vlan := p.vlan
  vlanTci := p.oob.vlanTci
  pbb := p.pbb
  mpls := p.mpls
  etherType := p.etherType
  l3 := p.l3
  proto := p.proto
  l4 := p.l4

/-- The frame, by offsets. -/
def frame (i : Nat) : Byte := p.mem (i + p.eth)

/-- The ethertype of what is behind tags and label. A frame that ends within its tags keeps the one it
had. -/
def innerType (s : Stack) : BitVec 16 :=
  if s.short then p.etherType
  else if s.label.isSome then guess (p.frame s.inner) s.etherType
  else s.etherType

/-- The protocol and the layer 4 header of what begins at `l3`. A packet that is not an IP packet
keeps its `l4_hdr`. -/
def upper (etherType : BitVec 16) (l3 : Nat) : Option Nat × Option Nat :=
  if etherType = ETHERTYPE_IP then (some (l3 + 9), some (l3 + 4 * (p.mem l3 &&& 0x0f).toNat))
  else if etherType = ETHERTYPE_IPV6 then
    let pktlen : Int := p.pktlen - (l3 - p.eth)
    let (proto, next, _) := p.extHdrLoop pktlen.toNat (l3 + 6) (l3 + 40) 0 pktlen
    (some proto, some next)
  else (none, p.l4)

/-- What a classification finds, for the stack of tags of the frame. -/
def found (s : Stack) : Cached where
  vlan := s.vlan.map (· + p.eth)
  vlanTci := s.vlan.elim 0 fun v => p.word (v + p.eth) ||| OFPVID_PRESENT
  pbb := s.pbb.map (· + p.eth)
  mpls := s.label.map (· + p.eth)
  etherType := p.innerType s
  l3 := s.inner + p.eth
  proto := (p.upper (p.innerType s) (s.inner + p.eth)).1
  l4 := (p.upper (p.innerType s) (s.inner + p.eth)).2

/-- `vlan_tci`, when a VLAN tag may have been found. -/
def tagTci (vlan : Option Nat) : BitVec 16 :=
  if p.vlan.isSome then p.oob.vlanTci
  else vlan.elim p.oob.vlanTci fun v => p.word v ||| OFPVID_PRESENT

/-- The packet with the tags of a stack, at their addresses, noted. -/
def tagged (s : Stack) : Packet :=
  { p with
    l3 := s.l3
    pbb := p.pbb.or s.pbb
    vlan := p.vlan.or s.vlan
    oob := { p.oob with vlanTci := p.tagTci s.vlan } }

variable (p : Packet)

theorem tagged_pbb (n : Nat) (s : Stack) :
    (({ p with pbb := p.pbb.or (some p.l3) } : Packet).skip n).tagged s =
      p.tagged { s with pbb := some p.l3 } := by
  unfold tagged skip
  cases p.pbb <;> rfl

theorem tagged_vlan (n : Nat) (s : Stack) : ((if p.vlan.isNone then p.noteVlan else p).skip n).tagged s =
      p.tagged { s with vlan := some p.l3 } := by
  unfold tagged skip noteVlan tagTci
  cases hvlan : p.vlan <;> simp [hvlan, word]

variable (fuel : Nat)

theorem stripTags_eq (p : Packet) (t : BitVec 16) (n : Int) :
    stripTags fuel p t n = (scan p.mem fuel p.l3 t n).map fun s =>
      if s.short then .short (p.tagged s) else .stripped (p.tagged s) s.etherType s.pktlen := by
  induction fuel generalizing p t n with
  | zero => rfl
  | succ fuel ih =>
    have hnone : p.tagged { l3 := p.l3, etherType := t, pktlen := n } = p := by
      have htci : p.tagTci none = p.oob.vlanTci := by
        unfold tagTci
        split_ifs <;> rfl
      simp only [tagged, htci, or_none]
    rw [stripTags, scan]
    by_cases hpbb : t = ETHERTYPE_PBB
    · rw [if_pos hpbb, if_pos hpbb, ih, map_map]
      refine congrArg₂ _ (funext fun s => ?_) rfl
      simp only [Function.comp_apply, tagged_pbb]
    · rw [if_neg hpbb, if_neg hpbb]
      by_cases hvlan : IsVlan t
      · rw [if_pos (show t = ETHERTYPE_VLAN ∨ t = ETHERTYPE_QINQ from hvlan), if_pos hvlan]
        by_cases hshort : n - 4 < 0
        · rw [if_pos hshort, if_pos hshort]
          exact congrArg (some ∘ TagScan.short) hnone.symm
        · rw [if_neg hshort, if_neg hshort]
          have hmem : ((if p.vlan.isNone then p.noteVlan else p).skip 4).mem = p.mem ∧
              ((if p.vlan.isNone then p.noteVlan else p).skip 4).l3 = p.l3 + 4 := by
            split_ifs
            all_goals exact ⟨rfl, rfl⟩
          rw [ih, hmem.1, hmem.2, map_map]
          refine congrArg₂ _ (funext fun s => ?_) rfl
          simp only [Function.comp_apply, tagged_vlan]
      · rw [if_neg (show ¬ (t = ETHERTYPE_VLAN ∨ t = ETHERTYPE_QINQ) from hvlan), if_neg hvlan]
        simp only [map_some, Bool.false_eq_true, if_false, hnone]

/-- The packet as `classify_packet_l2` leaves it, for the stack of tags of its frame. -/
def linked (s : Stack) : Packet :=
  if s.short then p.reset.tagged (s.shift p.eth)
  else (p.reset.tagged (s.shift p.eth)).innerHeader s.etherType s.pktlen

theorem map_stripTags (q : Packet) (t : BitVec 16) (n : Int) {k : TagScan → Packet}
    (hstripped : ∀ r t n, k (.stripped r t n) = r.innerHeader t n) (hshort : ∀ r, k (.short r) = r) :
    (stripTags fuel q t n).map k = (scan q.mem fuel q.l3 t n).map fun s =>
      if s.short then q.tagged s else (q.tagged s).innerHeader s.etherType s.pktlen := by
  rw [stripTags_eq, map_map]
  refine congrArg₂ _ (funext fun s => ?_) rfl
  simp only [Function.comp_apply]
  split_ifs
  · exact hshort _
  · exact hstripped _ _ _

theorem wordAt_mem (a : Nat) : wordAt p.mem (a + p.eth) = wordAt p.frame a := by
  simp only [wordAt, frame]
  congr 2
  omega

theorem scan_mem (fuel a : Nat) (t : BitVec 16) (n : Int) :
    scan p.mem fuel (a + p.eth) t n = (scan p.frame fuel a t n).map (Stack.shift p.eth) :=
  scan_shift p.mem p.eth fuel a t n

theorem classifyPacketL2_eq (p : Packet) :
    p.classifyPacketL2 fuel = (stack p.frame fuel p.pktlen).map p.linked := by
  have hword : ∀ a b, a = b + p.eth → p.reset.word a = wordAt p.frame b := fun a b h => by
    rw [h, ← p.wordAt_mem]
    rfl
  -- the packet behind the outermost tag, at `q`, and the stack with that tag added by `g`
  have hrest : ∀ (q : Packet) (a : Nat) (t : BitVec 16) (g : Stack → Stack) (k : TagScan → Packet),
      (∀ r t n, k (.stripped r t n) = r.innerHeader t n) → (∀ r, k (.short r) = r) →
      q.mem = p.mem → q.l3 = a + p.eth →
      (∀ s, (g s).short = s.short ∧ (g s).etherType = s.etherType ∧ (g s).pktlen = s.pktlen) →
      (∀ s, q.tagged (s.shift p.eth) = p.reset.tagged ((g s).shift p.eth)) →
      (stripTags fuel q t p.pktlen).map k =
        ((scan p.frame fuel a t p.pktlen).map g).map p.linked := by
    intro q a t g k hstripped hshort hmem hl3 hg htag
    rw [map_stripTags fuel q t p.pktlen hstripped hshort, hmem, hl3, p.scan_mem, map_map, map_map]
    refine congrArg₂ _ (funext fun s => ?_) rfl
    obtain ⟨hs, ht, hn⟩ := hg s
    simp only [Function.comp_apply, htag, linked, hs, ht, hn]
    rfl
  unfold classifyPacketL2 outerTag stack
  simp only [hword (p.reset.eth + 12) 12 (Nat.add_comm _ _),
    hword (p.reset.l3 + 16) 30 (by simp only [reset]; omega),
    hword (p.reset.l3 + 2) 16 (by simp only [reset]; omega)]
  by_cases hpbb : wordAt p.frame 12 = ETHERTYPE_PBB
  · rw [if_pos hpbb, if_pos hpbb]
    refine hrest _ 22 _ _ _ (fun _ _ _ => rfl) (fun _ => rfl) rfl (by simp only [reset, skip]; omega)
      (fun s => ⟨rfl, rfl, rfl⟩) fun s => ?_
    refine (tagged_pbb p.reset 8 (s.shift p.eth)).trans ?_
    simp only [Stack.shift, reset, map_some, Nat.add_comm]
  · rw [if_neg hpbb, if_neg hpbb]
    by_cases hvlan : IsVlan (wordAt p.frame 12)
    · rw [if_pos (show _ ∨ _ from hvlan), if_pos hvlan]
      refine hrest _ 18 _ _ _ (fun _ _ _ => rfl) (fun _ => rfl) rfl
        (by simp only [reset, skip, noteVlan]; omega) (fun s => ⟨rfl, rfl, rfl⟩) fun s => ?_
      refine (tagged_vlan p.reset 4 (s.shift p.eth)).trans ?_
      simp only [Stack.shift, reset, map_some, Nat.add_comm]
    · rw [if_neg (show ¬ (_ ∨ _) from hvlan), if_neg hvlan]
      refine (hrest p.reset 14 (wordAt p.frame 12) id _ (fun _ _ _ => rfl) (fun _ => rfl) rfl
        (by simp only [reset]; omega) (fun s => ⟨rfl, rfl, rfl⟩) fun s => rfl).trans ?_
      rw [map_id]
      rfl

theorem le_extHdrLoop (fuel proto next : Nat) (exthdr : BitVec 16) (n : Int) :
    next ≤ (p.extHdrLoop fuel proto next exthdr n).2.1 := by
  induction fuel generalizing proto next exthdr n with
  | zero => exact le_rfl
  | succ fuel ih =>
    rw [extHdrLoop]
    by_cases hlen : n ≤ 2
    · rw [if_pos hlen]
    · rw [if_neg hlen]
      cases extHdr (p.mem proto) with
      | some e => exact (Nat.le_add_right _ _).trans (ih _ _ _ _)
      | none =>
        split_ifs
        · exact Nat.le_add_right _ _
        · exact le_rfl

theorem eight_le_size {proto : Byte} {e : ExtHdr} (h : extHdr proto = some e) (n : Nat) : 8 ≤ e.size n := by
  unfold extHdr at h
  split_ifs at h <;> cases h <;> simp only <;> omega

variable {p q : Packet}

/-- **The extension headers** are found by the bytes up to the layer 4 header. -/
theorem extHdrLoop_congr {fuel proto next : Nat} {exthdr : BitVec 16} {n : Int}
    (hproto : q.mem proto = p.mem proto)
    (h : ∀ x, next ≤ x → x < (p.extHdrLoop fuel proto next exthdr n).2.1 → q.mem x = p.mem x) :
    q.extHdrLoop fuel proto next exthdr n = p.extHdrLoop fuel proto next exthdr n := by
  induction fuel generalizing proto next exthdr n with
  | zero => rfl
  | succ fuel ih =>
    rw [extHdrLoop] at h ⊢
    rw [extHdrLoop, hproto]
    by_cases hlen : n ≤ 2
    · rw [if_pos hlen, if_pos hlen]
    · rw [if_neg hlen] at h ⊢
      rw [if_neg hlen]
      cases hext : extHdr (p.mem proto) with
      | none => rfl
      | some e =>
        rw [hext] at h
        simp only at h ⊢
        have hsize := eight_le_size hext (p.mem (next + 1)).toNat
        have hle := p.le_extHdrLoop fuel next (next + e.size (p.mem (next + 1)).toNat)
          (noteExtHdr e.after e.flag exthdr) (n - e.size (p.mem (next + 1)).toNat)
        rw [h (next + 1) (by omega) (by omega)]
        exact ih (h next le_rfl (by omega)) fun x hx₁ hx₂ => h x (by omega) hx₂

theorem upper_congr {etherType : BitVec 16} {l3 : Nat} (hend : (q.pktlen : Int) + q.eth = p.pktlen + p.eth)
    (hl4 : etherType ≠ ETHERTYPE_IP → etherType ≠ ETHERTYPE_IPV6 → q.l4 = p.l4)
    (hihl : etherType = ETHERTYPE_IP → q.mem l3 = p.mem l3)
    (hext : etherType = ETHERTYPE_IPV6 → q.mem (l3 + 6) = p.mem (l3 + 6) ∧
      ∀ x, l3 + 40 ≤ x → (∀ a, (p.upper etherType l3).2 = some a → x < a) → q.mem x = p.mem x) :
    q.upper etherType l3 = p.upper etherType l3 := by
  by_cases hip : etherType = ETHERTYPE_IP
  · rw [upper, upper, if_pos hip, if_pos hip, hihl hip]
  · by_cases hipv6 : etherType = ETHERTYPE_IPV6
    · obtain ⟨hproto, hmem⟩ := hext hipv6
      have hlen : (q.pktlen : Int) - (l3 - q.eth) = p.pktlen - (l3 - p.eth) := by omega
      have hupper : (p.upper etherType l3).2 =
          some (p.extHdrLoop ((p.pktlen : Int) - (l3 - p.eth)).toNat (l3 + 6) (l3 + 40) 0
            ((p.pktlen : Int) - (l3 - p.eth))).2.1 := by
        rw [upper, if_neg hip, if_pos hipv6]
      have hloop : q.extHdrLoop ((p.pktlen : Int) - (l3 - p.eth)).toNat (l3 + 6) (l3 + 40) 0
          ((p.pktlen : Int) - (l3 - p.eth)) =
          p.extHdrLoop ((p.pktlen : Int) - (l3 - p.eth)).toNat (l3 + 6) (l3 + 40) 0
            ((p.pktlen : Int) - (l3 - p.eth)) := by
        refine extHdrLoop_congr hproto fun x hx₁ hx₂ => hmem x hx₁ fun a ha => ?_
        rw [hupper] at ha
        exact Option.some.inj ha ▸ hx₂
      simp only [upper, if_neg hip, if_pos hipv6, hlen, hloop]
    · rw [upper, upper, if_neg hip, if_neg hip, if_neg hipv6, if_neg hipv6, hl4 hip hipv6]

theorem cached_classifyUpper (hproto : p.proto = none) : p.classifyUpper.cached =
      { p.cached with
        proto := (p.upper p.etherType p.l3).1
        l4 := (p.upper p.etherType p.l3).2 } := by
  have hl4 : ∀ (q : Packet) (proto l4 : Nat), (q.classifyPacketL4 proto l4).cached = q.cached := by
    intro q proto l4
    unfold classifyPacketL4
    simp only
    split_ifs <;> rfl
  unfold classifyUpper upper
  split_ifs
  · rw [hl4]
    rfl
  · rw [hl4]
    rfl
  · rw [cached, ← hproto]

theorem cached_tagged (s : Stack) : (p.reset.tagged (s.shift p.eth)).cached =
      { vlan := s.vlan.map (· + p.eth)
        vlanTci := s.vlan.elim 0 fun v => p.word (v + p.eth) ||| OFPVID_PRESENT
        pbb := s.pbb.map (· + p.eth)
        mpls := none
        etherType := p.etherType
        l3 := s.l3 + p.eth
        proto := none
        l4 := p.l4 } := by
  unfold tagged cached reset Stack.shift tagTci
  cases s.vlan <;> simp [word]

theorem guess_eq (q : Packet) (first : Byte) :
    (if 0x45 ≤ first ∧ first ≤ 0x4f then { q with etherType := ETHERTYPE_IP }
      else if first &&& 0xf0 = 0x60 then { q with etherType := ETHERTYPE_IPV6 } else q) =
      { q with etherType := guess first q.etherType } := by
  unfold guess
  split_ifs <;> rfl

theorem innerHeader_found (q : Packet) {s : Stack} (hshort : s.short = false)
    (hends : s.etherType ≠ ETHERTYPE_PBB) : q.innerHeader s.etherType s.pktlen =
      { q with
        etherType := if s.label.isSome then guess (q.mem (q.l3 + 4)) s.etherType else s.etherType
        oob := { q.oob with etherType := s.etherType }
        mpls := if s.label.isSome then some q.l3 else q.mpls
        l3 := if s.label.isSome then q.l3 + 4 else q.l3 } := by
  unfold innerHeader
  by_cases hmpls : IsMpls s.etherType
  · rw [if_pos (show _ ∨ _ from hmpls)]
    by_cases hlen : s.pktlen - 4 < 0
    · have hlabel : s.label = none := by simp [Stack.label, hlen]
      rw [if_pos hlen, hlabel]
      rfl
    · have hlabel : s.label = some s.l3 := by simp [Stack.label, hmpls, hshort]; omega
      rw [if_neg hlen, hlabel]
      exact guess_eq _ _
  · have hlabel : s.label = none := by simp [Stack.label, hmpls]
    rw [if_neg (show ¬ (_ ∨ _) from hmpls), if_neg hends, hlabel]
    rfl

theorem cached_linked {s : Stack} (hends : s.short = false → s.etherType ≠ ETHERTYPE_PBB) :
    (p.linked s).classifyUpper.cached = p.found s := by
  have htag := p.cached_tagged s
  have hproto : (p.linked s).proto = none := by
    unfold linked innerHeader
    simp only
    split_ifs <;> rfl
  have hsame : (p.linked s).mem = p.mem ∧ (p.linked s).pktlen = p.pktlen ∧
      (p.linked s).eth = p.eth ∧ (p.linked s).l4 = p.l4 := by
    unfold linked innerHeader
    simp only
    split_ifs <;> exact ⟨rfl, rfl, rfl, rfl⟩
  obtain ⟨hmem, hlen, heth, hl4⟩ := hsame
  have hupper : ∀ t l3, (p.linked s).upper t l3 = p.upper t l3 := fun t l3 =>
    upper_congr (by rw [hlen, heth]) (fun _ _ => hl4) (fun _ => by rw [hmem])
      fun _ => ⟨by rw [hmem], fun x _ _ => by rw [hmem]⟩
  rw [cached_classifyUpper hproto, hupper]
  cases hshort : s.short with
  | true =>
    have hlabel : s.label = none := by simp [Stack.label, hshort]
    have hinner : s.inner = s.l3 := by simp [Stack.inner, hlabel]
    have hlinked : p.linked s = p.reset.tagged (s.shift p.eth) := by rw [linked, if_pos hshort]
    rw [hlinked, htag]
    simp only [found, innerType, hshort, if_true, hlabel, map_none, hinner]
    rfl
  | false =>
    have hinner : s.inner + p.eth = if s.label.isSome then s.l3 + p.eth + 4 else s.l3 + p.eth := by
      rw [Stack.inner]
      split_ifs <;> omega
    have hlinked := innerHeader_found (p.reset.tagged (s.shift p.eth)) hshort (hends hshort)
    have htype : (p.linked s).etherType = p.innerType s := by
      rw [linked, hshort, if_neg Bool.false_ne_true, hlinked, innerType, hshort, if_neg Bool.false_ne_true]
      simp only
      split_ifs with h
      · rw [frame, hinner, if_pos h]
        rfl
      · rfl
    have hl3 : (p.linked s).l3 = s.inner + p.eth := by
      rw [linked, hshort, if_neg Bool.false_ne_true, hlinked, hinner]
      rfl
    have hmpls : (p.linked s).mpls = s.label.map (· + p.eth) := by
      rw [linked, hshort, if_neg Bool.false_ne_true, hlinked]
      cases hlabel : s.label with
      | none => rfl
      | some a =>
        rw [s.label_eq hlabel]
        rfl
    have hcached : (p.linked s).cached =
        { (p.reset.tagged (s.shift p.eth)).cached with
          etherType := (p.linked s).etherType
          mpls := (p.linked s).mpls
          l3 := (p.linked s).l3 } := by
      rw [linked, hshort, if_neg Bool.false_ne_true, hlinked]
      rfl
    rw [hcached, htag, htype, hl3, hmpls]
    rfl

/-- **What re-classification finds** depends on the frame only, but for the two members it may keep. -/
theorem cached_reClassifyPacket :
    (p.reClassifyPacket fuel).map cached = (stack p.frame fuel p.pktlen).map p.found := by
  rw [reClassifyPacket, classifyPacketL2_eq, map_map, map_map]
  cases hstack : stack p.frame fuel p.pktlen with
  | none => rfl
  | some s =>
    have hends := (stack_within hstack).ends
    exact congrArg some (p.cached_linked fun h => (hends h).1)

end Packet

end Lagopus
