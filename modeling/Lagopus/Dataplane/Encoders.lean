import Lagopus.Dataplane.ByteOff

/-!
# The encoders, field by field

What each `case` of `flow_make_match` does, on its own.

* `encoder_faithful`: for a well-formed match the entry is regular and compares exactly the header
  field of the match;
* `encoder_footprint`: whatever the value, the entry stays within the footprint of its field.
-/

namespace Lagopus

open MaskedCell OxmField List Match

/-! ## Plain fields -/

/-- Where a field that is copied byte for byte lies: its base and offset. -/
def OxmField.plainAt : OxmField → Option (Base × Nat)
  | .metadata => some (.oob, 0)
  | .inPort => some (.oob, 8)
  | .inPhyPort => some (.oob, 12)
  | .ethDst => some (.eth, 0)
  | .ethSrc => some (.eth, 6)
  | .ipProto => some (.ipproto, 0)
  | .ipv4Src => some (.l3, 12)
  | .ipv4Dst => some (.l3, 16)
  | .arpOp => some (.l3, 6)
  | .arpSha => some (.l3, 8)
  | .arpSpa => some (.l3, 14)
  | .arpTha => some (.l3, 18)
  | .arpTpa => some (.l3, 24)
  | .ipv6Src => some (.v6src, 0)
  | .ipv6Dst => some (.v6dst, 0)
  | .tcpSrc | .udpSrc | .sctpSrc | .icmpv4Type | .icmpv6Type => some (.l4, 0)
  | .tcpDst | .udpDst | .sctpDst => some (.l4, 2)
  | .icmpv4Code | .icmpv6Code => some (.l4, 1)
  | .ipv6NdTarget => some (.l4, 8)
  | .ipv6NdSll => some (.ndsll, 2)
  | .ipv6NdTll => some (.ndtll, 2)
  | .pbbIsid => some (.pbb, 1)
  | .tunnelId => some (.oob2, 0)
  | .ipv6Exthdr => some (.oob2, 8)
  | _ => none

/-- The value is inside the mask. -/
def Match.InMask (m : Match) : Prop := ∀ i < m.len, m.byte i &&& m.maskByte i = m.byte i

variable {m : Match} {b : Base} {off : Nat}

theorem encoder_of_plainAt (l3 : BitVec 16) (hwf : m.WellFormed) (h : m.field.plainAt = some (b, off)) :
    encoder l3 m = some (makeByteoff m off b) := by
  obtain ⟨cls, f, hasMask, value⟩ := m
  have hmaskable : hasMask = true → f.maskable = true := hwf.maskable
  cases f <;> simp only [plainAt, Option.some.injEq, Prod.mk.injEq, reduceCtorEq] at h <;>
    obtain ⟨rfl, rfl⟩ := h <;> cases hasMask <;>
    first | rfl | (exact absurd (hmaskable rfl) (by decide))

variable {f : OxmField}

theorem rawField_of_plainAt (p : Packet) (h : f.plainAt = some (b, off)) :
    p.rawField f = p.read b off f.bytes := by
  cases f <;> simp only [plainAt, Option.some.injEq, Prod.mk.injEq, reduceCtorEq] at h <;>
    obtain ⟨rfl, rfl⟩ := h <;> rfl

variable {len : Nat}

theorem byteBits_getLsbD {i : Nat} :
    (byteBits len off).getLsbD i = true ↔ i < 32 ∧ off ≤ i ∧ i < off + len := by
  simp only [byteBits, BitVec.getLsbD_ofNat, Bool.and_eq_true, decide_eq_true_eq,
    Nat.testBit_shiftLeft, Nat.testBit_two_pow_sub_one]
  omega

theorem byteBits_ne_zero (hlen : 0 < len) (hoff : off < 32) : byteBits len off ≠ 0 := by
  intro h
  have : (byteBits len off).getLsbD off = true := byteBits_getLsbD.mpr ⟨hoff, le_rfl, by omega⟩
  rw [h] at this
  simp at this

theorem plainAt_fits (h : f.plainAt = some (b, off)) : 0 < f.bytes ∧ off + f.bytes ≤ 32 := by
  cases f <;> simp only [plainAt, Option.some.injEq, Prod.mk.injEq, reduceCtorEq] at h <;>
    obtain ⟨rfl, rfl⟩ := h <;> decide

theorem makeByteoff_regular (hlen : 0 < m.len) (hfit : off + m.len ≤ 32)
    (hin : m.InMask) : (makeByteoff m off b).Regular where
  bits_ne := byteBits_ne_zero hlen (by omega)
  covered := by
    intro w hw
    obtain ⟨i, hi, rfl⟩ := mem_map.mp hw
    have := mem_range.mp hi
    exact ⟨off + i, byteBits_getLsbD.mpr ⟨by omega, by omega, by omega⟩, rfl⟩
  nodup := by
    simp only [makeByteoff, map_map]
    exact nodup_range.map (fun i j hij => by simpa using hij)
  sound := by
    intro w hw
    obtain ⟨i, hi, rfl⟩ := mem_map.mp hw
    exact ⟨within_iff_and_eq.mpr (hin i (mem_range.mp hi)), fun i _ => by simp [assign]⟩

theorem makeByteoff_holds_iff (p : Packet) (hin : m.InMask) :
    (makeByteoff m off b).Holds p ↔ (p.read b off m.len).any m.holdsOn = true := by
  unfold Packet.read Packet.readWith
  cases hb : p.base b with
  | none => simp [Encoding.Holds, makeByteoff, hb]
  | some r =>
    simp only [Encoding.Holds, makeByteoff, hb, Option.some.injEq, exists_eq_left', Option.map_some,
      Option.any_some, Match.holdsOn, length_map, length_range, true_and,
      decide_eq_true_eq, mem_map, mem_range, forall_exists_index, and_imp,
      forall_apply_eq_imp_iff₂]
    refine forall₂_congr fun i hi => ?_
    simp [Write.Admits, assign, hi, hin i hi]

/-! ## Packed fields

The fields that share a byte with another: each is read off its own encoder. -/

theorem sound_of {u : Write 8} (hv : u.value &&& u.mask = u.value)
    (hk : u.keepValue &&& u.mask = 0) : u.Sound where
  value_within := within_iff_and_eq.mpr hv
  clears := by
    intro i hi
    have := congrArg (fun x => x.getLsbD i) hk
    simpa [hi] using this

namespace Match

variable {m : Match}

theorem WellFormed.unmasked (hwf : m.WellFormed) (h : m.field.maskable = false) : m.hasMask = false := by
  by_contra hm
  rw [hwf.maskable (by simpa using hm)] at h
  cases h

theorem WellFormed.one_byte (hwf : m.WellFormed) {f : OxmField} (hf : m.field = f) {k : Byte}
    (h : f.maskable = false ∧ f.bytes = 1 ∧ f.widthMask 0 = k) :
    m.hasMask = false ∧ m.len = 1 ∧ m.byte 0 &&& k = m.byte 0 := by
  obtain ⟨hmask, hbytes, rfl⟩ := h
  subst hf
  exact ⟨hwf.unmasked hmask, hwf.len_eq.trans hbytes, hwf.width 0 (by omega)⟩

theorem holdsOn_one (hlen : m.len = 1) (hmask : m.hasMask = false) (a : Byte) :
    m.holdsOn [a] = true ↔ a = m.byte 0 := by
  simp [holdsOn, hlen, maskByte, hmask]

theorem holdsOn_two (hlen : m.len = 2) (a b : Byte) : m.holdsOn [a, b] = true ↔
      a &&& m.maskByte 0 = m.byte 0 &&& m.maskByte 0 ∧
        b &&& m.maskByte 1 = m.byte 1 &&& m.maskByte 1 := by
  simp [holdsOn, hlen, show ∀ i, i < 2 ↔ i = 0 ∨ i = 1 by omega]

theorem holdsOn_four (hlen : m.len = 4) (a b c d : Byte) : m.holdsOn [a, b, c, d] = true ↔
      a &&& m.maskByte 0 = m.byte 0 &&& m.maskByte 0 ∧
        b &&& m.maskByte 1 = m.byte 1 &&& m.maskByte 1 ∧
        c &&& m.maskByte 2 = m.byte 2 &&& m.maskByte 2 ∧
        d &&& m.maskByte 3 = m.byte 3 &&& m.maskByte 3 := by
  simp [holdsOn, hlen, show ∀ i, i < 4 ↔ i = 0 ∨ i = 1 ∨ i = 2 ∨ i = 3 by omega]

end Match

/-! ### Bit facts -/

variable {x v : Byte}

theorem pcp_bits (hv : v &&& 0x07 = v) : x &&& 0xe0 = v <<< 5 ↔ x >>> 5 = v := by
  simp only [byte_eq_iff] at *
  simp at *
  grind

theorem dscp4_bits (hv : v &&& 0x3f = v) : x &&& 0xfc = v <<< 2 ↔ x >>> 2 = v := by
  simp only [byte_eq_iff] at *
  simp at *
  grind

variable {y : Byte}

theorem dscp6_bits (hv : v &&& 0x3f = v) :
    (x &&& 0x0f = v >>> 2 ∧ y &&& 0xc0 = v <<< 6) ↔ ((x <<< 4) ||| (y >>> 4)) >>> 2 = v := by
  simp only [byte_eq_iff] at *
  simp at *
  grind

theorem ecn6_bits (hv : v &&& 0x03 = v) :
    y &&& 0x30 = v <<< 4 ↔ ((x <<< 4) ||| (y >>> 4)) &&& 0x03 = v := by
  simp only [byte_eq_iff] at *
  simp at *
  grind

theorem tc_bits (hv : v &&& 0x07 = v) : x &&& 0x0e = v <<< 1 ↔ (x >>> 1) &&& 0x07 = v := by
  simp only [byte_eq_iff] at *
  simp at *
  grind

theorem label_bits {z a b c : Byte} (ha : a &&& 0x0f = a) :
    (x &&& 0xff = (a <<< 4) ||| (b >>> 4) ∧ y &&& 0xff = (b <<< 4) ||| (c >>> 4) ∧
        z &&& 0xf0 = c <<< 4) ↔
      x >>> 4 = a ∧ (x <<< 4) ||| (y >>> 4) = b ∧ (y <<< 4) ||| (z >>> 4) = c := by
  simp only [byte_eq_iff] at *
  simp at *
  grind

theorem masked_width {k w : Byte} (hk : k &&& w = k) (hv : v &&& k = v) :
    x &&& k = v ↔ (x &&& w) &&& k = v &&& k := by
  rw [BitVec.and_assoc, BitVec.and_comm w k, hk, hv]

theorem keep_width {k w keep : Byte} (hk : k &&& w = k) (hkeep : w &&& keep = 0) : keep &&& k = 0 := by
  rw [← hk, BitVec.and_comm, BitVec.and_assoc, hkeep]
  exact BitVec.and_zero

/-! ### Encoders -/

section Packed

variable {m : Match} {l3 : BitVec 16} {e : Encoding}

/-- An entry that is regular and compares exactly the field of its match, on every packet whose
layer 3 type is the one the encoder went by. -/
def Faithful (m : Match) (l3 : BitVec 16) (e : Encoding) : Prop :=
  e.Regular ∧ ∀ p : Packet,
    (m.field.l3Need ≠ .any → (l3 = ETHERTYPE_IPV6 ↔ p.etherType = ETHERTYPE_IPV6)) →
      (e.Holds p ↔ (p.rawField m.field).any m.holdsOn = true)

theorem faithful_plain (hwf : m.WellFormed)
    (hin : m.InMask) (h : m.field.plainAt = some (b, off))
    (he : encoder l3 m = some e) : Faithful m l3 e := by
  rw [encoder_of_plainAt l3 hwf h, Option.some.injEq] at he
  subst he
  have hfit := plainAt_fits h
  refine ⟨makeByteoff_regular (by rw [hwf.len_eq]; exact hfit.1)
    (by rw [hwf.len_eq]; exact hfit.2) hin, fun p _ => ?_⟩
  rw [makeByteoff_holds_iff p hin, rawField_of_plainAt p h, hwf.len_eq]

/-- An entry behind a base pointer with a literal bitmap, by what the field is read off there. -/
theorem faithful_of_base {len : Nat} {ws : List (Nat × Write 8)} {g : (Nat → Byte) → List Byte}
    (hlen : 0 < len ∧ off + len ≤ 32)
    (hws : (∀ w ∈ ws, off / 4 ≤ w.1 / 4 ∧ w.1 < off + len) ∧ (ws.map Prod.fst).Nodup)
    (hs : ∀ w ∈ ws, w.2.value &&& w.2.mask = w.2.value ∧ w.2.keepValue &&& w.2.mask = 0)
    (hraw : ∀ p : Packet, (m.field.l3Need ≠ .any → (l3 = ETHERTYPE_IPV6 ↔ p.etherType = ETHERTYPE_IPV6)) →
      p.rawField m.field = (p.base b).map g)
    (hiff : ∀ r, (∀ w ∈ ws, w.2.Admits (r w.1)) ↔ m.holdsOn (g r) = true) :
    Faithful m l3 ⟨b, byteBits len off, ws⟩ := by
  refine ⟨⟨byteBits_ne_zero hlen.1 (by omega), fun w hw => ?_, hws.2,
    fun w hw => sound_of (hs w hw).1 (hs w hw).2⟩, fun p hp => ?_⟩
  · have := hws.1 w hw
    exact ⟨max off w.1, byteBits_getLsbD.mpr ⟨by omega, by omega, by omega⟩, by omega⟩
  · rw [hraw p hp, Encoding.Holds]
    cases p.base b with
    | none => simp
    | some r => simpa using hiff r

theorem faithful_merge {i : Nat} {mask keep value : Byte} {g : (Nat → Byte) → Byte}
    (hone : m.hasMask = false ∧ m.len = 1) (hi : i < 32) (hs : value &&& mask = value ∧ keep &&& mask = 0)
    (hraw : ∀ p : Packet, (m.field.l3Need ≠ .any → (l3 = ETHERTYPE_IPV6 ↔ p.etherType = ETHERTYPE_IPV6)) →
      p.rawField m.field = (p.base b).map fun r => [g r])
    (hiff : ∀ r, r i &&& mask = value ↔ g r = m.byte 0) :
    Faithful m l3 ⟨b, byteBits 1 i, [(i, merge mask keep value)]⟩ := by
  refine faithful_of_base ⟨Nat.one_pos, hi⟩ (by simp) (by simpa [merge] using hs) hraw fun r => ?_
  rw [holdsOn_one hone.2 hone.1, ← hiff]
  simp [Write.Admits, merge]

variable (hwf : m.WellFormed) (he : encoder l3 m = some e)

include hwf he

theorem faithful_vlanPcp (hf : m.field = .vlanPcp) : Faithful m l3 e := by
  obtain ⟨hmask, hlen, hw⟩ := hwf.one_byte hf (k := 0x07) ⟨rfl, rfl, rfl⟩
  simp only [encoder, hf, hmask, Option.some.injEq] at he
  subst he
  refine faithful_merge ⟨hmask, hlen⟩ (by decide) ⟨?_, rfl⟩ (fun p _ => by rw [hf]; rfl) fun r => pcp_bits hw
  simp only [byte_eq_iff]
  simp

theorem faithful_vlanVid (hin : m.InMask)
    (hf : m.field = .vlanVid) : Faithful m l3 e := by
  have hlen : m.len = 2 := by rw [hwf.len_eq, hf]; rfl
  have hw : m.byte 0 &&& 0x1f = m.byte 0 := by
    simpa [hf, widthMask] using hwf.width 0 (by rw [hf]; decide)
  have hin0 := hin 0 (by omega)
  have hin1 := hin 1 (by omega)
  cases hmask : m.hasMask with
  | false =>
    simp only [encoder, hf, hmask, Option.some.injEq] at he
    subst he
    refine faithful_of_base (g := fun r => [r 22 &&& 0x1f, r 23])
      (by decide) (by simp) ?_ (fun p _ => by rw [hf]; rfl) fun r => ?_
    · simpa [merge, assign] using hw
    · rw [holdsOn_two hlen]
      simp [Write.Admits, merge, assign, Match.maskByte, hmask]
  | true =>
    have hm : ∀ i, m.maskByte i = m.byte (2 + i) := by simp [Match.maskByte, hmask, hlen]
    have hmw : m.byte 2 &&& 0x1f = m.byte 2 := by
      simpa [hf, widthMask, hm] using hwf.maskWidth hmask 0 (by rw [hf]; decide)
    rw [hm] at hin0 hin1
    simp only [encoder, hf, hmask, Option.some.injEq] at he
    subst he
    refine faithful_of_base (g := fun r => [r 22 &&& 0x1f, r 23])
      (by decide) (by simp) ?_ (fun p _ => by rw [hf]; rfl) fun r => ?_
    · simp only [mem_cons, not_mem_nil, or_false, forall_eq_or_imp, forall_eq, assign]
      exact ⟨⟨hin0, keep_width hmw rfl⟩, hin1, BitVec.zero_and⟩
    · rw [holdsOn_two hlen, hm, hm, ← masked_width hmw hin0, hin1]
      simp [Write.Admits, assign]

theorem faithful_ipDscp (hf : m.field = .ipDscp) : Faithful m l3 e := by
  obtain ⟨hmask, hlen, hw⟩ := hwf.one_byte hf (k := 0x3f) ⟨rfl, rfl, rfl⟩
  have hneed : m.field.l3Need ≠ .any := by rw [hf]; decide
  simp only [encoder, hf, hmask] at he
  by_cases hv6 : l3 = ETHERTYPE_IPV6
  · rw [if_pos hv6, Option.some.injEq] at he
    subst he
    refine faithful_of_base (g := fun r => [((r 0 <<< 4) ||| (r 1 >>> 4)) >>> 2])
      (by decide) (by simp) ?_ (fun p hp => ?_) fun r => ?_
    · simp only [mem_cons, not_mem_nil, or_false, forall_eq_or_imp, forall_eq, merge,
        show (0xf0 : Byte) &&& 0x0f = 0 from rfl, show (0x3f : Byte) &&& 0xc0 = 0 from rfl, and_true]
      simp only [byte_eq_iff] at hw ⊢
      simp at hw ⊢
      grind
    · rw [hf, Packet.rawField, Packet.trafficClass, if_pos ((hp hneed).mp hv6)]
      rfl
    · rw [holdsOn_one hlen hmask, ← dscp6_bits hw]
      simp [Write.Admits, merge]
  · rw [if_neg hv6, Option.some.injEq] at he
    subst he
    refine faithful_merge ⟨hmask, hlen⟩ (by decide) ⟨?_, rfl⟩ (fun p hp => ?_) fun r => dscp4_bits hw
    · simp only [byte_eq_iff]
      simp
    · rw [hf, Packet.rawField, Packet.trafficClass, if_neg (fun h => hv6 ((hp hneed).mpr h))]
      rfl

theorem faithful_ipEcn (hf : m.field = .ipEcn) : Faithful m l3 e := by
  obtain ⟨hmask, hlen, hw⟩ := hwf.one_byte hf (k := 0x03) ⟨rfl, rfl, rfl⟩
  have hneed : m.field.l3Need ≠ .any := by rw [hf]; decide
  simp only [encoder, hf, hmask] at he
  by_cases hv6 : l3 = ETHERTYPE_IPV6
  · rw [if_pos hv6, Option.some.injEq] at he
    subst he
    refine faithful_merge ⟨hmask, hlen⟩ (by decide) ⟨?_, rfl⟩ (fun p hp => ?_) fun r =>
      ecn6_bits (x := r 0) hw
    · simp only [byte_eq_iff] at hw ⊢
      simp at hw ⊢
      grind
    · rw [hf, Packet.rawField, Packet.trafficClass, if_pos ((hp hneed).mp hv6)]
      rfl
  · rw [if_neg hv6, Option.some.injEq] at he
    subst he
    refine faithful_merge ⟨hmask, hlen⟩ (by decide) ⟨hw, rfl⟩ (fun p hp => ?_) fun r => Iff.rfl
    rw [hf, Packet.rawField, Packet.trafficClass, if_neg (fun h => hv6 ((hp hneed).mpr h))]
    rfl

theorem faithful_ipv6Flabel (hin : m.InMask)
    (hf : m.field = .ipv6Flabel) : Faithful m l3 e := by
  have hlen : m.len = 4 := by rw [hwf.len_eq, hf]; rfl
  have hw0 : m.byte 0 = 0 := by
    simpa [hf, widthMask, eq_comm] using hwf.width 0 (by rw [hf]; decide)
  have hw : m.byte 1 &&& 0x0f = m.byte 1 := by
    simpa [hf, widthMask] using hwf.width 1 (by rw [hf]; decide)
  have hin1 := hin 1 (by omega)
  have hin2 := hin 2 (by omega)
  have hin3 := hin 3 (by omega)
  cases hmask : m.hasMask with
  | false =>
    simp only [encoder, hf, hmask, Option.some.injEq] at he
    subst he
    refine faithful_of_base (g := fun r => [0, r 1 &&& 0x0f, r 2, r 3])
      (by decide) (by simp) ?_ (fun p _ => by rw [hf]; rfl) fun r => ?_
    · simpa [assign] using hw
    · rw [holdsOn_four hlen]
      simp [Write.Admits, assign, Match.maskByte, hmask, hw0]
  | true =>
    have hm : ∀ i, m.maskByte i = m.byte (4 + i) := by simp [Match.maskByte, hmask, hlen]
    have hmw : m.byte 5 &&& 0x0f = m.byte 5 := by
      simpa [hf, widthMask, hm] using hwf.maskWidth hmask 1 (by rw [hf]; decide)
    rw [hm] at hin1 hin2 hin3
    simp only [encoder, hf, hmask, Option.some.injEq] at he
    subst he
    refine faithful_of_base (g := fun r => [0, r 1 &&& 0x0f, r 2, r 3])
      (by decide) (by simp) ?_ (fun p _ => by rw [hf]; rfl) fun r => ?_
    · simp only [mem_cons, not_mem_nil, or_false, forall_eq_or_imp, forall_eq, assign]
      exact ⟨⟨hin1, keep_width hmw rfl⟩, ⟨hin2, BitVec.zero_and⟩, hin3, BitVec.zero_and⟩
    · rw [holdsOn_four hlen, hm, hm, hm, hm, ← masked_width hmw hin1, hin2, hin3, hw0]
      simp [Write.Admits, assign]

theorem faithful_mplsLabel (hf : m.field = .mplsLabel) : Faithful m l3 e := by
  have hmask := hwf.unmasked (by rw [hf]; rfl)
  have hlen : m.len = 4 := by rw [hwf.len_eq, hf]; rfl
  have hw0 : m.byte 0 = 0 := by
    simpa [hf, widthMask, eq_comm] using hwf.width 0 (by rw [hf]; decide)
  have hw : m.byte 1 &&& 0x0f = m.byte 1 := by
    simpa [hf, widthMask] using hwf.width 1 (by rw [hf]; decide)
  simp only [encoder, hf, hmask, Option.some.injEq] at he
  subst he
  refine faithful_of_base
    (g := fun r => [(0 : Byte), r 0 >>> 4, (r 0 <<< 4) ||| (r 1 >>> 4), (r 1 <<< 4) ||| (r 2 >>> 4)])
    (by decide) (by simp) ?_ (fun p _ => by rw [hf]; rfl) fun r => ?_
  · simp only [mem_cons, not_mem_nil, or_false, forall_eq_or_imp, forall_eq, assign, labelByte]
    refine ⟨⟨and_ff _, rfl⟩, ⟨and_ff _, rfl⟩, ?_, rfl⟩
    simp only [byte_eq_iff]
    simp
  · rw [holdsOn_four hlen]
    simp only [maskByte_of_not_hasMask hmask, hw0]
    have := label_bits (x := r 0) (y := r 1) (z := r 2) (b := m.byte 2) (c := m.byte 3) hw
    simpa [Write.Admits, assign, labelByte] using this

theorem faithful_mplsTc (hf : m.field = .mplsTc) : Faithful m l3 e := by
  obtain ⟨hmask, hlen, hw⟩ := hwf.one_byte hf (k := 0x07) ⟨rfl, rfl, rfl⟩
  simp only [encoder, hf, hmask, Option.some.injEq] at he
  subst he
  refine faithful_merge ⟨hmask, hlen⟩ (by decide) ⟨?_, rfl⟩ (fun p _ => by rw [hf]; rfl) fun r => tc_bits hw
  simp only [byte_eq_iff] at hw ⊢
  simp at hw ⊢
  grind

theorem faithful_mplsBos (hf : m.field = .mplsBos) : Faithful m l3 e := by
  obtain ⟨hmask, hlen, hw⟩ := hwf.one_byte hf (k := 0x01) ⟨rfl, rfl, rfl⟩
  simp only [encoder, hf, hmask, Option.some.injEq] at he
  subst he
  exact faithful_merge ⟨hmask, hlen⟩ (by decide) ⟨hw, rfl⟩ (fun p _ => by rw [hf]; rfl) fun r => Iff.rfl

end Packed

theorem plainAt_or_packed (hstd : f.standard = true) : f = .ethType ∨ (∃ b off, f.plainAt = some (b, off)) ∨
      f ∈ [.vlanVid, .vlanPcp, .ipDscp, .ipEcn, .ipv6Flabel, .mplsLabel, .mplsTc, .mplsBos] := by
  cases f <;> first
    | (exact absurd hstd (by decide))
    | (exact .inl rfl)
    | (exact .inr (.inl ⟨_, _, rfl⟩))
    | (exact .inr (.inr (by decide)))

theorem exists_encoder (l3 : BitVec 16) (hwf : m.WellFormed) (hne : m.field ≠ .ethType) :
    ∃ e, encoder l3 m = some e := by
  rcases plainAt_or_packed hwf.standard with hf | ⟨b, off, hf⟩ | hf
  · exact absurd hf hne
  · exact ⟨_, encoder_of_plainAt l3 hwf hf⟩
  · obtain ⟨cls, f, hasMask, value⟩ := m
    have hmaskable : hasMask = true → f.maskable = true := hwf.maskable
    simp only [mem_cons, not_mem_nil, or_false] at hf
    rcases hf with rfl | rfl | rfl | rfl | rfl | rfl | rfl | rfl <;> cases hasMask <;> first
      | exact ⟨_, rfl⟩
      | exact absurd (hmaskable rfl) (by decide)
      | (by_cases hv6 : l3 = ETHERTYPE_IPV6
         · exact ⟨_, if_pos hv6⟩
         · exact ⟨_, if_neg hv6⟩)

/-- **One entry at a time, the compilation is faithful.** -/
theorem encoder_faithful {l3 : BitVec 16} (hwf : m.WellFormed)
    (hin : m.InMask) (he : encoder l3 m = some e) :
    Faithful m l3 e := by
  rcases plainAt_or_packed hwf.standard with hf | ⟨b, off, hf⟩ | hf
  · have hmask := hwf.unmasked (by rw [hf]; rfl)
    simp [encoder, hf, hmask] at he
  · exact faithful_plain hwf hin hf he
  · simp only [mem_cons, not_mem_nil, or_false] at hf
    rcases hf with hf | hf | hf | hf | hf | hf | hf | hf
    · exact faithful_vlanVid hwf he hin hf
    · exact faithful_vlanPcp hwf he hf
    · exact faithful_ipDscp hwf he hf
    · exact faithful_ipEcn hwf he hf
    · exact faithful_ipv6Flabel hwf he hin hf
    · exact faithful_mplsLabel hwf he hf
    · exact faithful_mplsTc hwf he hf
    · exact faithful_mplsBos hwf he hf

/-! ## Footprints

What an entry can do to a byte, whatever its value: the mask and value bits it may set, and the
bits of earlier entries it keeps. Whether one entry can disturb another is then a finite check. -/

/-- What an entry may do to one byte. -/
structure CellPrint where
  off : Nat
  /-- Mask and value bits it may set. -/
  bound : Byte
  /-- Earlier mask bits it keeps. -/
  keepMask : Byte
  /-- Earlier value bits it keeps. -/
  keepValue : Byte

/-- The footprint of a field, `v6` telling whether the layer 3 type is IPv6. -/
def OxmField.footprint (v6 : Bool) (f : OxmField) (hasMask : Bool) : Base × List CellPrint :=
  match f.plainAt with
  | some (b, off) => (b, (List.range f.bytes).map fun i => ⟨off + i, 0xff, 0, 0⟩)
  | none => match f with
    | .vlanVid => (.oob, [⟨22, 0x1f, if hasMask then 0xe0 else 0xff, 0xe0⟩, ⟨23, 0xff, 0, 0⟩])
    | .vlanPcp => (.oob, [⟨22, 0xe0, 0xff, 0x1f⟩])
    | .ipDscp => (.l3, if v6 then [⟨0, 0x0f, 0xff, 0xf0⟩, ⟨1, 0xc0, 0xff, 0x3f⟩]
        else [⟨1, 0xfc, 0xff, 0x03⟩])
    | .ipEcn => (.l3, if v6 then [⟨1, 0x30, 0xff, 0xcf⟩] else [⟨1, 0x03, 0xff, 0xfc⟩])
    | .ipv6Flabel => (.l3, [⟨1, 0x0f, if hasMask then 0xf0 else 0, 0xf0⟩, ⟨2, 0xff, 0, 0⟩,
        ⟨3, 0xff, 0, 0⟩])
    | .mplsLabel => (.mpls, [⟨0, 0xff, 0, 0⟩, ⟨1, 0xff, 0, 0⟩, ⟨2, 0xf0, 0, 0x0f⟩])
    | .mplsTc => (.mpls, [⟨2, 0x0e, 0xff, 0xf1⟩])
    | .mplsBos => (.mpls, [⟨2, 0x01, 0xff, 0xfe⟩])
    | _ => (.oob, [])

/-- A write stays within a cell of a footprint. -/
def CellPrint.Covers (c : CellPrint) (w : Nat × Write 8) : Prop :=
  w.1 = c.off ∧ w.2.mask &&& c.bound = w.2.mask ∧ w.2.keepMask = c.keepMask ∧
    w.2.keepValue = c.keepValue

theorem encoder_footprint {l3 : BitVec 16} (hwf : m.WellFormed) (he : encoder l3 m = some e) :
    e.base = (m.field.footprint (l3 == ETHERTYPE_IPV6) m.hasMask).1 ∧
      ∀ w ∈ e.writes,
        ∃ c ∈ (m.field.footprint (l3 == ETHERTYPE_IPV6) m.hasMask).2, c.Covers w := by
  rcases plainAt_or_packed hwf.standard with hf | ⟨b, off, hf⟩ | hf
  · have hmask := hwf.unmasked (by rw [hf]; rfl)
    simp [encoder, hf, hmask] at he
  · rw [encoder_of_plainAt l3 hwf hf, Option.some.injEq] at he
    subst he
    simp only [footprint, hf]
    refine ⟨rfl, fun w hw => ?_⟩
    obtain ⟨i, hi, rfl⟩ := mem_map.mp hw
    rw [hwf.len_eq] at hi
    exact ⟨_, mem_map_of_mem hi, rfl, by simp, rfl, rfl⟩
  · simp only [mem_cons, not_mem_nil, or_false] at hf
    cases hmask : m.hasMask with
    | false =>
      by_cases hv6 : l3 = ETHERTYPE_IPV6 <;> rcases hf with hf | hf | hf | hf | hf | hf | hf | hf
      all_goals
        simp only [encoder, hf, hmask, hv6, if_true, if_false, Option.some.injEq] at he
        subst he
        simp [footprint, plainAt, hf, hv6, CellPrint.Covers, merge, assign]
    | true =>
      have hmaskable := hwf.maskable hmask
      rcases hf with hf | hf | hf | hf | hf | hf | hf | hf <;> rw [hf] at hmaskable <;> cases hmaskable
      · have hmw := hwf.maskWidth hmask 0 (by rw [hf]; decide)
        have hlen : m.len = 2 := by rw [hwf.len_eq, hf]; rfl
        simp only [hf, widthMask, Match.maskByte, hmask, if_true, hlen, Nat.add_zero] at hmw
        simp only [encoder, hf, hmask, Option.some.injEq] at he
        subst he
        simpa [footprint, plainAt, hf, CellPrint.Covers, assign] using hmw
      · have hmw := hwf.maskWidth hmask 1 (by rw [hf]; decide)
        have hlen : m.len = 4 := by rw [hwf.len_eq, hf]; rfl
        simp only [hf, widthMask, Match.maskByte, hmask, if_true, hlen, Nat.reduceAdd] at hmw
        simp only [encoder, hf, hmask, Option.some.injEq] at he
        subst he
        simpa [footprint, plainAt, hf, CellPrint.Covers, assign] using hmw

end Lagopus
