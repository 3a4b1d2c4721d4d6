import Lagopus.Flowinfo.Thtable

/-!
# The keys of the tuple-space table

The key of a flow and the key of a packet are computed on two sides, from the OXM values and from
the header bytes. They agree, for a match, exactly when the match holds on the packet, except for
the fields whose `match_idx[]` entry does not describe them (`Match.thFaithful`).

* `keyFromPacket_eq`, `pktValues_eq_iff`: the two keys as lists of values, and when they are equal;
* `thHolds_iff_raw`: one match;
* `thList_iff`: a whole match list.
-/

namespace Lagopus

open MaskedCell List Match

/-! ## Keys as lists of values -/

/-- The values `key_from_packet` hashes, `none` when a pointer is `NULL`. -/
def pktValues (p : Packet) : List (OxmField × List Byte) → Option (List (List Byte))
  | [] => some []
  | (f, mask) :: es =>
    (p.base (thIdx f).base).bind fun r =>
      (pktValues p es).map fun vs =>
        maskedBytes ((List.range (thIdx f).size).map fun i => r ((thIdx f).off + i)) mask :: vs

theorem keyFromPacket_eq {H : Type} (calcHash : List Byte → H → H) (zero : H) (p : Packet)
    (es : List (OxmField × List Byte)) (vs : List (List Byte)) :
    keyFromPacket calcHash zero p es (hashChain calcHash zero vs) =
      (pktValues p es).elim zero fun ws => hashChain calcHash zero (vs ++ ws) := by
  induction es generalizing vs with
  | nil => simp [keyFromPacket, pktValues]
  | cons e es ih =>
    obtain ⟨f, mask⟩ := e
    rw [keyFromPacket, pktValues]
    cases p.base (thIdx f).base with
    | none => rfl
    | some r =>
      have hsnoc : ∀ v, calcHash v (hashChain calcHash zero vs) =
          hashChain calcHash zero (vs ++ [v]) := fun v => by simp [hashChain]
      simp only [hsnoc, ih, Option.bind_some]
      cases pktValues p es with
      | none => rfl
      | some ws => simp

/-- A match's entry in the key agrees with the packet. -/
def ThHolds (p : Packet) (m : Match) : Prop :=
  ∃ r, p.base (thIdx m.field).base = some r ∧
    maskedBytes ((List.range (thIdx m.field).size).map fun i => r ((thIdx m.field).off + i))
      (thMask m) = thValue m

theorem pktValues_eq_iff (p : Packet) (ml : List Match) :
    pktValues p (ml.map fun m => (m.field, thMask m)) = some (ml.map thValue) ↔
      ∀ m ∈ ml, ThHolds p m := by
  induction ml with
  | nil => simp [pktValues]
  | cons m ml ih =>
    rw [map_cons, pktValues, forall_mem_cons, ← ih, ThHolds, map_cons]
    cases p.base (thIdx m.field).base with
    | none => simp
    | some r =>
      cases pktValues p (ml.map fun m => (m.field, thMask m)) with
      | none => simp
      | some vs => simp

/-! ## One match -/

theorem maskedBytes_eq_iff {n : Nat} {f g : Nat → Byte} {mask : List Byte} (h : mask.length = n) :
    maskedBytes ((List.range n).map f) mask = (List.range n).map g ↔
      ∀ i < n, f i &&& mask.getD i 0 = g i := by
  subst h
  constructor
  · intro heq i hi
    have := congrArg (fun l => l[i]?) heq
    simpa [maskedBytes, getElem?_zipWith, hi, getD_eq_getElem?_getD] using this
  · intro hall
    refine ext_getElem (by simp [maskedBytes]) fun i h1 h2 => ?_
    have hi : i < mask.length := by simpa [maskedBytes] using h2
    have := hall i hi
    simpa [maskedBytes, getD_eq_getElem?_getD, hi] using this

/-- Byte `i` of the mask a packet's field is compared under. -/
def thMaskByte (m : Match) (i : Nat) : Byte :=
  if m.hasMask then m.maskByte i else (thIdx m.field).mask.getD i 0

theorem thHolds_iff_bytes {p : Packet} {m : Match} (hsize : (thIdx m.field).size = m.len)
    (hshift : (thIdx m.field).shift = 0) : ThHolds p m ↔ ∃ r, p.base (thIdx m.field).base = some r ∧
      ∀ i < m.len, r ((thIdx m.field).off + i) &&& thMaskByte m i = m.byte i := by
  have hvalue : thValue m = (List.range m.len).map m.byte := by
    simp [thValue, hsize, hshift, Match.bytesAt]
  have hmask : (thMask m).length = m.len ∧ ∀ i < m.len, (thMask m).getD i 0 = thMaskByte m i := by
    unfold thMask thMaskByte
    cases hm : m.hasMask with
    | false => exact ⟨hsize, fun i hi => by simp⟩
    | true =>
      refine ⟨by simp [hshift, Match.bytesAt, hsize], fun i hi => ?_⟩
      simp [hshift, Match.bytesAt, hsize, Match.maskByte, hm, hi, getD_eq_getElem?_getD]
  refine exists_congr fun r => and_congr_right fun _ => ?_
  rw [hvalue, hsize, maskedBytes_eq_iff hmask.1]
  exact forall₂_congr fun i hi => by rw [hmask.2 i hi]

/-- The matches whose entry of `match_idx[]` describes them. Not so: `VLAN_PCP` and `IP_DSCP` (wrong
shift), `MPLS_TC` and `MPLS_BOS` (wrong bits), the neighbour discovery fields (wrong size), an
unmasked `PBB_ISID` (wrong mask), and `IP_ECN` on IPv6 (the IPv4 header's place). -/
def Match.thFaithful (m : Match) (l3 : BitVec 16) : Bool :=
  match m.field with
  | .vlanPcp | .ipDscp | .mplsTc | .mplsBos | .ipv6NdTarget | .ipv6NdSll | .ipv6NdTll => false
  | .ipEcn => l3 == ETHERTYPE_IP
  | .pbbIsid => m.hasMask
  | _ => true

theorem forall_lt_two {P : Nat → Prop} : (∀ i < 2, P i) ↔ P 0 ∧ P 1 :=
  ⟨fun h => ⟨h 0 (by omega), h 1 (by omega)⟩, fun h i hi => by interval_cases i <;> tauto⟩

theorem forall_lt_four {P : Nat → Prop} : (∀ i < 4, P i) ↔ P 0 ∧ P 1 ∧ P 2 ∧ P 3 :=
  ⟨fun h => ⟨h 0 (by omega), h 1 (by omega), h 2 (by omega), h 3 (by omega)⟩,
    fun h i hi => by interval_cases i <;> tauto⟩

section OneMatch

variable {p : Packet} {m : Match}

theorem thHolds_iff_read (hsize : (thIdx m.field).size = m.len) (hshift : (thIdx m.field).shift = 0)
    (hmask : ∀ i < m.len, thMaskByte m i = m.maskByte i)
    (hin : m.InMask) : ThHolds p m ↔
      (p.read (thIdx m.field).base (thIdx m.field).off m.len).any m.holdsOn = true := by
  rw [thHolds_iff_bytes hsize hshift, ← makeByteoff_holds_iff p hin]
  refine exists_congr fun r => and_congr_right fun _ => ?_
  simp only [makeByteoff, mem_map, mem_range, forall_exists_index, and_imp,
    forall_apply_eq_imp_iff₂, Write.Admits, assign]
  exact forall₂_congr fun i hi => by rw [hmask i hi]

theorem thIdx_of_plainAt {F : OxmField} {b : Base} {off : Nat} (h : F.plainAt = some (b, off))
    (hF : F ∉ [.ipv6Src, .ipv6Dst, .ipv6NdTarget, .ipv6NdSll, .ipv6NdTll]) :
    (thIdx F).base = b ∧ (thIdx F).off = off ∧ (thIdx F).size = F.bytes ∧ (thIdx F).shift = 0 ∧
      (F ≠ .pbbIsid → (thIdx F).mask = List.replicate F.bytes 0xff) := by
  cases F <;> first
    | (cases h; done)
    | (exact absurd hF (by decide))
    | (cases h; exact ⟨rfl, rfl, rfl, rfl, fun _ => rfl⟩)
    | (cases h; exact ⟨rfl, rfl, rfl, rfl, fun hne => absurd rfl hne⟩)

theorem thMaskByte_eq {F : OxmField} (hf : m.field = F) (hlen : m.len = F.bytes)
    (hmask : m.hasMask = false → (thIdx F).mask = List.replicate F.bytes 0xff) :
    ∀ i < m.len, thMaskByte m i = m.maskByte i := by
  intro i hi
  unfold thMaskByte
  cases hm : m.hasMask with
  | true => rfl
  | false =>
    rw [hf, hmask hm, maskByte_of_not_hasMask hm]
    simp [getD_eq_getElem?_getD, hlen ▸ hi]

variable (hwf : m.WellFormed)

include hwf

variable (hin : m.InMask)

include hin

theorem thHolds_plain {b : Base} {off : Nat} (h : m.field.plainAt = some (b, off))
    (hF : m.field ∉ [.ipv6Src, .ipv6Dst, .ipv6NdTarget, .ipv6NdSll, .ipv6NdTll])
    (hpbb : m.field = .pbbIsid → m.hasMask = true) :
    ThHolds p m ↔ (p.rawField m.field).any m.holdsOn = true := by
  obtain ⟨hb, hoff, hsize, hshift, hmask⟩ := thIdx_of_plainAt h hF
  have hlen := hwf.len_eq
  rw [thHolds_iff_read (by rw [hsize, hlen]) hshift
    (thMaskByte_eq rfl hlen fun hm => hmask fun hf => by simp [hpbb hf] at hm) hin, hb, hoff,
    rawField_of_plainAt p h, hlen]

omit hin in
theorem thHolds_ethType (hf : m.field = .ethType) (hoob : p.oob.etherType = p.etherType) :
    ThHolds p m ↔ (p.rawField m.field).any m.holdsOn = true := by
  have hlen : m.len = 2 := by rw [hwf.len_eq, hf]; rfl
  have hmask := hwf.unmasked (by rw [hf]; rfl)
  have hraw : p.rawField m.field = p.read .oob 20 2 := by
    rw [hf, Packet.rawField, ← hoob]
    rfl
  rw [thHolds_iff_read (by rw [hf, hlen]; rfl) (by rw [hf]; rfl)
    (thMaskByte_eq hf (by rw [hlen]; rfl) fun _ => rfl)
    fun i _ => by rw [maskByte_of_not_hasMask hmask]; exact and_ff _, hraw, hf, hlen]
  rfl

theorem thHolds_vlanVid (hf : m.field = .vlanVid) :
    ThHolds p m ↔ (p.rawField m.field).any m.holdsOn = true := by
  have hlen : m.len = 2 := by rw [hwf.len_eq, hf]; rfl
  have hraw : p.rawField m.field = some [p.oob.byte 22 &&& 0x1f, p.oob.byte 23] := by rw [hf]; rfl
  have hbytes : ThHolds p m ↔ p.oob.byte 22 &&& thMaskByte m 0 = m.byte 0 ∧
      p.oob.byte 23 &&& thMaskByte m 1 = m.byte 1 := by
    rw [thHolds_iff_bytes (by rw [hf, hlen]; rfl) (by rw [hf]; rfl), hf, hlen]
    simp only [thIdx, Packet.base, Option.some.injEq, exists_eq_left', forall_lt_two, Nat.add_zero,
      Nat.reduceAdd]
  rw [hbytes, hraw, Option.any_some, holdsOn_two hlen]
  have h0 := hin 0 (by omega)
  have h1 := hin 1 (by omega)
  cases hm : m.hasMask with
  | false =>
    have e0 : thMaskByte m 0 = 0x1f := by simp [thMaskByte, hm, hf, thIdx]
    have e1 : thMaskByte m 1 = 0xff := by simp [thMaskByte, hm, hf, thIdx]
    simp [e0, e1, maskByte_of_not_hasMask hm]
  | true =>
    have hw := hwf.maskWidth hm 0 (by rw [hf]; decide)
    rw [hf, show OxmField.widthMask .vlanVid 0 = 0x1f from rfl] at hw
    have e : ∀ i, thMaskByte m i = m.maskByte i := fun i => by simp [thMaskByte, hm]
    rw [e, e, ← masked_width hw h0, h1]

omit hin in
theorem thHolds_ipEcn (hf : m.field = .ipEcn) (hl3 : p.etherType = ETHERTYPE_IP) :
    ThHolds p m ↔ (p.rawField m.field).any m.holdsOn = true := by
  have hlen : m.len = 1 := by rw [hwf.len_eq, hf]; rfl
  have hmask := hwf.unmasked (by rw [hf]; rfl)
  have hraw : p.rawField m.field = some [p.behind p.l3 1 &&& 0x03] := by
    rw [hf, Packet.rawField, Packet.trafficClass, hl3]
    rfl
  rw [thHolds_iff_bytes (by rw [hf, hlen]; rfl) (by rw [hf]; rfl), hraw, Option.any_some,
    holdsOn_one hlen hmask, hf, hlen]
  simp [thIdx, Packet.base, thMaskByte, hmask, hf]

theorem thHolds_ipv6Flabel (hf : m.field = .ipv6Flabel) :
    ThHolds p m ↔ (p.rawField m.field).any m.holdsOn = true := by
  have hlen : m.len = 4 := by rw [hwf.len_eq, hf]; rfl
  have hw0 : m.byte 0 = 0 := by
    simpa [hf, OxmField.widthMask, eq_comm] using hwf.width 0 (by rw [hf]; decide)
  have hraw : p.rawField m.field =
      some [0, p.behind p.l3 1 &&& 0x0f, p.behind p.l3 2, p.behind p.l3 3] := by rw [hf]; rfl
  have hbytes : ThHolds p m ↔ p.behind p.l3 0 &&& thMaskByte m 0 = 0 ∧
      p.behind p.l3 1 &&& thMaskByte m 1 = m.byte 1 ∧
      p.behind p.l3 2 &&& thMaskByte m 2 = m.byte 2 ∧
      p.behind p.l3 3 &&& thMaskByte m 3 = m.byte 3 := by
    rw [thHolds_iff_bytes (by rw [hf, hlen]; rfl) (by rw [hf]; rfl), hf, hlen]
    simp [thIdx, Packet.base, forall_lt_four, hw0]
  rw [hbytes, hraw, Option.any_some, holdsOn_four hlen]
  cases hm : m.hasMask with
  | false =>
    have e : ∀ i, thMaskByte m i = [(0x00 : Byte), 0x0f, 0xff, 0xff].getD i 0 := fun i => by
      simp [thMaskByte, hm, hf, thIdx]
    have hand : ∀ x : Byte, x &&& 0xff = x := and_ff
    simp only [e, maskByte_of_not_hasMask hm, hand, hw0]
    simp
  | true =>
    have hw : ∀ i < 4, m.maskByte i &&& OxmField.widthMask .ipv6Flabel i = m.maskByte i := by
      intro i hi
      have := hwf.maskWidth hm i (by rw [hf]; exact hi)
      rwa [hf] at this
    have hk0 : m.maskByte 0 = 0 := by
      have := hw 0 (by omega)
      simpa [OxmField.widthMask, eq_comm] using this
    have hk1 : m.maskByte 1 &&& 0x0f = m.maskByte 1 := hw 1 (by omega)
    have e : ∀ i, thMaskByte m i = m.maskByte i := fun i => by simp [thMaskByte, hm]
    simp only [e]
    rw [masked_width hk1 (hin 1 (by omega)), hin 2 (by omega), hin 3 (by omega)]
    simp [hk0]

omit hin

theorem thHolds_mplsLabel (hf : m.field = .mplsLabel) :
    ThHolds p m ↔ (p.rawField m.field).any m.holdsOn = true := by
  have hmask := hwf.unmasked (by rw [hf]; rfl)
  have hlen : m.len = 4 := by rw [hwf.len_eq, hf]; rfl
  have hvalue : thValue m = [labelByte m 0, labelByte m 1, labelByte m 2] := by
    have hshift : shiftedValue [m.byte 0, m.byte 1, m.byte 2, m.byte 3] 12 4 =
        [labelByte m 0, labelByte m 1, labelByte m 2, 0] := by
      simp only [shiftedValue, lowBytes, labelByte, foldl_cons, foldl_nil]
      simp only [range_succ, range_zero, nil_append, cons_append,
        map_cons, map_nil, List.cons.injEq, and_true]
      refine ⟨?_, ?_, ?_, ?_⟩ <;> (simp only [byte_eq_iff]; simp)
    have hbytes : m.bytesAt 0 4 = [m.byte 0, m.byte 1, m.byte 2, m.byte 3] := rfl
    simp [thValue, hf, hlen, thIdx, ThIdx.size, shiftedBytes, hbytes, hshift]
  obtain ⟨e, he⟩ := exists_encoder 0 hwf (by rw [hf]; decide)
  have hfaith := (faithful_mplsLabel hwf he hf).2 p (by rw [hf]; simp [OxmField.l3Need])
  rw [← hfaith]
  simp only [encoder, hf, hmask, Option.some.injEq] at he
  subst he
  refine exists_congr fun r => ?_
  rw [hvalue, hf]
  refine and_congr Iff.rfl ?_
  simp [thMask, hmask, hf, thIdx, ThIdx.size, range_succ, maskedBytes, Write.Admits, assign]

end OneMatch

/-! ## A whole list -/

/-- A match list all of whose fields the table describes. -/
structure ThReady (ml : List Match) : Prop extends Admissible ml where
  nonempty : ml ≠ []
  faithful : ∀ m ∈ ml, m.thFaithful (etherTypeOf ml) = true

/-- The IPv6 addresses, read behind `l3_hdr` on the one side and behind `v6src` and `v6dst` on the
other. -/
theorem thHolds_ipv6Addr {p : Packet} {m : Match} (hwf : m.WellFormed)
    (hin : m.InMask) (hf : m.field = .ipv6Src ∨ m.field = .ipv6Dst)
    (hv6 : p.v6src = some (p.l3 + 8) ∧ p.v6dst = some (p.l3 + 24)) :
    ThHolds p m ↔ (p.rawField m.field).any m.holdsOn = true := by
  obtain ⟨hsrc, hdst⟩ := hv6
  have hlen := hwf.len_eq
  have hraw : p.rawField m.field = p.read .l3 (if m.field = .ipv6Src then 8 else 24) 16 := by
    rcases hf with hf | hf <;> rw [hf, Packet.rawField] <;>
      simp [Packet.read, Packet.readWith, Packet.base, hsrc, hdst, Packet.behind, Nat.add_assoc]
  rcases hf with hf | hf
  all_goals
    rw [thHolds_iff_read (by rw [hlen, hf]; rfl) (by rw [hf]; rfl)
      (thMaskByte_eq hf (by rw [hlen, hf]) fun _ => rfl) hin, hraw, hlen, hf]
    rfl

section

variable {ml : List Match} {p : Packet} (hready : ThReady ml) (hp : p.Classified)
  (hoob : p.oob.etherType = p.etherType)
include hready hp hoob

theorem thHolds_iff_raw (heth : EthTypeHolds ml p) {m : Match} (hm : m ∈ ml) :
    ThHolds p m ↔ (p.rawField m.field).any m.holdsOn = true := by
  have hwf := hready.wellFormed m hm
  have hin : m.InMask := fun _ hi =>
    hready.accepted.within_mask hm hi
  have hfaith := hready.faithful m hm
  rcases plainAt_or_packed hwf.standard with hf | ⟨b, off, hplain⟩ | hf
  · exact thHolds_ethType hwf hf hoob
  · by_cases hv6 : m.field = .ipv6Src ∨ m.field = .ipv6Dst
    · have hneed : m.field.l3Need = .ipv6 := by rcases hv6 with h | h <;> rw [h] <;> rfl
      obtain ⟨p₀, hp₀⟩ := hready.satisfiable
      have hE := l3Need_ok hready.accepted hready.wellFormed hp₀ hm
      rw [hneed] at hE
      have hp6 : p.etherType = ETHERTYPE_IPV6 :=
        (etherType_eq_of_need hready.accepted hready.wellFormed heth hm (by rw [hneed]; decide)).trans
          (by simpa [L3Need.ok] using hE)
      exact thHolds_ipv6Addr hwf hin hv6 (hp.v6 hp6)
    · refine thHolds_plain hwf hin hplain (fun hmem => ?_) fun hf => ?_
      · simp only [mem_cons, not_mem_nil, or_false] at hmem
        rcases hmem with h | h | h | h | h
        · exact hv6 (Or.inl h)
        · exact hv6 (Or.inr h)
        all_goals simp [Match.thFaithful, h] at hfaith
      · simpa [Match.thFaithful, hf] using hfaith
  · simp only [mem_cons, not_mem_nil, or_false] at hf
    rcases hf with hf | hf | hf | hf | hf | hf | hf | hf
    · exact thHolds_vlanVid hwf hin hf
    · simp [Match.thFaithful, hf] at hfaith
    · simp [Match.thFaithful, hf] at hfaith
    · have hE : etherTypeOf ml = ETHERTYPE_IP := by simpa [Match.thFaithful, hf] using hfaith
      exact thHolds_ipEcn hwf hf ((etherType_eq_of_need hready.accepted hready.wellFormed heth hm
        (by rw [hf]; decide)).trans hE)
    · exact thHolds_ipv6Flabel hwf hin hf
    · exact thHolds_mplsLabel hwf hf
    · simp [Match.thFaithful, hf] at hfaith
    · simp [Match.thFaithful, hf] at hfaith

/-- **The keys agree exactly when every match of the list holds.** -/
theorem thList_iff : (∀ m ∈ ml, ThHolds p m) ↔ MatchListHolds ml p := by
  rw [matchListHolds_iff_raw hready.accepted hready.wellFormed hready.satisfiable]
  by_cases heth : EthTypeHolds ml p
  · exact forall₂_congr fun m hm => thHolds_iff_raw hready hp hoob heth hm
  · -- the entry for the ethertype fails on both sides
    unfold EthTypeHolds at heth
    push Not at heth
    obtain ⟨m, hm, hf, hno⟩ := heth
    have hraw : ¬ (p.rawField m.field).any m.holdsOn = true := fun h =>
      hno (holds_iff.mpr ⟨by rw [hf]; rfl, h⟩)
    constructor
    · exact fun h => absurd ((thHolds_ethType (hready.wellFormed m hm) hf hoob).mp (h m hm)) hraw
    · exact fun h => absurd (h m hm) hraw

end

end Lagopus
