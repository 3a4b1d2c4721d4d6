import Lagopus.Agent.Parse

/-!
# What the parsers accept

What a parser accepts are the bytes of an element, and it consumes all of them: this is what it means
that a parser ends well.  Conversely, a parser accepts the bytes of an element, provided that the
lengths which it does not check are right.

* `oxmParse_eq_ok_iff`, `ofpActionEdPropParse_eq_ok_iff`: match fields and properties;
* `actionRound_image`, `actionRound_of_image`: single actions;
* `ofpActionParse_images`, `ofpActionParse_of_images`: lists of actions.
-/

namespace Lagopus.Wire

open Octets Scan Lagopus.Wire.Action EdProp List Outcome

/-! ## Types and lengths -/

theorem take_two_drop_two (v : Block 4) : v.bytes.take 2 ++ (v.bytes.drop 2).take 2 = v.bytes := by
  have h : (v.bytes.drop 2).take 2 = v.bytes.drop 2 := take_of_length_le (by simp)
  rw [h, take_append_drop]

theorem field_lt (l : List Octet) (i : Nat) : field l i 2 < 2 ^ 16 := by
  have h := toNat_lt ((l.drop i).take 2)
  have hlen : ((l.drop i).take 2).length ≤ 2 := by simp
  calc field l i 2 < 256 ^ ((l.drop i).take 2).length := h
    _ ≤ 256 ^ 2 := Nat.pow_le_pow_right (by decide) hlen
    _ = 2 ^ 16 := by decide

theorem tlv_field (v : Block 4) : tlv (field v.bytes 0 2) (field v.bytes 2 2) = v.bytes := by
  have hfst : Octets.ofNat 2 (toNat (v.bytes.take 2)) = v.bytes.take 2 := by
    have h := ofNat_toNat (v.bytes.take 2)
    rwa [length_take, v.length_eq] at h
  have hsnd : Octets.ofNat 2 (toNat ((v.bytes.drop 2).take 2)) = (v.bytes.drop 2).take 2 := by
    have h := ofNat_toNat ((v.bytes.drop 2).take 2)
    rwa [length_take, length_drop, v.length_eq] at h
  rw [tlv, field, field, drop_zero, hfst, hsnd, take_two_drop_two]

variable {type : Nat} {length version : Nat}

theorem field_tlv_type (h : type < 2 ^ 16) (m : List Octet) : field (tlv type length ++ m) 0 2 = type := by
  rw [field, drop_zero, tlv, append_assoc, take_left' (length_ofNat 2 type), toNat_ofNat]
  exact Nat.mod_eq_of_lt (h.trans_eq (by decide))

theorem field_tlv_length (h : length < 2 ^ 16) (m : List Octet) :
    field (tlv type length ++ m) 2 2 = length := by
  rw [field, tlv, append_assoc, drop_left' (length_ofNat 2 type),
    take_left' (length_ofNat 2 length), toNat_ofNat]
  exact Nat.mod_eq_of_lt (h.trans_eq (by decide))

variable {e : OfpError} {b rest : List Octet}

theorem ofpTlvDecodeSneak_eq_ok_iff {t : Nat × Nat} : ofpTlvDecodeSneak e b = .ok t rest ↔
      (t.1 < 2 ^ 16 ∧ t.2 < 2 ^ 16 ∧ ∃ m, b = tlv t.1 t.2 ++ m) ∧ b = rest := by
  simp only [ofpTlvDecodeSneak, bind_eq_ok_iff, sneak_eq_ok_iff, pure_apply, ok.injEq]
  constructor
  · rintro ⟨v, _, ⟨⟨m, hm⟩, rfl⟩, rfl, rfl⟩
    exact ⟨⟨field_lt _ _, field_lt _ _, m, by rw [tlv_field, hm]⟩, rfl⟩
  · rintro ⟨⟨h₁, h₂, m, rfl⟩, rfl⟩
    refine ⟨⟨tlv t.1 t.2, length_tlv _ _⟩, _, ⟨⟨m, rfl⟩, rfl⟩, ?_, rfl⟩
    have htype := @field_tlv_type t.1 t.2 h₁ []
    have hlength := @field_tlv_length t.1 t.2 h₂ []
    rw [append_nil] at htype hlength
    rw [htype, hlength]

variable {len : Nat}

theorem ofpTlvDecodeSneak_tlv (e : OfpError) (htype : type < 2 ^ 16) (hlen : len < 2 ^ 16)
    (m : List Octet) : ofpTlvDecodeSneak e (tlv type len ++ m) = .ok (type, len) (tlv type len ++ m) :=
  ofpTlvDecodeSneak_eq_ok_iff.2 ⟨⟨htype, hlen, m, rfl⟩, rfl⟩

variable {a : Action}

theorem structParse_eq_ok_iff {t : FixedAction} : structParse t b = .ok a rest ↔
      ∃ (h : Block 4) (body : Block t.bodySize), a = .fixed t body ∧ b = h.bytes ++ (body.bytes ++ rest) := by
  simp only [structParse, bind_eq_ok_iff, takePair_eq_ok_iff, pure_apply, ok.injEq]
  constructor
  · rintro ⟨⟨h, body⟩, _, rfl, rfl, rfl⟩
    exact ⟨h, body, rfl, rfl⟩
  · rintro ⟨h, body, rfl, rfl⟩
    exact ⟨(h, body), _, rfl, rfl, rfl⟩

/-! ## Match fields -/

theorem block_four (h : Block 4) :
    h.bytes = Octets.ofNat 2 (field h.bytes 0 2) ++ [h.bytes.getD 2 0, h.bytes.getD 3 0] := by
  obtain ⟨l, hl⟩ := h
  obtain ⟨a, b, c, d, rfl⟩ := length_eq_four.1 hl
  have hab := ofNat_toNat [a, b]
  exact (congrArg (· ++ [c, d]) hab).symm

theorem bytes_ofHeader (h : Block 4) (v : Block (oxmLengthOf h).toNat) :
    (Oxm.ofHeader h v).bytes = h.bytes ++ v.bytes := by
  have hclass : (oxmClassOf h).toNat = field h.bytes 0 2 := by
    rw [oxmClassOf, BitVec.toNat_ofNat, Nat.mod_eq_of_lt (field_lt _ _)]
  have hlast : BitVec.ofNat 8 v.bytes.length = oxmLengthOf h := by
    rw [v.length_eq, BitVec.ofNat_toNat, BitVec.setWidth_eq]
  simp only [Oxm.bytes, Oxm.header, Oxm.ofHeader, hclass, hlast]
  exact congrArg (· ++ v.bytes) (block_four h).symm

theorem exists_ofHeader (o : Oxm) :
    ∃ (h : Block 4) (v : Block (oxmLengthOf h).toNat), o = .ofHeader h v := by
  have hclass : oxmClassOf ⟨o.header, o.length_header⟩ = o.oxmClass := by
    simp only [oxmClassOf, field, drop_zero, Oxm.header]
    rw [take_left' (length_ofNat _ _), toNat_ofNat,
      Nat.mod_eq_of_lt (o.oxmClass.isLt.trans_eq (by decide)), BitVec.ofNat_toNat, BitVec.setWidth_eq]
  have hlast : (oxmLengthOf ⟨o.header, o.length_header⟩).toNat = o.oxmValue.length := by
    change (BitVec.ofNat 8 o.oxmValue.length).toNat = _
    rw [BitVec.toNat_ofNat, Nat.mod_eq_of_lt o.length_lt]
  refine ⟨⟨o.header, o.length_header⟩, ⟨o.oxmValue, hlast.symm⟩, ?_⟩
  cases o
  simp only [Oxm.ofHeader, Oxm.mk.injEq]
  exact ⟨hclass.symm, rfl, trivial⟩

theorem ofpOxmCheck_eq_ok_iff {c : BitVec 16} {f : Octet} {u : Unit} : ofpOxmCheck c f b = .ok u rest ↔
      (c = OFPXMC_OPENFLOW_BASIC ∧ ofpOxmFieldCheck f = true) ∧ b = rest := by
  simp only [ofpOxmCheck, bind_eq_ok_iff, require_eq_ok_iff]
  constructor
  · rintro ⟨_, _, ⟨hc, rfl⟩, hf, rfl⟩
    exact ⟨⟨hc, hf⟩, rfl⟩
  · rintro ⟨⟨hc, hf⟩, rfl⟩
    exact ⟨(), _, ⟨hc, rfl⟩, hf, rfl⟩

theorem oxmParse_eq_ok_iff {o : Oxm} : oxmParse b = .ok o rest ↔ o.Supported ∧ b = o.bytes ++ rest := by
  simp only [oxmParse, bind_eq_ok_iff, takeUnchecked_eq_ok_iff, ofpOxmCheck_eq_ok_iff,
    pure_apply, ok.injEq]
  constructor
  · rintro ⟨h, _, rfl, _, _, ⟨hs, rfl⟩, v, _, rfl, rfl, rfl⟩
    exact ⟨hs, by rw [bytes_ofHeader, append_assoc]⟩
  · rintro ⟨hs, rfl⟩
    obtain ⟨h, v, rfl⟩ := exists_ofHeader o
    exact ⟨h, _, by rw [bytes_ofHeader, append_assoc], (), _, ⟨hs, rfl⟩, v, _, rfl, rfl, rfl⟩

/-! ## Actions -/

theorem ofpActionSetFieldParse_eq_ok_iff : ofpActionSetFieldParse b = .ok a rest ↔
      ∃ (h : Block 4) (o : Oxm) (pad : Block (padding o.oxmValue.length)),
        field h.bytes 2 2 = 8 + o.oxmValue.length + padding o.oxmValue.length ∧ o.Supported ∧
        a = .setField o ∧ b = h.bytes ++ (o.bytes ++ (pad.bytes ++ rest)) := by
  simp only [ofpActionSetFieldParse, bind_eq_ok_iff, takePair_eq_ok_iff,
    require_eq_ok_iff, need_eq_ok_iff, pure_apply, ok.injEq]
  constructor
  · rintro ⟨⟨h, k⟩, _, rfl, _, _, ⟨hlen, rfl⟩, _, _, ⟨-, rfl⟩, _, _, ⟨hs, rfl⟩, ⟨v, pad⟩, _, rfl, rfl, rfl⟩
    have hv : (Oxm.ofHeader k v).oxmValue.length = (oxmLengthOf k).toNat := v.length_eq
    refine ⟨h, .ofHeader k v, ⟨pad.bytes, by rw [hv, pad.length_eq]⟩, ?_, hs, rfl, ?_⟩
    · rw [hv]
      dsimp only at hlen
      omega
    · rw [bytes_ofHeader, append_assoc]
  · rintro ⟨h, o, pad, hlen, hs, rfl, rfl⟩
    obtain ⟨k, v, rfl⟩ := exists_ofHeader o
    have hv : (Oxm.ofHeader k v).oxmValue.length = (oxmLengthOf k).toNat := v.length_eq
    rw [hv] at hlen
    refine ⟨(h, k), _, by rw [bytes_ofHeader, append_assoc], (), _, ⟨by dsimp only; omega, rfl⟩, (), _,
      ⟨by simp, rfl⟩, (), _, ⟨hs, rfl⟩, (v, ⟨pad.bytes, by rw [pad.length_eq, hv]⟩), _, rfl, rfl, rfl⟩

variable {fuel : Nat}

/-- The bytes that a property says it has. -/
def EdProp.declared : EdProp → Nat
  | .portName len _ => len.toNat
  | .other => 0

theorem ofpActionEdPropParse_eq_ok_iff {p : EdProp} : ofpActionEdPropParse b = .ok p rest ↔
      p.Supported ∧ p.declared ≤ b.length ∧ b = p.bytes ++ rest := by
  simp only [ofpActionEdPropParse, bind_eq_ok_iff, ofpTlvDecodeSneak_eq_ok_iff, need_eq_ok_iff]
  constructor
  · rintro ⟨⟨type, len⟩, _, ⟨⟨-, hlen, m, rfl⟩, rfl⟩, _, _, ⟨hneed, rfl⟩, h⟩
    split at h
    case isTrue htype =>
      simp only [bind_eq_ok_iff, takePair_eq_ok_iff, pure_apply, ok.injEq] at h
      obtain ⟨⟨t, body⟩, _, hb, rfl, rfl⟩ := h
      obtain ⟨ht, rfl⟩ := List.append_inj hb (by simp)
      have hlen' : (BitVec.ofNat 16 len).toNat = len := by
        rw [BitVec.toNat_ofNat, Nat.mod_eq_of_lt hlen]
      refine ⟨trivial, by rw [declared, hlen']; exact hneed, ?_⟩
      rw [bytes, hlen', ← htype, append_assoc]
    case isFalse => simp at h
  · rintro ⟨hp, hlen, rfl⟩
    cases p with
    | portName len body =>
      refine ⟨(OFPPPT_PROP_PORT_NAME, len.toNat), _,
        ⟨⟨show (1 : Nat) < 2 ^ 16 by decide, len.isLt, _, append_assoc _ _ _⟩, rfl⟩, (), _, ⟨hlen, rfl⟩, ?_⟩
      rw [if_pos rfl, bind_eq_ok_iff]
      refine ⟨(⟨tlv OFPPPT_PROP_PORT_NAME len.toNat, length_tlv _ _⟩, body), _,
        takePair_eq_ok_iff.2 (append_assoc _ _ _), ?_⟩
      rw [pure_apply, BitVec.ofNat_toNat, BitVec.setWidth_eq]
    | other => exact hp.elim

theorem takes_edProp : Takes ofpActionEdPropParse := by
  intro b p rest h
  obtain ⟨hp, -, rfl⟩ := ofpActionEdPropParse_eq_ok_iff.1 h
  have := length_bytes hp
  rw [length_append, this, portNameSize]
  omega

variable {ps : List EdProp} {endLeft todo : Int}

theorem edPropLoop_images (h : edPropLoop fuel endLeft b = .ok ps rest) :
    (∀ p ∈ ps, p.Supported) ∧ b = ps.flatMap bytes ++ rest := by
  obtain ⟨_, rfl, hc⟩ := collected_of_collect h
  clear h
  induction hc with
  | done _ => simp
  | item _ hp _ ih =>
    obtain ⟨hs, -, rfl⟩ := ofpActionEdPropParse_eq_ok_iff.1 hp
    obtain ⟨hps, rfl⟩ := ih
    exact ⟨forall_mem_cons.2 ⟨hs, hps⟩, by simp⟩

theorem edPropLoop_of_images (hs : ∀ p ∈ ps, p.Supported) (he : ∀ p ∈ ps, p.Exact)
    (hfuel : (ps.flatMap bytes ++ rest).length < fuel) :
    edPropLoop fuel rest.length (ps.flatMap bytes ++ rest) = .ok ps rest := by
  refine (collect_eq_ok_iff takes_edProp hfuel).2 ⟨ps, rfl, ?_⟩
  have hR : List.Forall₂ (fun p c => p.Supported ∧ p.Exact ∧ c = p.bytes) ps (ps.map bytes) := by
    rw [forall₂_map_right_iff, forall₂_same]
    exact fun p hp => ⟨hs p hp, he p hp, rfl⟩
  have hlen {p : EdProp} (hp : p.Supported) := length_bytes hp
  refine Collected.of_images ?_ ?_ ?_ hR
  · rintro p _ m ⟨hp, hexact, rfl⟩ -
    refine ofpActionEdPropParse_eq_ok_iff.2 ⟨hp, ?_, rfl⟩
    cases p with
    | portName len body =>
      rw [length_append, hlen hp, declared, show len.toNat = _ from hexact]
      exact Nat.le_add_right _ _
    | other => exact hp.elim
  · rintro p _ ⟨hp, -, rfl⟩ m
    have := hlen hp
    simp only [before, length_append, this, portNameSize, decide_eq_true_eq]
    omega
  · simp [before]

theorem edParse_image {t : EdAction} (h : edParse fuel t b = .ok a rest) :
    ∃ (h : Block 4) (body : Block t.bodySize) (ps : List EdProp), a = .ed t body ps ∧
      (∀ p ∈ ps, p.Supported) ∧ field h.bytes 2 2 = (ed t body ps).size ∧
      b = h.bytes ++ (body.bytes ++ (ps.flatMap bytes ++ rest)) := by
  simp only [edParse, bind_eq_ok_iff, takePair_eq_ok_iff, left_apply,
    require_eq_ok_iff, pure_apply, ok.injEq] at h
  obtain ⟨⟨hd, body⟩, _, rfl, _, _, ⟨rfl, rfl⟩, ps, _, hloop, _, _, ⟨rfl, rfl⟩, _, _, ⟨hend, rfl⟩, rfl,
    rfl⟩ := h
  obtain ⟨hps, rfl⟩ := edPropLoop_images hloop
  refine ⟨hd, body, ps, rfl, hps, ?_, rfl⟩
  dsimp only at hend
  rw [length_append, length_flatMap_bytes hps] at hend
  simp only [size]
  omega

theorem edParse_of_image {t : EdAction} {h : Block 4} {body : Block t.bodySize}
    (hs : ∀ p ∈ ps, p.Supported) (he : ∀ p ∈ ps, p.Exact) (hlen : field h.bytes 2 2 = (ed t body ps).size)
    (hfuel : (h.bytes ++ (body.bytes ++ (ps.flatMap bytes ++ rest))).length < fuel) :
    edParse fuel t (h.bytes ++ (body.bytes ++ (ps.flatMap bytes ++ rest))) =
      .ok (.ed t body ps) rest := by
  have hend : (((ps.flatMap bytes ++ rest).length : Int) -
      ((field h.bytes 2 2 : Int) - (4 + t.bodySize : Nat))) = rest.length := by
    rw [length_append, length_flatMap_bytes hs, hlen]
    simp only [size]
    omega
  have hfuel' : (ps.flatMap bytes ++ rest).length < fuel := by
    simp only [length_append] at hfuel ⊢
    omega
  rw [edParse, bind_of_ok (takePair_append body), bind_of_ok left_apply]
  simp only [hend]
  rw [bind_of_ok (edPropLoop_of_images hs he hfuel'), bind_of_ok left_apply,
    bind_of_ok (require_of hend), pure_apply]

/-! The cases of the switch. -/

theorem actionSwitch_fixed (t : FixedAction) : actionSwitch fuel t.code = structParse t := by
  cases t <;> rfl

theorem actionSwitch_ed (t : EdAction) : actionSwitch fuel t.code = edParse fuel t := by
  cases t <;> rfl

theorem actionSwitch_cases (n : Nat) :
    (∃ t : FixedAction, n = t.code ∧ actionSwitch fuel n = structParse t) ∨
      (n = OFPAT_SET_FIELD ∧ actionSwitch fuel n = ofpActionSetFieldParse) ∨
      (∃ t : EdAction, n = t.code ∧ actionSwitch fuel n = edParse fuel t) ∨
      ∃ e, actionSwitch fuel n = Scan.fail (some e) := by
  unfold actionSwitch
  split
  case h_14 => exact .inr (.inl ⟨rfl, rfl⟩)
  case h_17 => exact .inr (.inr (.inl ⟨.encap, rfl, rfl⟩))
  case h_18 => exact .inr (.inr (.inl ⟨.decap, rfl, rfl⟩))
  case h_19 => exact .inr (.inr (.inr ⟨_, rfl⟩))
  case h_20 => exact .inr (.inr (.inr ⟨_, rfl⟩))
  · exact .inl ⟨.output, rfl, rfl⟩
  · exact .inl ⟨.copyTtlOut, rfl, rfl⟩
  · exact .inl ⟨.copyTtlIn, rfl, rfl⟩
  · exact .inl ⟨.setMplsTtl, rfl, rfl⟩
  · exact .inl ⟨.decMplsTtl, rfl, rfl⟩
  · exact .inl ⟨.pushVlan, rfl, rfl⟩
  · exact .inl ⟨.popVlan, rfl, rfl⟩
  · exact .inl ⟨.pushMpls, rfl, rfl⟩
  · exact .inl ⟨.popMpls, rfl, rfl⟩
  · exact .inl ⟨.setQueue, rfl, rfl⟩
  · exact .inl ⟨.group, rfl, rfl⟩
  · exact .inl ⟨.setNwTtl, rfl, rfl⟩
  · exact .inl ⟨.decNwTtl, rfl, rfl⟩
  · exact .inl ⟨.pushPbb, rfl, rfl⟩
  · exact .inl ⟨.popPbb, rfl, rfl⟩

theorem bytes_eq_of_tlv (hlen : len < 2 ^ 16) {h : Block 4} {m m' : List Octet}
    (hb : tlv type len ++ m = h.bytes ++ m') : field h.bytes 2 2 = len ∧ m = m' := by
  obtain ⟨hh, hm⟩ := List.append_inj hb (by simp)
  have hfield := @field_tlv_length type len hlen []
  rw [append_nil, hh] at hfield
  exact ⟨hfield, hm⟩

theorem actionRound_image {r : Action × Nat} (h : actionRound fuel b = .ok r rest) :
    ∃ c, r.1.Image c ∧ r.2 = r.1.size ∧ b = c ++ rest := by
  simp only [actionRound, bind_eq_ok_iff, ofpTlvDecodeSneak_eq_ok_iff, need_eq_ok_iff,
    left_apply, require_eq_ok_iff, pure_apply, ok.injEq] at h
  obtain ⟨⟨type, len⟩, _, ⟨⟨htype, hlt, m, rfl⟩, rfl⟩, _, _, ⟨-, rfl⟩, _, _, ⟨rfl, rfl⟩, a, _, hswitch, _,
    _, ⟨rfl, rfl⟩, _, _, ⟨hend, rfl⟩, rfl, rfl⟩ := h
  obtain ⟨t, rfl, ht⟩ | ⟨rfl, ht⟩ | ⟨t, rfl, ht⟩ | ⟨e, ht⟩ := @actionSwitch_cases fuel type
  · rw [ht, structParse_eq_ok_iff] at hswitch
    obtain ⟨hd, body, rfl, hb⟩ := hswitch
    obtain ⟨-, rfl⟩ := bytes_eq_of_tlv hlt hb
    obtain rfl : len = 4 + t.bodySize := by
      simp only [length_append, length_tlv, Block.length_eq] at hend
      omega
    exact ⟨_, rfl, rfl, (append_assoc _ _ _).symm⟩
  · rw [ht, ofpActionSetFieldParse_eq_ok_iff] at hswitch
    obtain ⟨hd, o, pad, hfield, hs, rfl, hb⟩ := hswitch
    obtain ⟨hlen, rfl⟩ := bytes_eq_of_tlv hlt hb
    rw [hlen] at hfield
    exact ⟨_, ⟨hs, pad, rfl⟩, hfield, by rw [hfield]; simp⟩
  · rw [ht] at hswitch
    obtain ⟨hd, body, ps, rfl, hps, hfield, hb⟩ := edParse_image hswitch
    obtain ⟨hlen, rfl⟩ := bytes_eq_of_tlv hlt hb
    rw [hlen] at hfield
    exact ⟨_, ⟨hps, hfield ▸ hlt, rfl⟩, hfield, by rw [hfield]; simp⟩
  · rw [ht] at hswitch
    simp at hswitch

variable {c : List Octet}

theorem Action.Image.size_lt (h : a.Image c) : a.size < 2 ^ 16 := by
  cases a with
  | fixed t body =>
    have : t.bodySize ≤ 12 := by cases t <;> decide
    simp only [size]
    omega
  | setField o =>
    have := o.length_lt
    have := padding_lt o.oxmValue.length
    simp only [size]
    omega
  | ed t body ps => exact h.2.1
  | experimenter len => exact h.elim
  | unknown => exact h.elim

/-- The type of a supported action. -/
def Action.code : Action → Nat
  | .fixed t _ => t.code
  | .setField _ => OFPAT_SET_FIELD
  | .ed t _ _ => t.code
  | .experimenter _ => 0xffff
  | .unknown => 0

theorem Action.Image.exists_tlv (h : a.Image c) : ∃ m, c = tlv a.code a.size ++ m := by
  cases a with
  | fixed t body => exact ⟨_, h⟩
  | setField o =>
    obtain ⟨-, pad, hc⟩ := h
    exact ⟨_, hc⟩
  | ed t body ps => exact ⟨_, h.2.2⟩
  | experimenter len => exact h.elim
  | unknown => exact h.elim

theorem actionSwitch_of_image (h : a.Image c) (he : a.Exact) (hfuel : (c ++ rest).length < fuel) :
    actionSwitch fuel a.code (c ++ rest) = .ok a rest := by
  have hlt := h.size_lt
  cases a with
  | fixed t body =>
    cases h
    rw [code, actionSwitch_fixed]
    exact structParse_eq_ok_iff.2
      ⟨⟨tlv t.code (4 + t.bodySize), length_tlv _ _⟩, body, rfl, append_assoc _ _ _⟩
  | setField o =>
    obtain ⟨hs, pad, rfl⟩ := h
    refine ofpActionSetFieldParse_eq_ok_iff.2
      ⟨⟨tlv OFPAT_SET_FIELD (setField o).size, length_tlv _ _⟩, o, pad, ?_, hs, rfl, ?_⟩
    · have hfield := @field_tlv_length OFPAT_SET_FIELD _ hlt []
      rwa [append_nil] at hfield
    · simp only [append_assoc]
      rfl
  | ed t body ps =>
    obtain ⟨hs, hsize, rfl⟩ := h
    have hfield := @field_tlv_length t.code _ hsize []
    rw [code, actionSwitch_ed]
    simp only [append_assoc] at hfuel ⊢
    exact @edParse_of_image rest fuel ps t ⟨tlv t.code _, length_tlv _ _⟩ body hs he hfield hfuel
  | experimenter len => exact h.elim
  | unknown => exact h.elim

theorem FixedAction.code_lt (t : FixedAction) : t.code < 2 ^ 16 := by cases t <;> decide

theorem EdAction.code_lt (t : EdAction) : t.code < 2 ^ 16 := by cases t <;> decide

theorem Action.code_lt (a : Action) : a.code < 2 ^ 16 := by
  cases a with
  | fixed t body => exact t.code_lt
  | setField o => exact show OFPAT_SET_FIELD < 2 ^ 16 by decide
  | ed t body ps => exact t.code_lt
  | experimenter len => exact show 0xffff < 2 ^ 16 by decide
  | unknown => exact show 0 < 2 ^ 16 by decide

theorem actionRound_of_image (h : a.Image c) (he : a.Exact) (hfuel : (c ++ rest).length < fuel) :
    actionRound fuel (c ++ rest) = .ok (a, a.size) rest := by
  obtain ⟨m, hm⟩ := h.exists_tlv
  have hsneak (e : OfpError) : ofpTlvDecodeSneak e (c ++ rest) = .ok (a.code, a.size) (c ++ rest) := by
    rw [hm, append_assoc]
    exact ofpTlvDecodeSneak_tlv e a.code_lt h.size_lt _
  have hlen : (c ++ rest).length = rest.length + a.size := by
    rw [length_append, h.length_eq, Nat.add_comm]
  rw [actionRound, bind_of_ok (hsneak _), bind_of_ok (need_of (by rw [hlen]; simp)),
    bind_of_ok left_apply, bind_of_ok (actionSwitch_of_image h he hfuel),
    bind_of_ok left_apply, bind_of_ok (require_of hlen.symm), pure_apply]

/-! ## Lists of actions -/

theorem consumes_actionStep : Consumes actionMore (actionStep fuel) := by
  intro st st' b b' _ h
  simp only [actionStep, bind_eq_ok_iff, pure_apply, ok.injEq] at h
  obtain ⟨r, _, h, rfl, rfl⟩ := h
  obtain ⟨c, hc, -, rfl⟩ := actionRound_image h
  have := size_pos hc.supported
  rw [length_append, hc.length_eq]
  omega

theorem rounds_images {st st' : Int × List Action} (h : Rounds actionMore (actionStep fuel) st b st' rest) :
    ∃ as c, st'.2 = st.2 ++ as ∧ Images as c ∧ b = c ++ rest ∧
      st'.1 = st.1 - sizes as ∧ st'.1 ≤ 0 := by
  induction h with
  | done hmore =>
    refine ⟨[], [], by simp, images_nil_iff.2 rfl, rfl, by simp, ?_⟩
    simpa [actionMore] using hmore
  | round hmore hbody _ ih =>
    simp only [actionStep, bind_eq_ok_iff, pure_apply, ok.injEq] at hbody
    obtain ⟨r, _, hr, rfl, rfl⟩ := hbody
    obtain ⟨c, hc, hlen, rfl⟩ := actionRound_image hr
    obtain ⟨as, d, has, hd, rfl, htodo, hle⟩ := ih
    refine ⟨r.1 :: as, c ++ d, by rw [has]; simp, images_cons_iff.2 ⟨c, d, hc, hd, rfl⟩, by simp, ?_, hle⟩
    rw [htodo, hlen, sizes_cons]
    push_cast
    ring

variable {as : List Action}

theorem ofpActionParse_images (h : ofpActionParse fuel todo [] b = .ok as rest) :
    ∃ c, Images as c ∧ b = c ++ rest ∧ todo ≤ sizes as := by
  simp only [ofpActionParse, bind_eq_ok_iff, pure_apply, ok.injEq] at h
  obtain ⟨st, _, hloop, rfl, rfl⟩ := h
  obtain ⟨as, c, has, hc, rfl, htodo, hle⟩ := rounds_images (rounds_of_loop_eq_ok hloop)
  rw [nil_append] at has
  rw [has]
  exact ⟨c, hc, rfl, by dsimp only at htodo; omega⟩

theorem rounds_of_images {l : List Action} (h : Images as c) (he : ∀ a ∈ as, a.Exact)
    (hfuel : (c ++ rest).length < fuel) :
    Rounds actionMore (actionStep fuel) (sizes as, l) (c ++ rest) (0, l ++ as) rest := by
  induction as generalizing c l with
  | nil =>
    rw [images_nil_iff.1 h, append_nil]
    exact .done (by simp [actionMore])
  | cons a as ih =>
    obtain ⟨d, d', ha, has, rfl⟩ := images_cons_iff.1 h
    have hpos := size_pos ha.supported
    obtain ⟨hea, heas⟩ := forall_mem_cons.1 he
    rw [append_assoc] at hfuel ⊢
    have hrest : (d' ++ rest).length < fuel := by
      rw [length_append] at hfuel
      omega
    have hnext := @ih d' (l ++ [a]) has heas hrest
    rw [← append_cons] at hnext
    refine .round ?_ ?_ hnext
    · simp only [actionMore, sizes_cons, decide_eq_true_eq]
      omega
    · rw [actionStep, bind_of_ok (actionRound_of_image ha hea hfuel), pure_apply]
      simp

theorem ofpActionParse_of_images (h : Images as c) (he : ∀ a ∈ as, a.Exact)
    (hfuel : (c ++ rest).length < fuel) (htodo : todo = sizes as) :
    ofpActionParse fuel todo [] (c ++ rest) = .ok as rest := by
  rw [htodo, ofpActionParse,
    bind_of_ok ((loop_eq_ok_iff consumes_actionStep hfuel).2 (rounds_of_images h he hfuel)),
    pure_apply, nil_append]

/-! ## Matches -/

/-- The list that comes of the fields of a message. -/
def matchSorted (l ms : List Oxm) : List Oxm := ms.foldl (fun l m => matchInsert m l) l

variable {l l' : List Oxm}

theorem oxmRound_eq_ok_iff :
    oxmRound l b = .ok l' rest ↔ ∃ o, l' = matchInsert o l ∧ o.Supported ∧ b = o.bytes ++ rest := by
  simp only [oxmRound, bind_eq_ok_iff, oxmParse_eq_ok_iff, pure_apply, ok.injEq]
  constructor
  · rintro ⟨o, _, ⟨hs, rfl⟩, rfl, rfl⟩
    exact ⟨o, rfl, hs, rfl⟩
  · rintro ⟨o, rfl, hs, rfl⟩
    exact ⟨o, _, ⟨hs, rfl⟩, rfl, rfl⟩

theorem consumes_oxmRound {more : List Octet → Bool} : Consumes (fun _ b => more b) oxmRound := by
  intro l l' b b' _ h
  obtain ⟨o, -, -, rfl⟩ := oxmRound_eq_ok_iff.1 h
  rw [length_append, Oxm.length_bytes, Oxm.size]
  omega

theorem rounds_oxm_images (h : Rounds (fun _ b => before endLeft b) oxmRound l b l' rest) :
    ∃ ms, l' = matchSorted l ms ∧ (∀ m ∈ ms, m.Supported) ∧ b = ms.flatMap Oxm.bytes ++ rest := by
  induction h with
  | done _ => exact ⟨[], rfl, by simp, rfl⟩
  | round _ hbody _ ih =>
    obtain ⟨o, rfl, hs, rfl⟩ := oxmRound_eq_ok_iff.1 hbody
    obtain ⟨ms, rfl, hms, rfl⟩ := ih
    exact ⟨o :: ms, rfl, forall_mem_cons.2 ⟨hs, hms⟩, by simp⟩

variable {ms : List Oxm}

theorem rounds_oxm_of_images (hs : ∀ m ∈ ms, m.Supported) :
    Rounds (fun _ b => before rest.length b) oxmRound l (ms.flatMap Oxm.bytes ++ rest)
      (matchSorted l ms) rest := by
  induction ms generalizing l with
  | nil => exact .done (by simp [before])
  | cons m ms ih =>
    obtain ⟨hm, hms⟩ := forall_mem_cons.1 hs
    rw [flatMap_cons, append_assoc]
    refine .round ?_ (oxmRound_eq_ok_iff.2 ⟨m, rfl, hm, rfl⟩) (ih hms)
    simp only [before, length_append, Oxm.length_bytes, Oxm.size, decide_eq_true_eq]
    omega

theorem total_eq (n : Nat) : (n + 7) / 8 * 8 = n + padding n := by
  unfold padding
  omega

theorem exists_pad {m w t : List Octet} {n : Nat} (h : c ++ m = w ++ t)
    (hw : w.length = c.length + n) : ∃ pad : Block n, w = c ++ pad.bytes := by
  obtain ⟨d, rfl⟩ := prefix_of_prefix_length_le ⟨m, h⟩ ⟨t, rfl⟩ (hw ▸ Nat.le_add_right _ _)
  rw [length_append] at hw
  exact ⟨⟨d, by omega⟩, rfl⟩

theorem ofpMatchParse_image (h : ofpMatchParse fuel version l b = .ok l' rest) :
    ∃ type ms c, type < 2 ^ 16 ∧ (version < OPENFLOW_VERSION_1_3 ∨ type = OFPMT_OXM) ∧
      (∀ m ∈ ms, m.Supported) ∧ l' = matchSorted l ms ∧ MatchImage type ms c ∧ b = c ++ rest := by
  simp only [ofpMatchParse, bind_eq_ok_iff, ofpTlvDecodeSneak_eq_ok_iff, require_eq_ok_iff,
    need_eq_ok_iff] at h
  obtain ⟨⟨type, len⟩, _, ⟨⟨htype, hlen, m, rfl⟩, rfl⟩, _, _, ⟨hversion, rfl⟩, _, _, ⟨-, rfl⟩, h⟩ := h
  split at h
  case isTrue hfour =>
    subst hfour
    simp only [bind_eq_ok_iff, take_eq_ok_iff, pure_apply, ok.injEq] at h
    obtain ⟨v, _, hb, rfl, rfl⟩ := h
    obtain ⟨pad, hpad⟩ : ∃ pad : Block 4, _ := exists_pad hb (by simp)
    refine ⟨type, [], v.bytes, htype, hversion, by simp, rfl, ⟨by decide, pad, ?_⟩, hb⟩
    exact hpad
  case isFalse hfour =>
    simp only [bind_eq_ok_iff, left_apply, ok.injEq, ahead_eq_ok_iff,
      require_eq_ok_iff, take_eq_ok_iff, pure_apply] at h
    obtain ⟨_, _, ⟨rfl, rfl⟩, ⟨l', k⟩, _, ⟨m', hloop, hk, rfl⟩, _, _, ⟨hend, rfl⟩, v, _, hb, rfl, rfl⟩ := h
    obtain ⟨ms, rfl, hms, rfl⟩ := rounds_oxm_images (rounds_of_loop_eq_ok hloop)
    have hsize : matchSize ms = len := by
      simp only [length_append, length_tlv, length_flatMap_oxm] at hend
      unfold matchSize
      omega
    subst hsize
    have hc : (tlv type (matchSize ms) ++ ms.flatMap Oxm.bytes).length = matchSize ms := by
      rw [length_append, length_tlv, length_flatMap_oxm, matchSize]
    rw [← append_assoc] at hb
    obtain ⟨pad, hpad⟩ : ∃ pad : Block (padding (matchSize ms)), _ :=
      exists_pad hb (by rw [v.length_eq, total_eq, hc])
    refine ⟨type, ms, v.bytes, htype, hversion, hms, rfl, ⟨hlen, pad, ?_⟩, ?_⟩
    · rw [← append_assoc]
      exact hpad
    · rw [← append_assoc]
      exact hb

theorem ofpMatchParse_of_image
    (hversion : version < OPENFLOW_VERSION_1_3 ∨ type = OFPMT_OXM) (htype : type < 2 ^ 16)
    (hs : ∀ m ∈ ms, m.Supported) (h : MatchImage type ms c) (hfuel : (c ++ rest).length < fuel) :
    ofpMatchParse fuel version l (c ++ rest) = .ok (matchSorted l ms) rest := by
  obtain ⟨hsize, pad, hc⟩ := h
  have hlen : c.length = (matchSize ms + 7) / 8 * 8 := by
    rw [total_eq, hc]
    simp only [length_append, length_tlv, length_flatMap_oxm, Block.length_eq]
    unfold matchSize
    omega
  have htlv : c ++ rest = tlv type (matchSize ms) ++ (ms.flatMap Oxm.bytes ++ (pad.bytes ++ rest)) := by
    rw [hc]
    simp
  have htake (e : Option OfpError) :
      Scan.take ((matchSize ms + 7) / 8 * 8) e (c ++ rest) = .ok ⟨c, hlen⟩ rest :=
    take_eq_ok_iff.2 rfl
  have hsneak (e : OfpError) : ofpTlvDecodeSneak e (c ++ rest) = .ok (type, matchSize ms) (c ++ rest) := by
    rw [htlv]
    exact ofpTlvDecodeSneak_tlv e htype hsize _
  rw [ofpMatchParse, bind_of_ok (hsneak _), bind_of_ok (require_of hversion),
    bind_of_ok (need_of (by rw [length_append, hlen]; exact Nat.le_add_right _ _))]
  by_cases hfour : matchSize ms = 4
  · have hms : ms = [] := by
      cases ms with
      | nil => rfl
      | cons m ms =>
        simp only [matchSize, map_cons, sum_cons, Oxm.size] at hfour
        omega
    rw [if_pos hfour, bind_of_ok (htake _), pure_apply, hms]
    rfl
  · have hend : (((c ++ rest).length : Int) - matchSize ms) = (pad.bytes ++ rest).length := by
      rw [htlv]
      simp only [length_append, length_tlv, length_flatMap_oxm]
      unfold matchSize
      omega
    have hloop : oxmLoop fuel (pad.bytes ++ rest).length l (ms.flatMap Oxm.bytes ++ (pad.bytes ++ rest)) =
        .ok (matchSorted l ms) (pad.bytes ++ rest) := by
      refine (loop_eq_ok_iff consumes_oxmRound ?_).2 (rounds_oxm_of_images hs)
      rw [htlv, length_append] at hfuel
      omega
    have hahead : Scan.ahead 4 (oxmLoop fuel (pad.bytes ++ rest).length l) (c ++ rest) =
        .ok (matchSorted l ms, (pad.bytes ++ rest).length) (c ++ rest) := by
      refine ahead_eq_ok_iff.2 ⟨pad.bytes ++ rest, ?_, rfl, rfl⟩
      rw [htlv, drop_left' (length_tlv _ _)]
      exact hloop
    rw [if_neg hfour, bind_of_ok left_apply]
    simp only [hend]
    rw [bind_of_ok hahead, bind_of_ok (require_of hend), bind_of_ok (htake _), pure_apply]

theorem matchInsert_of_le {m : Oxm} (h : ∀ mp ∈ l, oxmFieldType mp.oxmField ≤ oxmFieldType m.oxmField) :
    matchInsert m l = l ++ [m] := by
  induction l with
  | nil => rfl
  | cons mp l ih =>
    obtain ⟨hmp, hl⟩ := forall_mem_cons.1 h
    rw [matchInsert, if_neg (not_lt.2 hmp), ih hl, cons_append]

/-- The fields are in the order of their types. -/
def FieldSorted (ms : List Oxm) : Prop :=
  ms.Pairwise fun m m' => oxmFieldType m.oxmField ≤ oxmFieldType m'.oxmField

instance (ms : List Oxm) : Decidable (FieldSorted ms) := inferInstanceAs (Decidable (List.Pairwise _ _))

theorem matchSorted_of_sorted (h : FieldSorted (l ++ ms)) : matchSorted l ms = l ++ ms := by
  induction ms generalizing l with
  | nil => simp [matchSorted]
  | cons m ms ih =>
    have hle : ∀ mp ∈ l, oxmFieldType mp.oxmField ≤ oxmFieldType m.oxmField := fun mp hmp =>
      (pairwise_append.1 h).2.2 mp hmp m (by simp)
    rw [append_cons] at h ⊢
    rw [← ih h, matchSorted, foldl_cons, matchInsert_of_le hle]
    rfl

/-! ## Instructions -/

variable {t : InstructionType} {i : Instruction}

theorem instructionStruct_eq_ok_iff :
    instructionStruct t len b = .ok i rest ↔ ∃ (h : Block 4) (body : Block t.bodySize),
      i = ⟨t, BitVec.ofNat 16 len, body, []⟩ ∧ b = h.bytes ++ (body.bytes ++ rest) := by
  simp only [instructionStruct, bind_eq_ok_iff, takePair_eq_ok_iff, pure_apply, ok.injEq]
  constructor
  · rintro ⟨⟨h, body⟩, _, rfl, rfl, rfl⟩
    exact ⟨h, body, rfl, rfl⟩
  · rintro ⟨h, body, rfl, rfl⟩
    exact ⟨(h, body), _, rfl, rfl, rfl⟩

theorem instructionSwitch_struct (h : t.hasActions = false) (ht : t ≠ .experimenter) :
    instructionSwitch fuel len t.code = instructionStruct t len := by
  cases t <;> first | rfl | exact absurd rfl ht | cases h

theorem instructionSwitch_actions (h : t.hasActions = true) :
    instructionSwitch fuel len t.code = instructionActions fuel t len := by
  cases t <;> first | rfl | cases h

theorem instructionSwitch_cases (len n : Nat) :
    (∃ t : InstructionType, t.hasActions = false ∧ t ≠ .experimenter ∧ n = t.code ∧
        instructionSwitch fuel len n = instructionStruct t len) ∨
      (∃ t : InstructionType, t.hasActions = true ∧ n = t.code ∧
        instructionSwitch fuel len n = instructionActions fuel t len) ∨
      ∃ e, instructionSwitch fuel len n = Scan.fail (some e) := by
  unfold instructionSwitch
  split
  · exact .inl ⟨.gotoTable, rfl, by decide, rfl, rfl⟩
  · exact .inl ⟨.writeMetadata, rfl, by decide, rfl, rfl⟩
  · exact .inr (.inl ⟨.writeActions, rfl, rfl, rfl⟩)
  · exact .inr (.inl ⟨.applyActions, rfl, rfl, rfl⟩)
  · exact .inr (.inl ⟨.clearActions, rfl, rfl, rfl⟩)
  · exact .inl ⟨.meter, rfl, by decide, rfl, rfl⟩
  · exact .inr (.inr ⟨_, rfl⟩)
  · exact .inr (.inr ⟨_, rfl⟩)

theorem Action.Images.supported (h : Images as c) : ∀ a ∈ as, a.Supported := by
  induction as generalizing c with
  | nil => simp
  | cons a as ih =>
    obtain ⟨d, d', ha, has, -⟩ := images_cons_iff.1 h
    exact forall_mem_cons.2 ⟨ha.supported, ih has⟩

theorem InstructionType.takesActions_of_hasActions (h : t.hasActions = true)
    (hc : t ≠ .clearActions) : t.takesActions = true := by
  cases t <;> first | rfl | exact absurd rfl hc | cases h

theorem InstructionType.takesActions_of_not (h : t.hasActions = false) : t.takesActions = false := by
  cases t <;> first | rfl | cases h

theorem instructionParse_image (h : instructionParse fuel b = .ok i rest) :
    ∃ c, i.Image c ∧ i.Supported ∧ i.Regular ∧ b = c ++ rest := by
  simp only [instructionParse, bind_eq_ok_iff, ofpTlvDecodeSneak_eq_ok_iff, need_eq_ok_iff] at h
  obtain ⟨⟨type, len⟩, _, ⟨⟨-, hlt, m, rfl⟩, rfl⟩, _, _, ⟨-, rfl⟩, h⟩ := h
  have hlen : (BitVec.ofNat 16 len).toNat = len := by rw [BitVec.toNat_ofNat, Nat.mod_eq_of_lt hlt]
  obtain ⟨t, hno, hne, rfl, ht⟩ | ⟨t, hyes, rfl, ht⟩ | ⟨e, ht⟩ := @instructionSwitch_cases fuel len type
  · rw [ht, instructionStruct_eq_ok_iff] at h
    obtain ⟨hd, body, rfl, hb⟩ := h
    obtain ⟨-, rfl⟩ := bytes_eq_of_tlv hlt hb
    refine ⟨_, ⟨[], images_nil_iff.2 rfl, rfl⟩, ⟨hne, by simp⟩, fun _ => rfl, ?_⟩
    simp [hlen]
  · rw [ht] at h
    simp only [instructionActions, bind_eq_ok_iff, instructionStruct_eq_ok_iff,
      require_eq_ok_iff, pure_apply, ok.injEq] at h
    obtain ⟨_, _, ⟨hd, body, rfl, hb⟩, as, _, has, _, _, ⟨hclear, rfl⟩, rfl, rfl⟩ := h
    obtain ⟨c, hc, rfl, -⟩ := ofpActionParse_images has
    obtain ⟨-, rfl⟩ := bytes_eq_of_tlv hlt hb
    refine ⟨_, ⟨c, hc, rfl⟩, ⟨?_, hc.supported⟩, ?_, by simp [hlen]⟩
    · rintro rfl
      cases hyes
    · intro hno
      by_cases hcl : t = .clearActions
      · exact hclear hcl
      · rw [InstructionType.takesActions_of_hasActions hyes hcl] at hno
        cases hno
  · rw [ht] at h
    simp at h

theorem InstructionType.code_lt (t : InstructionType) : t.code < 2 ^ 16 := by cases t <;> decide

theorem InstructionType.bodySize_of_hasActions (h : t.hasActions = true) : t.bodySize = 4 := by
  cases t <;> first | rfl | cases h

theorem instructionParse_of_image (h : i.Image c) (hs : i.Supported) (hr : i.Regular) (he : i.Exact)
    (hfuel : (c ++ rest).length < fuel) : instructionParse fuel (c ++ rest) = .ok i rest := by
  have hlen := h.length_eq
  obtain ⟨t, len, body, as⟩ := i
  obtain ⟨d, hd, hc⟩ := h
  obtain ⟨hsize, hexact⟩ := he
  have hlen' : BitVec.ofNat 16 len.toNat = len := by rw [BitVec.ofNat_toNat, BitVec.setWidth_eq]
  have htlv : c ++ rest = tlv t.code len.toNat ++ (body.bytes ++ (d ++ rest)) := by
    rw [hc]
    simp
  have hsneak (e : OfpError) : ofpTlvDecodeSneak e (c ++ rest) = .ok (t.code, len.toNat) (c ++ rest) := by
    rw [htlv]
    exact ofpTlvDecodeSneak_tlv e t.code_lt len.isLt _
  have hstruct : instructionStruct t len.toNat (c ++ rest) = .ok ⟨t, len, body, []⟩ (d ++ rest) :=
    instructionStruct_eq_ok_iff.2 ⟨⟨tlv t.code len.toNat, length_tlv _ _⟩, body, by rw [hlen'], htlv⟩
  rw [instructionParse, bind_of_ok (hsneak _), bind_of_ok
    (need_of (by rw [length_append, hlen, ← hsize]; exact Nat.le_add_right _ _))]
  cases hyes : t.hasActions with
  | false =>
    obtain rfl : as = [] := hr (InstructionType.takesActions_of_not hyes)
    obtain rfl := images_nil_iff.1 hd
    rw [instructionSwitch_struct hyes hs.1]
    exact hstruct
  | true =>
    have htodo : ((len.toNat : Int) - 8) = sizes as := by
      dsimp only [Instruction.size] at hsize
      rw [hsize, InstructionType.bodySize_of_hasActions hyes]
      push_cast
      ring
    have hfuel' : (d ++ rest).length < fuel := by
      rw [htlv] at hfuel
      simp only [length_append] at hfuel ⊢
      omega
    have hclear : t = .clearActions → as = [] := by
      rintro rfl
      exact hr rfl
    rw [instructionSwitch_actions hyes, instructionActions, bind_of_ok hstruct,
      bind_of_ok (ofpActionParse_of_images hd hexact hfuel' htodo),
      bind_of_ok (require_of hclear), pure_apply]

theorem takes_instruction : Takes (instructionParse fuel) := by
  intro b i rest h
  obtain ⟨c, hc, -, -, rfl⟩ := instructionParse_image h
  have := hc.length_pos
  rw [length_append]
  omega

variable {is : List Instruction}

theorem instructionsParse_images (h : instructionsParse fuel b = .ok is rest) :
    rest = [] ∧ Instruction.Images is b ∧ (∀ i ∈ is, i.Supported) ∧ ∀ i ∈ is, i.Regular := by
  obtain ⟨_, rfl, hc⟩ := collected_of_collect h
  clear h
  induction hc with
  | done hmore => exact ⟨by simpa [before] using hmore, ⟨[], .nil, by simpa [before] using hmore⟩, by simp⟩
  | item _ hi _ ih =>
    obtain ⟨c, hc, hs, hr, rfl⟩ := instructionParse_image hi
    obtain ⟨hrest, ⟨cs, hcs, rfl⟩, hss, hrs⟩ := ih
    exact ⟨hrest, ⟨c :: cs, .cons hc hcs, rfl⟩, forall_mem_cons.2 ⟨hs, hss⟩, forall_mem_cons.2 ⟨hr, hrs⟩⟩

theorem instructionsParse_of_images (h : Instruction.Images is c)
    (hs : ∀ i ∈ is, i.Supported) (hr : ∀ i ∈ is, i.Regular) (he : ∀ i ∈ is, i.Exact)
    (hfuel : c.length < fuel) : instructionsParse fuel c = .ok is [] := by
  obtain ⟨cs, hcs, rfl⟩ := h
  refine (collect_eq_ok_iff takes_instruction hfuel).2 ⟨is, rfl, ?_⟩
  have hR : List.Forall₂ (fun i c => i.Image c ∧ i.Supported ∧ i.Regular ∧ i.Exact) is cs := by
    rw [forall₂_iff_zip] at hcs ⊢
    refine ⟨hcs.1, fun {i c} hmem => ?_⟩
    have hi := (of_mem_zip hmem).1
    exact ⟨hcs.2 hmem, hs i hi, hr i hi, he i hi⟩
  rw [← append_nil cs.flatten] at hfuel ⊢
  refine Collected.of_images ?_ ?_ (by simp [before]) hR
  · rintro i c m ⟨hi, hsi, hri, hei⟩ hle
    exact instructionParse_of_image hi hsi hri hei (by omega)
  · rintro i c ⟨hi, -⟩ m
    have := hi.length_pos
    simp only [before, length_append, decide_eq_true_eq]
    omega

/-! ## Buckets -/

theorem bucketParse_of_image {u : Bucket} (h : u.Image c) (he : ∀ a ∈ u.actionList, a.Exact)
    (hfuel : (c ++ rest).length < fuel) : bucketParse fuel (c ++ rest) = .ok u rest := by
  have hlen := h.length_eq
  obtain ⟨hsize, d, hd, rfl⟩ := h
  have hlead : toNat (Octets.ofNat 2 u.size) = u.size := by
    rw [toNat_ofNat, Nat.mod_eq_of_lt (hsize.trans_eq (by decide))]
  have hpair (e : Option OfpError) :
      Scan.takePair 2 14 e (Octets.ofNat 2 u.size ++ (u.body.bytes ++ d) ++ rest) =
        .ok (⟨Octets.ofNat 2 u.size, length_ofNat _ _⟩, u.body) (d ++ rest) :=
    takePair_eq_ok_iff.2 (by simp)
  have hd' := hd.length_eq
  have hfuel' : (d ++ rest).length < fuel := by
    simp only [length_append] at hfuel ⊢
    omega
  rw [bucketParse, bind_of_ok left_apply, bind_of_ok (hpair _)]
  simp only [hlead]
  rw [bind_of_ok (require_of (by rw [hlead, Bucket.size]; exact Nat.le_add_right _ _)),
    bind_of_ok (need_of (by rw [length_append, hd', Bucket.size]; omega)),
    bind_of_ok (ofpActionParse_of_images hd he hfuel' (by rw [Bucket.size]; push_cast; ring)),
    bind_of_ok left_apply,
    bind_of_ok (require_of (by rw [hlead, length_append, hlen, Nat.add_comm])),
    pure_apply]

theorem takes_bucket : Takes (bucketParse fuel) := by
  intro b u rest h
  simp only [bucketParse, bind_eq_ok_iff, left_apply, require_eq_ok_iff, pure_apply, ok.injEq] at h
  obtain ⟨_, _, ⟨rfl, rfl⟩, s, _, -, _, _, ⟨hlen, rfl⟩, _, _, -, _, _, -, _, _, ⟨rfl, rfl⟩, _, _, ⟨hend, rfl⟩,
    -, rfl⟩ := h
  omega

theorem bucketsParse_of_images {us : List Bucket} (h : Bucket.Images us c)
    (he : ∀ u ∈ us, ∀ a ∈ u.actionList, a.Exact) (hfuel : c.length < fuel) :
    bucketsParse fuel c = .ok us [] := by
  obtain ⟨cs, hcs, rfl⟩ := h
  refine (collect_eq_ok_iff takes_bucket hfuel).2 ⟨us, rfl, ?_⟩
  have hR : List.Forall₂ (fun u c => u.Image c ∧ ∀ a ∈ u.actionList, a.Exact) us cs := by
    rw [forall₂_iff_zip] at hcs ⊢
    exact ⟨hcs.1, fun {u c} hmem => ⟨hcs.2 hmem, he u (of_mem_zip hmem).1⟩⟩
  rw [← append_nil cs.flatten] at hfuel ⊢
  refine Collected.of_images ?_ ?_ (by simp [before]) hR
  · rintro u c m ⟨hu, heu⟩ hle
    exact bucketParse_of_image hu heu (by omega)
  · rintro u c ⟨hu, -⟩ m
    have := hu.length_eq
    rw [Bucket.size] at this
    simp only [before, length_append, decide_eq_true_eq]
    omega

end Lagopus.Wire
