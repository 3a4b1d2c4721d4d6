import Lagopus.Dataplane.Encoders

/-!
# Faithfulness of the byte-offset compilation
-/

namespace Lagopus

open MaskedCell List OxmField Match

/-! ## Which fields disturb which -/

/-- The entries whose mask assignment drops the bits of an earlier entry: an unmasked
`IPV6_FLABEL` after `IP_DSCP` or `IP_ECN`, an `MPLS_LABEL` after `MPLS_TC` or `MPLS_BOS`. -/
def OxmField.disturbs (later : OxmField) (laterMasked : Bool) (earlier : OxmField) : Bool :=
  (later == .ipv6Flabel && !laterMasked && (earlier == .ipDscp || earlier == .ipEcn)) ||
    (later == .mplsLabel && (earlier == .mplsTc || earlier == .mplsBos))

/-- Two fields can be in one packet, as far as the IP protocol is concerned. -/
def OxmField.protoCompatible (f g : OxmField) : Bool :=
  match f.protoNeed, g.protoNeed with
  | some a, some b => a == b
  | _, _ => true

/-- A footprint `q` that keeps what the footprint `p` before it may have set. -/
def printSpares (q p : Base × List CellPrint) : Bool :=
  q.1 != p.1 || p.2.all fun c => q.2.all fun d =>
    d.off != c.off || (c.bound &&& d.keepMask == c.bound && c.bound &&& d.keepValue == c.bound &&
      c.bound &&& d.bound == 0)

/-- The 40 standard fields. -/
def OxmField.standardAll : List OxmField := OxmField.all.take 40

/-- Ethertypes that tell the layer 3 protocols apart. -/
def l3Kinds : List (BitVec 16) := [ETHERTYPE_IP, ETHERTYPE_IPV6, ETHERTYPE_ARP, 0]

/-- The finite check behind `spares_of_not_disturbs`. -/
def printsCompatible (k : BitVec 16) (g : OxmField) (gMasked : Bool) (f : OxmField)
    (fMasked : Bool) : Bool :=
  f == g || !f.l3Need.ok k || !g.l3Need.ok k || !f.protoCompatible g ||
    g.disturbs gMasked f ||
    printSpares (g.footprint (k == ETHERTYPE_IPV6) gMasked) (f.footprint (k == ETHERTYPE_IPV6) fMasked)

theorem printsCompatible_all :
    (l3Kinds.all fun k => OxmField.standardAll.all fun f => OxmField.standardAll.all fun g =>
      [true, false].all fun a => [true, false].all fun b => printsCompatible k g a f b) = true := by
  decide +kernel

theorem exists_l3Kind (e : BitVec 16) : ∃ k ∈ l3Kinds, (∀ n : L3Need, n.ok e = n.ok k) ∧
      (e == ETHERTYPE_IPV6) = (k == ETHERTYPE_IPV6) := by
  by_cases h1 : e = ETHERTYPE_IP
  · exact ⟨e, by simp [l3Kinds, h1], fun _ => rfl, rfl⟩
  by_cases h2 : e = ETHERTYPE_IPV6
  · exact ⟨e, by simp [l3Kinds, h2], fun _ => rfl, rfl⟩
  by_cases h3 : e = ETHERTYPE_ARP
  · exact ⟨e, by simp [l3Kinds, h3], fun _ => rfl, rfl⟩
  replace h1 := beq_eq_false_iff_ne.mpr h1
  replace h2 := beq_eq_false_iff_ne.mpr h2
  replace h3 := beq_eq_false_iff_ne.mpr h3
  refine ⟨0, by simp [l3Kinds], fun n => ?_, ?_⟩
  · cases n <;> simp only [L3Need.ok, h1, h2, h3] <;> rfl
  · rw [h2]
    rfl

variable {f : OxmField}

theorem OxmField.mem_standardAll (h : f.standard = true) : f ∈ OxmField.standardAll := by
  cases f <;> first | decide | exact absurd h (by decide)

/-- A footprint `q` that keeps value bits of the footprint `p` before it only where it keeps the
mask bits too. -/
def printCarries (q p : Base × List CellPrint) : Bool :=
  q.1 != p.1 || p.2.all fun c => q.2.all fun d =>
    d.off != c.off || c.bound &&& (d.keepValue &&& ~~~d.keepMask) == 0

variable {g h : OxmField} {v6 a b : Bool}

/-- Only an unmasked `IPV6_FLABEL` and an `MPLS_LABEL` keep value bits whose mask bits they drop. -/
theorem keepValue_within (hlabel : f ≠ .mplsLabel) (hflow : f = .ipv6Flabel → a = true) :
    ∀ d ∈ (f.footprint v6 a).2, d.keepValue &&& ~~~d.keepMask = 0 := by
  cases f <;> first
    | (exact absurd rfl hlabel)
    | (rw [hflow rfl]; cases v6 <;> decide)
    | (cases v6 <;> cases a <;> decide)

theorem printCarries_of_not_disturbs (hne : f ≠ g) (hd : g.disturbs b f = false) :
    printCarries (g.footprint v6 b) (f.footprint v6 a) = true := by
  by_cases hg : g ≠ .mplsLabel ∧ (g = .ipv6Flabel → b = true)
  · simp only [printCarries, Bool.or_eq_true, all_eq_true]
    refine .inr fun c _ d hd => ?_
    rw [keepValue_within hg.1 hg.2 d hd]
    simp
  · have hcase : g = .mplsLabel ∨ g = .ipv6Flabel ∧ b = false := by
      by_contra hn
      simp at hn hg
      have := hg hn.1
      simp [this] at hn
    rcases hcase with rfl | ⟨rfl, rfl⟩ <;> cases f <;> first
      | rfl | (exact absurd rfl hne) | (exact Bool.noConfusion hd)

/-- Nothing but the disturbing entry touches what the disturbed one wrote. -/
theorem printSpares_of_disturbs (hd : g.disturbs b f = true) (hf : h ≠ f) (hg : h ≠ g) {c : Bool} :
    printSpares (h.footprint v6 c) (f.footprint v6 a) = true := by
  simp only [disturbs, Bool.or_eq_true, Bool.and_eq_true, beq_iff_eq] at hd
  rcases hd with ⟨⟨rfl, -⟩, rfl | rfl⟩ | ⟨rfl, rfl | rfl⟩ <;> cases h <;> first
    | rfl | (exact absurd rfl hf) | (exact absurd rfl hg) | (cases v6 <;> cases c <;> rfl)

theorem and_eq_of_and_eq {w : Nat} {a b c : BitVec w} (hab : a &&& b = a) (hbc : b &&& c = b) :
    a &&& c = a := by
  rw [← hab, BitVec.and_assoc, hbc]

variable {m m' : Match} {e : Encoding}

/-- Footprints that spare each other belong to entries that do. -/
theorem spares_of_printSpares {l3 : BitVec 16} {e' : Encoding} (hwf : m.WellFormed)
    (hwf' : m'.WellFormed) (he : encoder l3 m = some e) (he' : encoder l3 m' = some e')
    (hreg' : e'.Regular)
    (h : printSpares (m'.field.footprint (l3 == ETHERTYPE_IPV6) m'.hasMask)
      (m.field.footprint (l3 == ETHERTYPE_IPV6) m.hasMask) = true) : e'.Spares e := by
  obtain ⟨hbase, hcells⟩ := encoder_footprint hwf he
  obtain ⟨hbase', hcells'⟩ := encoder_footprint hwf' he'
  intro hb w hw w' hw' hoff
  obtain ⟨c, hc, hcoff, hcmask, -, -⟩ := hcells w hw
  obtain ⟨d, hd, hdoff, hdmask, hdkm, hdkv⟩ := hcells' w' hw'
  simp only [printSpares, ← hbase, ← hbase', hb, bne_self_eq_false, Bool.false_or, all_eq_true] at h
  have hcd := h c hc d hd
  simp only [show d.off = c.off by rw [← hdoff, ← hcoff, hoff], bne_self_eq_false, Bool.false_or,
    Bool.and_eq_true, beq_iff_eq] at hcd
  obtain ⟨⟨hm, hv⟩, hdisj⟩ := hcd
  -- the later mask lies in the later bound, which misses the earlier one
  have hapart : ∀ i, w.2.mask.getLsbD i = true → w'.2.mask.getLsbD i = false := by
    intro i hi
    by_contra hbit
    have h2 := within_iff_and_eq.mpr hdmask i (by simpa using hbit)
    have h3 := within_iff_and_eq.mpr hcmask i hi
    have := congrArg (fun x => x.getLsbD i) hdisj
    simp [h2, h3] at this
  refine ⟨within_iff_and_eq.mpr ?_, within_iff_and_eq.mpr ?_, fun i hi => ?_, hapart⟩
  · rw [hdkm]
    exact and_eq_of_and_eq hcmask hm
  · rw [hdkv]
    exact and_eq_of_and_eq hcmask hv
  · by_contra hval
    have := (hreg'.sound w' hw').value_within i (by simpa using hval)
    rw [hapart i hi] at this
    cases this

/-- Entries of fields that fit in one packet and do not disturb one another spare each other. -/
theorem spares_of_not_disturbs {l3 : BitVec 16} {e' : Encoding} (hwf : m.WellFormed)
    (hwf' : m'.WellFormed) (he : encoder l3 m = some e) (he' : encoder l3 m' = some e')
    (hreg' : e'.Regular) (hne : m.field ≠ m'.field) (hl3 : m.field.l3Need.ok l3 = true)
    (hl3' : m'.field.l3Need.ok l3 = true) (hproto : m.field.protoCompatible m'.field = true)
    (hd : m'.field.disturbs m'.hasMask m.field = false) : e'.Spares e := by
  obtain ⟨k, hk, hok, hv6⟩ := exists_l3Kind l3
  have hcheck := printsCompatible_all
  simp only [all_eq_true] at hcheck
  have := hcheck k hk _ (mem_standardAll hwf.standard) _
    (mem_standardAll hwf'.standard) m'.hasMask (by cases m'.hasMask <;> simp)
    m.hasMask (by cases m.hasMask <;> simp)
  simp only [printsCompatible, ← hok, hl3, hl3', hproto, hd, ← hv6, Bool.not_true, Bool.or_false,
    Bool.or_eq_true, beq_iff_eq, hne, false_or] at this
  exact spares_of_printSpares hwf hwf' he he' hreg' this

/-! ## The loop as a map over the list -/

/-- The ethertype a match list names, 0 when it names none. -/
def etherTypeOf (ml : List Match) : BitVec 16 :=
  match ml.find? fun m => m.field = .ethType with
  | some m => m.be16
  | none => 0

theorem encoder_congr {l3 l3' : BitVec 16} (h : m.field = .ipDscp ∨ m.field = .ipEcn → l3 = l3') :
    encoder l3 m = encoder l3' m := by
  by_cases hf : m.field = .ipDscp ∨ m.field = .ipEcn
  · rw [h hf]
  · obtain ⟨cls, f, hasMask, value⟩ := m
    cases f <;> cases hasMask <;> first | rfl | exact absurd (by simp) hf

theorem encodings_eq_filterMap {E : BitVec 16} :
    ∀ (ml : List Match) (l3 : BitVec 16) (bits : List Nat), preRequisiteLoop bits ml = .ok () →
      (∀ m ∈ ml, m.WellFormed) → (∀ m ∈ ml, m.field = .ethType → m.be16 = E) →
      (OxmField.ethType.bit ∈ bits → l3 = E) →
      encodings l3 ml = ml.filterMap (encoder E)
  | [], _, _, _, _, _, _ => rfl
  | m :: ml, l3, bits, hpre, hwf, heth, hl3 => by
    obtain ⟨-, hprereq, hrest⟩ := preRequisiteLoop_cons_iff.mp hpre
    have hwfm := hwf m mem_cons_self
    have ih := fun l3' h => encodings_eq_filterMap (E := E) ml l3' _ hrest
      (fun m' hm' => hwf m' (mem_cons_of_mem _ hm'))
      (fun m' hm' => heth m' (mem_cons_of_mem _ hm')) h
    by_cases hf : m.field = .ethType
    · have hmask : m.hasMask = false := hwfm.unmasked (by rw [hf]; rfl)
      have hnone : encoder E m = none := by simp [encoder, hf, hmask]
      rw [encodings, if_pos ⟨hf, hmask⟩, ih _ (fun _ => heth m mem_cons_self hf), filterMap_cons_none hnone]
    · have hbit : OxmField.ethType.bit ∈ m.field.bit :: bits → l3 = E := by
        intro h
        rcases mem_cons.mp h with h | h
        · exact absurd (bit_injective_of_standard rfl hwfm.standard h).symm hf
        · exact hl3 h
      have hcongr : encoder l3 m = encoder E m := encoder_congr fun h =>
        hbit (hprereq _ (by rcases h with h | h <;> simp [h, OxmField.prerequisites]))
      rw [encodings, if_neg (fun h => hf h.1), ih _ hbit, hcongr]
      cases henc : encoder E m with
      | none => rw [filterMap_cons_none henc]; rfl
      | some e => rw [filterMap_cons_some henc]; rfl

variable {ml : List Match}

theorem be16_of_mem (hacc : Accepted ml) (hm : m ∈ ml) (hf : m.field = .ethType) :
    m.be16 = etherTypeOf ml := by
  have hfind : (ml.find? fun m => m.field = .ethType) = some m := by
    cases h : ml.find? (fun m => m.field = .ethType) with
    | none => simpa [hf] using find?_eq_none.mp h m hm
    | some m' =>
      have h1 := mem_of_find?_eq_some h
      have h2 := find?_some h
      simp only [decide_eq_true_eq] at h2
      rw [hacc.eq_of_field_eq h1 hm (h2.trans hf.symm)]
  rw [etherTypeOf, hfind]

/-- **`flow_make_match` on an accepted list**: every entry is encoded for the list's own
ethertype. -/
theorem flowMakeMatch_eq (hacc : Accepted ml) (hwf : ∀ m ∈ ml, m.WellFormed) :
    flowMakeMatch ml = compile (ml.filterMap (encoder (etherTypeOf ml))) := by
  rw [flowMakeMatch, encodings_eq_filterMap ml 0 [] hacc.1 hwf (fun m hm => be16_of_mem hacc hm) (by simp)]

/-! ## Headers the list announces -/

theorem OxmField.ethType_mem_prerequisites (hstd : f.standard = true) (h : f.l3Need ≠ .any) :
    .ethType ∈ f.prerequisites := by
  cases f <;> first
    | (exact absurd hstd (by decide)) | (exact absurd rfl h) | decide

theorem OxmField.ipProto_mem_prerequisites (hstd : f.standard = true) (h : f.protoNeed ≠ none) :
    .ipProto ∈ f.prerequisites := by
  cases f <;> first
    | (exact absurd hstd (by decide)) | (exact absurd rfl h) | decide

variable {p : Packet}

theorem Match.holds_iff : m.holds p = true ↔
      p.carries m.field = true ∧ (p.rawField m.field).any m.holdsOn = true := by
  unfold Match.holds Packet.headerField
  by_cases hc : p.carries m.field = true <;> simp [hc]

theorem beBytes_eq_iff (x : BitVec 16) (a b : Byte) :
    (beByte 2 x 0 = a ∧ beByte 2 x 1 = b) ↔ x = a ++ b := by
  constructor
  · rintro ⟨rfl, rfl⟩
    apply BitVec.eq_of_getLsbD_eq
    intro i hi
    simp only [beByte, BitVec.getLsbD_append, BitVec.getLsbD_extractLsb']
    by_cases h8 : i < 8
    · simp [h8]
    · simp [h8, show i - 8 < 8 by omega, show 8 + (i - 8) = i by omega]
  · rintro rfl
    exact ⟨BitVec.extractLsb'_append_eq_left, BitVec.extractLsb'_append_eq_right⟩

theorem ethType_holds_iff (hwf : m.WellFormed) (hf : m.field = .ethType) :
    m.holds p = true ↔ p.etherType = m.be16 := by
  have hmask := hwf.unmasked (by rw [hf]; rfl)
  have hlen : m.len = 2 := by rw [hwf.len_eq, hf]; rfl
  have hcarry : p.carries m.field = true := by rw [hf]; rfl
  have hraw : p.rawField m.field = some [beByte 2 p.etherType 0, beByte 2 p.etherType 1] := by
    rw [hf]; rfl
  rw [holds_iff, hraw, Option.any_some, holdsOn_two hlen,
    maskByte_of_not_hasMask hmask, maskByte_of_not_hasMask hmask]
  have hand : ∀ x : Byte, x &&& 0xff = x := and_ff
  simp only [hcarry, true_and, hand]
  exact beBytes_eq_iff _ _ _

/-- The packet is of the ethertype the list names, if it names one. -/
def EthTypeHolds (ml : List Match) (p : Packet) : Prop :=
  ∀ m ∈ ml, m.field = .ethType → m.holds p = true

theorem MatchListHolds.ethType (h : MatchListHolds ml p) : EthTypeHolds ml p := fun m hm _ => h m hm

section Announced

variable {ml : List Match} (hacc : Accepted ml) (hwf : ∀ m ∈ ml, m.WellFormed)
include hacc hwf

theorem etherType_eq_of_need (heth : EthTypeHolds ml p) (hm : m ∈ ml)
    (hneed : m.field.l3Need ≠ .any) : p.etherType = etherTypeOf ml := by
  obtain ⟨m', hm', hf'⟩ := hacc.prerequisite_mem hwf hm
    (ethType_mem_prerequisites (hwf m hm).standard hneed) rfl
  rw [← be16_of_mem hacc hm' hf']
  exact (ethType_holds_iff (hwf m' hm') hf').mp (heth m' hm' hf')

theorem l3Need_ok (hp : MatchListHolds ml p) (hm : m ∈ ml) : m.field.l3Need.ok (etherTypeOf ml) = true := by
  by_cases hneed : m.field.l3Need = .any
  · rw [hneed]
    rfl
  · rw [← etherType_eq_of_need hacc hwf hp.ethType hm hneed]
    have := (holds_iff.mp (hp m hm)).1
    rw [Packet.carries, Bool.and_eq_true] at this
    exact this.1

omit hacc hwf in
theorem protoByte_of_holds (h : m.holds p = true) {a : Byte} (hneed : m.field.protoNeed = some a) :
    p.protoByte = some a := by
  have := (holds_iff.mp h).1
  simp only [Packet.carries, hneed, Option.isNone_some, Bool.false_or, Bool.and_eq_true, beq_iff_eq] at this
  exact this.2.symm

omit hacc hwf in
theorem protoCompatible_of_holds (h : m.holds p = true) (h' : m'.holds p = true) :
    m.field.protoCompatible m'.field = true := by
  unfold OxmField.protoCompatible
  cases ha : m.field.protoNeed with
  | none => rfl
  | some a =>
    cases hb : m'.field.protoNeed with
    | none => rfl
    | some b =>
      have := (protoByte_of_holds h ha).symm.trans (protoByte_of_holds h' hb)
      simpa using this

theorem encoder_spares (hp : MatchListHolds ml p) {e' : Encoding} (hm : m ∈ ml) (hm' : m' ∈ ml)
    (hne : m.field ≠ m'.field) (hd : m'.field.disturbs m'.hasMask m.field = false)
    (he : encoder (etherTypeOf ml) m = some e) (he' : encoder (etherTypeOf ml) m' = some e') :
    e'.Spares e :=
  spares_of_not_disturbs (hwf m hm) (hwf m' hm') he he'
    (encoder_faithful (hwf m' hm') (fun _ hi => hacc.within_mask hm' hi) he').1 hne
    (l3Need_ok hacc hwf hp hm) (l3Need_ok hacc hwf hp hm')
    (protoCompatible_of_holds (hp m hm) (hp m' hm')) hd

theorem encoder_holds_iff (heth : EthTypeHolds ml p) (hm : m ∈ ml)
    (he : encoder (etherTypeOf ml) m = some e) : e.Holds p ↔ (p.rawField m.field).any m.holdsOn = true :=
  (encoder_faithful (hwf m hm) (fun _ hi => hacc.within_mask hm hi) he).2 p fun hneed => by
    rw [etherType_eq_of_need hacc hwf heth hm hneed]

end Announced

end Lagopus
