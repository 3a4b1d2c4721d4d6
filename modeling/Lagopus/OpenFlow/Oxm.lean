import Mathlib.Data.List.Nodup
import Mathlib.Tactic

/-!
# OXM match fields

The match half of a flow-mod as the switch keeps it after parsing: a list of `struct match`
entries, each an OXM field with its value and, when the mask bit of `oxm_field` is set, its mask.

* `OxmField` enumerates `OFPXMT_OFB_*`, `OxmField.code` gives the number on the wire;
* `Match` is `struct match`;
* `flowPreRequisiteCheck` and `flowMaskCheck` are the two acceptance checks every flow-mod passes;
* `Accepted.nodup` says that an accepted list names each field at most once,
  `Accepted.prerequisite_mem` that it names a field's prerequisites, and `Accepted.within_mask`
  that a masked value has no bit outside its mask.
-/

namespace Lagopus

open List

/-- One byte of a packet or of an OXM value. -/
abbrev Byte := BitVec 8

/-! ## Fields -/

/-- `OFPXMT_OFB_*`: the match fields the parser admits. -/
inductive OxmField
  | inPort | inPhyPort | metadata | ethDst | ethSrc | ethType | vlanVid | vlanPcp
  | ipDscp | ipEcn | ipProto | ipv4Src | ipv4Dst | tcpSrc | tcpDst | udpSrc | udpDst
  | sctpSrc | sctpDst | icmpv4Type | icmpv4Code | arpOp | arpSpa | arpTpa | arpSha | arpTha
  | ipv6Src | ipv6Dst | ipv6Flabel | icmpv6Type | icmpv6Code
  | ipv6NdTarget | ipv6NdSll | ipv6NdTll | mplsLabel | mplsTc | mplsBos | pbbIsid
  | tunnelId | ipv6Exthdr
  | pbbUca | packetType | greFlags | greVer | greProtocol | greKey | greSeqnum
  | lispFlags | lispNonce | lispId | vxlanFlags | vxlanVni
  | mplsDataFirstNibble | mplsAchVersion | mplsAchChannel | mplsPwMetadata
  | mplsCwFlags | mplsCwFrag | mplsCwLen | mplsCwSeqNum
  | gtpuFlags | gtpuVer | gtpuMsgtype | gtpuTeid
  | gtpuExtnHdr | gtpuExtnUdpPort | gtpuExtnSci
deriving DecidableEq, Repr

namespace OxmField

/-- The number of a field: 0 to 39 for the OpenFlow 1.3 fields, 41 to 67 for the extensions. -/
def code : OxmField → Nat
  | inPort => 0 | inPhyPort => 1 | metadata => 2 | ethDst => 3 | ethSrc => 4 | ethType => 5
  | vlanVid => 6 | vlanPcp => 7 | ipDscp => 8 | ipEcn => 9 | ipProto => 10 | ipv4Src => 11
  | ipv4Dst => 12 | tcpSrc => 13 | tcpDst => 14 | udpSrc => 15 | udpDst => 16 | sctpSrc => 17
  | sctpDst => 18 | icmpv4Type => 19 | icmpv4Code => 20 | arpOp => 21 | arpSpa => 22
  | arpTpa => 23 | arpSha => 24 | arpTha => 25 | ipv6Src => 26 | ipv6Dst => 27
  | ipv6Flabel => 28 | icmpv6Type => 29 | icmpv6Code => 30 | ipv6NdTarget => 31
  | ipv6NdSll => 32 | ipv6NdTll => 33 | mplsLabel => 34 | mplsTc => 35 | mplsBos => 36
  | pbbIsid => 37 | tunnelId => 38 | ipv6Exthdr => 39
  | pbbUca => 41 | packetType => 42 | greFlags => 43 | greVer => 44 | greProtocol => 45
  | greKey => 46 | greSeqnum => 47 | lispFlags => 48 | lispNonce => 49 | lispId => 50
  | vxlanFlags => 51 | vxlanVni => 52 | mplsDataFirstNibble => 53 | mplsAchVersion => 54
  | mplsAchChannel => 55 | mplsPwMetadata => 56 | mplsCwFlags => 57 | mplsCwFrag => 58
  | mplsCwLen => 59 | mplsCwSeqNum => 60 | gtpuFlags => 61 | gtpuVer => 62 | gtpuMsgtype => 63
  | gtpuTeid => 64 | gtpuExtnHdr => 65 | gtpuExtnUdpPort => 66 | gtpuExtnSci => 67

/-- All fields, by number. -/
def all : List OxmField :=
  [inPort, inPhyPort, metadata, ethDst, ethSrc, ethType, vlanVid, vlanPcp, ipDscp, ipEcn, ipProto,
    ipv4Src, ipv4Dst, tcpSrc, tcpDst, udpSrc, udpDst, sctpSrc, sctpDst, icmpv4Type, icmpv4Code,
    arpOp, arpSpa, arpTpa, arpSha, arpTha, ipv6Src, ipv6Dst, ipv6Flabel, icmpv6Type, icmpv6Code,
    ipv6NdTarget, ipv6NdSll, ipv6NdTll, mplsLabel, mplsTc, mplsBos, pbbIsid, tunnelId, ipv6Exthdr,
    pbbUca, packetType, greFlags, greVer, greProtocol, greKey, greSeqnum, lispFlags, lispNonce,
    lispId, vxlanFlags, vxlanVni, mplsDataFirstNibble, mplsAchVersion, mplsAchChannel,
    mplsPwMetadata, mplsCwFlags, mplsCwFrag, mplsCwLen, mplsCwSeqNum, gtpuFlags, gtpuVer,
    gtpuMsgtype, gtpuTeid, gtpuExtnHdr, gtpuExtnUdpPort, gtpuExtnSci]

/-- The field with a given number: the numbers `ofp_oxm_field_check` lets through. -/
def ofCode (n : Nat) : Option OxmField := all.find? fun f => f.code == n

theorem ofCode_code (f : OxmField) : ofCode f.code = some f := by cases f <;> rfl

theorem code_injective : Function.Injective code := fun f g h => by
  have := congrArg ofCode h
  rwa [ofCode_code, ofCode_code, Option.some.injEq] at this

/-- The fields of OpenFlow 1.3, the ones the table features (`oxm_ids`) advertise. -/
def standard (f : OxmField) : Bool := f.code < 40

/-- The fields `flow_make_match` also takes with a mask. -/
def maskable : OxmField → Bool
  | metadata | ethDst | ethSrc | vlanVid | ipv4Src | ipv4Dst | arpSpa | arpTpa | arpSha | arpTha
  | ipv6Src | ipv6Dst | ipv6Flabel | pbbIsid | tunnelId | ipv6Exthdr => true
  | _ => false

/-- Length in bytes of an OXM value (without mask). -/
def bytes : OxmField → Nat
  | inPort | inPhyPort | ipv4Src | ipv4Dst | arpSpa | arpTpa | ipv6Flabel | mplsLabel => 4
  | metadata | tunnelId => 8
  | ethDst | ethSrc | arpSha | arpTha | ipv6NdSll | ipv6NdTll => 6
  | ethType | vlanVid | tcpSrc | tcpDst | udpSrc | udpDst | sctpSrc | sctpDst | arpOp
  | ipv6Exthdr => 2
  | vlanPcp | ipDscp | ipEcn | ipProto | icmpv4Type | icmpv4Code | icmpv6Type | icmpv6Code
  | mplsTc | mplsBos => 1
  | ipv6Src | ipv6Dst | ipv6NdTarget => 16
  | pbbIsid => 3
  | packetType | greKey | greSeqnum | lispId | gtpuTeid => 4
  | greFlags | greProtocol | mplsAchChannel | mplsCwSeqNum | gtpuExtnUdpPort => 2
  | vxlanVni | lispNonce => 3
  | _ => 1

/-- The bits of byte `i` of an OXM value that belong to the field. -/
def widthMask : OxmField → Nat → Byte
  | vlanVid, 0 => 0x1f
  | vlanPcp, 0 => 0x07
  | ipDscp, 0 => 0x3f
  | ipEcn, 0 => 0x03
  | ipv6Flabel, 0 | mplsLabel, 0 => 0x00
  | ipv6Flabel, 1 | mplsLabel, 1 => 0x0f
  | mplsTc, 0 => 0x07
  | mplsBos, 0 => 0x01
  | ipv6Exthdr, 0 => 0x01
  | _, _ => 0xff

end OxmField

/-! ## Matches -/

/-- `struct match`. `field` and `hasMask` are the upper seven bits and the low bit of
`oxm_field`; `value` holds `oxm_length` bytes, the value and then, with a mask, the mask. -/
structure Match where
  /-- `oxm_class`. -/
  oxmClass : Nat := 0x8000
  /-- The field type, `oxm_field >> 1`. -/
  field : OxmField
  /-- The mask bit, `oxm_field & 1`. -/
  hasMask : Bool := false
  /-- `oxm_value`. -/
  value : List Byte
deriving DecidableEq, Repr

namespace Match

/-- Byte `i` of `oxm_value`. -/
def byte (m : Match) (i : Nat) : Byte := m.value.getD i 0

/-- Number of bytes of the value without its mask. -/
def len (m : Match) : Nat := if m.hasMask then m.value.length / 2 else m.value.length

/-- Byte `i` of the mask: all ones when there is none. -/
def maskByte (m : Match) (i : Nat) : Byte := if m.hasMask then m.byte (m.len + i) else 0xff

/-- An OXM of a standard field, with a mask only where the field takes one, of the field's
length, and with no bit outside the field's width. -/
structure WellFormed (m : Match) : Prop where
  standard : m.field.standard = true
  maskable : m.hasMask = true → m.field.maskable = true
  length : m.value.length = if m.hasMask then 2 * m.field.bytes else m.field.bytes
  width : ∀ i < m.field.bytes, m.byte i &&& m.field.widthMask i = m.byte i
  maskWidth : m.hasMask = true →
    ∀ i < m.field.bytes, m.maskByte i &&& m.field.widthMask i = m.maskByte i

instance (m : Match) : Decidable m.WellFormed :=
  decidable_of_iff
    (m.field.standard = true ∧ (m.hasMask = true → m.field.maskable = true) ∧
      (m.value.length = if m.hasMask then 2 * m.field.bytes else m.field.bytes) ∧
      (∀ i < m.field.bytes, m.byte i &&& m.field.widthMask i = m.byte i) ∧
      (m.hasMask = true →
        ∀ i < m.field.bytes, m.maskByte i &&& m.field.widthMask i = m.maskByte i))
    ⟨fun ⟨h1, h2, h3, h4, h5⟩ => ⟨h1, h2, h3, h4, h5⟩,
      fun ⟨h1, h2, h3, h4, h5⟩ => ⟨h1, h2, h3, h4, h5⟩⟩

theorem WellFormed.len_eq {m : Match} (h : m.WellFormed) : m.len = m.field.bytes := by
  unfold len
  rw [h.length]
  cases m.hasMask <;> simp

theorem maskByte_of_not_hasMask {m : Match} (h : m.hasMask = false) (i : Nat) : m.maskByte i = 0xff := by
  simp [maskByte, h]

end Match

/-! ## Errors -/

/-- The `ofp_error` values the flow, group and meter operations report, named
`OFPET_*` then the code. -/
inductive OfpError
  | badMatchDupField | badMatchBadPrereq | badMatchBadWildcards
  | badActionBadOutPort | badActionBadOutGroup
  | badInstructionBadTableId | badInstructionUnknownInst | badInstructionDupInst
  | badInstructionUnsupInst
  | meterModFailedUnknownMeter | meterModFailedMeterExists
  | flowModFailedOverlap | flowModFailedBadTableId | flowModFailedUnknown
  | groupModFailedGroupExists | groupModFailedUnknownGroup | groupModFailedLoop
deriving DecidableEq, Repr

/-! ## Acceptance checks -/

/-- The bit of `field_bits` a field sets. The shift `(uint64_t)1 << T` takes its count modulo 64,
so the last four extension fields share the bits of the first four fields. -/
def OxmField.bit (f : OxmField) : Nat := f.code % 64

/-- `field_bits` of a match list, as the list of bits set. -/
def fieldBits (ml : List Match) : List Nat := ml.map (·.field.bit)

/-- What `flow_pre_requisite_check` asks for: the fields whose bit has to be set already. Only
their presence is looked at, never their value. -/
def OxmField.prerequisites : OxmField → List OxmField
  | .inPhyPort => [.inPort]
  | .vlanPcp => [.vlanVid]
  | .ipDscp | .ipEcn | .ipProto | .ipv4Src | .ipv4Dst => [.ethType]
  | .tcpSrc | .tcpDst | .udpSrc | .udpDst | .sctpSrc | .sctpDst | .icmpv4Type | .icmpv4Code =>
      [.ethType, .ipProto]
  | .arpOp | .arpSpa | .arpTpa | .arpSha | .arpTha | .ipv6Src | .ipv6Dst | .ipv6Flabel =>
      [.ethType]
  | .icmpv6Type | .icmpv6Code | .ipv6NdTarget | .ipv6NdSll | .ipv6NdTll => [.ethType, .ipProto]
  | .ipv6Exthdr | .mplsLabel | .mplsTc | .mplsBos => [.ethType]
  | _ => []

/-- The loop of `flow_pre_requisite_check`, `bits` being `flow->field_bits` so far. -/
def preRequisiteLoop (bits : List Nat) : List Match → Except OfpError Unit
  | [] => .ok ()
  | m :: ml =>
    if m.field.bit ∈ bits then .error .badMatchDupField
    else
      -- the field's own bit is set before its prerequisites are looked up
      let bits := m.field.bit :: bits
      if m.field.prerequisites.all (fun p => decide (p.bit ∈ bits)) then preRequisiteLoop bits ml
      else .error .badMatchBadPrereq

/-- `flow_pre_requisite_check`. -/
def flowPreRequisiteCheck (ml : List Match) : Except OfpError Unit := preRequisiteLoop [] ml

/-- `flow_mask_check`: a masked value has no bit outside its mask. -/
def flowMaskCheck : List Match → Except OfpError Unit
  | [] => .ok ()
  | m :: ml =>
    if m.hasMask = true ∧ ¬ (∀ i < m.len, m.byte i &&& ~~~ m.byte (m.len + i) = 0) then
      .error .badMatchBadWildcards
    else flowMaskCheck ml

/-- A match list that both checks accept. -/
def Accepted (ml : List Match) : Prop :=
  flowPreRequisiteCheck ml = .ok () ∧ flowMaskCheck ml = .ok ()

instance (ml : List Match) : Decidable (Accepted ml) := inferInstanceAs (Decidable (_ ∧ _))

theorem preRequisiteLoop_cons_iff {bits : List Nat} {m : Match} {ml : List Match} :
    preRequisiteLoop bits (m :: ml) = .ok () ↔
      m.field.bit ∉ bits ∧ (∀ p ∈ m.field.prerequisites, p.bit ∈ m.field.bit :: bits) ∧
        preRequisiteLoop (m.field.bit :: bits) ml = .ok () := by
  rw [preRequisiteLoop]
  by_cases hdup : m.field.bit ∈ bits
  · simp [hdup]
  · simp only [hdup, if_false, not_false_eq_true, true_and]
    split
    · rename_i hall
      simp only [all_eq_true, decide_eq_true_eq] at hall
      exact ⟨fun h => ⟨hall, h⟩, fun h => h.2⟩
    · rename_i hall
      simp only [all_eq_true, decide_eq_true_eq] at hall
      exact ⟨fun h => (by cases h), fun h => absurd h.1 hall⟩

theorem preRequisiteLoop_nodup : ∀ (ml : List Match) (bits : List Nat), preRequisiteLoop bits ml = .ok () →
      (fieldBits ml).Nodup ∧ ∀ b ∈ fieldBits ml, b ∉ bits
  | [], _, _ => by simp [fieldBits]
  | m :: ml, bits, h => by
    obtain ⟨hm, -, hrest⟩ := preRequisiteLoop_cons_iff.mp h
    obtain ⟨hnd, hfresh⟩ := preRequisiteLoop_nodup ml _ hrest
    constructor
    · exact nodup_cons.mpr ⟨fun hmem => hfresh _ hmem mem_cons_self, hnd⟩
    · intro b hb
      rcases mem_cons.mp hb with rfl | hb
      · exact hm
      · exact fun hbits => hfresh b hb (mem_cons_of_mem _ hbits)

theorem preRequisiteLoop_prerequisite :
    ∀ (ml : List Match) (bits : List Nat), preRequisiteLoop bits ml = .ok () →
      ∀ m ∈ ml, ∀ p ∈ m.field.prerequisites, p.bit ∈ bits ∨ p.bit ∈ fieldBits ml
  | [], _, _ => by simp
  | m :: ml, bits, h => by
    obtain ⟨-, hpre, hrest⟩ := preRequisiteLoop_cons_iff.mp h
    intro m' hm' p hp
    have hmem : p.bit ∈ m.field.bit :: bits ∨ p.bit ∈ fieldBits ml := by
      rcases mem_cons.mp hm' with rfl | hm'
      · exact Or.inl (hpre p hp)
      · exact preRequisiteLoop_prerequisite ml _ hrest m' hm' p hp
    simp only [fieldBits, map_cons, mem_cons] at hmem ⊢
    tauto

theorem flowMaskCheck_mem : ∀ (ml : List Match), flowMaskCheck ml = .ok () →
      ∀ m ∈ ml, m.hasMask = true → ∀ i < m.len, m.byte i &&& ~~~ m.byte (m.len + i) = 0
  | [], _ => by simp
  | m :: ml, h => by
    rw [flowMaskCheck] at h
    split at h
    · cases h
    · rename_i hm
      intro m' hm' hmask
      rcases mem_cons.mp hm' with rfl | hm'
      · by_contra hbad
        exact hm ⟨hmask, hbad⟩
      · exact flowMaskCheck_mem ml h m' hm' hmask

theorem OxmField.bit_injective_of_standard {f g : OxmField} (hf : f.standard = true)
    (hg : g.standard = true) (h : f.bit = g.bit) : f = g := by
  unfold standard at hf hg
  unfold bit at h
  simp only [decide_eq_true_eq] at hf hg
  exact code_injective (by omega)

namespace Accepted

variable {ml : List Match} (h : Accepted ml)

include h

theorem nodup : (fieldBits ml).Nodup := (preRequisiteLoop_nodup ml [] h.1).1

theorem pairwise_ne : ml.Pairwise fun m m' => m.field ≠ m'.field :=
  (pairwise_map.mp h.nodup).imp fun hne heq => hne (by rw [heq])

theorem eq_of_field_eq {m m' : Match} (hm : m ∈ ml) (hm' : m' ∈ ml) (hf : m.field = m'.field) : m = m' :=
  inj_on_of_nodup_map h.nodup hm hm' (by rw [hf])

theorem prerequisite_mem (hwf : ∀ m ∈ ml, m.WellFormed) {m : Match}
    (hm : m ∈ ml) {p : OxmField} (hp : p ∈ m.field.prerequisites) (hstd : p.standard = true) :
    ∃ m' ∈ ml, m'.field = p := by
  rcases preRequisiteLoop_prerequisite ml [] h.1 m hm p hp with hbit | hbit
  · cases hbit
  · obtain ⟨m', hm', hbit⟩ := mem_map.mp hbit
    exact ⟨m', hm', OxmField.bit_injective_of_standard (hwf m' hm').standard hstd hbit⟩

theorem within_mask {m : Match} (hm : m ∈ ml) {i : Nat} (hi : i < m.len) :
    m.byte i &&& m.maskByte i = m.byte i := by
  cases hmask : m.hasMask with
  | false =>
    rw [Match.maskByte_of_not_hasMask hmask]
    exact BitVec.and_allOnes
  | true =>
    have hz := flowMaskCheck_mem ml h.2 m hm hmask i hi
    have hbyte : m.maskByte i = m.byte (m.len + i) := by simp [Match.maskByte, hmask]
    rw [hbyte]
    apply BitVec.eq_of_getLsbD_eq
    intro j hj
    have := congrArg (fun x => x.getLsbD j) hz
    simp only [BitVec.getLsbD_and, BitVec.getLsbD_not, hj, decide_true, Bool.true_and] at this ⊢
    revert this
    cases (m.byte i).getLsbD j <;> simp

end Accepted

end Lagopus
