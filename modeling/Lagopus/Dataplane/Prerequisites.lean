import Lagopus.Dataplane.ByteOff

/-!
# Match prerequisites

OpenFlow asks a match on a field for other fields, with values that make the header appear in the
packet.  `flow_pre_requisite_check` looks for the fields and not at their values.

* `OxmField.requires`: the prerequisites, with the values;
* `flowPreRequisiteCheck_iff`: what the check accepts;
* `prerequisites_right_iff`: when that is what OpenFlow asks for.
-/

namespace Lagopus

open List OxmField

/-- A field to be there, and what its match has to ask for. -/
abbrev Need := OxmField × (Match → Bool)

/-- One of these ethertypes. -/
def typeNeed (types : List (BitVec 16)) : Need := (.ethType, fun m => types.contains m.be16)

def ipNeed : Need := typeNeed [ETHERTYPE_IP, ETHERTYPE_IPV6]

/-- One of these values of a field of one byte. -/
def byteNeed (f : OxmField) (values : List Byte) : Need := (f, fun m => values.contains (m.byte 0))

/-- A neighbour discovery message of one of these types. -/
def ndNeeds (types : List Byte) : List Need :=
  [typeNeed [ETHERTYPE_IPV6], byteNeed .ipProto [IPPROTO_ICMPV6], byteNeed .icmpv6Type types]

/-- The prerequisites of a field, those of its prerequisites among them. -/
def OxmField.requires : OxmField → List Need
  | .inPhyPort => [(.inPort, fun _ => true)]
  | .vlanPcp => [(.vlanVid, fun m => m.byte 0 &&& m.maskByte 0 &&& 0x10 == 0x10)]
  | .ipDscp | .ipEcn | .ipProto => [ipNeed]
  | .ipv4Src | .ipv4Dst => [typeNeed [ETHERTYPE_IP]]
  | .tcpSrc | .tcpDst => [ipNeed, byteNeed .ipProto [IPPROTO_TCP]]
  | .udpSrc | .udpDst => [ipNeed, byteNeed .ipProto [IPPROTO_UDP]]
  | .sctpSrc | .sctpDst => [ipNeed, byteNeed .ipProto [IPPROTO_SCTP]]
  | .icmpv4Type | .icmpv4Code => [typeNeed [ETHERTYPE_IP], byteNeed .ipProto [IPPROTO_ICMP]]
  | .arpOp | .arpSpa | .arpTpa | .arpSha | .arpTha => [typeNeed [ETHERTYPE_ARP]]
  | .ipv6Src | .ipv6Dst | .ipv6Flabel | .ipv6Exthdr => [typeNeed [ETHERTYPE_IPV6]]
  | .icmpv6Type | .icmpv6Code => [typeNeed [ETHERTYPE_IPV6], byteNeed .ipProto [IPPROTO_ICMPV6]]
  | .ipv6NdTarget => ndNeeds [135, 136]
  | .ipv6NdSll => ndNeeds [135]
  | .ipv6NdTll => ndNeeds [136]
  | .mplsLabel | .mplsTc | .mplsBos => [typeNeed [ETHERTYPE_MPLS, ETHERTYPE_MPLS_MCAST]]
  | .pbbIsid => [typeNeed [ETHERTYPE_PBB]]
  | _ => []

/-- The prerequisites that the check does not know. -/
def OxmField.unasked : OxmField → List OxmField
  | .ipv6NdTarget | .ipv6NdSll | .ipv6NdTll => [.icmpv6Type]
  | .pbbIsid => [.ethType]
  | _ => []

/-- What a list has to be: no field twice, and every prerequisite with a value that satisfies it. -/
structure Founded (ml : List Match) : Prop where
  nodup : (ml.map (·.field)).Nodup
  holds : ∀ m ∈ ml, ∀ r ∈ m.field.requires, ∃ m' ∈ ml, m'.field = r.1 ∧ r.2 m' = true

/-- What the check looks at. -/
structure Presented (ml : List Match) : Prop where
  nodup : (ml.map (·.field)).Nodup
  named : ∀ m ∈ ml, ∀ f ∈ m.field.prerequisites, f ∈ ml.map (·.field)

/-- What it does not look at: the values, and some prerequisites altogether. -/
structure ValuesRight (ml : List Match) : Prop where
  values : ∀ m ∈ ml, ∀ r ∈ m.field.requires, ∀ m' ∈ ml, m'.field = r.1 → r.2 m' = true
  unasked : ∀ m ∈ ml, ∀ f ∈ m.field.unasked, f ∈ ml.map (·.field)

/-! ## What is accepted -/

theorem OxmField.lt_of_mem_prerequisites {f p : OxmField} (h : p ∈ f.prerequisites) :
    p.code < f.code ∧ p.standard = true := by
  have hall : (f.prerequisites.all fun p => decide (p.code < f.code) && p.standard) = true := by
    cases f <;> rfl
  simpa using all_eq_true.1 hall p h

theorem OxmField.mem_requires_iff (f p : OxmField) :
    p ∈ f.requires.map (·.1) ↔ p ∈ f.prerequisites ∨ p ∈ f.unasked := by
  cases f <;> simp [requires, prerequisites, unasked, ipNeed, typeNeed, byteNeed, ndNeeds, or_assoc]

variable {ml : List Match}

section

variable (hstd : ∀ m ∈ ml, m.field.standard = true)

include hstd

theorem mem_fieldBits_iff {f : OxmField} (hf : f.standard = true) :
    f.bit ∈ fieldBits ml ↔ f ∈ ml.map (·.field) := by
  constructor
  · intro h
    obtain ⟨m, hm, heq⟩ := mem_map.1 h
    exact mem_map.2 ⟨m, hm, bit_injective_of_standard (hstd m hm) hf heq⟩
  · intro h
    obtain ⟨m, hm, rfl⟩ := mem_map.1 h
    exact mem_map.2 ⟨m, hm, rfl⟩

theorem nodup_fieldBits_iff : (fieldBits ml).Nodup ↔ (ml.map (·.field)).Nodup := by
  have hmap : fieldBits ml = (ml.map (·.field)).map OxmField.bit := by
    rw [map_map]
    rfl
  rw [hmap]
  refine ⟨List.Nodup.of_map _, List.Nodup.map_on fun f hf g hg => ?_⟩
  obtain ⟨m, hm, rfl⟩ := mem_map.1 hf
  obtain ⟨m', hm', rfl⟩ := mem_map.1 hg
  exact bit_injective_of_standard (hstd m hm) (hstd m' hm')

theorem preRequisiteLoop_of_presented {bits : List Nat}
    (hsort : ml.Pairwise (·.field.code ≤ ·.field.code)) (hnd : (fieldBits ml).Nodup)
    (hfresh : ∀ b ∈ fieldBits ml, b ∉ bits)
    (hpre : ∀ m ∈ ml, ∀ p ∈ m.field.prerequisites, p.bit ∈ bits ∨ p.bit ∈ fieldBits ml) :
    preRequisiteLoop bits ml = .ok () := by
  induction ml generalizing bits with
  | nil => rfl
  | cons m ml ih =>
    obtain ⟨hfirst, hsort⟩ := pairwise_cons.1 hsort
    obtain ⟨hmnot, hnd⟩ := nodup_cons.1 hnd
    rw [preRequisiteLoop_cons_iff]
    refine ⟨hfresh _ mem_cons_self, fun p hp => ?_, ih (fun m' hm' => hstd m' (.tail _ hm')) hsort
      hnd (fun b hb hmem => ?_) fun m' hm' p hp => ?_⟩
    · rcases hpre m mem_cons_self p hp with hbit | hbit
      · exact mem_cons_of_mem _ hbit
      · -- a prerequisite has a smaller number, so it is not further on
        obtain ⟨hlt, hpstd⟩ := lt_of_mem_prerequisites hp
        obtain ⟨m', hm', rfl⟩ := mem_map.1 ((mem_fieldBits_iff hstd hpstd).1 hbit)
        rcases mem_cons.1 hm' with rfl | hm'
        · exact mem_cons_self
        · exact absurd (hfirst m' hm') (by omega)
    · rcases mem_cons.1 hmem with rfl | hmem
      · exact hmnot hb
      · exact hfresh b (.tail _ hb) hmem
    · have := hpre m' (.tail _ hm') p hp
      simp only [fieldBits, map_cons, mem_cons] at this ⊢
      tauto

theorem flowPreRequisiteCheck_iff (hsort : ml.Pairwise (·.field.code ≤ ·.field.code)) :
    flowPreRequisiteCheck ml = .ok () ↔ Presented ml := by
  have hnames : ∀ m ∈ ml, ∀ p ∈ m.field.prerequisites,
      (p.bit ∈ fieldBits ml ↔ p ∈ ml.map (·.field)) :=
    fun m _ p hp => mem_fieldBits_iff hstd (lt_of_mem_prerequisites hp).2
  constructor
  · intro h
    refine ⟨(nodup_fieldBits_iff hstd).1 (preRequisiteLoop_nodup ml [] h).1, fun m hm p hp => ?_⟩
    rcases preRequisiteLoop_prerequisite ml [] h m hm p hp with hbit | hbit
    · cases hbit
    · exact (hnames m hm p hp).1 hbit
  · intro h
    exact preRequisiteLoop_of_presented hstd hsort ((nodup_fieldBits_iff hstd).2 h.nodup)
      (fun _ _ hmem => by cases hmem) fun m hm p hp => .inr ((hnames m hm p hp).2 (h.named m hm p hp))

end

theorem founded_iff : Founded ml ↔ Presented ml ∧ ValuesRight ml := by
  constructor
  · intro h
    have hnamed : ∀ m ∈ ml, ∀ f, f ∈ m.field.prerequisites ∨ f ∈ m.field.unasked →
        f ∈ ml.map (·.field) := by
      intro m hm f hf
      obtain ⟨r, hr, rfl⟩ := mem_map.1 ((mem_requires_iff _ f).2 hf)
      obtain ⟨m', hm', hfield, -⟩ := h.holds m hm r hr
      exact mem_map.2 ⟨m', hm', hfield⟩
    refine ⟨⟨h.nodup, fun m hm f hf => hnamed m hm f (.inl hf)⟩, fun m hm r hr m' hm' hfield => ?_,
      fun m hm f hf => hnamed m hm f (.inr hf)⟩
    -- no field is there twice, so the match that satisfies the prerequisite is this one
    obtain ⟨m'', hm'', hfield', hok⟩ := h.holds m hm r hr
    rwa [inj_on_of_nodup_map h.nodup hm' hm'' (hfield.trans hfield'.symm)]
  · rintro ⟨hp, hv⟩
    refine ⟨hp.nodup, fun m hm r hr => ?_⟩
    have hnamed : r.1 ∈ ml.map (·.field) :=
      ((mem_requires_iff _ r.1).1 (mem_map.2 ⟨r, hr, rfl⟩)).elim (hp.named m hm r.1) (hv.unasked m hm r.1)
    obtain ⟨m', hm', hfield⟩ := mem_map.1 hnamed
    exact ⟨m', hm', hfield, hv.values m hm r hr m' hm' hfield⟩

/-- **The check accepts the lists whose prerequisites are satisfied**, exactly if the values are right
wherever the prerequisites it knows are present. -/
theorem prerequisites_right_iff (hsort : ml.Pairwise (·.field.code ≤ ·.field.code))
    (hstd : ∀ m ∈ ml, m.field.standard = true) :
    (flowPreRequisiteCheck ml = .ok () ↔ Founded ml) ↔ (Presented ml → ValuesRight ml) := by
  rw [flowPreRequisiteCheck_iff hstd hsort, founded_iff]
  exact ⟨fun h hp => (h.1 hp).2, fun h => ⟨fun hp => ⟨hp, h hp⟩, And.left⟩⟩

/-- A TCP port on IPv4. -/
theorem prerequisites_right_of_tcp :
    let ml : List Match := [⟨0x8000, .ethType, false, [0x08, 0x00]⟩, ⟨0x8000, .ipProto, false, [6]⟩,
      ⟨0x8000, .tcpDst, false, [0, 80]⟩]
    flowPreRequisiteCheck ml = .ok () ∧ Founded ml := by
  intro ml
  have hok : flowPreRequisiteCheck ml = .ok () := by decide
  refine ⟨hok, ((prerequisites_right_iff (by decide) (by decide)).2 fun _ => ⟨?_, ?_⟩).1 hok⟩
  · decide
  · decide

/-- An ARP operation asked for on IPv4 packets. -/
theorem arp_on_ipv4_accepted :
    let ml : List Match := [⟨0x8000, .ethType, false, [0x08, 0x00]⟩, ⟨0x8000, .arpOp, false, [0, 1]⟩]
    flowPreRequisiteCheck ml = .ok () ∧ ¬ Founded ml := by
  refine ⟨by decide, fun h => ?_⟩
  obtain ⟨m, hm, -, hok⟩ := h.holds ⟨0x8000, .arpOp, false, [0, 1]⟩ (by decide) _ List.mem_cons_self
  revert m
  decide

end Lagopus
