import Lagopus.Dataplane.Compile

/-!
# When the byte-offset compilation is faithful

Accepting a packet by comparing bytes should be the same as every match of the list holding on the
packet's headers. Two things stand in the way: two encoders assign a mask byte they share with
another field, and the acceptance checks ask for prerequisites by presence, not by value.

* `compilesFaithfully_of_undisturbed`: otherwise the compilation is faithful;
* `not_compilesFaithfully_of_disturbed`: a disturbed list is never compiled faithfully;
* `holds_of_matchBasic_mem`: what a single undisturbed entry contributes, for the index nodes that
  file a flow under the value of one field.
-/

namespace Lagopus

open MaskedCell List Packet Match Base

variable (ml : List Match)

/-- Some packet satisfies every match of the list. The acceptance checks ask for prerequisites by
presence only, so they also let through lists that no packet satisfies. -/
def Satisfiable : Prop := ∃ p, MatchListHolds ml p

/-- A match list that passed both checks, that some packet satisfies, and whose entries are as OpenFlow
has them.  The last is for the controller to see to: no check asks for it. -/
structure Admissible : Prop where
  accepted : Accepted ml
  wellFormed : ∀ m ∈ ml, m.WellFormed
  satisfiable : Satisfiable ml

/-- No entry of the list drops mask bits of an entry before it. -/
def Undisturbed : Prop :=
  ml.Pairwise fun m m' => m'.field.disturbs m'.hasMask m.field = false

instance (ml : List Match) : Decidable (Undisturbed ml) :=
  inferInstanceAs (Decidable (List.Pairwise _ ml))

/-- The compiled array accepts, among the packets of the list's ethertype, exactly those on which
every match of the list holds. -/
def CompilesFaithfully : Prop :=
  ∀ p, EthTypeHolds ml p → (matchBasic p (flowMakeMatch ml) = true ↔ MatchListHolds ml p)

variable {m : Match} {p : Packet}

theorem rawField_ipProto_iff (hwf : m.WellFormed) (hf : m.field = .ipProto) :
    (p.rawField m.field).any m.holdsOn = true ↔ p.protoByte = some (m.byte 0) := by
  have hlen : m.len = 1 := by rw [hwf.len_eq, hf]; rfl
  have hmask := hwf.unmasked (by rw [hf]; rfl)
  have hraw : p.rawField .ipProto = p.protoByte.map fun a => [a] := by
    simp only [Packet.rawField, Packet.read, Packet.readWith, Packet.protoByte, Option.map_map]
    rfl
  rw [hf, hraw]
  cases p.protoByte with
  | none => simp
  | some a => simp [holdsOn_one hlen hmask]

section

variable {ml : List Match} (hacc : Accepted ml) (hwf : ∀ m ∈ ml, m.WellFormed)
include hacc hwf

variable {e : Encoding}

theorem encoder_regular {E : BitVec 16} (hm : m ∈ ml) (he : encoder E m = some e) : e.Regular :=
  (encoder_faithful (hwf m hm) (fun _ hi => hacc.within_mask hm hi) he).1

theorem filterMap_regular {E : BitVec 16} : ∀ e ∈ ml.filterMap (encoder E), e.Regular := by
  intro e he
  obtain ⟨m, hm, hme⟩ := mem_filterMap.mp he
  exact encoder_regular hacc hwf hm hme

variable (hsat : Satisfiable ml)

include hsat

/-- **An entry that nothing in a satisfiable list disturbs is enforced by the compiled array.** -/
theorem holds_of_matchBasic_mem (hm : m ∈ ml) (hd : ∀ m' ∈ ml, m'.field.disturbs m'.hasMask m.field = false)
    (he : encoder (etherTypeOf ml) m = some e) (hb : e.base ∈ p.bases)
    (h : matchBasic p (flowMakeMatch ml) = true) : e.Holds p := by
  obtain ⟨p₀, hp₀⟩ := hsat
  rw [flowMakeMatch_eq hacc hwf] at h
  obtain ⟨pre, post, hml⟩ := append_of_mem hm
  set E := etherTypeOf ml
  have hsplit : ml.filterMap (encoder E) =
      pre.filterMap (encoder E) ++ e :: post.filterMap (encoder E) := by
    rw [hml, filterMap_append, filterMap_cons_some he]
  have hcov : ∀ e' ∈ ml.filterMap (encoder E), e'.Covered := fun e' he' =>
    (filterMap_regular hacc hwf e' he').covered
  rw [hsplit] at h hcov
  refine holds_of_matchBasic hcov (encoder_regular hacc hwf hm he) (fun e' he' => ?_) hb h
  obtain ⟨m', hm', hme'⟩ := mem_filterMap.mp he'
  have hmem' : m' ∈ ml := by rw [hml]; simp [hm']
  have hne : m.field ≠ m'.field := by
    have hpw := hacc.pairwise_ne
    rw [hml] at hpw
    exact (pairwise_cons.mp (pairwise_append.mp hpw).2.1).1 m' hm'
  exact encoder_spares hacc hwf hp₀ hm hmem' hne (hd m' hmem') he hme'

theorem base_mem_bases (heth : EthTypeHolds ml p) (hm : m ∈ ml) (he : encoder (etherTypeOf ml) m = some e) :
    e.base ∈ p.bases := by
  obtain ⟨p₀, hp₀⟩ := hsat
  have hbase := (encoder_footprint (hwf m hm) he).1
  by_cases hv6 : m.field.l3Need = .ipv6
  · have hok := l3Need_ok hacc hwf hp₀ hm
    rw [hv6] at hok
    have hE : etherTypeOf ml = ETHERTYPE_IPV6 := by simpa [L3Need.ok] using hok
    have hp : p.etherType = ETHERTYPE_IPV6 :=
      (etherType_eq_of_need hacc hwf heth hm (by rw [hv6]; decide)).trans hE
    rw [bases, if_pos hp]
    cases e.base <;> decide
  · -- only IPv6 fields use the bases after `OOB2_BASE`
    have hcommon : ∀ v6, (m.field.footprint v6 m.hasMask).1 ∈ common := by
      revert hv6
      generalize m.hasMask = a
      generalize m.field = f
      intro hv6 v6
      cases f <;> cases v6 <;> cases a <;> first | decide | exact absurd rfl hv6
    rw [hbase, bases]
    split
    · exact mem_append_left _ (hcommon _)
    · exact hcommon _

theorem pairwise_spares (hun : Undisturbed ml) :
    (ml.filterMap (encoder (etherTypeOf ml))).Pairwise fun e e' => e'.Spares e := by
  obtain ⟨p₀, hp₀⟩ := hsat
  rw [pairwise_filterMap]
  have hboth : ml.Pairwise fun m m' =>
      m.field ≠ m'.field ∧ m'.field.disturbs m'.hasMask m.field = false :=
    hacc.pairwise_ne.and hun
  refine List.Pairwise.imp_of_mem ?_ hboth
  intro m m' hm hm' hmm e he e' he'
  exact encoder_spares hacc hwf hp₀ hm hm' hmm.1 hmm.2 he he'

theorem carries_of_protoByte (heth : EthTypeHolds ml p) (hm : m ∈ ml)
    (hproto : ∀ m' ∈ ml, m'.field = .ipProto → p.protoByte = some (m'.byte 0)) :
    p.carries m.field = true := by
  obtain ⟨p₀, hp₀⟩ := hsat
  have hl3 : m.field.l3Need.ok p.etherType = true := by
    by_cases hneed : m.field.l3Need = .any
    · rw [hneed]; rfl
    · rw [etherType_eq_of_need hacc hwf heth hm hneed]
      exact l3Need_ok hacc hwf hp₀ hm
  rw [carries, hl3, Bool.true_and]
  cases ha : m.field.protoNeed with
  | none => rfl
  | some a =>
    obtain ⟨m', hm', hf'⟩ := hacc.prerequisite_mem hwf hm
      (OxmField.ipProto_mem_prerequisites (hwf m hm).standard (by simp [ha])) rfl
    -- the list's own IP_PROTO value is the one the field needs
    have hbyte : m'.byte 0 = a := by
      have hraw := (holds_iff.mp (hp₀ m' hm')).2
      rw [rawField_ipProto_iff (hwf m' hm') hf', protoByte_of_holds (hp₀ m hm) ha,
        Option.some.injEq] at hraw
      exact hraw.symm
    simp [hproto m' hm' hf', hbyte]

/-- In a satisfiable list it is enough to look at the bytes: the list's own `ETH_TYPE` and `IP_PROTO`
say that the headers are there. -/
theorem matchListHolds_iff_raw :
    MatchListHolds ml p ↔ ∀ m ∈ ml, (p.rawField m.field).any m.holdsOn = true := by
  constructor
  · exact fun h m hm => (holds_iff.mp (h m hm)).2
  · intro h
    have heth : EthTypeHolds ml p := fun m hm hf =>
      holds_iff.mpr ⟨by rw [hf]; rfl, h m hm⟩
    refine fun m hm => holds_iff.mpr ⟨?_, h m hm⟩
    refine carries_of_protoByte hacc hwf hsat heth hm fun m' hm' hf' => ?_
    exact (rawField_ipProto_iff (hwf m' hm') hf').mp (h m' hm')

/-- **Faithful compilation.** In a satisfiable list whose entries do not disturb each other, the
compiled array accepts exactly the packets on which every match holds. -/
theorem compilesFaithfully_of_undisturbed (hun : Undisturbed ml) : CompilesFaithfully ml := by
  intro p heth
  rw [flowMakeMatch_eq hacc hwf, matchBasic_compile_iff_forall (filterMap_regular hacc hwf)
    (pairwise_spares hacc hwf hsat hun), matchListHolds_iff_raw hacc hwf hsat]
  set E := etherTypeOf ml with hE
  constructor
  · intro h m hm
    by_cases hf : m.field = .ethType
    · exact (holds_iff.mp (heth m hm hf)).2
    · obtain ⟨e, he⟩ := exists_encoder E (hwf m hm) hf
      rw [← encoder_holds_iff hacc hwf heth hm he]
      exact h e (mem_filterMap.mpr ⟨m, hm, he⟩) (base_mem_bases hacc hwf hsat heth hm he)
  · intro h e he _
    obtain ⟨m, hm, hme⟩ := mem_filterMap.mp he
    exact (encoder_holds_iff hacc hwf heth hm hme).mpr (h m hm)

end

/-! ## Disturbed lists -/

/-- The value bits of a field that an entry disturbing it keeps, so that they are left in the value
without their mask. -/
def OxmField.stuckBits (l3EtherType : BitVec 16) : OxmField → Byte
  | .ipDscp => if l3EtherType = ETHERTYPE_IPV6 then 0x03 else 0x3c
  | .ipEcn => if l3EtherType = ETHERTYPE_IPV6 then 0x03 else 0
  | .mplsTc => 0x07
  | .mplsBos => 0x01
  | _ => 0

variable {m' : Match} {e e' : Encoding} {l3 : BitVec 16}

/-- The byte that a disturbing entry shares with the entry it disturbs, and the two writes to it. -/
structure SharedByte (l3 : BitVec 16) (m m' : Match) (e e' : Encoding) (o : Nat) (u u' : Write 8) :
    Prop where
  base : e'.base = e.base
  isHeader : e.base = .l3 ∨ e.base = .mpls
  earlier : e.writes.filter (fun w => w.1 = o) = [(o, u)]
  later : e'.writes.filter (fun w => w.1 = o) = [(o, u')]
  drops : u'.keepMask = 0
  loses : m'.field.l3Need.ok l3 = true → ∃ j, u.mask.getLsbD j = true ∧ u'.mask.getLsbD j = false
  /-- The later entry keeps nothing of any other byte. -/
  others : ∀ w ∈ e'.writes, w.1 ≠ o → w.2.keepValue = 0
  stuck : u.value &&& u'.keepValue = 0 ↔ m.byte 0 &&& m.field.stuckBits l3 = 0

theorem SharedByte.mem_earlier {o : Nat} {u u' : Write 8} (h : SharedByte l3 m m' e e' o u u') :
    (o, u) ∈ e.writes :=
  mem_of_mem_filter (h.earlier ▸ mem_singleton_self _)

theorem SharedByte.ne_oob {o : Nat} {u u' : Write 8} (h : SharedByte l3 m m' e e' o u u') :
    e.base ≠ .oob ∧ e.base ≠ .oob2 := by
  rcases h.isHeader with hb | hb <;> rw [hb] <;> decide

theorem exists_sharedByte (hwf : m.WellFormed) (hwf' : m'.WellFormed)
    (he : encoder l3 m = some e) (he' : encoder l3 m' = some e')
    (hd : m'.field.disturbs m'.hasMask m.field = true) : ∃ o u u', SharedByte l3 m m' e e' o u u' := by
  simp only [OxmField.disturbs, Bool.or_eq_true, Bool.and_eq_true, beq_iff_eq, Bool.not_eq_true'] at hd
  rcases hd with ⟨⟨hf', hmask'⟩, hf⟩ | ⟨hf', hf⟩
  · simp only [encoder, hf', hmask', Option.some.injEq] at he'
    subst he'
    rcases hf with hf | hf
    · obtain ⟨hmask, -, -⟩ := hwf.one_byte hf (k := 0x3f) ⟨rfl, rfl, rfl⟩
      simp only [encoder, hf, hmask] at he
      by_cases hv6 : l3 = ETHERTYPE_IPV6
      · rw [if_pos hv6, Option.some.injEq] at he
        subst he
        refine ⟨1, _, _, rfl, .inl rfl, rfl, rfl, rfl, fun _ => ⟨6, by simp [merge]⟩, by simp [assign], ?_⟩
        rw [hf, OxmField.stuckBits, if_pos hv6]
        simp only [merge, byte_eq_iff]
        simp
      · have hno : ¬ m'.field.l3Need.ok l3 = true := by simpa [hf', OxmField.l3Need, L3Need.ok] using hv6
        rw [if_neg hv6, Option.some.injEq] at he
        subst he
        refine ⟨1, _, _, rfl, .inl rfl, rfl, rfl, rfl, fun h => absurd h hno, by simp [assign], ?_⟩
        rw [hf, OxmField.stuckBits, if_neg hv6]
        simp only [merge, byte_eq_iff]
        simp
    · obtain ⟨hmask, -, hw⟩ := hwf.one_byte hf (k := 0x03) ⟨rfl, rfl, rfl⟩
      simp only [encoder, hf, hmask] at he
      by_cases hv6 : l3 = ETHERTYPE_IPV6
      · rw [if_pos hv6, Option.some.injEq] at he
        subst he
        refine ⟨1, _, _, rfl, .inl rfl, rfl, rfl, rfl, fun _ => ⟨4, by simp [merge]⟩, by simp [assign], ?_⟩
        rw [hf, OxmField.stuckBits, if_pos hv6]
        simp only [merge, byte_eq_iff] at hw ⊢
        simp at hw ⊢
        grind
      · have hno : ¬ m'.field.l3Need.ok l3 = true := by simpa [hf', OxmField.l3Need, L3Need.ok] using hv6
        rw [if_neg hv6, Option.some.injEq] at he
        subst he
        refine ⟨1, _, _, rfl, .inl rfl, rfl, rfl, rfl, fun h => absurd h hno, by simp [assign], ?_⟩
        rw [hf, OxmField.stuckBits, if_neg hv6]
        simp only [merge, byte_eq_iff] at hw ⊢
        simp at hw ⊢
        grind
  · have hmask' := hwf'.unmasked (by rw [hf']; rfl)
    simp only [encoder, hf', hmask', Option.some.injEq] at he'
    subst he'
    rcases hf with hf | hf
    · obtain ⟨hmask, -, -⟩ := hwf.one_byte hf (k := 0x07) ⟨rfl, rfl, rfl⟩
      simp only [encoder, hf, hmask, Option.some.injEq] at he
      subst he
      refine ⟨2, _, _, rfl, .inr rfl, rfl, rfl, rfl, fun _ => ⟨1, by simp [merge]⟩, by simp [assign], ?_⟩
      rw [hf, OxmField.stuckBits]
      simp only [merge, byte_eq_iff]
      simp
    · obtain ⟨hmask, -, hw⟩ := hwf.one_byte hf (k := 0x01) ⟨rfl, rfl, rfl⟩
      simp only [encoder, hf, hmask, Option.some.injEq] at he
      subst he
      refine ⟨2, _, _, rfl, .inr rfl, rfl, rfl, rfl, fun _ => ⟨0, by simp [merge]⟩, by simp [assign], ?_⟩
      rw [hf, OxmField.stuckBits]
      simp only [merge, byte_eq_iff] at hw ⊢
      simp at hw ⊢
      grind

theorem ne_ethType_of_disturbs {a : Bool} {f g : OxmField} (hd : g.disturbs a f = true) :
    f ≠ .ethType ∧ g ≠ .ethType := by
  constructor
  · rintro rfl
    simp [OxmField.disturbs] at hd
  · rintro rfl
    simp [OxmField.disturbs] at hd

/-- Two entries of which one disturbs the other are both encoded, and share a byte. -/
theorem exists_encoders (l3 : BitVec 16) (hwf : m.WellFormed) (hwf' : m'.WellFormed)
    (hd : m'.field.disturbs m'.hasMask m.field = true) :
    ∃ e e' o u u', encoder l3 m = some e ∧ encoder l3 m' = some e' ∧ SharedByte l3 m m' e e' o u u' := by
  obtain ⟨e, he⟩ := exists_encoder l3 hwf (ne_ethType_of_disturbs hd).1
  obtain ⟨e', he'⟩ := exists_encoder l3 hwf' (ne_ethType_of_disturbs hd).2
  obtain ⟨o, u, u', hs⟩ := exists_sharedByte hwf hwf' he he' hd
  exact ⟨e, e', o, u, u', he, he', hs⟩

/-- The slot of a base in a relocated packet. -/
def Base.slot : Base → Nat
  | .oob => 0 | .eth => 1 | .pbb => 2 | .mpls => 3 | .l3 => 4 | .ipproto => 5 | .l4 => 6
  | .l4p => 7 | .oob2 => 8 | .v6src => 9 | .v6dst => 10 | .ndsll => 11 | .ndtll => 12

/-- The base in a slot. -/
def Base.ofSlot (n : Nat) : Base := all.getD n .ndtll

theorem Base.ofSlot_slot (b : Base) : ofSlot b.slot = b := by cases b <;> rfl

/-- The packet with the same pointers set, each to 64 bytes of its own that hold `g`. In an
arbitrary packet two bases may overlap, so that changing a byte behind one changes the other. -/
def Packet.relocate (p : Packet) (g : Base → Nat → Byte) : Packet :=
  { p with
    mem := fun a => g (ofSlot (a / 64)) (a % 64)
    eth := 64 * Base.eth.slot
    pbb := p.pbb.map fun _ => 64 * Base.pbb.slot
    mpls := p.mpls.map fun _ => 64 * Base.mpls.slot
    l3 := 64 * Base.l3.slot
    proto := p.proto.map fun _ => 64 * ipproto.slot
    l4 := p.l4.map fun _ => 64 * Base.l4.slot
    l4Payload := p.l4Payload.map fun _ => 64 * l4p.slot
    v6src := p.v6src.map fun _ => 64 * Base.v6src.slot
    v6dst := p.v6dst.map fun _ => 64 * Base.v6dst.slot
    ndSll := p.ndSll.map fun _ => 64 * ndsll.slot
    ndTll := p.ndTll.map fun _ => 64 * ndtll.slot }

theorem Packet.behind_relocate (p : Packet) (g : Base → Nat → Byte) (b : Base) {i : Nat}
    (hi : i < 64) : (p.relocate g).behind (64 * b.slot) i = g b i := by
  change g (ofSlot ((64 * b.slot + i) / 64)) ((64 * b.slot + i) % 64) = g b i
  rw [show (64 * b.slot + i) / 64 = b.slot by omega, show (64 * b.slot + i) % 64 = i by omega,
    ofSlot_slot]

variable {b : Base}

theorem Packet.base_relocate (p : Packet) (g : Base → Nat → Byte) (h1 : b ≠ .oob) (h2 : b ≠ .oob2) :
    (p.relocate g).base b = (p.base b).map fun _ => (p.relocate g).behind (64 * b.slot) := by
  cases b <;> first
    | exact absurd rfl h1 | exact absurd rfl h2 | rfl
    | (simp only [base, relocate, Option.map_map]; rfl)

/-- The bytes behind a packet's bases with one byte replaced. -/
def Packet.patched (p : Packet) (b₀ : Base) (o : Nat) (x : Byte) : Base → Nat → Byte :=
  fun b i => if b = b₀ ∧ i = o then x else ((p.base b).getD fun _ => 0) i

theorem covered_off_lt {e : Encoding} (h : e.Covered) {w : Nat × Write 8} (hw : w ∈ e.writes) :
    w.1 < 32 := by
  obtain ⟨i, hi, hio⟩ := h w hw
  have := BitVec.lt_of_getLsbD hi
  omega

variable {o : Nat}

/-- Replacing a byte that the compiled mask does not look at keeps the packet accepted. -/
theorem matchBasic_relocate {es : List Encoding} (hcov : ∀ e ∈ es, e.Covered)
    (h : matchBasic p (compile es) = true) {b₀ : Base} {x : Byte}
    (hx : ∀ r, p.base b₀ = some r → (Cell.empty.run (cellWrites es b₀ o)).Admits (r o) → (Cell.empty.run (cellWrites es b₀ o)).Admits x) :
    matchBasic (p.relocate (p.patched b₀ o x)) (compile es) = true := by
  rw [matchBasic_compile_iff hcov] at h ⊢
  intro b hb hex
  obtain ⟨r, hr, hadm⟩ := h b hb hex
  by_cases hoob : b = .oob ∨ b = .oob2
  · refine ⟨r, ?_, hadm⟩
    rcases hoob with rfl | rfl <;> exact hr
  · rw [not_or] at hoob
    refine ⟨_, by rw [base_relocate _ _ hoob.1 hoob.2, hr, Option.map_some], fun off => ?_⟩
    by_cases hoff : off < 64
    · rw [behind_relocate _ _ _ hoff, patched]
      by_cases hpatch : b = b₀ ∧ off = o
      · rw [if_pos hpatch, hpatch.1, hpatch.2]
        rw [hpatch.1] at hr
        refine hx r hr ?_
        rw [← hpatch.1, ← hpatch.2]
        exact hadm off
      · rw [if_neg hpatch, hr, Option.getD_some]
        exact hadm off
    · -- nothing is written past byte 31
      cases hw : cellWrites es b off with
      | nil => simp [Cell.Admits, Cell.empty]
      | cons u us =>
        obtain ⟨e, he, -, hmem⟩ := mem_cellWrites.mp (hw ▸ mem_cons_self : u ∈ _)
        have := covered_off_lt (hcov e he) hmem
        omega

theorem exists_of_not_pairwise {α : Type} {R : α → α → Prop} [DecidableRel R] :
    ∀ {l : List α}, ¬ l.Pairwise R →
      ∃ l₁ a l₂ b l₃, l = l₁ ++ a :: (l₂ ++ b :: l₃) ∧ ¬ R a b
  | [], h => absurd List.Pairwise.nil h
  | a :: l, h => by
    by_cases ha : ∀ b ∈ l, R a b
    · have hl : ¬ l.Pairwise R := fun hl => h (pairwise_cons.mpr ⟨ha, hl⟩)
      obtain ⟨l₁, c, l₂, b, l₃, rfl, hn⟩ := exists_of_not_pairwise hl
      exact ⟨a :: l₁, c, l₂, b, l₃, rfl, hn⟩
    · push Not at ha
      obtain ⟨b, hb, hn⟩ := ha
      obtain ⟨l₂, l₃, rfl⟩ := append_of_mem hb
      exact ⟨[], a, l₂, b, l₃, rfl, hn⟩

section

variable {ml : List Match} (hacc : Accepted ml) (hwf : ∀ m ∈ ml, m.WellFormed)
include hacc hwf

variable {m' : Match} {l₁ l₂ l₃ : List Match} {e e' : Encoding}

omit hwf in
theorem field_ne_of_split (hml : ml = l₁ ++ m :: (l₂ ++ m' :: l₃)) :
    ∀ m'' ∈ l₂ ++ l₃, m'' ∈ ml ∧ m''.field ≠ m.field ∧ m''.field ≠ m'.field := by
  have hpw := hacc.pairwise_ne
  rw [hml] at hpw
  obtain ⟨hne, hpw₂⟩ := pairwise_cons.mp (pairwise_append.mp hpw).2.1
  obtain ⟨-, hpw₃, hne₂⟩ := pairwise_append.mp hpw₂
  intro m'' hm''
  rcases mem_append.mp hm'' with h | h
  · exact ⟨by rw [hml]; simp [h], (hne m'' (by simp [h])).symm, hne₂ m'' h m' mem_cons_self⟩
  · exact ⟨by rw [hml]; simp [h], (hne m'' (by simp [h])).symm, ((pairwise_cons.mp hpw₃).1 m'' h).symm⟩

/-- Every entry but the disturbing one spares what the disturbed one wrote: a second write to those
bits would be a second match on the same field. -/
theorem spares_of_disturbs (hm : m ∈ ml) (hd : m'.field.disturbs m'.hasMask m.field = true)
    (he : encoder (etherTypeOf ml) m = some e) {u : Write 8} (hu : (o, u) ∈ e.writes) {l : List Match}
    (hl : ∀ m'' ∈ l, m'' ∈ ml ∧ m''.field ≠ m.field ∧ m''.field ≠ m'.field) :
    ∀ v ∈ cellWrites (l.filterMap (encoder (etherTypeOf ml))) e.base o, v.Spares u := by
  intro v hv
  obtain ⟨e'', he'', hb, hmem⟩ := mem_cellWrites.mp hv
  obtain ⟨m'', hm'', hme''⟩ := mem_filterMap.mp he''
  obtain ⟨hin, hf, hf'⟩ := hl m'' hm''
  exact spares_of_printSpares (hwf m hm) (hwf m'' hin) he hme'' (encoder_regular hacc hwf hin hme'')
    (printSpares_of_disturbs hd hf hf') hb.symm (o, u) hu _ hmem rfl

omit hacc hwf in
/-- The writes to one byte of a list with a disturbing entry. -/
theorem cellWrites_split (l₁ l₂ l₃ : List Match) {E : BitVec 16} {u' : Write 8} (he : encoder E m = some e)
    (he' : encoder E m' = some e') (hbase : e'.base = e.base)
    (hu' : e'.writes.filter (fun w => w.1 = o) = [(o, u')]) :
    cellWrites ((l₁ ++ m :: (l₂ ++ m' :: l₃)).filterMap (encoder E)) e.base o =
      (cellWrites (l₁.filterMap (encoder E)) e.base o ++
        ((e.writes.filter fun w => w.1 = o).map Prod.snd ++
          cellWrites (l₂.filterMap (encoder E)) e.base o)) ++
        u' :: cellWrites (l₃.filterMap (encoder E)) e.base o := by
  simp [filterMap_append, filterMap_cons_some he, filterMap_cons_some he', cellWrites, hbase, hu']

/-- The mask bits a disturbing entry drops are missing from the finished array. -/
theorem disturbed_mask_bit (hml : ml = l₁ ++ m :: (l₂ ++ m' :: l₃))
    (hd : m'.field.disturbs m'.hasMask m.field = true)
    (he : encoder (etherTypeOf ml) m = some e) (he' : encoder (etherTypeOf ml) m' = some e')
    (hbase : e'.base = e.base) {j : Nat} {u u' : Write 8} (hu : (o, u) ∈ e.writes)
    (hj : u.mask.getLsbD j = true) (hu' : e'.writes.filter (fun w => w.1 = o) = [(o, u')])
    (hkeep : u'.keepMask.getLsbD j = false) (hmask : u'.mask.getLsbD j = false) :
    (Cell.empty.run (cellWrites (ml.filterMap (encoder (etherTypeOf ml))) e.base o)).mask.getLsbD j
      = false := by
  have hm : m ∈ ml := by rw [hml]; simp
  have hother := field_ne_of_split hacc hml
  have hspare := spares_of_disturbs hacc hwf hm hd he hu fun m'' h => hother m'' (mem_append_right l₂ h)
  have hsplit := cellWrites_split (o := o) l₁ l₂ l₃ he he' hbase hu'
  rw [← hml] at hsplit
  rw [hsplit]
  exact Cell.not_mask_run hkeep hmask fun v hv => (hspare v hv).apart j hj

variable {p₀ : Packet} (hp₀ : MatchListHolds ml p₀)

include hp₀

/-- If the compilation of a disturbed list were faithful, it would accept a packet that differs
from a matching one in the byte `x` behind `base[b]`. -/
theorem holds_patched (hfaith : CompilesFaithfully ml) {j : Nat} {r : Nat → Byte} (hr : p₀.base b = some r)
    (hbit : (Cell.empty.run (cellWrites (ml.filterMap (encoder (etherTypeOf ml))) b o)).mask.getLsbD j = false) :
    MatchListHolds ml (p₀.relocate (p₀.patched b o (r o ^^^ BitVec.twoPow 8 j))) := by
  have heth : EthTypeHolds ml (p₀.relocate (p₀.patched b o (r o ^^^ BitVec.twoPow 8 j))) := by
    intro m hm hf
    rw [ethType_holds_iff (hwf m hm) hf]
    change p₀.etherType = m.be16
    exact (ethType_holds_iff (hwf m hm) hf).mp (hp₀ m hm)
  refine (hfaith _ heth).mp ?_
  have h0 := (hfaith p₀ hp₀.ethType).mpr hp₀
  rw [flowMakeMatch_eq hacc hwf] at h0 ⊢
  refine matchBasic_relocate (fun e he => (filterMap_regular hacc hwf e he).covered) h0 ?_
  intro r' hr' hadm
  rw [hr, Option.some.injEq] at hr'
  subst hr'
  refine Cell.admits_xor (fun i hi => ?_) hadm
  have : i = j := by
    simp at hi
    omega
  rw [this]
  exact hbit

omit hp₀

/-- **A disturbed list is not compiled faithfully**: a bit of the earlier field is no longer
compared, so a packet that differs from a matching one in that bit is accepted as well. -/
theorem not_compilesFaithfully_of_disturbed (hsat : Satisfiable ml) (hun : ¬ Undisturbed ml) :
    ¬ CompilesFaithfully ml := by
  intro hfaith
  obtain ⟨p₀, hp₀⟩ := hsat
  obtain ⟨l₁, m, l₂, m', l₃, hml, hd⟩ := exists_of_not_pairwise hun
  rw [Bool.not_eq_false] at hd
  have hm : m ∈ ml := by rw [hml]; simp
  have hm' : m' ∈ ml := by rw [hml]; simp
  obtain ⟨e, e', o, u, u', he, he', hs⟩ := exists_encoders (etherTypeOf ml) (hwf m hm) (hwf m' hm') hd
  obtain ⟨j, hj, hj'⟩ := hs.loses (l3Need_ok hacc hwf hp₀ hm')
  have hbit := disturbed_mask_bit hacc hwf hml hd he he' hs.base hs.mem_earlier hj hs.later
    (by rw [hs.drops]; simp) hj'
  -- the matching packet and the one that differs in that bit both have what `m` asks for
  obtain ⟨r, hr, hadm⟩ :=
    (encoder_holds_iff hacc hwf hp₀.ethType hm he).mpr (holds_iff.mp (hp₀ m hm)).2
  have hp₁ := holds_patched hacc hwf hp₀ hfaith hr hbit
  obtain ⟨r', hr', hadm'⟩ :=
    (encoder_holds_iff hacc hwf hp₁.ethType hm he).mpr (holds_iff.mp (hp₁ m hm)).2
  have hoff := covered_off_lt (encoder_regular hacc hwf hm he).covered hs.mem_earlier
  rw [base_relocate _ _ hs.ne_oob.1 hs.ne_oob.2, hr, Option.map_some, Option.some.injEq] at hr'
  have hflip : r' o = r o ^^^ BitVec.twoPow 8 j := by
    rw [← hr', behind_relocate _ _ _ (by omega), patched, if_pos ⟨rfl, rfl⟩]
  have h0 := (and_eq_iff.mp (hadm _ hs.mem_earlier)).2 j hj
  have h1 := (and_eq_iff.mp (hadm' _ hs.mem_earlier)).2 j hj
  have hj8 : j < 8 := BitVec.lt_of_getLsbD hj
  rw [hflip, ← h0] at h1
  simp [hj8] at h1

end

end Lagopus
