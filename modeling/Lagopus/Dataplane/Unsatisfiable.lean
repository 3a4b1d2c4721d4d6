import Lagopus.Dataplane.Faithful

/-!
# Match lists that no packet satisfies

The acceptance checks ask for prerequisites by presence, so they let through lists that no packet
satisfies. Such a list is compiled faithfully only if its array accepts no packet, and that is so
exactly when a disturbing entry leaves a value bit behind whose mask bit it took away.

* `exists_matchBasic`: if no bit is left behind, the array accepts a packet;
* `matchBasic_of_stuck`: if one is, the array accepts none;
* `compilesFaithfully_iff`: when the compilation of a list is faithful.
-/

namespace Lagopus

open MaskedCell List Packet Match Base OxmField

/-- No entry leaves a value bit of an entry before it behind without its mask. -/
def ValuesMasked (ml : List Match) : Prop :=
  ml.Pairwise fun m m' => m'.field.disturbs m'.hasMask m.field = true →
    m.byte 0 &&& m.field.stuckBits (etherTypeOf ml) = 0

instance (ml : List Match) : Decidable (ValuesMasked ml) :=
  inferInstanceAs (Decidable (List.Pairwise _ ml))

variable {m m' : Match} {e e' : Encoding} {l3 : BitVec 16}

/-- Entries that do not disturb each other carry each other's values. -/
theorem carries_of_not_disturbs (hwf : m.WellFormed) (hwf' : m'.WellFormed) (hreg : e.Regular)
    (he : encoder l3 m = some e) (he' : encoder l3 m' = some e') (hne : m.field ≠ m'.field)
    (hd : m'.field.disturbs m'.hasMask m.field = false) (hb : e'.base = e.base)
    {w w' : Nat × Write 8} (hw : w ∈ e.writes) (hw' : w' ∈ e'.writes) (hoff : w'.1 = w.1) :
    w'.2.Carries w.2 := by
  obtain ⟨hbase, hcells⟩ := encoder_footprint hwf he
  obtain ⟨hbase', hcells'⟩ := encoder_footprint hwf' he'
  obtain ⟨c, hc, hcoff, hcmask, -, -⟩ := hcells w hw
  obtain ⟨d, hd', hdoff, -, hdkm, hdkv⟩ := hcells' w' hw'
  have hprint : printCarries (m'.field.footprint (l3 == ETHERTYPE_IPV6) m'.hasMask)
      (m.field.footprint (l3 == ETHERTYPE_IPV6) m.hasMask) = true := printCarries_of_not_disturbs hne hd
  simp only [printCarries, ← hbase, ← hbase', hb, bne_self_eq_false, Bool.false_or, all_eq_true] at hprint
  have hcd := hprint c hc d hd'
  simp only [show d.off = c.off by rw [← hdoff, ← hcoff, hoff], bne_self_eq_false, Bool.false_or,
    beq_iff_eq] at hcd
  intro i hval hkeep
  have hbound := within_iff_and_eq.mpr hcmask i ((hreg.sound w hw).value_within i hval)
  have hi : i < 8 := BitVec.lt_of_getLsbD hval
  have hbit := congrArg (fun x => x.getLsbD i) hcd
  rw [hdkv] at hkeep
  rw [hdkm]
  simpa [hbound, hkeep, hi] using hbit

theorem exists_bit_of_and_ne_zero {x y : Byte} (h : x &&& y ≠ 0) :
    ∃ i, x.getLsbD i = true ∧ y.getLsbD i = true := by
  by_contra hnone
  push Not at hnone
  refine h (BitVec.eq_of_getLsbD_eq fun i _ => ?_)
  have := hnone i
  cases hx : x.getLsbD i <;> simp_all

theorem SharedByte.base_mem {o : Nat} {u u' : Write 8} (h : SharedByte l3 m m' e e' o u u')
    (p : Packet) : e.base ∈ p.bases := by
  rw [bases]
  rcases h.isHeader with hb | hb <;> rw [hb] <;> split <;> decide

/-! ## A packet for every byte string -/

/-- The word whose big-endian bytes are `g`. -/
def beWord (g : Nat → Byte) : (n : Nat) → BitVec (8 * n)
  | 0 => 0
  | n + 1 => beWord g n ++ g n

theorem beByte_beWord (g : Nat → Byte) : ∀ n i, i < n → beByte n (beWord g n) i = g i
  | n + 1, i, hi => by
    apply BitVec.eq_of_getLsbD_eq
    intro j hj
    simp only [beByte, beWord, BitVec.getLsbD_extractLsb', hj, decide_true, Bool.true_and,
      BitVec.getLsbD_append]
    by_cases hin : i = n
    · simp [hin, hj]
    · have ih := congrArg (fun x => x.getLsbD j) (beByte_beWord g n i (by omega))
      simp only [beByte, BitVec.getLsbD_extractLsb', hj, decide_true, Bool.true_and] at ih
      rw [if_neg (by omega), ← ih]
      congr 1
      omega

/-- Out-of-band data whose bytes are `g`. -/
def OobData.ofBytes (g : Nat → Byte) : OobData where
  metadata := beWord g 8
  inPort := beWord (fun i => g (8 + i)) 4
  inPhyPort := beWord (fun i => g (12 + i)) 4
  packetType := beWord (fun i => g (19 - i)) 4
  etherType := beWord (fun i => g (20 + i)) 2
  vlanTci := beWord (fun i => g (22 + i)) 2

theorem OobData.byte_ofBytes (g : Nat → Byte) {i : Nat} (hi : i < 24) : (ofBytes g).byte i = g i := by
  simp only [byte, ofBytes]
  split_ifs
  · exact beByte_beWord g 8 i ‹_›
  · rw [beByte_beWord _ 4 (i - 8) (by omega), show 8 + (i - 8) = i by omega]
  · rw [beByte_beWord _ 4 (i - 12) (by omega), show 12 + (i - 12) = i by omega]
  · rw [beByte_beWord _ 4 (3 - (i - 16)) (by omega), show 19 - (3 - (i - 16)) = i by omega]
  · rw [beByte_beWord _ 2 (i - 20) (by omega), show 20 + (i - 20) = i by omega]
  · rw [beByte_beWord _ 2 (i - 22) (by omega), show 22 + (i - 22) = i by omega]

/-- The packet of an ethertype with every pointer set and the bytes `g` behind each base. -/
def Packet.ofBytes (etherType : BitVec 16) (g : Base → Nat → Byte) : Packet :=
  relocate
    { mem := fun _ => 0, etherType := etherType, oob := .ofBytes (g .oob)
      oob2 := { tunnelId := beWord (g .oob2) 8, ipv6Exthdr := beWord (fun i => g .oob2 (8 + i)) 2 }
      pbb := some 0, mpls := some 0, proto := some 0, l4 := some 0, l4Payload := some 0, v6src := some 0
      v6dst := some 0, ndSll := some 0, ndTll := some 0 } g

/-- How many bytes of a base a packet can be given. -/
def Base.room : Base → Nat
  | .oob => 24
  | .oob2 => 10
  | _ => 64

theorem Packet.exists_base_ofBytes (E : BitVec 16) (g : Base → Nat → Byte) (b : Base) :
    ∃ r, (ofBytes E g).base b = some r ∧ ∀ i < b.room, r i = g b i := by
  by_cases h1 : b = .oob
  · subst h1
    exact ⟨_, rfl, fun i hi => OobData.byte_ofBytes _ hi⟩
  by_cases h2 : b = .oob2
  · subst h2
    refine ⟨_, rfl, fun i hi => ?_⟩
    change (if i < 8 then beByte 8 (beWord (g .oob2) 8) i
      else if i < 10 then beByte 2 (beWord (fun i => g .oob2 (8 + i)) 2) (i - 8) else 0) = _
    simp only [room] at hi
    split_ifs
    · exact beByte_beWord _ 8 i ‹_›
    · rw [beByte_beWord _ 2 (i - 8) (by omega), show 8 + (i - 8) = i by omega]
  · have hroom : b.room = 64 := by cases b <;> first | rfl | exact absurd rfl h1 | exact absurd rfl h2
    have hsome : (ofBytes E g).base b = some ((ofBytes E g).behind (64 * b.slot)) := by
      rw [ofBytes, base_relocate _ _ h1 h2]
      cases b <;> rfl
    refine ⟨_, hsome, fun i hi => ?_⟩
    rw [hroom] at hi
    exact behind_relocate _ g b hi

theorem off_lt_room (hwf : m.WellFormed) (he : encoder l3 m = some e) {w : Nat × Write 8}
    (hw : w ∈ e.writes) : w.1 < e.base.room := by
  obtain ⟨hbase, hcells⟩ := encoder_footprint hwf he
  obtain ⟨c, hc, hoff, -⟩ := hcells w hw
  have hall : ∀ (f : OxmField) (v6 a : Bool), f.standard = true →
      ∀ c ∈ (f.footprint v6 a).2, c.off < (f.footprint v6 a).1.room := by
    intro f v6 a hstd
    cases f <;> first | (exact absurd hstd (by decide)) | (cases v6 <;> cases a <;> decide)
  rw [hoff, hbase]
  exact hall _ _ _ hwf.standard c hc

/-! ## The array of a list -/

section

variable {ml : List Match} (hacc : Accepted ml) (hwf : ∀ m ∈ ml, m.WellFormed)
include hacc hwf

theorem pairwise_carries (hv : ValuesMasked ml) :
    (ml.filterMap (encoder (etherTypeOf ml))).Pairwise fun e e' => e'.base = e.base →
      ∀ w ∈ e.writes, ∀ w' ∈ e'.writes, w'.1 = w.1 → w'.2.Carries w.2 := by
  rw [pairwise_filterMap]
  refine List.Pairwise.imp_of_mem ?_ (hacc.pairwise_ne.and hv)
  intro m m' hm hm' ⟨hne, hstuck⟩ e he e' he' hb w hw w' hw' hoff
  cases hd : m'.field.disturbs m'.hasMask m.field with
  | false =>
    exact carries_of_not_disturbs (hwf m hm) (hwf m' hm') (encoder_regular hacc hwf hm he) he he' hne hd
      hb hw hw' hoff
  | true =>
    obtain ⟨o, u, u', hs⟩ := exists_sharedByte (hwf m hm) (hwf m' hm') he he' hd
    by_cases ho : w'.1 = o
    · have hin : w ∈ e.writes.filter (fun w => w.1 = o) := mem_filter.mpr ⟨hw, by simp [← hoff, ho]⟩
      have hin' : w' ∈ e'.writes.filter (fun w => w.1 = o) := mem_filter.mpr ⟨hw', by simp [ho]⟩
      rw [hs.earlier, mem_singleton] at hin
      rw [hs.later, mem_singleton] at hin'
      subst hin hin'
      intro i hval hkeep
      have := congrArg (fun x => x.getLsbD i) (hs.stuck.mpr (hstuck hd))
      simp [hval, hkeep] at this
    · intro i _ hkeep
      simp [hs.others w' hw' ho] at hkeep

/-- **If no value bit is left behind, the array accepts a packet**: the one that holds the array's
own values. -/
theorem exists_matchBasic (hv : ValuesMasked ml) :
    ∃ p, EthTypeHolds ml p ∧ matchBasic p (flowMakeMatch ml) = true := by
  set es := ml.filterMap (encoder (etherTypeOf ml)) with hes
  have hreg : ∀ e ∈ es, e.Regular := filterMap_regular hacc hwf
  refine ⟨.ofBytes (etherTypeOf ml) fun b off => (Cell.empty.run (cellWrites es b off)).value,
    fun m hm hf => ?_, ?_⟩
  · rw [ethType_holds_iff (hwf m hm) hf]
    exact (be16_of_mem hacc hm hf).symm
  · rw [flowMakeMatch_eq hacc hwf, ← hes, matchBasic_compile_iff fun e he => (hreg e he).covered]
    intro b _ _
    obtain ⟨r, hr, hbytes⟩ := exists_base_ofBytes (etherTypeOf ml)
      (fun b off => (Cell.empty.run (cellWrites es b off)).value) b
    refine ⟨r, hr, fun off => ?_⟩
    by_cases hoff : off < b.room
    · rw [hbytes off hoff]
      exact Cell.exists_admits (cellWrites_sound hreg) (cellWrites_pairwise
        (R := fun u u' => u'.Carries u) hreg (pairwise_carries hacc hwf hv))
    · -- nothing is written there
      cases hw : cellWrites es b off with
      | nil => simp [Cell.Admits, Cell.empty]
      | cons u us =>
        obtain ⟨e, he, rfl, hmem⟩ := mem_cellWrites.mp (hw ▸ mem_cons_self : u ∈ _)
        obtain ⟨m, hm, hme⟩ := mem_filterMap.mp he
        exact absurd (off_lt_room (hwf m hm) hme hmem) hoff

/-- **If a value bit is left behind, the array accepts no packet.** -/
theorem matchBasic_of_stuck (hv : ¬ ValuesMasked ml) (p : Packet) :
    matchBasic p (flowMakeMatch ml) = false := by
  obtain ⟨l₁, m, l₂, m', l₃, hml, hstuck⟩ := exists_of_not_pairwise hv
  rw [Classical.not_imp] at hstuck
  obtain ⟨hd, hstuck⟩ := hstuck
  have hm : m ∈ ml := by rw [hml]; simp
  have hm' : m' ∈ ml := by rw [hml]; simp
  obtain ⟨e, e', o, u, u', he, he', hs⟩ := exists_encoders (etherTypeOf ml) (hwf m hm) (hwf m' hm') hd
  obtain ⟨i, hui, hui'⟩ := exists_bit_of_and_ne_zero fun h => hstuck (hs.stuck.mp h)
  have hmem := hs.mem_earlier
  have hmem' : (o, u') ∈ e'.writes := mem_of_mem_filter (hs.later ▸ mem_singleton_self _)
  have hmask : u.mask.getLsbD i = true := ((encoder_regular hacc hwf hm he).sound _ hmem).value_within i hui
  -- the other entries spare what `m` wrote
  have hother := field_ne_of_split hacc hml
  have hmid := spares_of_disturbs hacc hwf hm hd he hmem fun m'' h => hother m'' (mem_append_left l₃ h)
  have hpost := spares_of_disturbs hacc hwf hm hd he hmem fun m'' h => hother m'' (mem_append_right l₂ h)
  have hcells := cellWrites_split l₁ l₂ l₃ he he' hs.base hs.later
  rw [← hml, hs.earlier] at hcells
  have hreg : ∀ e ∈ ml.filterMap (encoder (etherTypeOf ml)), e.Regular := filterMap_regular hacc hwf
  rw [flowMakeMatch_eq hacc hwf, Bool.eq_false_iff]
  intro hmatch
  obtain ⟨r, -, hadm⟩ := (matchBasic_compile_iff (fun e he => (hreg e he).covered) p).mp hmatch e.base
    (hs.base_mem p) ⟨e, mem_filterMap.mpr ⟨m, hm, he⟩, rfl, (encoder_regular hacc hwf hm he).bits_ne⟩
  have hcell := hadm o
  rw [hcells] at hcell
  exact Cell.not_admits_of_stuck hui (fun v hv => (hmid v hv).keep i hmask)
    ((encoder_regular hacc hwf hm' he').sound _ hmem') hui' (by rw [hs.drops]; simp)
    (fun v hv => ⟨(hpost v hv).keep i hmask, (hpost v hv).apart i hmask⟩) _ hcell

end

/-- **When a list is compiled faithfully.** Its entries are as OpenFlow has them, and either some
packet satisfies it and no entry disturbs an earlier one, or none does and a disturbing entry leaves
a value bit behind. -/
structure Compilable (ml : List Match) : Prop where
  wellFormed : ∀ m ∈ ml, m.WellFormed
  apart : (Satisfiable ml ∧ Undisturbed ml) ∨ (¬ Satisfiable ml ∧ ¬ ValuesMasked ml)

/-- An IPv6 packet with ECN 1 and flow label 5. -/
def ecnFlabelPacket : Packet where
  mem := fun a => if a = 14 then 0x60 else if a = 15 then 0x10 else if a = 17 then 0x05 else 0
  pktlen := 54
  etherType := ETHERTYPE_IPV6

/-- ECN 1 and flow label 5, in the order in which the parser sorts them. -/
def ecnFlabelList : List Match :=
  [{ field := .ethType, value := [0x86, 0xdd] }, { field := .ipEcn, value := [1] },
    { field := .ipv6Flabel, value := [0, 0, 0, 5] }]

/-- An ARP operation asked for on IPv4 packets: no packet has both headers. -/
def arpOnIpv4List : List Match :=
  [{ field := .ethType, value := [0x08, 0x00] }, { field := .arpOp, value := [0, 1] }]

/-- A masked UDP port, which no case of `flow_make_match` takes. -/
def maskedPortList : List Match :=
  [{ field := .ethType, value := [0x08, 0x00] }, { field := .ipProto, value := [17] },
    { field := .udpDst, hasMask := true, value := [0, 80, 0xff, 0xff] }]

/-- DSCP and flow label with the label first: accepted, and compiled faithfully. -/
def flabelDscpList : List Match :=
  [{ field := .ethType, value := [0x86, 0xdd] }, { field := .ipv6Flabel, value := [0, 0, 0, 5] },
    { field := .ipDscp, value := [10] }]

end Lagopus
