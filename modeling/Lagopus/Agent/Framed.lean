import Lagopus.Agent.RoundTrip

/-!
# Flow-mods that are accepted

What the parser of flow-mods takes for an element stands in the message, one element after the other up to
its end.  Of the match and of the actions the lengths are checked; of an instruction and of a property of
an encap or decap action they are not.

* `Framed`: every element fills the bytes it declares;
* `Reencodes`: the encoders write the same bytes again, apart from the padding and the order of the match
  fields;
* `flowModParse_framed_iff`: an accepted message is like this if and only if those lengths are right.
-/

namespace Lagopus.Wire

open Octets Instruction List

/-! ## What is expected -/

/-- The bytes are those of the instruction, and as many as it says; what is in it fills its bytes. -/
def Instruction.Fills (i : Instruction) (c : List Octet) : Prop :=
  i.Image c ∧ i.len.toNat = c.length ∧ ∀ a ∈ i.actionList, a.Exact

/-- The message consists of the match and the instructions, each in the bytes it declares. -/
def Framed (b : List Octet) (ms : List Oxm) (is : List Instruction) : Prop :=
  ∃ type oxms c cs, b = c ++ cs.flatten ∧ MatchImage type oxms c ∧ oxms.Perm ms ∧
    List.Forall₂ Instruction.Fills is cs

/-- Two messages of the same match and instructions, up to padding and the order of the fields. -/
def SameBytes (ms : List Oxm) (is : List Instruction) (b c' d' : List Octet) : Prop :=
  ∃ oxms c d, b = c ++ d ∧ oxms.Perm ms ∧
    (MatchImage OFPMT_OXM oxms c ∧ MatchImage OFPMT_OXM ms c') ∧
    (Instruction.Images is d ∧ Instruction.Images is d')

/-- Whatever buffer has the room for the message, what is encoded into it is the same again. -/
def Reencodes (b : List Octet) (ms : List Oxm) (is : List Instruction) : Prop :=
  ∀ p : Pbuf, b.length ≤ p.plen → ∃ c' d',
    ofpMatchListEncode ms p = some (c'.length, p.append c') ∧
    ofpInstructionListEncode is (p.append c') = some (d'.length, (p.append c').append d') ∧
    SameBytes ms is b c' d'

/-! ## The order of the fields -/

theorem matchInsert_perm (m : Oxm) (l : List Oxm) : (matchInsert m l).Perm (m :: l) := by
  induction l with
  | nil => exact .refl _
  | cons mp l ih =>
    rw [matchInsert]
    split
    · exact .refl _
    · exact (ih.cons mp).trans (.swap m mp l)

theorem matchSorted_perm (l ms : List Oxm) : (matchSorted l ms).Perm (ms ++ l) := by
  induction ms generalizing l with
  | nil => exact .refl _
  | cons m ms ih =>
    have hinsert : (ms ++ matchInsert m l).Perm (ms ++ m :: l) := (matchInsert_perm m l).append_left ms
    exact (ih (matchInsert m l)).trans (hinsert.trans perm_middle)

theorem matchSize_perm {ms ms' : List Oxm} (h : ms.Perm ms') : matchSize ms = matchSize ms' := by
  rw [matchSize, matchSize, (h.map Oxm.size).sum_eq]

variable {c d : List Octet}

theorem MatchImage.length_eq {type : Nat} {ms : List Oxm} (h : MatchImage type ms c) :
    c.length = matchSize ms + padding (matchSize ms) := by
  obtain ⟨-, pad, rfl⟩ := h
  rw [length_append, length_append, length_tlv, length_flatMap_oxm, pad.length_eq, matchSize]
  omega

/-! ## Lengths that are not checked -/

theorem EdProp.exact_of_bytes {p : EdProp} (h : p.sized.bytes = p.bytes) : p.Exact := by
  cases p with
  | portName len body =>
    have hlen := congrArg (fun l => field l 2 2) h
    simp only [EdProp.sized, EdProp.bytes] at hlen
    rw [field_tlv_length (BitVec.isLt _), field_tlv_length len.isLt] at hlen
    exact hlen.symm
  | other => trivial

variable {a : Action}

theorem Action.exact_of_image (h : a.Image a.encoded) : a.Exact := by
  cases a with
  | ed t body ps =>
    obtain ⟨hps, -, heq⟩ := h
    have hbytes : ps.flatMap (EdProp.bytes ∘ EdProp.sized) = ps.flatMap EdProp.bytes := by
      rw [Action.encoded, append_cancel_left_eq, append_cancel_left_eq, flatMap_map] at heq
      exact heq
    have hcs : List.Forall₂ (fun p c => c = EdProp.bytes p) ps (ps.map EdProp.bytes) := by
      rw [forall₂_map_right_iff, forall₂_same]
      exact fun _ _ => rfl
    have hall := chunks_unique hcs hbytes.symm fun p hp c hc => by
      rw [hc, Function.comp_apply, EdProp.length_bytes (hps p hp),
        EdProp.length_bytes (EdProp.supported_sized.2 (hps p hp))]
    exact fun p hp => EdProp.exact_of_bytes (hall p hp)
  | _ => trivial

theorem Instruction.exact_of_image {i : Instruction} (hs : i.Supported) (hsize : i.size < 2 ^ 16)
    (h : i.Image i.encoded) : i.Exact := by
  obtain ⟨d, ⟨cs, hcs, rfl⟩, heq⟩ := h
  have hlen : i.size = i.len.toNat := by
    have hfield := congrArg (fun l => field l 2 2) heq
    rwa [encoded, field_tlv_length hsize, field_tlv_length i.len.isLt] at hfield
  refine ⟨hlen.symm, ?_⟩
  rw [encoded, hlen, append_cancel_left_eq, append_cancel_left_eq] at heq
  have hall := chunks_unique hcs heq.symm fun a ha c hc => by
    rw [hc.length_eq, Action.length_encoded (hs.2 a ha)]
  exact fun a ha => Action.exact_of_image (hall a ha)

theorem EdProp.sized_of_exact {p : EdProp} (h : p.Exact) : p.sized = p := by
  cases p with
  | portName len body =>
    have hlen : BitVec.ofNat 16 portNameSize = len := by
      rw [← show len.toNat = portNameSize from h, BitVec.ofNat_toNat, BitVec.setWidth_eq]
    rw [sized, hlen]
  | other => rfl

theorem map_eq_self {α : Type} {f : α → α} {l : List α} (h : ∀ a ∈ l, f a = a) : l.map f = l :=
  (map_congr_left h).trans (map_id' l)

theorem Action.sized_of_exact (h : a.Exact) : a.sized = a := by
  cases a with
  | ed t body ps => rw [sized, map_eq_self fun p hp => EdProp.sized_of_exact (h p hp)]
  | _ => rfl

theorem Instruction.sized_of_exact {i : Instruction} (h : i.Exact) : i.sized = i := by
  have hlen : BitVec.ofNat 16 i.size = i.len := by
    rw [← h.1, BitVec.ofNat_toNat, BitVec.setWidth_eq]
  rw [sized, hlen, map_eq_self fun a ha => Action.sized_of_exact (h.2 a ha)]

/-! ## Messages -/

theorem Action.Image.not_wraps (h : a.Image c) : ¬ a.Wraps := by
  intro hw
  have := hw.size_eq.ge
  have := h.size_lt
  omega

theorem Action.Images.not_wraps {as : List Action} (h : Action.Images as d) : ∀ a ∈ as, ¬ a.Wraps := by
  induction as generalizing d with
  | nil => simp
  | cons a as ih =>
    obtain ⟨_, _, ha, has, -⟩ := Action.images_cons_iff.1 h
    exact forall_mem_cons.2 ⟨ha.not_wraps, ih has⟩

variable {is : List Instruction}

theorem Instruction.Images.not_wraps (h : Images is d) : ∀ i ∈ is, ∀ a ∈ i.actionList, ¬ a.Wraps := by
  obtain ⟨cs, hcs, -⟩ := h
  induction hcs with
  | nil => simp
  | cons hi _ ih =>
    obtain ⟨_, has, -⟩ := hi
    exact forall_mem_cons.2 ⟨has.not_wraps, ih⟩

/-- Where the encoder writes the bytes of the same instructions again, their lengths are right. -/
theorem Instruction.exact_of_images (hs : ∀ i ∈ is, i.Supported) (hsize : sizes is < 2 ^ 16)
    (h : Images is (is.flatMap encoded)) : ∀ i ∈ is, i.Exact := by
  obtain ⟨cs, hcs, heq⟩ := h
  have hall := chunks_unique hcs heq.symm fun i hi c hc => by
    rw [hc.length_eq, length_encoded (hs i hi)]
  exact fun i hi =>
    exact_of_image (hs i hi) ((size_le_sizes hi).trans_lt hsize) (hall i hi)

theorem Instruction.Images.length_eq (h : Images is d) : d.length = sizes is := by
  obtain ⟨cs, hcs, rfl⟩ := h
  induction hcs with
  | nil => rfl
  | cons hi _ ih =>
    rw [flatten_cons, length_append, hi.length_eq, ih, sizes, sizes, map_cons, sum_cons]

theorem MatchImage.field_type {type : Nat} {oxms : List Oxm}
    (h : MatchImage type oxms c) (htype : type < 2 ^ 16) : field (c ++ d) 0 2 = type := by
  obtain ⟨-, pad, rfl⟩ := h
  rw [append_assoc, field_tlv_type htype]

variable {fuel version : Nat} {b rest : List Octet} {ms : List Oxm} {is : List Instruction}
  (h : flowModParse fuel version b = .ok (ms, is) rest)

include h

theorem flowModParse_images :
    rest = [] ∧ ∃ type oxms c d, b = c ++ d ∧ type < 2 ^ 16 ∧ MatchImage type oxms c ∧ oxms.Perm ms ∧
      Images is d ∧ ∀ i ∈ is, i.Supported := by
  simp only [flowModParse, Scan.bind_eq_ok_iff, Scan.pure_apply, Scan.Outcome.ok.injEq, Prod.mk.injEq] at h
  obtain ⟨_, _, hmatch, _, _, his, ⟨rfl, rfl⟩, rfl⟩ := h
  obtain ⟨type, oxms, c, htype, -, -, rfl, hc, rfl⟩ := ofpMatchParse_image hmatch
  obtain ⟨rfl, hd, hs, -⟩ := instructionsParse_images his
  have hperm := matchSorted_perm [] oxms
  rw [append_nil] at hperm
  exact ⟨rfl, type, oxms, c, _, rfl, htype, hc, hperm.symm, hd, hs⟩

theorem framed_iff : Framed b ms is ↔ ∀ i ∈ is, i.Exact := by
  constructor
  · rintro ⟨-, -, -, cs, -, -, -, hcs⟩
    clear h
    induction hcs with
    | nil => simp
    | cons hi _ ih =>
      obtain ⟨himage, hlen, has⟩ := hi
      exact forall_mem_cons.2 ⟨⟨hlen.trans himage.length_eq, has⟩, ih⟩
  · intro he
    obtain ⟨-, type, oxms, c, _, rfl, -, hc, hperm, ⟨cs, hcs, rfl⟩, -⟩ := flowModParse_images h
    refine ⟨type, oxms, c, cs, rfl, hc, hperm, ?_⟩
    rw [forall₂_iff_zip] at hcs ⊢
    refine ⟨hcs.1, fun {i c} hmem => ?_⟩
    have himage := hcs.2 hmem
    have hi := he i (of_mem_zip hmem).1
    exact ⟨himage, hi.1.trans himage.length_eq.symm, hi.2⟩

theorem reencodes_iff : Reencodes b ms is ↔
      (field b 0 2 = OFPMT_OXM ∧ matchSize ms + padding (matchSize ms) < 2 ^ 16 ∧
        sizes is < 2 ^ 16) ∧ ∀ i ∈ is, i.Exact := by
  obtain ⟨-, type, oxms, c, d, rfl, hctype, hc, hperm, hd, hs⟩ := flowModParse_images h
  have hmatch := writes_match ms
  have hinstructions := writes_instructions hs hd.not_wraps
  constructor
  · intro hre
    obtain ⟨c', d', hc', hd', oxms', e, f, hef, -, ⟨he, -⟩, -, hf'⟩ := hre ⟨[], (c ++ d).length⟩ le_rfl
    rw [hmatch.eq_some_iff] at hc'
    rw [hinstructions.eq_some_iff] at hd'
    obtain ⟨⟨-, hm⟩, -⟩ := hc'
    obtain ⟨⟨-, hi⟩, hd'⟩ := hd'
    have hbytes : d' = is.flatMap encoded := Pbuf.append_inj (congrArg Prod.snd hd')
    refine ⟨⟨?_, hm, hi⟩, exact_of_images hs hi (hbytes ▸ hf')⟩
    rw [hef]
    exact he.field_type (by decide)
  · rintro ⟨⟨htype, hm, hi⟩, he⟩ p hp
    have hlen : (c ++ d).length = matchSize ms + padding (matchSize ms) + sizes is := by
      rw [length_append, hc.length_eq, matchSize_perm hperm, hd.length_eq]
    have hplen : (p.append (matchEncoded ms)).plen = p.plen - (matchEncoded ms).length := rfl
    have hsized : is.map sized = is := map_eq_self fun i hi => sized_of_exact (he i hi)
    refine ⟨matchEncoded ms, is.flatMap encoded, ?_, ?_, oxms, c, d, rfl, hperm, ⟨?_, ?_⟩, hd, ?_⟩
    · rw [hmatch.eq_some_iff, hmatch.length_eq]
      exact ⟨⟨by omega, hm⟩, rfl⟩
    · rw [hinstructions.eq_some_iff, hinstructions.length_eq, hplen, hmatch.length_eq]
      exact ⟨⟨by omega, hi⟩, rfl⟩
    · rw [hc.field_type hctype] at htype
      exact htype ▸ hc
    · exact matchImage_encoded (by omega)
    · have himages := images_encoded hs hi
      rwa [hsized] at himages

omit h in
/-- Of an accepted message, the elements fill the bytes they declare, and the encoders write the same
message again, if and only if the lengths are right that are not checked. -/
theorem flowModParse_framed_iff (h : flowModParse fuel version b = .ok (ms, is) rest) :
    rest = [] ∧ (Framed b ms is ↔ ∀ i ∈ is, i.Exact) ∧
      (Reencodes b ms is ↔
        (field b 0 2 = OFPMT_OXM ∧ matchSize ms + padding (matchSize ms) < 2 ^ 16 ∧
          Instruction.sizes is < 2 ^ 16) ∧ ∀ i ∈ is, i.Exact) :=
  ⟨(flowModParse_images h).1, framed_iff h, reencodes_iff h⟩

omit h

/-- A match on the port and the ethertype, an apply-actions instruction with an output action, and a
goto-table instruction. -/
theorem framed_of_gotoTable :
    let b : List Octet :=
      [0, 1, 0, 18, 0x80, 0, 0, 4, 0, 0, 0, 7, 0x80, 0, 0x0a, 2, 8, 0, 0, 0, 0, 0, 0, 0,
        0, 4, 0, 24, 0, 0, 0, 0, 0, 0, 0, 16, 0, 0, 0, 2, 0, 0, 0, 0, 0, 0, 0, 0,
        0, 1, 0, 8, 5, 0, 0, 0]
    let ms : List Oxm := [⟨0x8000, 0, [0, 0, 0, 7], by decide⟩, ⟨0x8000, 0x0a, [8, 0], by decide⟩]
    let is : List Instruction :=
      [⟨.applyActions, 24, ⟨[0, 0, 0, 0], rfl⟩,
          [.fixed .output ⟨[0, 0, 0, 2, 0, 0, 0, 0, 0, 0, 0, 0], rfl⟩]⟩,
        ⟨.gotoTable, 8, ⟨[5, 0, 0, 0], rfl⟩, []⟩]
    flowModParse 57 4 b = .ok (ms, is) [] ∧ Framed b ms is ∧ Reencodes b ms is := by
  intro b ms is
  have h : flowModParse 57 4 b = .ok (ms, is) [] := by decide
  obtain ⟨-, hframed, hreencodes⟩ := flowModParse_framed_iff h
  have he : ∀ i ∈ is, i.Exact := by decide
  exact ⟨h, hframed.2 he, hreencodes.2 ⟨by decide, he⟩⟩

/-- The goto-table instruction declares 16 bytes, eight of which are taken for a meter instruction. -/
theorem gotoTable_not_framed :
    let b : List Octet := [0, 1, 0, 4, 0, 0, 0, 0, 0, 1, 0, 16, 5, 0, 0, 0, 0, 6, 0, 8, 0, 0, 0, 1]
    let is : List Instruction :=
      [⟨.gotoTable, 16, ⟨[5, 0, 0, 0], rfl⟩, []⟩, ⟨.meter, 8, ⟨[0, 0, 0, 1], rfl⟩, []⟩]
    flowModParse 25 4 b = .ok ([], is) [] ∧ ¬ Framed b [] is ∧ ¬ Reencodes b [] is := by
  intro b is
  have h : flowModParse 25 4 b = .ok ([], is) [] := by decide
  have he : ¬ ∀ i ∈ is, i.Exact := by decide
  exact ⟨h, fun hf => he ((framed_iff h).1 hf), fun hr => he ((reencodes_iff h).1 hr).2⟩

end Lagopus.Wire
