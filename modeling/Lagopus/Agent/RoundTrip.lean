import Lagopus.Agent.Encode
import Lagopus.Agent.ParseSpec

/-!
# Encoding and parsing again

When an encoder gives a total length, then this is the number of bytes it has written, the lengths inside
are right, and the parser makes the same list of them again.  There are two exceptions: the length of a
decap action with 2730 properties is computed in sixteen bits without a check, and the parser does not
look for actions where the encoder writes any that are in the list.

* `RoundTrips`: what is expected of an encoder and its parser;
* `match_roundTrips`: matches are as expected;
* `actions_roundTrips`, `instructions_roundTrips`, `buckets_roundTrips`: what else there is, apart from
  the exceptions;
* `lists_roundTrip_iff`: the exceptions are all there are.
-/

namespace Lagopus.Wire

open Octets Instruction List

/-! ## Matches -/

/-- One field of a match. -/
def oxmEncode (m : Oxm) (p : Pbuf) : Option (Nat × Pbuf) :=
  (p.put m.bytes).bind fun p => some (m.size, p)

theorem writes_oxm (m : Oxm) : Writes (oxmEncode m) m.size m.bytes := by
  have hlt := m.length_lt
  refine ⟨m.length_bytes, fun p => ?_⟩
  rw [oxmEncode, Pbuf.put, m.length_bytes]
  by_cases hfits : m.size ≤ p.plen
  · rw [if_pos hfits, if_pos ⟨hfits, by rw [Oxm.size]; omega⟩, Option.bind_some]
  · rw [if_neg hfits, if_neg fun h => hfits h.1, Option.bind_none]

theorem put_put {β : Type} (p : Pbuf) (a c : List Octet) (g : Pbuf → Option β) :
    ((p.put a).bind fun p => (p.put c).bind g) = (p.put (a ++ c)).bind g := by
  unfold Pbuf.put
  rw [length_append]
  by_cases ha : a.length ≤ p.plen
  · have hplen : (p.append a).plen = p.plen - a.length := rfl
    rw [if_pos ha, Option.bind_some, Pbuf.append_append, hplen]
    by_cases hc : a.length + c.length ≤ p.plen
    · rw [if_pos hc, if_pos (by omega)]
    · rw [if_neg hc, if_neg (by omega)]
  · rw [if_neg ha, if_neg (by omega), Option.bind_none, Option.bind_none]

theorem ofpTlvLengthSum_bind {m n k : Nat} (hm : m < 2 ^ 16) (h : n + k < 2 ^ 16) :
    ((ofpTlvLengthSum m n).bind fun s => ofpTlvLengthSum s k) = ofpTlvLengthSum m (n + k) := by
  rw [ofpTlvLengthSum_eq hm (by omega), ofpTlvLengthSum_eq hm h]
  by_cases hn : m + n < 2 ^ 16
  · rw [if_pos hn, Option.bind_some, ofpTlvLengthSum_eq hn (by omega), Nat.add_assoc]
  · rw [if_neg hn, Option.bind_none, if_neg (by omega)]

theorem ofpTlvLengthSum_lt {m n s : Nat} (h : ofpTlvLengthSum m n = some s) : s < 2 ^ 16 := by
  unfold ofpTlvLengthSum at h
  dsimp only at h
  split at h
  · cases h
  · cases h
    exact Nat.mod_lt _ (by decide)

variable {ms : List Oxm}

theorem oxmListEncode_eq_listEncode {total : Nat} (htotal : total < 2 ^ 16) (p : Pbuf) :
    oxmListEncode total ms p = listEncode oxmEncode total ms p := by
  induction ms generalizing total p with
  | nil => rfl
  | cons m ms ih =>
    have hlt := m.length_lt
    have hsize : 4 + m.oxmValue.length < 2 ^ 16 := by omega
    change ((p.put m.header).bind fun p => (p.put m.oxmValue).bind fun p =>
      (ofpTlvLengthSum total 4).bind fun total => (ofpTlvLengthSum total m.oxmValue.length).bind fun total =>
        oxmListEncode total ms p) = (oxmEncode m p).bind fun r =>
          (ofpTlvLengthSum total r.1).bind fun total => listEncode oxmEncode total ms r.2
    rw [put_put, oxmEncode, Option.bind_assoc, ← Oxm.bytes]
    congr 1
    funext p
    rw [Option.bind_some, ← Option.bind_assoc, ofpTlvLengthSum_bind htotal hsize]
    cases hsum : ofpTlvLengthSum total (4 + m.oxmValue.length) with
    | none =>
      rw [Oxm.size, hsum, Option.bind_none, Option.bind_none]
    | some s =>
      rw [Oxm.size, hsum, Option.bind_some, Option.bind_some, ih (ofpTlvLengthSum_lt hsum)]

/-- The bytes that are written for a match. -/
def matchEncoded (ms : List Oxm) : List Octet :=
  tlv OFPMT_OXM (matchSize ms) ++
    (ms.flatMap Oxm.bytes ++ List.replicate (padding (matchSize ms)) 0)

theorem matchImage_encoded (h : matchSize ms < 2 ^ 16) : MatchImage OFPMT_OXM ms (matchEncoded ms) :=
  ⟨h, .zero _, rfl⟩

theorem length_matchEncoded (ms : List Oxm) :
    (matchEncoded ms).length = matchSize ms + padding (matchSize ms) := by
  rw [matchEncoded, length_append, length_append, length_tlv, length_flatMap_oxm,
    length_replicate, matchSize]
  omega

theorem writes_match (ms : List Oxm) :
    Writes (ofpMatchListEncode ms) (matchSize ms + padding (matchSize ms)) (matchEncoded ms) := by
  refine ⟨length_matchEncoded ms, fun p => ?_⟩
  have hlist (p : Pbuf) : oxmListEncode 4 ms p =
      if (ms.flatMap Oxm.bytes).length ≤ p.plen ∧ matchSize ms < 2 ^ 16 then
        some (matchSize ms, p.append (ms.flatMap Oxm.bytes)) else none := by
    rw [oxmListEncode_eq_listEncode (by decide),
      listEncode_eq (fun m _ => (writes_oxm m).emits) (by decide)]
    rfl
  have hput := put_bind (p := p) (a := tlv OFPMT_OXM 0) hlist fun r =>
    ofpPaddingEncode r.1 (r.2.ofpTlvLengthSet p.written.length r.1)
  refine Eq.trans hput ?_
  rw [Pbuf.ofpTlvLengthSet_append]
  have hlen : (tlv OFPMT_OXM 0 ++ ms.flatMap Oxm.bytes).length = matchSize ms := by
    rw [length_append, length_tlv, length_flatMap_oxm, matchSize]
  have hlen' : (tlv OFPMT_OXM (matchSize ms) ++ ms.flatMap Oxm.bytes).length = matchSize ms := by
    rw [length_append, length_tlv, length_flatMap_oxm, matchSize]
  have hplen : (p.append (tlv OFPMT_OXM (matchSize ms) ++ ms.flatMap Oxm.bytes)).plen =
      p.plen - matchSize ms := by rw [Pbuf.append, hlen']
  rw [hlen]
  by_cases hfits : matchSize ms ≤ p.plen ∧ matchSize ms < 2 ^ 16
  · rw [if_pos hfits, ofpPaddingEncode_eq hfits.2, hplen, length_replicate, Pbuf.append_append,
      append_assoc, ← matchEncoded]
    refine if_congr ?_ rfl rfl
    omega
  · rw [if_neg hfits, if_neg]
    omega

/-! ## Round trips -/

/-- What the encoder has written when it gives a total length, what the parser makes of it, and when the
encoder reports an error. -/
structure RoundTrips {α : Type} (encode : Pbuf → Option (Nat × Pbuf)) (size : Nat)
    (Image : List Octet → Prop) (parse : Nat → Nat → Parser α) (value : α) (p : Pbuf) : Prop where
  encoded : ∀ total p', encode p = some (total, p') → ∃ c, p' = p.append c ∧ c.length ≤ p.plen ∧
    total = c.length ∧ Image c ∧ ∀ fuel, c.length < fuel → parse fuel total c = .ok value []
  tooLong : 2 ^ 16 ≤ size ∨ p.plen < size → encode p = none

variable {α : Type} {encode : Pbuf → Option (Nat × Pbuf)} {size : Nat} {Image : List Octet → Prop}
  {parse : Nat → Nat → Parser α} {value : α}

theorem Writes.roundTrips {c : List Octet} (h : Writes encode size c) (hImage : size < 2 ^ 16 → Image c)
    (hparse : size < 2 ^ 16 → ∀ fuel, c.length < fuel → parse fuel size c = .ok value []) (p : Pbuf) :
    RoundTrips encode size Image parse value p := by
  constructor
  · intro total p' hsome
    rw [h.eq] at hsome
    split at hsome
    case isTrue hfits =>
      cases hsome
      exact ⟨c, rfl, h.length_eq ▸ hfits.1, h.length_eq.symm, hImage hfits.2, hparse hfits.2⟩
    case isFalse => cases hsome
  · intro hover
    rw [h.eq, if_neg]
    omega

theorem match_roundTrips (version : Nat) (hsorted : FieldSorted ms) (hs : ∀ m ∈ ms, m.Supported)
    (p : Pbuf) : RoundTrips (ofpMatchListEncode ms) (matchSize ms + padding (matchSize ms))
      (MatchImage OFPMT_OXM ms) (fun fuel _ => ofpMatchParse fuel version []) ms p := by
  refine (writes_match ms).roundTrips ?_ ?_ p
  · intro h
    exact matchImage_encoded (by omega)
  · intro h fuel hfuel
    have hparse : ofpMatchParse fuel version [] (matchEncoded ms ++ []) = .ok (matchSorted [] ms) [] :=
      ofpMatchParse_of_image (Or.inr rfl) (by decide) hs (matchImage_encoded (by omega))
        (by rwa [append_nil])
    rwa [append_nil, matchSorted_of_sorted (by rwa [nil_append]), nil_append] at hparse

theorem actions_roundTrips {as : List Action} (hs : ∀ a ∈ as, a.Supported)
    (hw : ∀ a ∈ as, ¬ a.Wraps) (p : Pbuf) :
    RoundTrips (ofpActionListEncode as) (Action.sizes as) (Action.Images (as.map Action.sized))
      (fun fuel total => ofpActionParse fuel total []) (as.map Action.sized) p := by
  have hemits := emits_actions hs
  rw [Action.lens_of_not_wraps hw] at hemits
  have hwrites := hemits.writes (Action.length_encodedAll hs)
  refine hwrites.roundTrips (Action.images_encodedAll hs) ?_ p
  intro h fuel hfuel
  have hparse : ofpActionParse fuel (Action.sizes as) [] (Action.encodedAll as ++ []) =
      .ok (as.map Action.sized) [] :=
    ofpActionParse_of_images (Action.images_encodedAll hs h)
      (by simpa using fun a _ => a.exact_sized) (by rwa [append_nil])
      (by rw [Action.sizes_map_sized])
  rwa [append_nil] at hparse

theorem instructions_roundTrips {is : List Instruction} (hs : ∀ i ∈ is, i.Supported)
    (hr : ∀ i ∈ is, i.Regular) (hw : ∀ i ∈ is, ∀ a ∈ i.actionList, ¬ a.Wraps) (p : Pbuf) :
    RoundTrips (ofpInstructionListEncode is) (sizes is)
      (Images (is.map sized)) (fun fuel _ => instructionsParse fuel)
      (is.map sized) p := by
  refine (writes_instructions hs hw).roundTrips (images_encoded hs) ?_ p
  intro h fuel hfuel
  refine instructionsParse_of_images (images_encoded hs h) ?_ ?_ ?_ hfuel
  · simpa using fun i hi => supported_sized (hs i hi)
  · simpa using fun i hi => regular_sized.2 (hr i hi)
  · simpa using fun i hi => exact_sized ((size_le_sizes hi).trans_lt h)

theorem buckets_roundTrips {us : List Bucket} (hs : ∀ u ∈ us, u.Supported)
    (hw : ∀ u ∈ us, ∀ a ∈ u.actionList, ¬ a.Wraps) (p : Pbuf) :
    RoundTrips (ofpBucketListEncode us) (Bucket.sizes us) (Bucket.Images (us.map Bucket.sized))
      (fun fuel _ => bucketsParse fuel) (us.map Bucket.sized) p := by
  refine (writes_buckets hs hw).roundTrips (Bucket.images_encoded hs) ?_ p
  intro h fuel hfuel
  refine bucketsParse_of_images (Bucket.images_encoded hs h) ?_ hfuel
  simp only [mem_map, forall_exists_index, and_imp, forall_apply_eq_imp_iff₂]
  intro u _ a ha
  obtain ⟨a', -, rfl⟩ := mem_map.1 ha
  exact a'.exact_sized

/-! ## The exceptions -/

variable {p : Pbuf}

/-- Where the length exceeds sixteen bits and no error is reported, there is no round trip. -/
theorem RoundTrips.lt (h : RoundTrips encode size Image parse value p) (hsome : (encode p).isSome) :
    size < 2 ^ 16 := by
  by_contra hsize
  rw [h.tooLong (.inl (not_lt.1 hsize))] at hsome
  cases hsome

theorem RoundTrips.of_none (h : encode p = none) : RoundTrips encode size Image parse value p := by
  refine ⟨fun total p' hsome => ?_, fun _ => h⟩
  rw [h] at hsome
  cases hsome

theorem actions_isSome_iff {as : List Action} (hs : ∀ a ∈ as, a.Supported) :
    (ofpActionListEncode as p).isSome ↔ Action.sizes as ≤ p.plen ∧ Action.lens as < 2 ^ 16 := by
  rw [(emits_actions hs).isSome_iff, Action.length_encodedAll hs]

theorem instructions_isSome_iff {is : List Instruction} (hs : ∀ i ∈ is, i.Supported) :
    (ofpInstructionListEncode is p).isSome ↔
      sizes is ≤ p.plen ∧ (is.map Instruction.len16).sum < 2 ^ 16 := by
  have hlen : (is.flatMap Instruction.encoded).length = sizes is := by
    rw [length_flatMap, sizes, map_congr_left fun i hi => Instruction.length_encoded (hs i hi)]
  rw [(emits_instructions hs).isSome_iff, hlen]

theorem buckets_isSome_iff {us : List Bucket} (hs : ∀ u ∈ us, u.Supported) :
    (ofpBucketListEncode us p).isSome ↔
      Bucket.sizes us ≤ p.plen ∧ (us.map Bucket.len16).sum < 2 ^ 16 := by
  have hlen : (us.flatMap Bucket.encoded).length = Bucket.sizes us := by
    rw [length_flatMap, Bucket.sizes, map_congr_left fun u hu => Bucket.length_encoded (hs u hu)]
  rw [(emits_buckets hs).isSome_iff, hlen]

/-- The lists of a match always make the round trip. The others do, unless there is a decap action that
wraps, or there are actions where the parser does not look for any, in a list for which there is room and
of which the lengths that are given fit in sixteen bits. -/
theorem lists_roundTrip_iff (p : Pbuf) :
    (∀ version ms, FieldSorted ms → (∀ m ∈ ms, m.Supported) →
      RoundTrips (ofpMatchListEncode ms) (matchSize ms + padding (matchSize ms))
        (MatchImage OFPMT_OXM ms) (fun fuel _ => ofpMatchParse fuel version []) ms p) ∧
    (∀ as, (∀ a ∈ as, a.Supported) →
      (RoundTrips (ofpActionListEncode as) (Action.sizes as) (Action.Images (as.map Action.sized))
          (fun fuel total => ofpActionParse fuel total []) (as.map Action.sized) p ↔
        (Action.sizes as ≤ p.plen ∧ Action.lens as < 2 ^ 16 → ∀ a ∈ as, ¬ a.Wraps))) ∧
    (∀ is, (∀ i ∈ is, i.Supported) →
      (RoundTrips (ofpInstructionListEncode is) (Instruction.sizes is)
          (Instruction.Images (is.map Instruction.sized)) (fun fuel _ => instructionsParse fuel)
          (is.map Instruction.sized) p ↔
        (Instruction.sizes is ≤ p.plen ∧ (is.map Instruction.len16).sum < 2 ^ 16 →
          ∀ i ∈ is, i.Regular ∧ ∀ a ∈ i.actionList, ¬ a.Wraps))) ∧
    (∀ us, (∀ u ∈ us, u.Supported) →
      (RoundTrips (ofpBucketListEncode us) (Bucket.sizes us) (Bucket.Images (us.map Bucket.sized))
          (fun fuel _ => bucketsParse fuel) (us.map Bucket.sized) p ↔
        (Bucket.sizes us ≤ p.plen ∧ (us.map Bucket.len16).sum < 2 ^ 16 →
          ∀ u ∈ us, ∀ a ∈ u.actionList, ¬ a.Wraps))) := by
  refine ⟨fun version ms hsorted hs => match_roundTrips version hsorted hs p, fun as hs => ?_,
    fun is hs => ?_, fun us hs => ?_⟩
  · rw [← actions_isSome_iff hs]
    constructor
    · intro h hsome a ha hwraps
      have := h.lt hsome
      have := hwraps.size_eq
      have := Action.size_le_sizes ha
      omega
    · intro h
      cases hr : ofpActionListEncode as p with
      | none => exact .of_none hr
      | some r => exact actions_roundTrips hs (h (by rw [hr]; rfl)) p
  · rw [← instructions_isSome_iff hs]
    constructor
    · intro h hsome i hi
      refine ⟨?_, fun a ha hwraps => ?_⟩
      · obtain ⟨⟨total, p'⟩, hr⟩ := Option.isSome_iff_exists.1 hsome
        obtain ⟨c, -, -, -, -, hparse⟩ := h.encoded total p' hr
        obtain ⟨-, -, -, hregular⟩ := instructionsParse_images (hparse _ (Nat.lt_succ_self _))
        exact regular_sized.1 (hregular _ (List.mem_map_of_mem hi))
      · have := h.lt hsome
        have := hwraps.size_eq
        have := Action.size_le_sizes ha
        have := size_le_sizes hi
        rw [size] at this
        omega
    · intro h
      cases hr : ofpInstructionListEncode is p with
      | none => exact .of_none hr
      | some r =>
        have hall := h (by rw [hr]; rfl)
        exact instructions_roundTrips hs (fun i hi => (hall i hi).1) (fun i hi => (hall i hi).2) p
  · rw [← buckets_isSome_iff hs]
    constructor
    · intro h hsome u hu a ha hwraps
      have := h.lt hsome
      have := hwraps.size_eq
      have := Action.size_le_sizes ha
      have := Bucket.size_le_sizes hu
      rw [Bucket.size] at this
      omega
    · intro h
      cases hr : ofpBucketListEncode us p with
      | none => exact .of_none hr
      | some r => exact buckets_roundTrips hs (h (by rw [hr]; rfl)) p

/-- Two fields, a set-field action in an instruction and in a bucket. -/
theorem lists_roundTrip_of_few :
    let inPort : Oxm := ⟨0x8000, 0, [0, 0, 0, 1], by decide⟩
    let ethType : Oxm := ⟨0x8000, 10, [8, 0], by decide⟩
    let action : Action := .setField ethType
    let instruction : Instruction := ⟨.applyActions, 0, .zero _, [action]⟩
    let bucket : Bucket := ⟨.zero _, [action]⟩
    let ms := [inPort, ethType]
    let p : Pbuf := ⟨[], 64⟩
    RoundTrips (ofpMatchListEncode ms) (matchSize ms + padding (matchSize ms)) (MatchImage OFPMT_OXM ms)
        (fun fuel _ => ofpMatchParse fuel 4 []) ms p ∧
      RoundTrips (ofpActionListEncode [action]) (Action.sizes [action]) (Action.Images [action.sized])
        (fun fuel total => ofpActionParse fuel total []) [action.sized] p ∧
      RoundTrips (ofpInstructionListEncode [instruction]) (sizes [instruction])
        (Images [instruction.sized]) (fun fuel _ => instructionsParse fuel)
        [instruction.sized] p ∧
      RoundTrips (ofpBucketListEncode [bucket]) (Bucket.sizes [bucket]) (Bucket.Images [bucket.sized])
        (fun fuel _ => bucketsParse fuel) [bucket.sized] p := by
  intro inPort ethType action instruction bucket ms p
  obtain ⟨hmatch, hactions, hinstructions, hbuckets⟩ := lists_roundTrip_iff p
  exact ⟨hmatch 4 ms (by decide) (by decide), (hactions [action] (by decide)).2 (by decide),
    (hinstructions [instruction] (by decide)).2 (by decide),
    (hbuckets [bucket] (by decide)).2 (by decide)⟩

/-- Of such a decap action the length is said to be 0. -/
theorem encode_wraps {a : Action} (h : a.Supported) (hw : a.Wraps) (hp : 2 ^ 16 ≤ p.plen) :
    ∃ p', ofpActionListEncode [a] p = some (0, p') ∧
      p'.written.length = p.written.length + 2 ^ 16 := by
  have hs : ∀ b ∈ [a], b.Supported := forall_mem_singleton.2 h
  have hlen : (Action.encodedAll [a]).length = 2 ^ 16 := by
    rw [Action.length_encodedAll hs, Action.sizes_cons, hw.size_eq, Action.sizes_nil, Nat.add_zero]
  have hlens : Action.lens [a] = 0 := by simp [Action.lens, Action.len16, hw]
  have hemits := emits_actions hs p
  rw [hlens, hlen, if_pos ⟨hp, by decide⟩] at hemits
  exact ⟨_, hemits, by rw [Pbuf.append, length_append, hlen]⟩

/-- A decap action with 2730 port names. -/
def manyPortNames : Action := .ed .decap (.zero _) (List.replicate 2730 (.portName 24 (.zero _)))

/-- A clear-actions instruction that has an action. -/
def clearWithAction : Instruction := ⟨.clearActions, 16, .zero _, [.fixed .popVlan (.zero _)]⟩

theorem supported_manyPortNames : manyPortNames.Supported := by
  intro prop hprop
  rw [eq_of_mem_replicate hprop]
  trivial

/-- The total length is given as 0 although 65536 bytes are written; what is written for the
instruction is not accepted. -/
theorem lists_not_roundTrip :
    (manyPortNames.Supported ∧
      ∃ p', ofpActionListEncode [manyPortNames] ⟨[], 2 ^ 16⟩ = some (0, p') ∧
        p'.written.length = 2 ^ 16) ∧
    (clearWithAction.Supported ∧
      ofpInstructionListEncode [clearWithAction] ⟨[], 16⟩ = some (16, ⟨clearWithAction.encoded, 0⟩) ∧
      instructionsParse 17 clearWithAction.encoded =
        .stop (.error (some (.badInstruction .badLen)))) := by
  refine ⟨⟨supported_manyPortNames, ?_⟩, by decide, by decide, by decide +kernel⟩
  obtain ⟨p', hencode, hlen⟩ := encode_wraps supported_manyPortNames List.length_replicate
    (show 2 ^ 16 ≤ (Pbuf.mk [] (2 ^ 16)).plen from le_rfl)
  exact ⟨p', hencode, hlen.trans (Nat.zero_add _)⟩

end Lagopus.Wire
