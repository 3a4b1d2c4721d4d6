import Lagopus.Agent.Wire

/-!
# Encoding matches, actions, instructions and buckets

The encoders of `ofp_match.c`, `ofp_action.c`, `ofp_instruction.c` and `ofp_bucket.c`.  They write into a
buffer with limited room, add the lengths up in sixteen bits, and put the length of an element into its
place once its contents are written.

* `ofpMatchListEncode`, `ofpActionListEncode`, `ofpInstructionListEncode`, `ofpBucketListEncode`: the
  encoders; they give the total length, or nothing when they report an error;
* `Emits`: an encoder that writes given bytes and gives a length, or reports that they do not fit;
  `Writes`: one that gives the number of the bytes;
* `emits_action`, `emits_instruction`, `emits_bucket`: what the encoders of single elements write;
  the length they give is the number of bytes, except where there is a decap action with so many
  properties that its length is no longer a sixteen-bit number (`Action.Wraps`).
-/

namespace Lagopus.Wire

open Octets List Option Nat Lagopus.Wire.Action

/-! ## The buffer -/

/-- A `struct pbuf` that is written to. -/
structure Pbuf where
  written : List Octet
  /-- The room that is left. -/
  plen : Nat
deriving DecidableEq

namespace Pbuf

/-- The buffer with more bytes in it. -/
def append (p : Pbuf) (l : List Octet) : Pbuf := ⟨p.written ++ l, p.plen - l.length⟩

/-- `pbuf_encode`, and the generated encoders. -/
def put (p : Pbuf) (l : List Octet) : Option Pbuf :=
  if l.length ≤ p.plen then some (p.append l) else none

/-- `ofp_tlv_length_set`, for a structure that starts at `head`. -/
def ofpTlvLengthSet (p : Pbuf) (head length : Nat) : Pbuf :=
  { p with written := p.written.take (head + 2) ++ Octets.ofNat 2 length ++ p.written.drop (head + 4) }

/-- `ofp_multipart_length_set`. -/
def ofpMultipartLengthSet (p : Pbuf) (head length : Nat) : Pbuf :=
  { p with written := p.written.take head ++ Octets.ofNat 2 length ++ p.written.drop (head + 2) }

end Pbuf

/-- `ofp_tlv_length_sum`. -/
def ofpTlvLengthSum (totalLength length : Nat) : Option Nat :=
  let sum := (totalLength + length) % 2 ^ 16
  if sum < length then none else some sum

/-- `ofp_padding_encode`. -/
def ofpPaddingEncode (length : Nat) (p : Pbuf) : Option (Nat × Pbuf) := do
  let p ← p.put (List.replicate (padding length) 0)
  let length ← ofpTlvLengthSum length (padding length)
  some (length, p)

/-- Encodes one element after the other and adds up the lengths. -/
def listEncode {α : Type} (encode : α → Pbuf → Option (Nat × Pbuf)) :
    Nat → List α → Pbuf → Option (Nat × Pbuf)
  | total, [], p => some (total, p)
  | total, a :: as, p => do
    let r ← encode a p
    let total ← ofpTlvLengthSum total r.1
    listEncode encode total as r.2

/-! ## Matches -/

/-- The fields of a match. -/
def oxmListEncode : Nat → List Oxm → Pbuf → Option (Nat × Pbuf)
  | total, [], p => some (total, p)
  | total, m :: ms, p => do
    let p ← p.put m.header
    let p ← p.put m.oxmValue
    let total ← ofpTlvLengthSum total 4
    let total ← ofpTlvLengthSum total m.oxmValue.length
    oxmListEncode total ms p

/-- `ofp_match_list_encode`. -/
def ofpMatchListEncode (ms : List Oxm) (p : Pbuf) : Option (Nat × Pbuf) := do
  let matchHead := p.written.length
  let p ← p.put (tlv OFPMT_OXM 0)
  let r ← oxmListEncode 4 ms p
  ofpPaddingEncode r.1 (r.2.ofpTlvLengthSet matchHead r.1)

/-! ## Actions -/

/-- `ofp_action_list_set_field_encode`. -/
def ofpActionListSetFieldEncode (o : Oxm) (p : Pbuf) : Option (Nat × Pbuf) := do
  let setFieldHead := p.written.length
  let len := 8 + o.oxmValue.length
  let p ← p.put (tlv OFPAT_SET_FIELD len ++ o.header)
  let p ← p.put o.oxmValue
  let r ← ofpPaddingEncode len p
  some (r.1, r.2.ofpTlvLengthSet setFieldHead r.1)

/-- `ofp_action_list_action_ed_prop_encode`: the property and its length. -/
def ofpActionListActionEdPropEncode (prop : EdProp) (p : Pbuf) : Option (Nat × Pbuf) :=
  match prop with
  | .portName len body => do
    let propHead := p.written.length
    let p ← p.put (tlv OFPPPT_PROP_PORT_NAME len.toNat ++ body.bytes)
    some (EdProp.portNameSize, p.ofpTlvLengthSet propHead EdProp.portNameSize)
  | .other => none

/-- An action with properties; the sum of the lengths is converted to sixteen bits. -/
def edEncode (t : EdAction) (body : Block t.bodySize) (ps : List EdProp) (p : Pbuf) :
    Option (Nat × Pbuf) := do
  let head := p.written.length
  let p ← p.put (tlv t.code 0 ++ body.bytes)
  let r ← listEncode ofpActionListActionEdPropEncode 0 ps p
  let len ← ofpTlvLengthSum 0 ((4 + t.bodySize + r.1) % 2 ^ 16)
  some (len, r.2.ofpTlvLengthSet head len)

/-- `ofp_action_list_action_encap_encode`. -/
def ofpActionListActionEncapEncode := edEncode .encap

/-- `ofp_action_list_action_decap_encode`. -/
def ofpActionListActionDecapEncode := edEncode .decap

/-- An action of fixed layout. -/
def structEncode (t : FixedAction) (body : Block t.bodySize) (p : Pbuf) : Option (Nat × Pbuf) := do
  let p ← p.put (tlv t.code (4 + t.bodySize) ++ body.bytes)
  some (4 + t.bodySize, p)

/-- A round of `ofp_action_list_encode`; `res` tells whether the round before went well, since nothing
is done for an experimenter action. -/
def actionEncode (res : Bool) (a : Action) (p : Pbuf) : Option (Nat × Pbuf) :=
  match a with
  | .fixed t body => structEncode t body p
  | .setField o => ofpActionListSetFieldEncode o p
  | .ed .encap body ps => ofpActionListActionEncapEncode body ps p
  | .ed .decap body ps => ofpActionListActionDecapEncode body ps p
  | .experimenter len => if res then some (len.toNat, p) else none
  | .unknown => none

/-- The rounds of `ofp_action_list_encode`. -/
def actionListEncode : Bool → Nat → List Action → Pbuf → Option (Nat × Pbuf)
  | _, total, [], p => some (total, p)
  | res, total, a :: as, p => do
    let r ← actionEncode res a p
    let total ← ofpTlvLengthSum total r.1
    actionListEncode true total as r.2

/-- `ofp_action_list_encode`. -/
def ofpActionListEncode (as : List Action) (p : Pbuf) : Option (Nat × Pbuf) :=
  actionListEncode false 0 as p

/-! ## Instructions and buckets -/

/-- A round of `ofp_instruction_list_encode`. -/
def instructionEncode (i : Instruction) (p : Pbuf) : Option (Nat × Pbuf) := do
  let instructionHead := p.written.length
  let len := 4 + i.type.bodySize
  let p ← p.put (tlv i.type.code len ++ i.body.bytes)
  let r ← ofpActionListEncode i.actionList p
  let len ← ofpTlvLengthSum len r.1
  some (len, r.2.ofpTlvLengthSet instructionHead len)

/-- `ofp_instruction_list_encode`. -/
def ofpInstructionListEncode (is : List Instruction) (p : Pbuf) : Option (Nat × Pbuf) :=
  listEncode instructionEncode 0 is p

/-- A round of `ofp_bucket_list_encode`; what stands for the length at first is overwritten. -/
def bucketEncode (u : Bucket) (p : Pbuf) : Option (Nat × Pbuf) := do
  let bucketHead := p.written.length
  let p ← p.put (Octets.ofNat 2 0 ++ u.body.bytes)
  let r ← ofpActionListEncode u.actionList p
  let bucketLen ← ofpTlvLengthSum r.1 16
  some (bucketLen, r.2.ofpMultipartLengthSet bucketHead bucketLen)

/-- `ofp_bucket_list_encode`. -/
def ofpBucketListEncode (us : List Bucket) (p : Pbuf) : Option (Nat × Pbuf) :=
  listEncode bucketEncode 0 us p

/-! ## Steps -/

namespace Pbuf

variable {p : Pbuf} {c d : List Octet} {type n n' : Nat}

theorem append_append : (p.append c).append d = p.append (c ++ d) := by
  simp only [append, append_assoc, length_append, mk.injEq, true_and]
  omega

theorem append_inj (h : p.append c = p.append d) : c = d :=
  append_cancel_left (congrArg written h)

theorem ofpTlvLengthSet_append :
    (p.append (tlv type n ++ c)).ofpTlvLengthSet p.written.length n' = p.append (tlv type n' ++ c) := by
  have htake : (p.written ++ (tlv type n ++ c)).take (p.written.length + 2) =
      p.written ++ Octets.ofNat 2 type := by
    rw [take_length_add_append, tlv, append_assoc, take_left' (length_ofNat _ _)]
  have hdrop : (p.written ++ (tlv type n ++ c)).drop (p.written.length + 4) = c := by
    rw [drop_length_add_append, drop_left' (length_tlv _ _)]
  simp only [ofpTlvLengthSet, append, htake, hdrop, length_append, length_tlv]
  simp [tlv]

theorem ofpMultipartLengthSet_append :
    (p.append (Octets.ofNat 2 n ++ c)).ofpMultipartLengthSet p.written.length n' =
      p.append (Octets.ofNat 2 n' ++ c) := by
  have htake : (p.written ++ (Octets.ofNat 2 n ++ c)).take p.written.length = p.written := take_left
  have hdrop : (p.written ++ (Octets.ofNat 2 n ++ c)).drop (p.written.length + 2) = c := by
    rw [drop_length_add_append, drop_left' (length_ofNat _ _)]
  simp [ofpMultipartLengthSet, append, htake, hdrop, length_ofNat]

end Pbuf

variable {n : Nat}

theorem ofpTlvLengthSum_eq {m : Nat} (hm : m < 2 ^ 16) (hn : n < 2 ^ 16) :
    ofpTlvLengthSum m n = if m + n < 2 ^ 16 then some (m + n) else none := by
  unfold ofpTlvLengthSum
  by_cases h : m + n < 2 ^ 16
  · rw [mod_eq_of_lt h, if_neg (by omega), if_pos h]
  · rw [if_pos (by omega), if_neg h]

/-- The encoder writes these bytes and gives this length, or reports that one of them does not fit. -/
def Emits (encode : Pbuf → Option (Nat × Pbuf)) (len : Nat) (c : List Octet) : Prop :=
  ∀ p, encode p = if c.length ≤ p.plen ∧ len < 2 ^ 16 then some (len, p.append c) else none

/-- The encoder writes these bytes and gives their number, or reports that they do not fit. -/
structure Writes (encode : Pbuf → Option (Nat × Pbuf)) (size : Nat) (c : List Octet) : Prop where
  length_eq : c.length = size
  eq : ∀ p, encode p = if size ≤ p.plen ∧ size < 2 ^ 16 then some (size, p.append c) else none

variable {encode : Pbuf → Option (Nat × Pbuf)}

theorem Emits.writes {size : Nat} {c : List Octet} (h : Emits encode size c) (hlen : c.length = size) :
    Writes encode size c :=
  ⟨hlen, hlen ▸ h⟩

theorem Writes.emits {size : Nat} {c : List Octet} (h : Writes encode size c) : Emits encode size c := by
  intro p
  rw [h.eq, h.length_eq]

theorem Emits.isSome_iff {len : Nat} {c : List Octet} (h : Emits encode len c) (p : Pbuf) :
    (encode p).isSome ↔ c.length ≤ p.plen ∧ len < 2 ^ 16 := by
  rw [h p]
  by_cases hfits : c.length ≤ p.plen ∧ len < 2 ^ 16
  · rw [if_pos hfits]
    exact iff_of_true rfl hfits
  · rw [if_neg hfits]
    exact iff_of_false (by simp) hfits

theorem Writes.eq_some_iff {size : Nat} {c : List Octet}
    (h : Writes encode size c) {p : Pbuf} {r : Nat × Pbuf} :
    encode p = some r ↔ (size ≤ p.plen ∧ size < 2 ^ 16) ∧ r = (size, p.append c) := by
  rw [h.eq]
  by_cases hfits : size ≤ p.plen ∧ size < 2 ^ 16
  · rw [if_pos hfits, some_inj, eq_comm, and_iff_right hfits]
  · rw [if_neg hfits]
    exact ⟨nofun, fun h => absurd h.1 hfits⟩

theorem put_bind {β : Type} {p : Pbuf} {a c : List Octet} {q : Prop} [Decidable q]
    (h : ∀ p, encode p = if c.length ≤ p.plen ∧ q then some (n, p.append c) else none)
    (g : Nat × Pbuf → Option β) : ((p.put a).bind fun p => (encode p).bind g) =
      if (a ++ c).length ≤ p.plen ∧ q then g (n, p.append (a ++ c)) else none := by
  rw [length_append]
  unfold Pbuf.put
  by_cases ha : a.length ≤ p.plen
  · rw [if_pos ha, bind_some, h, Pbuf.append_append]
    have hiff : (c.length ≤ (p.append a).plen ∧ q) ↔ (a.length + c.length ≤ p.plen ∧ q) := by
      have hplen : (p.append a).plen = p.plen - a.length := rfl
      refine and_congr_left fun _ => ?_
      omega
    by_cases hc : a.length + c.length ≤ p.plen ∧ q
    · rw [if_pos hc, if_pos (hiff.2 hc), bind_some]
    · rw [if_neg hc, if_neg (mt hiff.1 hc), bind_none]
  · rw [if_neg ha, bind_none, if_neg]
    omega

variable {α : Type} {encode : α → Pbuf → Option (Nat × Pbuf)} {bytes : α → List Octet}
  {len : α → Nat} {as : List α}

theorem listEncode_eq (h : ∀ a ∈ as, Emits (encode a) (len a) (bytes a)) {total : Nat}
    (htotal : total < 2 ^ 16) (p : Pbuf) : listEncode encode total as p =
      if (as.flatMap bytes).length ≤ p.plen ∧ total + (as.map len).sum < 2 ^ 16 then
        some (total + (as.map len).sum, p.append (as.flatMap bytes)) else none := by
  induction as generalizing total p with
  | nil =>
    rw [flatMap_nil, map_nil, sum_nil, if_pos ⟨zero_le _, htotal⟩]
    simp [listEncode, Pbuf.append]
  | cons a as ih =>
    obtain ⟨ha, has⟩ := forall_mem_cons.1 h
    rw [listEncode, ha p]
    simp only [map_cons, sum_cons, flatMap_cons, length_append]
    by_cases hfits : (bytes a).length ≤ p.plen ∧ len a < 2 ^ 16
    · rw [if_pos hfits]
      simp only [bind_eq_bind, bind_some]
      rw [ofpTlvLengthSum_eq htotal hfits.2]
      by_cases hsum : total + len a < 2 ^ 16
      · rw [if_pos hsum, bind_some, ih has hsum, Pbuf.append_append]
        have hplen : (p.append (bytes a)).plen = p.plen - (bytes a).length := rfl
        have hiff : ((as.flatMap bytes).length ≤ (p.append (bytes a)).plen ∧
            total + len a + (as.map len).sum < 2 ^ 16) ↔
            ((bytes a).length + (as.flatMap bytes).length ≤ p.plen ∧
              total + (len a + (as.map len).sum) < 2 ^ 16) := by
          omega
        rw [add_assoc]
        rw [add_assoc] at hiff
        exact if_congr hiff rfl rfl
      · rw [if_neg hsum, bind_none, if_neg (by omega)]
    · rw [if_neg hfits, bind_eq_bind, bind_none, if_neg (by omega)]

theorem emits_list (h : ∀ a ∈ as, Emits (encode a) (len a) (bytes a)) :
    Emits (listEncode encode 0 as) (as.map len).sum (as.flatMap bytes) := by
  intro p
  rw [listEncode_eq h (by decide), zero_add]

theorem length_flatMap_of_writes (h : ∀ a ∈ as, Writes (encode a) (len a) (bytes a)) :
    (as.flatMap bytes).length = (as.map len).sum := by
  rw [length_flatMap]
  congr 1
  exact map_congr_left fun a ha => (h a ha).length_eq

theorem writes_list (h : ∀ a ∈ as, Writes (encode a) (len a) (bytes a)) :
    Writes (listEncode encode 0 as) (as.map len).sum (as.flatMap bytes) :=
  (emits_list fun a ha => (h a ha).emits).writes (length_flatMap_of_writes h)

/-! ## What single elements come to -/

theorem writes_edProp {prop : EdProp} (h : prop.Supported) :
    Writes (ofpActionListActionEdPropEncode prop) EdProp.portNameSize prop.sized.bytes := by
  refine ⟨EdProp.length_bytes (EdProp.supported_sized.2 h), fun p => ?_⟩
  cases prop with
  | portName len body =>
    have hlen : (tlv OFPPPT_PROP_PORT_NAME len.toNat ++ body.bytes).length = EdProp.portNameSize := by
      simp [EdProp.portNameSize]
    simp only [ofpActionListActionEdPropEncode, Pbuf.put, hlen]
    by_cases hfits : EdProp.portNameSize ≤ p.plen
    · rw [if_pos hfits, if_pos ⟨hfits, by decide⟩]
      simp only [bind_eq_bind, bind_some, Pbuf.ofpTlvLengthSet_append]
      rfl
    · rw [if_neg hfits, if_neg fun h => hfits h.1]
      rfl
  | other => exact h.elim

/-- A decap action with so many properties that its length exceeds sixteen bits, although the length of
the properties does not. -/
def Action.Wraps : Action → Prop
  | .ed .decap _ ps => ps.length = 2730
  | _ => False

instance : (a : Action) → Decidable a.Wraps
  | .ed .decap _ ps => inferInstanceAs (Decidable (ps.length = 2730))
  | .ed .encap _ _ => isFalse id
  | .fixed _ _ => isFalse id
  | .setField _ => isFalse id
  | .experimenter _ => isFalse id
  | .unknown => isFalse id

/-- The length that is given for an action, when there is one. -/
def Action.len16 (a : Action) : Nat := if a.Wraps then 0 else a.size

/-- The bytes that are written for an action; of the length, sixteen bits. -/
def Action.encoded : Action → List Octet
  | .fixed t body => tlv t.code (4 + t.bodySize) ++ body.bytes
  | .setField o => tlv OFPAT_SET_FIELD (setField o).size ++
      (o.bytes ++ List.replicate (padding o.oxmValue.length) 0)
  | .ed t body ps => tlv t.code (ed t body ps).size ++
      (body.bytes ++ (ps.map EdProp.sized).flatMap EdProp.bytes)
  | .experimenter _ => []
  | .unknown => []

variable {a : Action}

theorem Action.image_encoded (h : a.Supported) (hsize : a.size < 2 ^ 16) : a.sized.Image a.encoded := by
  cases a with
  | fixed t body => rfl
  | setField o => exact ⟨h, ⟨List.replicate _ 0, length_replicate⟩, rfl⟩
  | ed t body ps =>
    refine ⟨supported_sized h, ?_, ?_⟩
    · have := size_sized (.ed t body ps)
      exact this ▸ hsize
    · have hs : (ed t body (ps.map EdProp.sized)).size = (ed t body ps).size :=
        size_sized (.ed t body ps)
      rw [hs]
      rfl
  | experimenter len => exact h.elim
  | unknown => exact h.elim

theorem Action.length_encoded (h : a.Supported) : a.encoded.length = a.size := by
  cases a with
  | fixed t body => simp [encoded, size]
  | setField o =>
    simp [encoded, size, Oxm.size]
    omega
  | ed t body ps =>
    have hps : ∀ p ∈ ps.map EdProp.sized, p.Supported := supported_sized h
    simp only [encoded, length_append, length_tlv, Block.length_eq,
      EdProp.length_flatMap_bytes hps, length_map, size]
    omega
  | experimenter len => exact h.elim
  | unknown => exact h.elim

theorem writes_struct (t : FixedAction) (body : Block t.bodySize) :
    Writes (structEncode t body) (4 + t.bodySize) (fixed t body).encoded := by
  have hsize : t.bodySize ≤ 12 := by cases t <;> decide
  have hlen : (fixed t body).encoded.length = 4 + t.bodySize := length_encoded trivial
  refine ⟨hlen, fun p => ?_⟩
  change ((if (fixed t body).encoded.length ≤ p.plen then
    some (p.append (fixed t body).encoded) else none).bind fun p => some (4 + t.bodySize, p)) = _
  rw [hlen]
  by_cases hfits : 4 + t.bodySize ≤ p.plen
  · rw [if_pos hfits, if_pos ⟨hfits, by omega⟩, bind_some]
  · rw [if_neg hfits, if_neg fun h => hfits h.1, bind_none]

theorem ofpPaddingEncode_eq (hn : n < 2 ^ 16) (p : Pbuf) : ofpPaddingEncode n p =
      if (List.replicate (padding n) (0 : Octet)).length ≤ p.plen ∧ n + padding n < 2 ^ 16 then
        some (n + padding n, p.append (List.replicate (padding n) 0)) else none := by
  have hpad := padding_lt n
  have hsum := ofpTlvLengthSum_eq hn (show padding n < 2 ^ 16 by omega)
  simp only [ofpPaddingEncode, Pbuf.put, length_replicate, bind_eq_bind, hsum]
  by_cases hfits : padding n ≤ p.plen
  · rw [if_pos hfits, bind_some]
    by_cases hlt : n + padding n < 2 ^ 16
    · rw [if_pos hlt, if_pos ⟨hfits, hlt⟩, bind_some]
    · rw [if_neg hlt, if_neg fun h => hlt h.2, bind_none]
  · rw [if_neg hfits, bind_none, if_neg fun h => hfits h.1]

theorem writes_setField (o : Oxm) :
    Writes (ofpActionListSetFieldEncode o) (setField o).size (setField o).encoded := by
  have hv := o.length_lt
  have hpad := padding_lt o.oxmValue.length
  have hsize : (setField o).size = 8 + o.oxmValue.length + padding o.oxmValue.length := rfl
  have hlen : (setField o).encoded.length = (setField o).size := by
    simp [encoded, Oxm.size, hsize]
    omega
  refine ⟨hlen, fun p => ?_⟩
  -- the value and its padding, then the header before them
  have hvalue (p : Pbuf) : ((p.put o.oxmValue).bind fun p => ofpPaddingEncode (8 + o.oxmValue.length) p) =
      if (o.oxmValue ++ List.replicate (padding o.oxmValue.length) 0).length ≤ p.plen ∧ True then
        some ((setField o).size,
          p.append (o.oxmValue ++ List.replicate (padding o.oxmValue.length) 0)) else none := by
    have h := put_bind (p := p) (a := o.oxmValue)
      (ofpPaddingEncode_eq (show 8 + o.oxmValue.length < 2 ^ 16 by omega)) some
    simp only [bind_fun_some, padding_add_eight] at h
    rw [h]
    refine if_congr (and_congr_right fun _ => ?_) rfl rfl
    simp only [iff_true]
    omega
  have h := put_bind (p := p) (a := tlv OFPAT_SET_FIELD (8 + o.oxmValue.length) ++ o.header) hvalue
    fun r => some (r.1, r.2.ofpTlvLengthSet p.written.length r.1)
  simp only [bind_assoc] at h
  change (Option.bind _ _) = _ at h
  refine Eq.trans h ?_
  simp only [append_assoc, Pbuf.ofpTlvLengthSet_append]
  refine if_congr ?_ rfl rfl
  simp only [length_append, length_tlv, Oxm.length_header, length_replicate, hsize, and_true]
  omega

/-- The length of the properties is checked, the sum with the length of the structure is not. -/
theorem edEncode_eq {t : EdAction} {body : Block t.bodySize} {ps : List EdProp}
    (h : ∀ p ∈ ps, p.Supported) (p : Pbuf) : edEncode t body ps p =
      if (ed t body ps).size ≤ p.plen ∧ EdProp.portNameSize * ps.length < 2 ^ 16 then
        some ((ed t body ps).size % 2 ^ 16,
          p.append (tlv t.code ((ed t body ps).size % 2 ^ 16) ++
            (body.bytes ++ (ps.map EdProp.sized).flatMap EdProp.bytes)))
      else none := by
  have hprops (p : Pbuf) : listEncode ofpActionListActionEdPropEncode 0 ps p =
      if ((ps.map EdProp.sized).flatMap EdProp.bytes).length ≤ p.plen ∧
          EdProp.portNameSize * ps.length < 2 ^ 16 then
        some (EdProp.portNameSize * ps.length, p.append ((ps.map EdProp.sized).flatMap EdProp.bytes))
      else none := by
    have hsum : (ps.map fun _ => EdProp.portNameSize).sum = EdProp.portNameSize * ps.length := by
      simp [mul_comm]
    have hlist := emits_list (fun prop hprop => (writes_edProp (h prop hprop)).emits) p
    rw [hsum] at hlist
    rw [flatMap_map, hlist]
  have hput := put_bind (p := p) (a := tlv t.code 0 ++ body.bytes) hprops fun r =>
    (ofpTlvLengthSum 0 ((4 + t.bodySize + r.1) % 2 ^ 16)).bind fun len =>
      some (len, r.2.ofpTlvLengthSet p.written.length len)
  refine Eq.trans hput ?_
  have hbytes : (tlv t.code 0 ++ body.bytes ++ (ps.map EdProp.sized).flatMap EdProp.bytes).length =
      (ed t body ps).size := by
    have hlen : (ed t body ps).encoded.length = (ed t body ps).size := length_encoded h
    rw [← hlen]
    simp [encoded]
  have hlt : (ed t body ps).size % 2 ^ 16 < 2 ^ 16 := mod_lt _ (by decide)
  have hsum : ofpTlvLengthSum 0 ((ed t body ps).size % 2 ^ 16) =
      some ((ed t body ps).size % 2 ^ 16) := by
    rw [ofpTlvLengthSum_eq (by decide) hlt, zero_add, if_pos hlt]
  rw [hbytes]
  refine if_congr Iff.rfl ?_ rfl
  change (ofpTlvLengthSum 0 ((ed t body ps).size % 2 ^ 16)).bind _ = _
  rw [hsum, bind_some, append_assoc, Pbuf.ofpTlvLengthSet_append]

theorem Action.Wraps.size_eq (h : a.Wraps) : a.size = 2 ^ 16 := by
  cases a with
  | ed t body ps =>
    cases t with
    | encap => exact h.elim
    | decap =>
      have hlen : ps.length = 2730 := h
      simp only [Action.size, EdAction.bodySize, EdProp.portNameSize, hlen]
      decide
  | _ => exact h.elim

theorem Action.len16_mod (a : Action) : a.len16 % 2 ^ 16 = a.size % 2 ^ 16 := by
  unfold len16
  split_ifs with h
  · rw [h.size_eq, Nat.mod_self, Nat.zero_mod]
  · rfl

/-- Sixteen bits of a number are written. -/
theorem ofNat_two_mod (n : Nat) : Octets.ofNat 2 (n % 2 ^ 16) = Octets.ofNat 2 n := by
  have h := ofNat_add_mul 2 (n % 2 ^ 16) (n / 2 ^ 16)
  rw [show (256 : Nat) ^ 2 = 2 ^ 16 by decide, Nat.div_add_mod'] at h
  exact h.symm

theorem tlv_congr (type : Nat) {m n : Nat} (h : m % 2 ^ 16 = n % 2 ^ 16) : tlv type m = tlv type n := by
  rw [tlv, tlv, ← ofNat_two_mod m, h, ofNat_two_mod]

/-- The properties fit exactly if the length that is given does. -/
theorem len16_ed_lt_iff {t : EdAction} {body : Block t.bodySize} {ps : List EdProp} :
    (Action.ed t body ps).len16 < 2 ^ 16 ↔ EdProp.portNameSize * ps.length < 2 ^ 16 := by
  by_cases hw : (Action.ed t body ps).Wraps
  · have hsize := hw.size_eq
    rw [len16, if_pos hw]
    simp only [Action.size] at hsize
    exact iff_of_true (by decide) (by omega)
  · rw [len16, if_neg hw]
    simp only [Action.size, EdProp.portNameSize]
    cases t with
    | encap =>
      simp only [EdAction.bodySize]
      omega
    | decap =>
      have hne : ps.length ≠ 2730 := hw
      simp only [EdAction.bodySize]
      omega

theorem emits_ed {t : EdAction} {body : Block t.bodySize} {ps : List EdProp}
    (h : ∀ p ∈ ps, p.Supported) :
    Emits (edEncode t body ps) (Action.ed t body ps).len16 (Action.ed t body ps).encoded := by
  intro p
  have hlen : (Action.ed t body ps).encoded.length = (Action.ed t body ps).size := length_encoded h
  have hmod := Action.len16_mod (Action.ed t body ps)
  rw [edEncode_eq h, hlen, tlv_congr t.code (Nat.mod_mod _ _)]
  by_cases hfits : (Action.ed t body ps).size ≤ p.plen ∧ EdProp.portNameSize * ps.length < 2 ^ 16
  · have hlt : (Action.ed t body ps).len16 < 2 ^ 16 := len16_ed_lt_iff.2 hfits.2
    rw [if_pos hfits, if_pos ⟨hfits.1, hlt⟩, ← hmod, mod_eq_of_lt hlt]
    rfl
  · rw [if_neg hfits, if_neg fun h => hfits ⟨h.1, len16_ed_lt_iff.1 h.2⟩]

theorem Action.len16_of_not_wraps (h : ¬ a.Wraps) : a.len16 = a.size := if_neg h

theorem emits_action (h : a.Supported) (res : Bool) : Emits (actionEncode res a) a.len16 a.encoded := by
  cases a with
  | fixed t body => exact (writes_struct t body).emits
  | setField o => exact (writes_setField o).emits
  | ed t body ps =>
    cases t with
    | encap => exact emits_ed h
    | decap => exact emits_ed h
  | experimenter len => exact h.elim
  | unknown => exact h.elim

/-! ## Lists of actions, instructions and buckets -/

variable {as : List Action}

theorem actionListEncode_eq_listEncode (h : ∀ a ∈ as, a.Supported) (res : Bool) (total : Nat) (p : Pbuf) :
    actionListEncode res total as p = listEncode (actionEncode true) total as p := by
  induction as generalizing res total p with
  | nil => rfl
  | cons a as ih =>
    obtain ⟨ha, has⟩ := forall_mem_cons.1 h
    have hres : actionEncode res a p = actionEncode true a p := by
      cases a with
      | ed t body ps => cases t <;> rfl
      | experimenter len => exact ha.elim
      | _ => rfl
    rw [actionListEncode, listEncode, hres]
    simp [ih has]

/-- The bytes that are written for a list of actions. -/
def Action.encodedAll (as : List Action) : List Octet := as.flatMap encoded

/-- The sum of the lengths that are given. -/
def Action.lens (as : List Action) : Nat := (as.map len16).sum

theorem Action.lens_of_not_wraps (h : ∀ a ∈ as, ¬ a.Wraps) : lens as = sizes as :=
  congrArg List.sum (map_congr_left fun a ha => len16_of_not_wraps (h a ha))

theorem Action.lens_mod (as : List Action) : lens as % 2 ^ 16 = sizes as % 2 ^ 16 := by
  induction as with
  | nil => rfl
  | cons a as ih =>
    rw [sizes_cons, Nat.add_mod, ← ih, ← len16_mod, ← Nat.add_mod]
    rfl

theorem emits_actions (h : ∀ a ∈ as, a.Supported) :
    Emits (ofpActionListEncode as) (lens as) (encodedAll as) := by
  intro p
  rw [ofpActionListEncode, actionListEncode_eq_listEncode h]
  exact emits_list (fun a ha => emits_action (h a ha) true) p

theorem Action.length_encodedAll (h : ∀ a ∈ as, a.Supported) : (encodedAll as).length = sizes as := by
  rw [encodedAll, length_flatMap, sizes]
  congr 1
  exact map_congr_left fun a ha => length_encoded (h a ha)

theorem Action.size_le_sizes (h : a ∈ as) : a.size ≤ sizes as :=
  single_le_sum (by simp) _ (mem_map_of_mem h)

theorem Action.images_encodedAll (h : ∀ a ∈ as, a.Supported) (hsize : sizes as < 2 ^ 16) :
    Images (as.map sized) (encodedAll as) := by
  induction as with
  | nil => exact images_nil_iff.2 rfl
  | cons a as ih =>
    obtain ⟨ha, has⟩ := forall_mem_cons.1 h
    rw [sizes_cons] at hsize
    exact images_cons_iff.2 ⟨_, _, image_encoded ha (by omega), ih has (by omega), rfl⟩

/-- The bytes that are written for an instruction. -/
def Instruction.encoded (i : Instruction) : List Octet :=
  tlv i.type.code i.size ++ (i.body.bytes ++ encodedAll i.actionList)

variable {i : Instruction}

theorem Instruction.length_encoded (h : i.Supported) : i.encoded.length = i.size := by
  rw [encoded, length_append, length_append, length_tlv, Block.length_eq, length_encodedAll h.2, size]
  omega

theorem Instruction.image_encoded (h : i.Supported) (hsize : i.size < 2 ^ 16) :
    i.sized.Image i.encoded := by
  have hsizes : Action.sizes i.actionList < 2 ^ 16 := by
    rw [size] at hsize
    omega
  refine ⟨_, images_encodedAll h.2 hsizes, ?_⟩
  simp only [encoded, sized, BitVec.toNat_ofNat, mod_eq_of_lt hsize]

/-- The length that is given for an instruction. -/
def Instruction.len16 (i : Instruction) : Nat := 4 + i.type.bodySize + lens i.actionList

theorem Instruction.len16_of_not_wraps (h : ∀ a ∈ i.actionList, ¬ a.Wraps) : i.len16 = i.size := by
  rw [len16, lens_of_not_wraps h, size]

theorem Instruction.len16_mod (i : Instruction) : i.len16 % 2 ^ 16 = i.size % 2 ^ 16 := by
  rw [len16, Nat.add_mod, lens_mod, ← Nat.add_mod, size]

/-- A length that is set behind the actions has to fit, and so has that of the actions. -/
theorem guarded {β : Type} {len lens max : Nat} {room : Prop} [Decidable room] {sum : Option Nat}
    {f : Nat → Option β} (hle : lens ≤ len)
    (hsum : lens < max → sum = if len < max then some len else none) :
    (if room ∧ lens < max then sum.bind f else none) = if room ∧ len < max then f len else none := by
  by_cases hlt : len < max
  · simp [hsum (hle.trans_lt hlt), hle.trans_lt hlt, hlt]
  · rw [if_neg fun h : room ∧ len < max => hlt h.2]
    split_ifs with h
    · simp [hsum h.2, hlt]
    · rfl

theorem emits_instruction (h : i.Supported) : Emits (instructionEncode i) i.len16 i.encoded := by
  intro p
  have hput := put_bind (p := p) (a := tlv i.type.code (4 + i.type.bodySize) ++ i.body.bytes)
    (emits_actions h.2) fun r =>
      (ofpTlvLengthSum (4 + i.type.bodySize) r.1).bind fun len =>
        some (len, r.2.ofpTlvLengthSet p.written.length len)
  refine Eq.trans hput ?_
  have hbytes : (tlv i.type.code (4 + i.type.bodySize) ++ i.body.bytes ++
      encodedAll i.actionList).length = i.encoded.length := by
    simp [Instruction.encoded]
  have hbody : i.type.bodySize ≤ 20 := by cases i.type <;> decide
  rw [hbytes]
  refine Eq.trans (guarded (show lens i.actionList ≤ i.len16 by rw [Instruction.len16]; omega) fun hlens => ?_) ?_
  · exact ofpTlvLengthSum_eq (show 4 + i.type.bodySize < 2 ^ 16 by omega) hlens
  · rw [append_assoc, Pbuf.ofpTlvLengthSet_append, tlv_congr _ i.len16_mod]
    rfl

variable {is : List Instruction}

theorem Instruction.size_le_sizes (h : i ∈ is) : i.size ≤ sizes is :=
  single_le_sum (by simp) _ (mem_map_of_mem h)

theorem Instruction.images_encoded (h : ∀ i ∈ is, i.Supported) (hsize : sizes is < 2 ^ 16) :
    Images (is.map sized) (is.flatMap encoded) :=
  exists_chunks fun i hi => image_encoded (h i hi) ((size_le_sizes hi).trans_lt hsize)

theorem emits_instructions (h : ∀ i ∈ is, i.Supported) : Emits (ofpInstructionListEncode is)
    (is.map Instruction.len16).sum (is.flatMap Instruction.encoded) :=
  emits_list fun i hi => emits_instruction (h i hi)

theorem writes_instructions (h : ∀ i ∈ is, i.Supported) (hw : ∀ i ∈ is, ∀ a ∈ i.actionList, ¬ a.Wraps) :
    Writes (ofpInstructionListEncode is) (Instruction.sizes is) (is.flatMap Instruction.encoded) :=
  writes_list fun i hi => by
    have hemits := emits_instruction (h i hi)
    rw [Instruction.len16_of_not_wraps (hw i hi)] at hemits
    exact hemits.writes (Instruction.length_encoded (h i hi))

/-- The bytes that are written for a bucket. -/
def Bucket.encoded (u : Bucket) : List Octet :=
  Octets.ofNat 2 u.size ++ (u.body.bytes ++ encodedAll u.actionList)

variable {u : Bucket}

theorem Bucket.length_encoded (h : u.Supported) : u.encoded.length = u.size := by
  rw [encoded, length_append, length_append, length_ofNat, Block.length_eq, length_encodedAll h, size]
  omega

theorem Bucket.image_encoded (h : u.Supported) (hsize : u.size < 2 ^ 16) : u.sized.Image u.encoded := by
  have hsizes : Action.sizes u.actionList < 2 ^ 16 := by
    rw [size] at hsize
    omega
  have hsized : u.sized.size = u.size := by simp [size, sized, sizes_map_sized]
  refine ⟨hsized ▸ hsize, _, images_encodedAll h hsizes, ?_⟩
  rw [hsized]
  rfl

/-- The length that is given for a bucket. -/
def Bucket.len16 (u : Bucket) : Nat := 16 + lens u.actionList

theorem Bucket.len16_of_not_wraps (h : ∀ a ∈ u.actionList, ¬ a.Wraps) : u.len16 = u.size := by
  rw [len16, lens_of_not_wraps h, size]

theorem Bucket.len16_mod (u : Bucket) : u.len16 % 2 ^ 16 = u.size % 2 ^ 16 := by
  rw [len16, Nat.add_mod, lens_mod, ← Nat.add_mod, size]

theorem emits_bucket (h : u.Supported) : Emits (bucketEncode u) u.len16 u.encoded := by
  intro p
  have hput := put_bind (p := p) (a := Octets.ofNat 2 0 ++ u.body.bytes)
    (emits_actions h) fun r =>
      (ofpTlvLengthSum r.1 16).bind fun len =>
        some (len, r.2.ofpMultipartLengthSet p.written.length len)
  refine Eq.trans hput ?_
  have hbytes : (Octets.ofNat 2 0 ++ u.body.bytes ++ encodedAll u.actionList).length =
      u.encoded.length := by
    simp [Bucket.encoded]
  rw [hbytes]
  refine Eq.trans (guarded (show lens u.actionList ≤ u.len16 by rw [Bucket.len16]; omega) fun hlens => ?_) ?_
  · rw [ofpTlvLengthSum_eq hlens (show 16 < 2 ^ 16 by decide), add_comm]
    rfl
  · rw [append_assoc, Pbuf.ofpMultipartLengthSet_append, ← ofNat_two_mod, u.len16_mod, ofNat_two_mod]
    rfl

variable {us : List Bucket}

theorem Bucket.size_le_sizes (h : u ∈ us) : u.size ≤ sizes us :=
  single_le_sum (by simp) _ (mem_map_of_mem h)

theorem Bucket.images_encoded (h : ∀ u ∈ us, u.Supported) (hsize : sizes us < 2 ^ 16) :
    Images (us.map sized) (us.flatMap encoded) :=
  exists_chunks fun u hu => image_encoded (h u hu) ((size_le_sizes hu).trans_lt hsize)

theorem emits_buckets (h : ∀ u ∈ us, u.Supported) :
    Emits (ofpBucketListEncode us) (us.map Bucket.len16).sum (us.flatMap Bucket.encoded) :=
  emits_list fun u hu => emits_bucket (h u hu)

theorem writes_buckets (h : ∀ u ∈ us, u.Supported) (hw : ∀ u ∈ us, ∀ a ∈ u.actionList, ¬ a.Wraps) :
    Writes (ofpBucketListEncode us) (Bucket.sizes us) (us.flatMap Bucket.encoded) :=
  writes_list fun u hu => by
    have hemits := emits_bucket (h u hu)
    rw [Bucket.len16_of_not_wraps (hw u hu)] at hemits
    exact hemits.writes (Bucket.length_encoded (h u hu))

end Lagopus.Wire
