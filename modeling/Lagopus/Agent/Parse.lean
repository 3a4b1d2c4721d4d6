import Lagopus.Agent.Wire
import Lagopus.Lib.Scan

/-!
# Parsing matches, actions, instructions and buckets

`ofp_match.c`, `ofp_action.c`, `ofp_instruction.c` and `ofp_bucket.c`, over what is left of the message.
A pointer into the message is the number of bytes that are left from there on; a pointer behind the
message, or before its beginning, is an integer of the same kind.

* `OfpError`: the errors that the parsers set; a failure without one is `none`;
* `ofpMatchParse`, `ofpActionParse`, `ofpInstructionParse`, `ofpBucketParse`: the parsers, for a number
  of rounds of their loops;
* `flowModParse`: the match and the instructions of a flow-mod;
* `Parsed`: what a parser returns and what is in its list afterwards.
-/

namespace Lagopus.Wire

open Octets Scan

/-! ## Errors -/

/-- `OFPBRC_*`, as far as the parsers use them. -/
inductive BadRequestCode
  | badExperimenter | badLen
deriving DecidableEq

/-- `OFPBAC_*`. -/
inductive BadActionCode
  | badType | badLen | badSetType | badSetLen
deriving DecidableEq

/-- `OFPBIC_*`. -/
inductive BadInstructionCode
  | unknownInst | unsupInst | badLen
deriving DecidableEq

/-- `OFPBMC_*`. -/
inductive BadMatchCode
  | badType | badLen | badField
deriving DecidableEq

/-- `OFPTFFC_*`. -/
inductive TableFeaturesFailedCode
  | badType | badLen
deriving DecidableEq

/-- The type and the code that `ofp_error_set` is given. -/
inductive OfpError
  | badRequest (code : BadRequestCode)
  | badAction (code : BadActionCode)
  | badInstruction (code : BadInstructionCode)
  | badMatch (code : BadMatchCode)
  | tableFeaturesFailed (code : TableFeaturesFailedCode)
deriving DecidableEq

/-- A parser; it may fail without an error set. -/
abbrev Parser := Scan (Option OfpError)

/-- What a parser returns, and its output list, which it frees unless all went well. -/
structure Parsed (α : Type) where
  ret : Outcome (Option OfpError) Unit
  list : List α

/-- `if (ret != LAGOPUS_RESULT_OK) …_list_elem_free(…)`. -/
def Parsed.of {α : Type} : Outcome (Option OfpError) (List α) → Parsed α
  | .ok list rest => ⟨.ok () rest, list⟩
  | .stop s => ⟨.stop s, []⟩

/-- `ofp_tlv_decode_sneak`: type and length. -/
def ofpTlvDecodeSneak (e : OfpError) : Parser (Nat × Nat) := do
  let t ← sneak 4 (some e)
  pure (field t.bytes 0 2, field t.bytes 2 2)

/-! ## Matches -/

/-- `OPENFLOW_VERSION_1_3`. -/
def OPENFLOW_VERSION_1_3 : Nat := 4

/-- `ofp_oxm_check`. -/
def ofpOxmCheck (oxmClass : BitVec 16) (oxmField : Octet) : Parser Unit := do
  require (oxmClass = OFPXMC_OPENFLOW_BASIC) (some (.badMatch .badType))
  require (ofpOxmFieldCheck oxmField = true) (some (.badMatch .badField))

/-- The members of `struct ofp_oxm`. -/
def oxmClassOf (h : Block 4) : BitVec 16 := BitVec.ofNat 16 (field h.bytes 0 2)

def oxmFieldOf (h : Block 4) : Octet := h.bytes.getD 2 0

def oxmLengthOf (h : Block 4) : Octet := h.bytes.getD 3 0

/-- A field, from its header and its value. -/
def Oxm.ofHeader (h : Block 4) (v : Block (oxmLengthOf h).toNat) : Oxm :=
  ⟨oxmClassOf h, oxmFieldOf h, v.bytes, by rw [v.length_eq]; exact BitVec.isLt _⟩

/-- One match field.  That it ends before the message does is not checked. -/
def oxmParse : Parser Oxm := do
  let h ← takeUnchecked 4
  ofpOxmCheck (oxmClassOf h) (oxmFieldOf h)
  let v ← takeUnchecked (oxmLengthOf h).toNat
  pure (.ofHeader h v)

/-- The new entry goes before the first one with a larger field type. -/
def matchInsert (m : Oxm) : List Oxm → List Oxm
  | [] => [m]
  | mp :: l =>
    if oxmFieldType m.oxmField < oxmFieldType mp.oxmField then m :: mp :: l
    else mp :: matchInsert m l

/-- The end is not reached. -/
def before (endLeft : Int) (b : List Octet) : Bool := endLeft < b.length

/-- A round of the loop over the match fields. -/
def oxmRound (matchList : List Oxm) : Parser (List Oxm) := do
  let m ← oxmParse
  pure (matchInsert m matchList)

variable (fuel : Nat)

/-- `while (oxm < match_end)`. -/
def oxmLoop (endLeft : Int) (matchList : List Oxm) : Parser (List Oxm) :=
  loop (fun _ b => before endLeft b) oxmRound fuel matchList

/-- `ofp_match_parse`, with the list as it is given. -/
def ofpMatchParse (fuel version : Nat) (matchList : List Oxm) : Parser (List Oxm) := do
  let t ← ofpTlvDecodeSneak (.badMatch .badLen)
  require (version < OPENFLOW_VERSION_1_3 ∨ t.1 = OFPMT_OXM) (some (.badMatch .badType))
  let totalLength := (t.2 + 7) / 8 * 8
  need totalLength (some (.badMatch .badLen))
  if t.2 = 4 then do
    let _ ← take totalLength (some (.badMatch .badLen))
    pure matchList
  else do
    let start ← left
    let endLeft : Int := start - t.2
    let r ← ahead 4 (oxmLoop fuel endLeft matchList)
    require (endLeft = r.2) (some (.badMatch .badLen))
    let _ ← take totalLength (some (.badMatch .badLen))
    pure r.1

/-! ## Actions -/

/-- Decodes the structure of an action. -/
def structParse (t : FixedAction) : Parser Action := do
  let s ← takePair 4 t.bodySize (some (.badAction .badLen))
  pure (.fixed t s.2)

/-- `ofp_action_output_parse`. -/
def ofpActionOutputParse : Parser Action := structParse .output

/-- `ofp_action_header_parse_internal`. -/
def ofpActionHeaderParseInternal (t : FixedAction) : Parser Action := structParse t

/-- `ofp_action_push_parse`. -/
def ofpActionPushParse (t : FixedAction) : Parser Action := structParse t

/-- `ofp_action_pop_mpls_parse`. -/
def ofpActionPopMplsParse : Parser Action := structParse .popMpls

/-- `ofp_action_mpls_ttl_parse`. -/
def ofpActionMplsTtlParse : Parser Action := structParse .setMplsTtl

/-- `ofp_action_set_queue_parse`. -/
def ofpActionSetQueueParse : Parser Action := structParse .setQueue

/-- `ofp_action_group_parse`. -/
def ofpActionGroupParse : Parser Action := structParse .group

/-- `ofp_action_nw_ttl_parse`. -/
def ofpActionNwTtlParse : Parser Action := structParse .setNwTtl

/-- `ofp_action_set_field_parse`, with `ofp_action_set_field_check`. -/
def ofpActionSetFieldParse : Parser Action := do
  let s ← takePair 4 4 (some (.badAction .badLen))
  let len := field s.1.bytes 2 2
  let oxmLength := (oxmLengthOf s.2).toNat
  -- The difference `len - sizeof(struct ofp_action_set_field)` is unsigned.
  require (oxmLength + padding oxmLength + 8 = len) (some (.badAction .badSetLen))
  need oxmLength (some (.badAction .badSetLen))
  require (oxmClassOf s.2 = OFPXMC_OPENFLOW_BASIC ∧ ofpOxmFieldCheck (oxmFieldOf s.2) = true)
    (some (.badAction .badSetType))
  let v ← takePair oxmLength (padding oxmLength) (some (.badAction .badSetLen))
  pure (.setField (.ofHeader s.2 v.1))

/-- `ofp_action_ed_prop_parse`: a port name that is cut off sets no error. -/
def ofpActionEdPropParse : Parser EdProp := do
  let t ← ofpTlvDecodeSneak (.badAction .badLen)
  need t.2 (some (.badAction .badLen))
  if t.1 = OFPPPT_PROP_PORT_NAME then do
    let s ← takePair 4 20 none
    pure (.portName (BitVec.ofNat 16 t.2) s.2)
  else fail (some (.badAction .badType))

/-- `while (pbuf_getp_get(pbuf) < ed_prop_end)`. -/
def edPropLoop (endLeft : Int) : Parser (List EdProp) :=
  collect (before endLeft) ofpActionEdPropParse fuel []

/-- An action with properties. -/
def edParse (t : EdAction) : Parser Action := do
  let s ← takePair 4 t.bodySize (some (.badAction .badLen))
  let start ← left
  let endLeft : Int := start - (field s.1.bytes 2 2 - (4 + t.bodySize : Nat))
  let ps ← edPropLoop fuel endLeft
  let now ← left
  require (endLeft = now) (some (.badAction .badLen))
  pure (.ed t s.2 ps)

/-- `ofp_action_encap_parse`. -/
def ofpActionEncapParse : Parser Action := edParse fuel .encap

/-- `ofp_action_decap_parse`. -/
def ofpActionDecapParse : Parser Action := edParse fuel .decap

/-- `switch (tlv.type)`. -/
def actionSwitch : Nat → Parser Action
  | 0 => ofpActionOutputParse
  | 11 => ofpActionHeaderParseInternal .copyTtlOut
  | 12 => ofpActionHeaderParseInternal .copyTtlIn
  | 15 => ofpActionMplsTtlParse
  | 16 => ofpActionHeaderParseInternal .decMplsTtl
  | 17 => ofpActionPushParse .pushVlan
  | 18 => ofpActionHeaderParseInternal .popVlan
  | 19 => ofpActionPushParse .pushMpls
  | 20 => ofpActionPopMplsParse
  | 21 => ofpActionSetQueueParse
  | 22 => ofpActionGroupParse
  | 23 => ofpActionNwTtlParse
  | 24 => ofpActionHeaderParseInternal .decNwTtl
  | 25 => ofpActionSetFieldParse
  | 26 => ofpActionPushParse .pushPbb
  | 27 => ofpActionHeaderParseInternal .popPbb
  | 28 => ofpActionEncapParse fuel
  | 29 => ofpActionDecapParse fuel
  | 0xffff => fail (some (.badRequest .badExperimenter))
  | _ => fail (some (.badAction .badType))

/-- A round of the loop over the actions: the action, and what it says of its length. -/
def actionRound : Parser (Action × Nat) := do
  let t ← ofpTlvDecodeSneak (.badAction .badLen)
  need t.2 (some (.badAction .badLen))
  let start ← left
  let a ← actionSwitch fuel t.1
  let now ← left
  require (now + t.2 = start) (some (.badAction .badLen))
  pure (a, t.2)

/-- What is left of the actions, and the list so far, after a round. -/
def actionStep (st : Int × List Action) : Parser (Int × List Action) := do
  let r ← actionRound fuel
  pure (st.1 - r.2, st.2 ++ [r.1])

/-- `ofpat < ofpat_end`. -/
def actionMore (st : Int × List Action) (_ : List Octet) : Bool := 0 < st.1

/-- `ofp_action_parse`; `todo` is `ofpat_end - ofpat`. -/
def ofpActionParse (todo : Int) (actionList : List Action) : Parser (List Action) := do
  let r ← loop actionMore (actionStep fuel) fuel (todo, actionList)
  pure r.2

/-! ## Instructions -/

/-- Decodes the structure of an instruction. -/
def instructionStruct (t : InstructionType) (len : Nat) : Parser Instruction := do
  let s ← takePair 4 t.bodySize (some (.badRequest .badLen))
  pure ⟨t, BitVec.ofNat 16 len, s.2, []⟩

/-- The structure and the actions after it. -/
def instructionActions (t : InstructionType) (len : Nat) : Parser Instruction := do
  let i ← instructionStruct t len
  let as ← ofpActionParse fuel ((len : Int) - 8) []
  require (t = .clearActions → as = []) (some (.badInstruction .badLen))
  pure { i with actionList := as }

/-- `switch (tlv.type)`. -/
def instructionSwitch (fuel len : Nat) : Nat → Parser Instruction
  | 1 => instructionStruct .gotoTable len
  | 2 => instructionStruct .writeMetadata len
  | 3 => instructionActions fuel .writeActions len
  | 4 => instructionActions fuel .applyActions len
  | 5 => instructionActions fuel .clearActions len
  | 6 => instructionStruct .meter len
  | 0xffff => fail (some (.badInstruction .unsupInst))
  | _ => fail (some (.badInstruction .unknownInst))

/-- `ofp_instruction_parse`, for the new element of its list. -/
def instructionParse : Parser Instruction := do
  let t ← ofpTlvDecodeSneak (.badRequest .badLen)
  need t.2 (some (.badInstruction .badLen))
  instructionSwitch fuel t.2 t.1

/-- `ofp_instruction_parse`. -/
def ofpInstructionParse (instructionList : List Instruction) :
    Parser (List Instruction) :=
  append (instructionParse fuel) instructionList

/-- `while (pbuf_plen_get(pbuf) > 0) ofp_instruction_parse(…)`. -/
def instructionsParse : Parser (List Instruction) :=
  loop (fun _ b => before 0 b) (ofpInstructionParse fuel) fuel []

/-- The match and the instructions of a flow-mod that is no deletion. -/
def flowModParse (fuel version : Nat) : Parser (List Oxm × List Instruction) := do
  let ms ← ofpMatchParse fuel version []
  let is ← instructionsParse fuel
  pure (ms, is)

/-! ## Buckets -/

/-- `ofp_bucket_parse`, for the new element of its list. -/
def bucketParse : Parser Bucket := do
  let start ← left
  let s ← takePair 2 14 (some (.badRequest .badLen))
  let len := toNat s.1.bytes
  -- `bucket->ofp.len - sizeof(struct ofp_bucket)` is unsigned: below 16 it exceeds every length.
  require (16 ≤ len) (some (.badRequest .badLen))
  need (len - 16) (some (.badRequest .badLen))
  let as ← ofpActionParse fuel ((len : Int) - 16) []
  let now ← left
  require (now + len = start) (some (.badRequest .badLen))
  pure ⟨s.2, as⟩

/-- `ofp_bucket_parse`. -/
def ofpBucketParse (bucketList : List Bucket) : Parser (List Bucket) :=
  append (bucketParse fuel) bucketList

/-- `while (pbuf_plen_get(pbuf) > 0) ofp_bucket_parse(…)`. -/
def bucketsParse : Parser (List Bucket) :=
  loop (fun _ b => before 0 b) (ofpBucketParse fuel) fuel []

end Lagopus.Wire
