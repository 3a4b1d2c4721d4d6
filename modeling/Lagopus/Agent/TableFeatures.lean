import Lagopus.Agent.Parse

/-!
# Parsing hello elements and table features

`ofp_element.c`, and the parsers that `ofp_table_features_handler.c` uses for the body of a request.  They
count the bytes they have read; a loop of a parser that reads no byte does not end.

* `ofpElementParse`: one element of a hello;
* `ofpInstructionHeaderParse`, `ofpActionHeaderParse`: the headers in the properties of a table;
* `tableProperty`: one property of a table, with the loops over what it contains;
* `tablePropertyParse`, `tableFeaturesParse`: the properties of a table, and the tables of a request.
-/

namespace Lagopus.Wire

open Octets Scan

/-! ## Elements -/

/-- `OFPHET_VERSIONBITMAP`. -/
def OFPHET_VERSIONBITMAP : Nat := 1

/-- `struct element`. -/
structure Element where
  type : Nat
  length : Nat
  bitmapList : List (Block 4)
deriving DecidableEq

/-- The loop of `versionbitmap_parse`: `length`, and the bitmaps so far. -/
def bitmapRound (st : Int × List (Block 4)) : Parser (Int × List (Block 4)) := do
  let bitmap ← take 4 (some (.badRequest .badLen))
  pure (st.1 - 4, st.2 ++ [bitmap])

/-- `while (length > 0)`. -/
def bitmapMore (st : Int × List (Block 4)) (_ : List Octet) : Bool := 0 < st.1

/-- `versionbitmap_parse`. -/
def versionbitmapParse (fuel : Nat) : Parser Element := do
  let h ← take 4 (some (.badRequest .badLen))
  let length := field h.bytes 2 2
  let r ← loop bitmapMore bitmapRound fuel ((length : Int) - 4, [])
  pure ⟨field h.bytes 0 2, length, r.2⟩

/-- `ofp_element_parse`; elements of other types are passed over. -/
def ofpElementParse (fuel : Nat) (elementList : List Element) : Parser (List Element) := do
  let t ← ofpTlvDecodeSneak (.badRequest .badLen)
  if t.2 = 4 then do
    let plen ← left
    require (plen = 0) (some (.badRequest .badLen))
    pure elementList
  else if t.2 = 0 then fail (some (.badRequest .badLen))
  else if t.1 = OFPHET_VERSIONBITMAP then do
    let element ← versionbitmapParse fuel
    let _ ← take (padding t.2) (some (.badRequest .badLen))
    pure (elementList ++ [element])
  else do
    let _ ← take (t.2 + padding t.2) (some (.badRequest .badLen))
    pure elementList

/-! ## Headers -/

/-- `switch (tlv.type)` of `ofp_instruction_header_parse`. -/
def instructionHeaderSwitch : Nat → Parser (Block 4)
  | 1 | 2 | 3 | 4 | 5 | 6 => take 4 (some (.badRequest .badLen))
  | 0xffff => fail (some (.badInstruction .unsupInst))
  | _ => fail (some (.badInstruction .unknownInst))

/-- `ofp_instruction_header_parse`, for the new element of its list. -/
def instructionHeader : Parser (Block 4) := do
  let t ← ofpTlvDecodeSneak (.badInstruction .badLen)
  need t.2 (some (.badInstruction .badLen))
  instructionHeaderSwitch t.1

/-- `ofp_instruction_header_parse`. -/
def ofpInstructionHeaderParse (instructionList : List (Block 4)) : Parser (List (Block 4)) :=
  append instructionHeader instructionList

/-- `switch (tlv.type)` of `ofp_action_header_parse`. -/
def actionHeaderSwitch : Nat → Parser (Block 8)
  | 0 | 11 | 12 | 15 | 16 | 17 | 18 | 19 | 20 | 21 | 22 | 23 | 24 | 25 | 26 | 27 | 28 | 29 =>
    take 8 (some (.badAction .badLen))
  | 0xffff => fail (some (.badRequest .badExperimenter))
  | _ => fail (some (.badAction .badType))

/-- A round of `ofp_action_header_parse`: what is left of the actions, and the list so far. -/
def actionHeaderStep (st : Int × List (Block 8)) : Parser (Int × List (Block 8)) := do
  let t ← ofpTlvDecodeSneak (.badAction .badLen)
  need t.2 (some (.badAction .badLen))
  let h ← actionHeaderSwitch t.1
  pure (st.1 - t.2, st.2 ++ [h])

/-- `ofpat < ofpat_end`. -/
def actionHeaderMore (st : Int × List (Block 8)) (_ : List Octet) : Bool := 0 < st.1

/-- `ofp_action_header_parse`. -/
def ofpActionHeaderParse (fuel actionLength : Nat) (actionList : List (Block 8)) :
    Parser (List (Block 8)) := do
  let r ← loop actionHeaderMore actionHeaderStep fuel ((actionLength : Int), actionList)
  pure r.2

/-! ## Properties -/

/-- A round of a loop that counts the bytes: `x` extends the list, and `n` is added. -/
def countRound {α : Type} (n : Nat) (x : List α → Parser (List α)) (st : Nat × List α) :
    Parser (Nat × List α) := do
  let l ← x st.2
  pure (st.1 + n, l)

/-- `while (read_byte < byte)`. -/
def countMore {α : Type} (byte : Nat) (st : Nat × List α) (_ : List Octet) : Bool := st.1 < byte

/-- The loop that counts the bytes it has read. -/
def countLoop {α : Type} (fuel byte n : Nat) (x : List α → Parser (List α)) : Parser (Nat × List α) :=
  loop (countMore byte) (countRound n x) fuel (0, [])

variable (fuel byte : Nat)

/-- `s_ofp_instruction_header_parse`: without a round it fails, and sets no error. -/
def sOfpInstructionHeaderParse : Parser (List (Block 4)) := do
  require (0 < byte) none
  let r ← countLoop fuel byte 4 ofpInstructionHeaderParse
  pure r.2

/-- `s_ofp_action_header_parse`: without a round it fails, and sets no error. -/
def sOfpActionHeaderParse (fuel byte actionLength : Nat) : Parser (List (Block 8)) := do
  require (0 < byte) none
  let r ← countLoop fuel byte actionLength (ofpActionHeaderParse fuel actionLength)
  pure r.2

/-- Reads units of `n` bytes; the bytes have to be a multiple. -/
def unitsParse (fuel byte n : Nat) : Parser (List (Block n)) := do
  let r ← countLoop fuel byte n
    (append (take n (some (.tableFeaturesFailed .badLen))))
  require (r.1 = byte) (some (.tableFeaturesFailed .badLen))
  pure r.2

/-- `s_prop_next_tables_parse`. -/
def sPropNextTablesParse : Parser (List (Block 1)) := unitsParse fuel byte 1

/-- `s_table_feature_prop_oxm_parse`. -/
def sTableFeaturePropOxmParse : Parser (List (Block 4)) := unitsParse fuel byte 4

/-- The list of a `struct table_property` that its type fills. -/
inductive PropertyBody
  | instructionList (l : List (Block 4))
  | nextTableIdList (l : List (Block 1))
  | actionList (l : List (Block 8))
  | oxmIdList (l : List (Block 4))
deriving DecidableEq

/-- `struct table_property`. -/
structure TableProperty where
  type : Nat
  length : Nat
  body : PropertyBody
deriving DecidableEq

/-- The actions of a property; the length of the first one counts for all. -/
def propertyActions : Parser (List (Block 8)) := do
  let t ← ofpTlvDecodeSneak (.tableFeaturesFailed .badLen)
  sOfpActionHeaderParse fuel byte t.2

/-- `switch (table_property->ofp.type)`. -/
def propertySwitch : Nat → Parser PropertyBody
  | 0 | 1 => do
    let l ← sOfpInstructionHeaderParse fuel byte
    pure (.instructionList l)
  | 2 | 3 => do
    let l ← sPropNextTablesParse fuel byte
    pure (.nextTableIdList l)
  | 4 | 5 | 6 | 7 => do
    let l ← propertyActions fuel byte
    pure (.actionList l)
  | 8 | 10 | 12 | 13 | 14 | 15 => do
    let l ← sTableFeaturePropOxmParse fuel byte
    pure (.oxmIdList l)
  | 0xfffe | 0xffff => fail (some (.badRequest .badExperimenter))
  | _ => fail (some (.tableFeaturesFailed .badType))

/-- A round of the loop over the properties. -/
def tableProperty (fuel : Nat) : Parser TableProperty := do
  let h ← take 4 (some (.tableFeaturesFailed .badLen))
  let length := field h.bytes 2 2
  -- The difference `length - sizeof(struct ofp_tlv)` is unsigned: below 4 it exceeds every length.
  require (4 ≤ length) (some (.tableFeaturesFailed .badLen))
  need (length - 4) (some (.tableFeaturesFailed .badLen))
  let body ← propertySwitch fuel (length - 4) (field h.bytes 0 2)
  let _ ← take (padding length) (some (.tableFeaturesFailed .badLen))
  pure ⟨field h.bytes 0 2, length, body⟩

/-- The state of the `do … while` loop: whether its first round is still to come, and the list. -/
abbrev PropertyState := Bool × List TableProperty

/-- The first round is made in any case. -/
def propertyMore (endLeft : Int) (st : PropertyState) (b : List Octet) : Bool := st.1 || before endLeft b

def propertyStep (fuel : Nat) (st : PropertyState) : Parser PropertyState := do
  let l ← append (tableProperty fuel) st.2
  pure (false, l)

/-- `s_table_property_parse`; `length` is that of the table features. -/
def tablePropertyParse (fuel length : Nat) (propertyList : List TableProperty) :
    Parser (List TableProperty) := do
  let start ← left
  let endLeft : Int := start - ((length : Int) - 64)
  let r ← loop (propertyMore endLeft) (propertyStep fuel) fuel (true, propertyList)
  let now ← left
  require (endLeft = now) (some (.tableFeaturesFailed .badLen))
  pure r.2

/-- `s_parse_table_property_list`. -/
def parseTablePropertyList (fuel length : Nat) (propertyList : List TableProperty) :
    Parser (List TableProperty) := do
  let plen ← left
  if propertyList = [] ∧ plen = 0 then pure propertyList
  else tablePropertyParse fuel length propertyList

/-- A round of `ofp_table_features_request_handle`: `struct ofp_table_features` and its properties.  The
list of properties is the same one in every round. -/
def tableFeaturesRound (fuel : Nat) (propertyList : List TableProperty) :
    Parser (List TableProperty) := do
  let h ← take 64 (some (.badRequest .badLen))
  parseTablePropertyList fuel (field h.bytes 0 2) propertyList

/-- The loop of `ofp_table_features_request_handle`, where the features can be set in every round. -/
def tableFeaturesParse (fuel : Nat) : Parser (List TableProperty) :=
  loop (fun _ b => before 0 b) (tableFeaturesRound fuel) fuel []

end Lagopus.Wire
