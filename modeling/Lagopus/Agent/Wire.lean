import Lagopus.Lib.Octets
import Lagopus.OpenFlow.Oxm

/-!
# Matches, actions, instructions and buckets as bytes

The lists that the agent keeps of a message, and the bytes they stand for.  The generated codecs copy
the members of a structure in order, the padding included, so that a structure of fixed layout is the
block of its bytes.  A length that the switch checks against the bytes it has read is not kept; the
ones that it does not check are.

* `Oxm`, `Action`, `Instruction`, `Bucket`: `struct match`, `struct action`, `struct instruction` and
  `struct bucket`;
* `Action.Image`, `Instruction.Image`, `Bucket.Image`: the bytes are those of the element, apart from
  what stands in the padding;
* `Action.size`, `Instruction.size`, `Bucket.size`: how many bytes an element takes.
-/

namespace Lagopus.Wire

open Octets List

/-- `struct ofp_tlv`. -/
def tlv (type length : Nat) : List Octet := Octets.ofNat 2 type ++ Octets.ofNat 2 length

@[simp]
theorem length_tlv (type length : Nat) : (tlv type length).length = 4 := by simp [tlv]

/-- `GET_64BIT_PADDING_LENGTH`. -/
def padding (length : Nat) : Nat := (length + 7) / 8 * 8 - length

theorem padding_lt (n : Nat) : padding n < 8 := by
  unfold padding
  omega

theorem padding_add_eight (n : Nat) : padding (8 + n) = padding n := by
  unfold padding
  omega

/-! ## Match fields -/

/-- `OFPXMC_OPENFLOW_BASIC`. -/
def OFPXMC_OPENFLOW_BASIC : BitVec 16 := 0x8000

/-- `OXM_FIELD_TYPE`. -/
def oxmFieldType (oxmField : Octet) : Nat := oxmField.toNat / 2

/-- `ofp_oxm_field_check`. -/
def ofpOxmFieldCheck (oxmField : Octet) : Bool := (OxmField.ofCode (oxmFieldType oxmField)).isSome

/-- `struct match`, and the field of a set-field action; `oxm_length` is the length of the value. -/
structure Oxm where
  oxmClass : BitVec 16
  oxmField : Octet
  oxmValue : List Octet
  length_lt : oxmValue.length < 256
deriving DecidableEq

namespace Oxm

/-- `struct ofp_oxm`. -/
def header (o : Oxm) : List Octet :=
  Octets.ofNat 2 o.oxmClass.toNat ++ [o.oxmField, BitVec.ofNat 8 o.oxmValue.length]

def bytes (o : Oxm) : List Octet := o.header ++ o.oxmValue

/-- The class and the field are ones the switch knows. -/
def Supported (o : Oxm) : Prop :=
  o.oxmClass = OFPXMC_OPENFLOW_BASIC ∧ ofpOxmFieldCheck o.oxmField = true

instance (o : Oxm) : Decidable o.Supported := inferInstanceAs (Decidable (_ ∧ _))

def size (o : Oxm) : Nat := 4 + o.oxmValue.length

@[simp]
theorem length_header (o : Oxm) : o.header.length = 4 := by simp [header]

@[simp]
theorem length_bytes (o : Oxm) : o.bytes.length = o.size := by simp [bytes, size]

end Oxm

/-- `OFPMT_OXM`. -/
def OFPMT_OXM : Nat := 1

/-- How many bytes a match takes, without the padding. -/
def matchSize (ms : List Oxm) : Nat := 4 + (ms.map Oxm.size).sum

/-- The bytes are those of a match with the fields in this order. -/
def MatchImage (type : Nat) (ms : List Oxm) (c : List Octet) : Prop :=
  matchSize ms < 2 ^ 16 ∧ ∃ pad : Block (padding (matchSize ms)),
    c = tlv type (matchSize ms) ++ (ms.flatMap Oxm.bytes ++ pad.bytes)

theorem length_flatMap_oxm (ms : List Oxm) : (ms.flatMap Oxm.bytes).length = (ms.map Oxm.size).sum := by
  rw [length_flatMap]
  simp only [Oxm.length_bytes]

/-! ## Actions -/

/-- A property of an encap or decap action.  `len` is what the property says of its length. -/
inductive EdProp
  /-- `struct ofp_ed_prop_portname`. -/
  | portName (len : BitVec 16) (body : Block 20)
  /-- Any other type. -/
  | other
deriving DecidableEq

/-- `OFPPPT_PROP_PORT_NAME`. -/
def OFPPPT_PROP_PORT_NAME : Nat := 1

namespace EdProp

/-- `sizeof(struct ofp_ed_prop_portname)`. -/
def portNameSize : Nat := 24

def bytes : EdProp → List Octet
  | portName len body => tlv OFPPPT_PROP_PORT_NAME len.toNat ++ body.bytes
  | other => []

def Supported : EdProp → Prop
  | portName _ _ => True
  | other => False

instance : (p : EdProp) → Decidable p.Supported
  | portName _ _ => isTrue trivial
  | other => isFalse id

/-- The property says of its length what it is. -/
def Exact : EdProp → Prop
  | portName len _ => len.toNat = portNameSize
  | other => True

instance : (p : EdProp) → Decidable p.Exact
  | portName len _ => inferInstanceAs (Decidable (len.toNat = portNameSize))
  | other => isTrue trivial

/-- The property with its length put right. -/
def sized : EdProp → EdProp
  | portName _ body => portName (BitVec.ofNat 16 portNameSize) body
  | other => other

theorem supported_sized {p : EdProp} : p.sized.Supported ↔ p.Supported := by cases p <;> rfl

theorem exact_sized (p : EdProp) : p.sized.Exact := by
  cases p with
  | portName len body => exact show (BitVec.ofNat 16 portNameSize).toNat = portNameSize by decide
  | other => trivial

theorem length_bytes {p : EdProp} (h : p.Supported) : p.bytes.length = portNameSize := by
  cases p with
  | portName len body => simp [bytes, portNameSize]
  | other => exact h.elim

theorem length_flatMap_bytes {ps : List EdProp} (h : ∀ p ∈ ps, p.Supported) :
    (ps.flatMap bytes).length = portNameSize * ps.length := by
  induction ps with
  | nil => rfl
  | cons p ps ih =>
    rw [flatMap_cons, length_append, length_bytes (h p (by simp)),
      ih fun q hq => h q (by simp [hq]), length_cons]
    ring

end EdProp

/-- The actions whose structure has a fixed layout. -/
inductive FixedAction
  | output | copyTtlOut | copyTtlIn | setMplsTtl | decMplsTtl | pushVlan | popVlan | pushMpls | popMpls
  | setQueue | group | setNwTtl | decNwTtl | pushPbb | popPbb
deriving DecidableEq

namespace FixedAction

/-- `OFPAT_*`. -/
def code : FixedAction → Nat
  | output => 0
  | copyTtlOut => 11
  | copyTtlIn => 12
  | setMplsTtl => 15
  | decMplsTtl => 16
  | pushVlan => 17
  | popVlan => 18
  | pushMpls => 19
  | popMpls => 20
  | setQueue => 21
  | group => 22
  | setNwTtl => 23
  | decNwTtl => 24
  | pushPbb => 26
  | popPbb => 27

/-- The bytes of the structure after type and length. -/
def bodySize : FixedAction → Nat
  | output => 12
  | _ => 4

end FixedAction

/-- `OFPAT_SET_FIELD`. -/
def OFPAT_SET_FIELD : Nat := 25

/-- The actions with a list of properties. -/
inductive EdAction
  | encap | decap
deriving DecidableEq

namespace EdAction

/-- `OFPAT_*`. -/
def code : EdAction → Nat
  | encap => 28
  | decap => 29

/-- The bytes of the structure after type and length. -/
def bodySize : EdAction → Nat
  | encap => 4
  | decap => 12

end EdAction

/-- `struct action`. -/
inductive Action
  | fixed (type : FixedAction) (body : Block type.bodySize)
  | setField (oxm : Oxm)
  | ed (type : EdAction) (body : Block type.bodySize) (edPropList : List EdProp)
  | experimenter (len : BitVec 16)
  /-- A type that is none of `OFPAT_*`. -/
  | unknown
deriving DecidableEq

namespace Action

/-- The types that the switch supports. -/
def Supported : Action → Prop
  | fixed _ _ => True
  | setField oxm => oxm.Supported
  | ed _ _ ps => ∀ p ∈ ps, p.Supported
  | experimenter _ => False
  | unknown => False

instance : (a : Action) → Decidable a.Supported
  | fixed _ _ => isTrue trivial
  | setField oxm => inferInstanceAs (Decidable oxm.Supported)
  | ed _ _ ps => inferInstanceAs (Decidable (∀ p ∈ ps, p.Supported))
  | experimenter _ => isFalse id
  | unknown => isFalse id

/-- Every length in the action is what it is. -/
def Exact : Action → Prop
  | ed _ _ ps => ∀ p ∈ ps, p.Exact
  | _ => True

instance : (a : Action) → Decidable a.Exact
  | fixed _ _ => isTrue trivial
  | setField _ => isTrue trivial
  | ed _ _ ps => inferInstanceAs (Decidable (∀ p ∈ ps, p.Exact))
  | experimenter _ => isTrue trivial
  | unknown => isTrue trivial

def size : Action → Nat
  | fixed t _ => 4 + t.bodySize
  | setField o => 8 + o.oxmValue.length + padding o.oxmValue.length
  | ed t _ ps => 4 + t.bodySize + EdProp.portNameSize * ps.length
  | experimenter _ => 0
  | unknown => 0

/-- The action with its lengths put right. -/
def sized : Action → Action
  | ed t body ps => ed t body (ps.map EdProp.sized)
  | a => a

theorem size_sized (a : Action) : a.sized.size = a.size := by
  cases a <;> simp [sized, size]

theorem exact_sized (a : Action) : a.sized.Exact := by
  cases a with
  | ed t body ps =>
    intro p hp
    obtain ⟨q, -, rfl⟩ := mem_map.1 hp
    exact q.exact_sized
  | _ => trivial

variable {a : Action}

theorem supported_sized (h : a.Supported) : a.sized.Supported := by
  cases a with
  | ed t body ps =>
    intro p hp
    obtain ⟨q, hq, rfl⟩ := mem_map.1 hp
    exact EdProp.supported_sized.2 (h q hq)
  | _ => exact h

/-- The bytes are those of the action. -/
def Image : Action → List Octet → Prop
  | fixed t body, c => c = tlv t.code (4 + t.bodySize) ++ body.bytes
  | setField o, c => o.Supported ∧ ∃ pad : Block (padding o.oxmValue.length),
      c = tlv OFPAT_SET_FIELD (8 + o.oxmValue.length + padding o.oxmValue.length) ++
        (o.bytes ++ pad.bytes)
  | ed t body ps, c => (∀ p ∈ ps, p.Supported) ∧ (ed t body ps).size < 2 ^ 16 ∧
      c = tlv t.code (ed t body ps).size ++ (body.bytes ++ ps.flatMap EdProp.bytes)
  | experimenter _, _ => False
  | unknown, _ => False

variable {c : List Octet}

theorem Image.supported (h : a.Image c) : a.Supported := by
  cases a with
  | fixed t body => trivial
  | setField o => exact h.1
  | ed t body ps => exact h.1
  | experimenter len => exact h.elim
  | unknown => exact h.elim

theorem Image.length_eq (h : a.Image c) : c.length = a.size := by
  cases a with
  | fixed t body =>
    cases h
    simp [size]
  | setField o =>
    obtain ⟨-, pad, rfl⟩ := h
    simp [size, Oxm.size]
    omega
  | ed t body ps =>
    obtain ⟨hps, -, rfl⟩ := h
    simp only [length_append, length_tlv, Block.length_eq, EdProp.length_flatMap_bytes hps, size]
    omega
  | experimenter len => exact h.elim
  | unknown => exact h.elim

theorem size_pos (h : a.Supported) : 0 < a.size := by
  cases a with
  | fixed t body => exact Nat.add_pos_left (by decide) _
  | setField o => simp only [size]; omega
  | ed t body ps => simp only [size]; omega
  | experimenter len => exact h.elim
  | unknown => exact h.elim

/-- How many bytes a list of actions takes. -/
def sizes (as : List Action) : Nat := (as.map size).sum

@[simp]
theorem sizes_nil : sizes [] = 0 := rfl

@[simp]
theorem sizes_cons (a : Action) (as : List Action) : sizes (a :: as) = a.size + sizes as := by
  simp [sizes]

theorem sizes_map_sized (as : List Action) : sizes (as.map sized) = sizes as := by
  rw [sizes, sizes, map_map]
  congr 1
  exact map_congr_left fun a _ => a.size_sized

/-- The bytes are those of the actions, one after the other. -/
def Images (as : List Action) (c : List Octet) : Prop := ∃ cs, List.Forall₂ Image as cs ∧ c = cs.flatten

theorem images_nil_iff : Images [] c ↔ c = [] := by
  constructor
  · rintro ⟨cs, h, rfl⟩
    cases h
    rfl
  · rintro rfl
    exact ⟨[], .nil, rfl⟩

theorem images_cons_iff {as : List Action} :
    Images (a :: as) c ↔ ∃ d d', a.Image d ∧ Images as d' ∧ c = d ++ d' := by
  constructor
  · rintro ⟨cs, h, rfl⟩
    cases h with
    | cons ha h => exact ⟨_, _, ha, ⟨_, h, rfl⟩, rfl⟩
  · rintro ⟨d, d', ha, ⟨cs, h, rfl⟩, rfl⟩
    exact ⟨d :: cs, .cons ha h, rfl⟩

theorem Images.length_eq {as : List Action} (h : Images as c) : c.length = sizes as := by
  induction as generalizing c with
  | nil => rw [images_nil_iff.1 h]; rfl
  | cons a as ih =>
    obtain ⟨d, d', ha, has, rfl⟩ := images_cons_iff.1 h
    rw [length_append, ha.length_eq, ih has, sizes_cons]

end Action

/-! ## Instructions -/

/-- `OFPIT_*`. -/
inductive InstructionType
  | gotoTable | writeMetadata | writeActions | applyActions | clearActions | meter | experimenter
deriving DecidableEq

namespace InstructionType

def code : InstructionType → Nat
  | gotoTable => 1
  | writeMetadata => 2
  | writeActions => 3
  | applyActions => 4
  | clearActions => 5
  | meter => 6
  | experimenter => 0xffff

/-- The bytes of the structure after type and length. -/
def bodySize : InstructionType → Nat
  | writeMetadata => 20
  | _ => 4

/-- The types after whose structure actions are looked for. -/
def hasActions : InstructionType → Bool
  | writeActions | applyActions | clearActions => true
  | _ => false

/-- The types that come with a list of actions. -/
def takesActions : InstructionType → Bool
  | writeActions | applyActions => true
  | _ => false

end InstructionType

/-- `struct instruction`: the structure of its type and a list of actions.  `len` is what the
instruction says of its length. -/
structure Instruction where
  type : InstructionType
  len : BitVec 16
  body : Block type.bodySize
  actionList : List Action
deriving DecidableEq

namespace Instruction

/-- The types that the switch supports. -/
def Supported (i : Instruction) : Prop :=
  i.type ≠ .experimenter ∧ ∀ a ∈ i.actionList, a.Supported

instance (i : Instruction) : Decidable i.Supported := inferInstanceAs (Decidable (_ ∧ _))

def size (i : Instruction) : Nat := 4 + i.type.bodySize + Action.sizes i.actionList

/-- Only where actions belong are there any. -/
def Regular (i : Instruction) : Prop := i.type.takesActions = false → i.actionList = []

instance (i : Instruction) : Decidable i.Regular := inferInstanceAs (Decidable (_ → _))

/-- Every length in the instruction is what it is. -/
def Exact (i : Instruction) : Prop := i.len.toNat = i.size ∧ ∀ a ∈ i.actionList, a.Exact

instance (i : Instruction) : Decidable i.Exact := inferInstanceAs (Decidable (_ ∧ _))

/-- The instruction with its lengths put right. -/
def sized (i : Instruction) : Instruction :=
  { i with len := BitVec.ofNat 16 i.size, actionList := i.actionList.map Action.sized }

theorem size_sized (i : Instruction) : i.sized.size = i.size := by
  simp only [sized, size, Action.sizes_map_sized]

variable {i : Instruction}

theorem exact_sized (h : i.size < 2 ^ 16) : i.sized.Exact := by
  refine ⟨?_, fun a ha => ?_⟩
  · rw [size_sized]
    simp only [sized, BitVec.toNat_ofNat, Nat.mod_eq_of_lt h]
  · obtain ⟨a', -, rfl⟩ := mem_map.1 ha
    exact a'.exact_sized

theorem supported_sized (h : i.Supported) : i.sized.Supported := by
  refine ⟨h.1, fun a ha => ?_⟩
  obtain ⟨a', ha', rfl⟩ := mem_map.1 ha
  exact Action.supported_sized (h.2 a' ha')

theorem regular_sized : i.sized.Regular ↔ i.Regular := by
  simp [Regular, sized]

/-- The bytes are those of the instruction. -/
def Image (i : Instruction) (c : List Octet) : Prop :=
  ∃ d, Action.Images i.actionList d ∧ c = tlv i.type.code i.len.toNat ++ (i.body.bytes ++ d)

theorem Image.length_eq {c : List Octet} (h : i.Image c) : c.length = i.size := by
  obtain ⟨d, hd, rfl⟩ := h
  simp only [length_append, length_tlv, Block.length_eq, hd.length_eq, size]
  omega

theorem Image.length_pos {c : List Octet} (h : i.Image c) : 0 < c.length := by
  rw [h.length_eq, size]
  omega

/-- How many bytes instructions take. -/
def sizes (is : List Instruction) : Nat := (is.map size).sum

/-- The bytes are those of the instructions, one after the other. -/
def Images (is : List Instruction) (c : List Octet) : Prop :=
  ∃ cs, List.Forall₂ Image is cs ∧ c = cs.flatten

end Instruction

/-! ## Buckets -/

/-- `struct bucket`: `struct ofp_bucket` after its length, and a list of actions. -/
structure Bucket where
  body : Block 14
  actionList : List Action
deriving DecidableEq

namespace Bucket

def Supported (u : Bucket) : Prop := ∀ a ∈ u.actionList, a.Supported

instance (u : Bucket) : Decidable u.Supported := inferInstanceAs (Decidable (∀ a ∈ u.actionList, _))

/-- The bucket with its lengths put right. -/
def sized (u : Bucket) : Bucket := { u with actionList := u.actionList.map Action.sized }

def size (u : Bucket) : Nat := 16 + Action.sizes u.actionList

/-- The bytes are those of the bucket. -/
def Image (u : Bucket) (c : List Octet) : Prop :=
  u.size < 2 ^ 16 ∧
    ∃ d, Action.Images u.actionList d ∧ c = Octets.ofNat 2 u.size ++ (u.body.bytes ++ d)

theorem Image.length_eq {u : Bucket} {c : List Octet} (h : u.Image c) : c.length = u.size := by
  obtain ⟨-, d, hd, rfl⟩ := h
  simp only [length_append, length_ofNat, Block.length_eq, hd.length_eq, size]
  omega

/-- How many bytes buckets take. -/
def sizes (us : List Bucket) : Nat := (us.map size).sum

/-- The bytes are those of the buckets, one after the other. -/
def Images (us : List Bucket) (c : List Octet) : Prop :=
  ∃ cs, List.Forall₂ Image us cs ∧ c = cs.flatten

end Bucket

end Lagopus.Wire
