import Lagopus.Lib.MaskedCell
import Lagopus.Dataplane.Packet

/-!
# Byte-offset compilation of a match list

`flow_make_match` turns a match list into `byteoff_match[]`: for every entry of `base[]`, 32 value
bytes, 32 mask bytes and a bitmap of the bytes in use. `match_basic` compares a packet with it,
four bytes at a time.

* `encoder` is the `switch` of `flow_make_match`, `flowMakeMatch` its loop;
* `matchBasic` is `match_basic` without its counters, which the search functions account for;
* `matchBasic_compile_iff` reads the word-wise comparison as one masked comparison a byte.
-/

namespace Lagopus

open MaskedCell List

/-! ## The encoders -/

/-- `struct byteoff_match`: the bitmap, and mask and value byte by byte. -/
structure ByteoffMatch where
  bits : BitVec 32
  cell : Nat → Cell 8

/-- `byteoff_match[MAX_BASE]`. -/
abbrev Byteoff := Base → ByteoffMatch

/-- A zeroed array, as `flow_alloc` leaves it. -/
def Byteoff.zero : Byteoff := fun _ => ⟨0, fun _ => Cell.empty⟩

/-- `BYTEBITS(bytes, off)`, truncated to 32 bits. -/
def byteBits (len off : Nat) : BitVec 32 := BitVec.ofNat 32 ((2 ^ len - 1) <<< off)

/-- What one `case` of `flow_make_match` does to the array of its base: the bitmap it sets and,
byte by byte, its assignments to `masks[]` and `bytes[]`. -/
structure Encoding where
  base : Base
  bits : BitVec 32
  writes : List (Nat × Write 8)

/-- `masks[off] = mask; bytes[off] = value`. -/
def assign (mask value : Byte) : Write 8 := ⟨0, mask, 0, value⟩

/-- `masks[off] |= mask; bytes[off] &= keep; bytes[off] |= value`. -/
def merge (mask keep value : Byte) : Write 8 := ⟨0xff, mask, keep, value⟩

/-- `MAKE_BYTEOFF` and `MAKE_BYTEOFF_W`: copy value and mask to offset `off`. -/
def makeByteoff (m : Match) (off : Nat) (base : Base) : Encoding where
  base := base
  bits := byteBits m.len off
  writes := (List.range m.len).map fun i => (off + i, assign (m.maskByte i) (m.byte i))

/-- `htonl(ntohl(label) << 12)`, byte by byte. -/
def labelByte (m : Match) : Nat → Byte
  | 0 => (m.byte 1 <<< 4) ||| (m.byte 2 >>> 4)
  | 1 => (m.byte 2 <<< 4) ||| (m.byte 3 >>> 4)
  | 2 => m.byte 3 <<< 4
  | _ => 0

/-- The `switch` of `flow_make_match`, for `l3_ether_type` as the loop has it at this entry.
`ETH_TYPE` and the fields without a case write nothing. -/
def encoder (l3EtherType : BitVec 16) (m : Match) : Option Encoding :=
  match m.field, m.hasMask with
  | .vlanVid, false => some
      { base := .oob, bits := byteBits 2 22
        writes := [(22, merge 0x1f 0xe0 (m.byte 0)), (23, assign 0xff (m.byte 1))] }
  | .vlanVid, true => some
      { base := .oob, bits := byteBits 2 22
        writes := [(22, ⟨0xe0, m.byte 2, 0xe0, m.byte 0⟩), (23, assign (m.byte 3) (m.byte 1))] }
  | .vlanPcp, false => some
      { base := .oob, bits := byteBits 1 22, writes := [(22, merge 0xe0 0x1f (m.byte 0 <<< 5))] }
  | .inPort, false => some (makeByteoff m 8 .oob)
  | .inPhyPort, false => some (makeByteoff m 12 .oob)
  | .metadata, _ => some (makeByteoff m 0 .oob)
  | .ethDst, _ => some (makeByteoff m 0 .eth)
  | .ethSrc, _ => some (makeByteoff m 6 .eth)
  | .ipProto, false => some (makeByteoff m 0 .ipproto)
  | .ipv4Src, _ => some (makeByteoff m 12 .l3)
  | .ipv4Dst, _ => some (makeByteoff m 16 .l3)
  | .arpOp, false => some (makeByteoff m 6 .l3)
  | .arpSha, _ => some (makeByteoff m 8 .l3)
  | .arpSpa, _ => some (makeByteoff m 14 .l3)
  | .arpTha, _ => some (makeByteoff m 18 .l3)
  | .arpTpa, _ => some (makeByteoff m 24 .l3)
  | .ipv6Src, _ => some (makeByteoff m 0 .v6src)
  | .ipv6Dst, _ => some (makeByteoff m 0 .v6dst)
  | .tcpSrc, false | .udpSrc, false | .sctpSrc, false => some (makeByteoff m 0 .l4)
  | .tcpDst, false | .udpDst, false | .sctpDst, false => some (makeByteoff m 2 .l4)
  | .icmpv4Type, false | .icmpv6Type, false => some (makeByteoff m 0 .l4)
  | .icmpv4Code, false | .icmpv6Code, false => some (makeByteoff m 1 .l4)
  | .ipv6NdTarget, false => some (makeByteoff m 8 .l4)
  | .ipv6NdSll, false => some (makeByteoff m 2 .ndsll)
  | .ipv6NdTll, false => some (makeByteoff m 2 .ndtll)
  | .pbbIsid, _ => some (makeByteoff m 1 .pbb)
  | .tunnelId, _ => some (makeByteoff m 0 .oob2)
  | .ipv6Exthdr, _ => some (makeByteoff m 8 .oob2)
  | .ipDscp, false =>
      if l3EtherType = ETHERTYPE_IPV6 then some
        { base := .l3, bits := byteBits 2 0
          writes := [(0, merge 0x0f 0xf0 (m.byte 0 >>> 2)), (1, merge 0xc0 0x3f (m.byte 0 <<< 6))] }
      else some
        { base := .l3, bits := byteBits 1 1, writes := [(1, merge 0xfc 0x03 (m.byte 0 <<< 2))] }
  | .ipEcn, false =>
      if l3EtherType = ETHERTYPE_IPV6 then some
        { base := .l3, bits := byteBits 1 1, writes := [(1, merge 0x30 0xcf (m.byte 0 <<< 4))] }
      else some
        { base := .l3, bits := byteBits 1 1, writes := [(1, merge 0x03 0xfc (m.byte 0))] }
  | .ipv6Flabel, false => some
      -- `masks[0] = 0x0f` assigns: the traffic class bits of this byte are dropped
      { base := .l3, bits := byteBits 3 1
        writes := [(1, ⟨0, 0x0f, 0xf0, m.byte 1⟩), (2, assign 0xff (m.byte 2)),
          (3, assign 0xff (m.byte 3))] }
  | .ipv6Flabel, true => some
      { base := .l3, bits := byteBits 3 1
        writes := [(1, ⟨0xf0, m.byte 5, 0xf0, m.byte 1⟩), (2, assign (m.byte 6) (m.byte 2)),
          (3, assign (m.byte 7) (m.byte 3))] }
  | .mplsLabel, false => some
      -- `masks[2] = 0xf0` assigns: the TC and BOS bits of this byte are dropped
      { base := .mpls, bits := byteBits 3 0
        writes := [(0, assign 0xff (labelByte m 0)), (1, assign 0xff (labelByte m 1)),
          (2, ⟨0, 0xf0, 0x0f, labelByte m 2⟩)] }
  | .mplsTc, false => some
      { base := .mpls, bits := byteBits 1 2, writes := [(2, merge 0x0e 0xf1 (m.byte 0 <<< 1))] }
  | .mplsBos, false => some
      { base := .mpls, bits := byteBits 1 2, writes := [(2, merge 0x01 0xfe (m.byte 0))] }
  | .packetType, false => some (makeByteoff m 16 .oob)
  | .vxlanFlags, _ => some (makeByteoff m 0 .l4p)
  | .vxlanVni, false => some
      { base := .l4p, bits := byteBits 3 4
        writes := [(4, assign 0xff (m.byte 0)), (5, assign 0xff (m.byte 1)),
          (6, assign 0xff (m.byte 2))] }
  | .greFlags, false =>
      -- the two value bytes are read as a host (little-endian) word and never swapped
      let val := m.byte 1 ++ m.byte 0
      some
      { base := .l4, bits := byteBits 2 0
        writes := [(0, assign 0xff ((val >>> 5).setWidth 8)),
          (1, merge 0xf8 0x07 ((val <<< 3).setWidth 8))] }
  | .greFlags, true =>
      let val := m.byte 1 ++ m.byte 0
      let mask := m.byte 3 ++ m.byte 2
      some
      { base := .l4, bits := byteBits 2 0
        writes := [(0, merge ((mask >>> 5).setWidth 8) 0xff ((val >>> 5).setWidth 8)),
          (1, merge ((mask <<< 3).setWidth 8) 0xff ((val <<< 3).setWidth 8))] }
  | .greVer, false => some
      { base := .l4, bits := byteBits 2 0, writes := [(1, merge 0x07 0xf8 (m.byte 0))] }
  | .greProtocol, false => some (makeByteoff m 2 .l4)
  | .greKey, _ => some (makeByteoff m 4 .l4)
  | .gtpuFlags, false => some
      -- the flags are in byte 0 of the header, the case writes byte 1
      { base := .l4p, bits := byteBits 1 0, writes := [(1, merge 0x1f 0xe0 (m.byte 0))] }
  | .gtpuVer, false => some
      { base := .l4p, bits := byteBits 1 0, writes := [(1, merge 0xe0 0x1f (m.byte 0 <<< 5))] }
  | .gtpuMsgtype, false => some (makeByteoff m 1 .l4p)
  | .gtpuTeid, false => some (makeByteoff m 4 .l4p)
  | _, _ => none

/-- The ethertype in an `ETH_TYPE` match, in host order. -/
def Match.be16 (m : Match) : BitVec 16 := m.byte 0 ++ m.byte 1

/-- The loop of `flow_make_match`: what each entry of the list writes, in order. An unmasked
`ETH_TYPE` entry only sets `l3_ether_type` for the entries after it. -/
def encodings (l3EtherType : BitVec 16) : List Match → List Encoding
  | [] => []
  | m :: ml =>
    if m.field = .ethType ∧ m.hasMask = false then encodings m.be16 ml
    else (encoder l3EtherType m).toList ++ encodings l3EtherType ml

/-- The array after one entry. -/
def Byteoff.apply (bo : Byteoff) (e : Encoding) : Byteoff := fun b =>
  if b = e.base then
    { bits := (bo b).bits ||| e.bits
      cell := fun off =>
        ((bo b).cell off).run ((e.writes.filter fun w => w.1 = off).map Prod.snd) }
  else bo b

/-- The array after a list of entries. -/
def compile (es : List Encoding) : Byteoff := es.foldl Byteoff.apply Byteoff.zero

/-- `flow_make_match`. -/
def flowMakeMatch (ml : List Match) : Byteoff := compile (encodings 0 ml)

/-! ## The matcher -/

/-- One 32-bit comparison `(b & m) == c` of `match_basic`. -/
def wordAdmits (r : Nat → Byte) (cell : Nat → Cell 8) (off : Nat) : Bool :=
  decide ((cell off).Admits (r off)) && decide ((cell (off + 1)).Admits (r (off + 1))) &&
    decide ((cell (off + 2)).Admits (r (off + 2))) && decide ((cell (off + 3)).Admits (r (off + 3)))

/-- The inner loop of `match_basic`. A 32-bit bitmap leaves it after at most eight words, so
eight is enough fuel. -/
def matchWords (r : Nat → Byte) (cell : Nat → Cell 8) : Nat → Nat → BitVec 32 → Bool
  | 0, _, _ => true
  | fuel + 1, off, bits =>
    if bits &&& 0x0f ≠ 0 ∧ wordAdmits r cell off = false then false
    else if bits >>> 4 = 0 then true
    else matchWords r cell fuel (off + 4) (bits >>> 4)

/-- One round of the outer loop. -/
def matchBase (p : Packet) (bo : Byteoff) (b : Base) : Bool :=
  if (bo b).bits = 0 then true
  else match p.base b with
    | none => false
    | some r => matchWords r (bo b).cell 8 0 (bo b).bits

/-- The bases `match_basic` goes through. -/
def Packet.bases (p : Packet) : List Base :=
  if p.etherType = ETHERTYPE_IPV6 then Base.all else Base.common

/-- `match_basic`, the comparison. -/
def matchBasic (p : Packet) (bo : Byteoff) : Bool := p.bases.all (matchBase p bo)

/-! ## The comparison, byte by byte -/

/-- The writes a list of entries makes to one byte of one base, in order. -/
def cellWrites (es : List Encoding) (b : Base) (off : Nat) : List (Write 8) :=
  es.flatMap fun e => if b = e.base then (e.writes.filter fun w => w.1 = off).map Prod.snd else []

theorem mem_cellWrites {es : List Encoding} {b : Base} {off : Nat} {u : Write 8} :
    u ∈ cellWrites es b off ↔ ∃ e ∈ es, b = e.base ∧ (off, u) ∈ e.writes := by
  simp only [cellWrites, mem_flatMap]
  refine exists_congr fun e => and_congr_right fun _ => ?_
  by_cases hb : b = e.base <;> simp [hb]

variable (es : List Encoding)

theorem foldl_apply_cell (bo : Byteoff) (b : Base) (off : Nat) :
    ((es.foldl Byteoff.apply bo) b).cell off = ((bo b).cell off).run (cellWrites es b off) := by
  induction es generalizing bo with
  | nil => rfl
  | cons e es ih =>
    rw [foldl_cons, ih]
    by_cases hb : b = e.base
    · simp [Byteoff.apply, cellWrites, hb, Cell.run_append]
    · simp [Byteoff.apply, cellWrites, hb]

theorem compile_cell (b : Base) (off : Nat) :
    (compile es b).cell off = Cell.empty.run (cellWrites es b off) :=
  foldl_apply_cell es Byteoff.zero b off

theorem foldl_apply_bits (bo : Byteoff) (b : Base) (i : Nat) :
    ((es.foldl Byteoff.apply bo) b).bits.getLsbD i = true ↔
      (bo b).bits.getLsbD i = true ∨ ∃ e ∈ es, b = e.base ∧ e.bits.getLsbD i = true := by
  induction es generalizing bo with
  | nil => simp
  | cons e es ih =>
    rw [foldl_cons, ih]
    by_cases hb : b = e.base
    · simp [Byteoff.apply, hb, or_assoc]
    · simp [Byteoff.apply, hb]

theorem compile_bits (b : Base) (i : Nat) :
    (compile es b).bits.getLsbD i = true ↔ ∃ e ∈ es, b = e.base ∧ e.bits.getLsbD i = true := by
  rw [compile, foldl_apply_bits]
  simp [Byteoff.zero]

theorem bits_eq_zero_iff {w : Nat} {x : BitVec w} : x = 0 ↔ ∀ i, x.getLsbD i = false := by
  constructor
  · rintro rfl i
    simp
  · intro h
    exact BitVec.eq_of_getLsbD_eq fun i _ => by simp [h i]

theorem nibble_ne_zero_iff (bits : BitVec 32) : bits &&& 0x0f ≠ 0 ↔ ∃ j < 4, bits.getLsbD j = true := by
  rw [Ne, bits_eq_zero_iff, not_forall]
  refine exists_congr fun j => ?_
  rw [BitVec.getLsbD_and, Bool.not_eq_false, Bool.and_eq_true, and_comm]
  refine and_congr_left fun _ => ?_
  by_cases hj : j < 32
  · interval_cases j <;> decide
  · simp [BitVec.getLsbD_of_ge (0x0f#32) j (by omega)]
    omega

theorem wordAdmits_iff (r : Nat → Byte) (cell : Nat → Cell 8) (off : Nat) :
    wordAdmits r cell off = true ↔ ∀ j < 4, (cell (off + j)).Admits (r (off + j)) := by
  simp only [wordAdmits, Bool.and_eq_true, decide_eq_true_eq]
  constructor
  · rintro ⟨⟨⟨h0, h1⟩, h2⟩, h3⟩ j hj
    interval_cases j <;> assumption
  · intro h
    exact ⟨⟨⟨h 0 (by omega), h 1 (by omega)⟩, h 2 (by omega)⟩, h 3 (by omega)⟩

theorem matchWords_iff (r : Nat → Byte) (cell : Nat → Cell 8) :
    ∀ (fuel off : Nat) (bits : BitVec 32), (∀ i, bits.getLsbD i = true → i < 4 * fuel) →
      (matchWords r cell fuel off bits = true ↔
        ∀ i, bits.getLsbD i = true → ∀ j < 4,
          (cell (off + 4 * (i / 4) + j)).Admits (r (off + 4 * (i / 4) + j)))
  | 0, _, bits, hfuel => by
    simp only [matchWords, true_iff]
    intro i hi
    exact absurd (hfuel i hi) (by omega)
  | fuel + 1, off, bits, hfuel => by
    have hshift : ∀ i, (bits >>> 4).getLsbD i = bits.getLsbD (4 + i) := by simp
    have hrest := matchWords_iff r cell fuel (off + 4) (bits >>> 4) (by
      intro i hi
      rw [hshift] at hi
      have := hfuel _ hi
      omega)
    -- the words after the first one, seen from this round and from the next
    have htail : (∀ i, (bits >>> 4).getLsbD i = true → ∀ j < 4,
          (cell (off + 4 + 4 * (i / 4) + j)).Admits (r (off + 4 + 4 * (i / 4) + j))) ↔
        ∀ i, bits.getLsbD i = true → 4 ≤ i → ∀ j < 4,
          (cell (off + 4 * (i / 4) + j)).Admits (r (off + 4 * (i / 4) + j)) := by
      constructor
      · intro h i hi h4 j hj
        have := h (i - 4) (by rw [hshift]; rwa [show 4 + (i - 4) = i by omega]) j hj
        rwa [show off + 4 + 4 * ((i - 4) / 4) + j = off + 4 * (i / 4) + j by omega] at this
      · intro h i hi j hj
        have := h (4 + i) (by rwa [← hshift]) (by omega) j hj
        rwa [show off + 4 * ((4 + i) / 4) + j = off + 4 + 4 * (i / 4) + j by omega] at this
    have hhead : (bits &&& 0x0f ≠ 0 → wordAdmits r cell off = true) ↔
        ∀ i, bits.getLsbD i = true → i < 4 → ∀ j < 4,
          (cell (off + 4 * (i / 4) + j)).Admits (r (off + 4 * (i / 4) + j)) := by
      rw [nibble_ne_zero_iff, wordAdmits_iff]
      constructor
      · intro h i hi h4 j hj
        rw [show off + 4 * (i / 4) + j = off + j by omega]
        exact h ⟨i, h4, hi⟩ j hj
      · rintro h ⟨i, h4, hi⟩ j hj
        have := h i hi h4 j hj
        rwa [show off + 4 * (i / 4) + j = off + j by omega] at this
    have hsplit : (∀ i, bits.getLsbD i = true → ∀ j < 4,
          (cell (off + 4 * (i / 4) + j)).Admits (r (off + 4 * (i / 4) + j))) ↔
        (bits &&& 0x0f ≠ 0 → wordAdmits r cell off = true) ∧
          matchWords r cell fuel (off + 4) (bits >>> 4) = true := by
      rw [hhead, hrest, htail]
      constructor
      · intro h
        exact ⟨fun i hi _ => h i hi, fun i hi _ => h i hi⟩
      · rintro ⟨h1, h2⟩ i hi
        by_cases h4 : i < 4
        · exact h1 i hi h4
        · exact h2 i hi (by omega)
    rw [hsplit, matchWords]
    by_cases hn : bits &&& 0x0f ≠ 0 ∧ wordAdmits r cell off = false
    · rw [if_pos hn]
      constructor
      · intro h; cases h
      · rintro ⟨h, -⟩
        rw [h hn.1] at hn
        exact absurd hn.2 (by simp)
    · rw [if_neg hn]
      have hn' : bits &&& 0x0f ≠ 0 → wordAdmits r cell off = true := by
        intro h0
        by_contra hw
        exact hn ⟨h0, by simpa using hw⟩
      by_cases hz : bits >>> 4 = 0
      · rw [if_pos hz, hrest, hz]
        exact ⟨fun _ => ⟨hn', by simp⟩, fun _ => rfl⟩
      · rw [if_neg hz]
        exact ⟨fun h => ⟨hn', h⟩, fun h => h.2⟩

/-- Every write of an entry lies in a word that the entry's bitmap has a bit for. -/
def Encoding.Covered (e : Encoding) : Prop :=
  ∀ w ∈ e.writes, ∃ i, e.bits.getLsbD i = true ∧ i / 4 = w.1 / 4

/-- **Word-wise comparison is byte-wise comparison.** A packet matches the compiled array when,
for every base with an entry, the pointer is set and every byte behind it is admitted by the
writes made to it. -/
theorem matchBasic_compile_iff {es : List Encoding} (hcov : ∀ e ∈ es, e.Covered) (p : Packet) :
    matchBasic p (compile es) = true ↔
      ∀ b ∈ p.bases, (∃ e ∈ es, b = e.base ∧ e.bits ≠ 0) →
        ∃ r, p.base b = some r ∧ ∀ off, (Cell.empty.run (cellWrites es b off)).Admits (r off) := by
  rw [matchBasic, all_eq_true]
  refine forall₂_congr fun b _ => ?_
  have hbits : (compile es b).bits = 0 ↔ ¬ ∃ e ∈ es, b = e.base ∧ e.bits ≠ 0 := by
    rw [bits_eq_zero_iff]
    constructor
    · rintro h ⟨e, he, hb, hne⟩
      apply hne
      rw [bits_eq_zero_iff]
      intro i
      by_contra hi
      have := (compile_bits es b i).mpr ⟨e, he, hb, by simpa using hi⟩
      rw [h i] at this
      cases this
    · intro h i
      by_contra hi
      obtain ⟨e, he, hb, hei⟩ := (compile_bits es b i).mp (by simpa using hi)
      refine h ⟨e, he, hb, fun h0 => ?_⟩
      rw [h0] at hei
      simp at hei
  unfold matchBase
  by_cases h0 : (compile es b).bits = 0
  · rw [if_pos h0]
    simp only [hbits.mp h0, false_imp_iff]
  · rw [if_neg h0]
    have hex : ∃ e ∈ es, b = e.base ∧ e.bits ≠ 0 := by
      by_contra h
      exact h0 (hbits.mpr h)
    simp only [hex, true_imp_iff]
    cases hp : p.base b with
    | none => simp
    | some r =>
      simp only [Option.some.injEq, exists_eq_left']
      rw [matchWords_iff r _ 8 0 _ (fun i hi => by
        have := BitVec.lt_of_getLsbD hi
        omega)]
      simp only [Nat.zero_add, compile_cell]
      constructor
      · intro h off
        -- a byte nobody wrote admits everything; a written one lies in a compared word
        cases hw : cellWrites es b off with
        | nil => simp [Cell.Admits, Cell.empty]
        | cons u us =>
          obtain ⟨e, he, hb, hmem⟩ := mem_cellWrites.mp (hw ▸ mem_cons_self : u ∈ _)
          obtain ⟨i, hi, hio⟩ := hcov e he _ hmem
          have := h i ((compile_bits es b i).mpr ⟨e, he, hb, hi⟩) (off % 4) (by omega)
          rw [show 4 * (i / 4) + off % 4 = off by simp only at hio; omega, hw] at this
          exact this
      · intro h i _ j _
        exact h _

/-- The comparison an entry asks for on its own. -/
def Encoding.Holds (e : Encoding) (p : Packet) : Prop :=
  ∃ r, p.base e.base = some r ∧ ∀ w ∈ e.writes, w.2.Admits (r w.1)

/-- The later entry `e'` leaves alone what `e` wrote. -/
def Encoding.Spares (e' e : Encoding) : Prop :=
  e'.base = e.base → ∀ w ∈ e.writes, ∀ w' ∈ e'.writes, w'.1 = w.1 → w'.2.Spares w.2

/-- The static facts about one entry: it has a bitmap that covers its writes, writes no byte
twice, and each write is sound. -/
structure Encoding.Regular (e : Encoding) : Prop where
  bits_ne : e.bits ≠ 0
  covered : e.Covered
  nodup : (e.writes.map Prod.fst).Nodup
  sound : ∀ w ∈ e.writes, w.2.Sound

theorem cellWrites_append (es fs : List Encoding) (b : Base) (off : Nat) :
    cellWrites (es ++ fs) b off = cellWrites es b off ++ cellWrites fs b off :=
  flatMap_append

/-- **An entry that no later entry disturbs is enforced by the compiled array.** -/
theorem holds_of_matchBasic {pre post : List Encoding} {e : Encoding} {p : Packet}
    (hreg : ∀ e' ∈ pre ++ e :: post, e'.Covered) (he : e.Regular) (hsp : ∀ e' ∈ post, e'.Spares e)
    (hb : e.base ∈ p.bases) (h : matchBasic p (compile (pre ++ e :: post)) = true) : e.Holds p := by
  obtain ⟨r, hr, hadm⟩ := (matchBasic_compile_iff hreg p).mp h e.base hb ⟨e, by simp, rfl, he.bits_ne⟩
  refine ⟨r, hr, fun w hw => ?_⟩
  obtain ⟨off, u⟩ := w
  have hcell := hadm off
  rw [cellWrites_append, show e :: post = [e] ++ post from rfl, cellWrites_append] at hcell
  have hself : cellWrites [e] e.base off = [u] := by
    have hfilter : e.writes.filter (fun w => w.1 = off) = [(off, u)] := by
      obtain ⟨l₁, l₂, hl⟩ := append_of_mem hw
      have hnd := he.nodup
      rw [hl, map_append, map_cons] at hnd
      have h1 : ∀ w ∈ l₁, ¬ w.1 = off := by
        intro w hw1 hwo
        have := disjoint_of_nodup_append hnd (mem_map_of_mem hw1)
        exact this (by simp [hwo])
      have h2 : ∀ w ∈ l₂, ¬ w.1 = off := by
        intro w hw2 hwo
        have := (nodup_cons.mp (nodup_append.mp hnd).2.1).1
        exact this (mem_map.mpr ⟨w, hw2, hwo⟩)
      rw [hl, filter_append, filter_cons_of_pos (by simp), filter_eq_nil_iff.mpr (by simpa using h1),
        filter_eq_nil_iff.mpr (by simpa using h2), nil_append]
    simp [cellWrites, hfilter]
  rw [hself, singleton_append] at hcell
  refine Cell.admits_of_run (he.sound _ hw) (fun u' hu' => ?_) hcell
  obtain ⟨e', he', hbase, hmem⟩ := mem_cellWrites.mp hu'
  exact hsp e' he' hbase.symm _ hw _ hmem rfl

theorem cellWrites_sound {es : List Encoding} (hreg : ∀ e ∈ es, e.Regular) {b : Base} {off : Nat} :
    ∀ u ∈ cellWrites es b off, u.Sound := by
  intro u hu
  obtain ⟨e, he, -, hmem⟩ := mem_cellWrites.mp hu
  exact (hreg e he).sound _ hmem

/-- What two entries do to a byte they share, the writes to that byte do to each other. -/
theorem cellWrites_pairwise {es : List Encoding} {R : Write 8 → Write 8 → Prop}
    (hreg : ∀ e ∈ es, e.Regular) (hR : es.Pairwise fun e e' => e'.base = e.base →
      ∀ w ∈ e.writes, ∀ w' ∈ e'.writes, w'.1 = w.1 → R w.2 w'.2) {b : Base} {off : Nat} :
    (cellWrites es b off).Pairwise R := by
  refine pairwise_flatMap.mpr ⟨fun e he => ?_, ?_⟩
  · by_cases hbase : b = e.base
    · rw [if_pos hbase, pairwise_map]
      -- one entry writes a byte at most once
      have hnd := ((hreg e he).nodup.of_map).filter (fun w => decide (w.1 = off))
      refine List.Pairwise.imp_of_mem ?_ hnd
      intro w w' hw hw' hne
      simp only [mem_filter, decide_eq_true_eq] at hw hw'
      exact absurd (inj_on_of_nodup_map (hreg e he).nodup hw.1 hw'.1 (hw.2.trans hw'.2.symm)) hne
    · rw [if_neg hbase]
      exact List.Pairwise.nil
  · refine hR.imp ?_
    intro e₁ e₂ hs u hu u' hu'
    split at hu <;> split at hu' <;> simp at hu hu'
    case isTrue.isTrue h1 h2 =>
      exact hs (h2.symm.trans h1) (off, u) hu (off, u') hu' rfl

/-- **Entries that spare each other combine exactly.** -/
theorem matchBasic_compile_iff_forall {es : List Encoding} (hreg : ∀ e ∈ es, e.Regular)
    (hsp : es.Pairwise fun e e' => e'.Spares e) (p : Packet) :
    matchBasic p (compile es) = true ↔ ∀ e ∈ es, e.base ∈ p.bases → e.Holds p := by
  constructor
  · intro h e he hb
    obtain ⟨pre, post, rfl⟩ := append_of_mem he
    exact holds_of_matchBasic (fun e' he' => (hreg e' he').covered) (hreg e he)
      (pairwise_cons.mp (pairwise_append.mp hsp).2.1).1 hb h
  · intro h
    refine (matchBasic_compile_iff (fun e he => (hreg e he).covered) p).mpr ?_
    rintro b hb ⟨e, he, rfl, -⟩
    obtain ⟨r, hr, -⟩ := h e he hb
    refine ⟨r, hr, fun off => ?_⟩
    have hpair : (cellWrites es e.base off).Pairwise fun u u' => u'.Spares u :=
      cellWrites_pairwise (R := fun u u' => u'.Spares u) hreg hsp
    refine (Cell.run_admits_iff (cellWrites_sound hreg) hpair _).mpr fun u hu => ?_
    obtain ⟨e', he', hbase, hmem⟩ := mem_cellWrites.mp hu
    obtain ⟨r', hr', hw⟩ := h e' he' (hbase ▸ hb)
    rw [← hbase, hr] at hr'
    cases hr'
    exact hw _ hmem

end Lagopus
