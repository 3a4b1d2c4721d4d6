import Lagopus.Dataplane.ExtHeaders
import Lagopus.Dataplane.Headers

/-!
# Where classification lands

The layout of a frame, as the wire format has it: a stack of VLAN tags and PBB headers, each announced
by the ethertype in front of it, at most one MPLS shim, and an IPv4 header or an IPv6 header with its
chain of extension headers.  Classification is compared with that.

* `Layout`, `Layout.Describes`: the layout, and that a frame has it;
* `scan_tags`, `extHdrLoop_chain`: the two loops follow the layout;
* `scan_mod`, `lt_extHdrLoop_of_followed`: where they do not;
* `Layout.found_iff`: classification finds the headers of a frame unless the frame begins with a PBB
  header, or its chain ends with no next header or with an encrypted payload.
-/

namespace Lagopus

open Option Nat Cached

/-! ## The wire format -/

/-- A header of the stack. It begins behind the ethertype that announces it and ends with the one
that announces the next. -/
inductive Tag
  | vlan
  | pbb
deriving DecidableEq

namespace Tag

def size : Tag → Nat
  | vlan => 4
  | pbb => 18

/-- The ethertypes that announce it. -/
def Announced : Tag → BitVec 16 → Prop
  | vlan, etherType => IsVlan etherType
  | pbb, etherType => etherType = ETHERTYPE_PBB

instance : ∀ (t : Tag) (etherType : BitVec 16), Decidable (t.Announced etherType)
  | vlan, etherType => inferInstanceAs (Decidable (IsVlan etherType))
  | pbb, etherType => inferInstanceAs (Decidable (etherType = ETHERTYPE_PBB))

end Tag

/-- What is behind a stack that begins at `a`. -/
def tagsEnd : List Tag → Nat → Nat
  | [], a => a
  | t :: ts, a => tagsEnd ts (a + t.size)

/-- The outermost header of a kind. -/
def firstTag (k : Tag) : List Tag → Nat → Option Nat
  | [], _ => none
  | t :: ts, a => if t = k then some a else firstTag k ts (a + t.size)

/-- The ethertype behind a stack. -/
def typeBehind (f : Nat → Byte) : List Tag → Nat → BitVec 16 → BitVec 16
  | [], _, etherType => etherType
  | t :: ts, a, _ => typeBehind f ts (a + t.size) (wordAt f (a + t.size - 2))

/-- Every header of the stack is announced. -/
def AreTags (f : Nat → Byte) : List Tag → Nat → BitVec 16 → Prop
  | [], _, _ => True
  | t :: ts, a, etherType =>
    t.Announced etherType ∧ AreTags f ts (a + t.size) (wordAt f (a + t.size - 2))

/-- An IPv6 extension header that names the one behind it. An encrypted payload does not. -/
def Ext := {t : ExtType // t ≠ .esp ∧ t ≠ .noNext}

namespace Ext

/-- The number by which the header in front announces it. -/
def Announced (e : Ext) (number : Byte) : Prop := ExtType.ofProto number = some e.1

/-- The size of the header, by its length byte. -/
def size (e : Ext) (n : Nat) : Nat := e.1.size n

end Ext

/-- Where a chain of extension headers ends: the byte that names the upper-layer protocol, and what
is behind the last header. -/
def chainEnd (f : Nat → Byte) : List Ext → Nat → Nat → Nat × Nat
  | [], proto, a => (proto, a)
  | e :: es, _, a => chainEnd f es a (a + e.size (f (a + 1)).toNat)

/-- The extension headers from `a` on, the first of which is named by the byte at `proto`. -/
def IsChain (f : Nat → Byte) : List Ext → Nat → Nat → Prop
  | [], proto, _ => ∀ e : Ext, ¬ e.Announced (f proto)
  | e :: es, proto, a => e.Announced (f proto) ∧ IsChain f es a (a + e.size (f (a + 1)).toNat)

/-- The network layer. -/
inductive NetHeader
  | ipv4
  | ipv6 (exts : List Ext)

namespace NetHeader

def etherType : NetHeader → BitVec 16
  | ipv4 => ETHERTYPE_IP
  | ipv6 _ => ETHERTYPE_IPV6

/-- The first byte of the header: the version and, for IPv4, a header length of at least five words. -/
def First : NetHeader → Byte → Prop
  | ipv4, first => 0x45 ≤ first ∧ first ≤ 0x4f
  | ipv6 _, first => first &&& 0xf0 = 0x60

instance : ∀ (net : NetHeader) (first : Byte), Decidable (net.First first)
  | ipv4, first => inferInstanceAs (Decidable (0x45 ≤ first ∧ first ≤ 0x4f))
  | ipv6 _, first => inferInstanceAs (Decidable (first &&& 0xf0 = 0x60))

/-- The header that begins at `a` is followed by the chain of the layout. -/
def Chained (f : Nat → Byte) (a : Nat) : NetHeader → Prop
  | ipv4 => True
  | ipv6 exts => IsChain f exts (a + 6) (a + 40)

/-- The byte that names the upper-layer protocol, and what is behind the network layer. -/
def upper (f : Nat → Byte) (a : Nat) : NetHeader → Nat × Nat
  | ipv4 => (a + 9, a + 4 * (f a &&& 0x0f).toNat)
  | ipv6 exts => chainEnd f exts (a + 6) (a + 40)

end NetHeader

/-- What a frame is made of, behind its addresses. -/
structure Layout where
  tags : List Tag
  shim : Bool
  net : NetHeader

namespace Layout

def stackEnd (l : Layout) : Nat := tagsEnd l.tags 14

/-- The network layer. -/
def l3 (l : Layout) : Nat := if l.shim then l.stackEnd + 4 else l.stackEnd

def mpls (l : Layout) : Option Nat := if l.shim then some l.stackEnd else none

/-- A frame of `n` bytes has the layout. -/
structure Describes (l : Layout) (f : Nat → Byte) (n : Nat) : Prop where
  tags : AreTags f l.tags 14 (wordAt f 12)
  shim : l.shim = true → IsMpls (typeBehind f l.tags 14 (wordAt f 12))
  type : l.shim = false → typeBehind f l.tags 14 (wordAt f 12) = l.net.etherType
  first : l.net.First (f l.l3)
  chain : l.net.Chained f l.l3
  ends : (l.net.upper f l.l3).2 ≤ n

/-- The members of a packet are at the headers of the layout. -/
structure FoundIn (l : Layout) (p q : Packet) : Prop where
  vlan : q.vlan = (firstTag .vlan l.tags 14).map (· + p.eth)
  pbb : q.pbb = (firstTag .pbb l.tags 14).map (· + p.eth)
  mpls : q.mpls = l.mpls.map (· + p.eth)
  l3 : q.l3 = l.l3 + p.eth
  etherType : q.etherType = l.net.etherType
  proto : q.proto = some ((l.net.upper p.frame l.l3).1 + p.eth)
  l4 : q.l4 = some ((l.net.upper p.frame l.l3).2 + p.eth)

end Layout

def IPPROTO_ESP : Byte := 50

/-- The protocols that the loop over the extension headers takes for one of them. -/
def NetHeader.Followed (f : Nat → Byte) (a : Nat) : NetHeader → Prop
  | .ipv4 => False
  | .ipv6 exts =>
    f (chainEnd f exts (a + 6) (a + 40)).1 = IPPROTO_ESP ∨
      f (chainEnd f exts (a + 6) (a + 40)).1 = IPPROTO_NONE

/-! ## The stack -/

theorem le_tagsEnd (ts : List Tag) (a : Nat) : a ≤ tagsEnd ts a := by
  induction ts generalizing a with
  | nil => exact le_rfl
  | cons t ts ih => exact (le_add_right a t.size).trans (ih (a + t.size))

variable {f : Nat → Byte}

theorem Layout.Describes.no_tag {l : Layout} {n : Nat} (h : l.Describes f n) :
    typeBehind f l.tags 14 (wordAt f 12) ≠ ETHERTYPE_PBB ∧
      ¬ IsVlan (typeBehind f l.tags 14 (wordAt f 12)) := by
  cases hshim : l.shim with
  | true =>
    rcases h.shim hshim with ht | ht
    all_goals
      rw [ht]
      decide
  | false =>
    rw [h.type hshim]
    cases l.net with
    | ipv4 => exact show ETHERTYPE_IP ≠ ETHERTYPE_PBB ∧ ¬ IsVlan ETHERTYPE_IP by decide
    | ipv6 exts => exact show ETHERTYPE_IPV6 ≠ ETHERTYPE_PBB ∧ ¬ IsVlan ETHERTYPE_IPV6 by decide

variable {fuel a : Nat} {n : Int} {t : BitVec 16}

theorem IsVlan.ne_pbb (h : IsVlan t) : t ≠ ETHERTYPE_PBB := by
  rcases h with rfl | rfl <;> decide

/-- **The loop over the tags follows the stack**, if the frame is long enough for it. -/
theorem scan_tags {ts : List Tag} (h : AreTags f ts a t) (hfuel : ts.length < fuel)
    (hn : (tagsEnd ts a : Int) - a ≤ n) (hpbb : typeBehind f ts a t ≠ ETHERTYPE_PBB)
    (hvlan : ¬ IsVlan (typeBehind f ts a t)) : ∃ m, scan f fuel a t n = some
      { vlan := firstTag .vlan ts a, pbb := firstTag .pbb ts a, l3 := tagsEnd ts a,
        etherType := typeBehind f ts a t, pktlen := m } ∧ n ≤ m + (tagsEnd ts a - a) := by
  induction ts generalizing fuel a t n with
  | nil =>
    obtain ⟨fuel, rfl⟩ := exists_eq_succ_of_ne_zero (ne_of_gt hfuel)
    refine ⟨n, ?_, by simp [tagsEnd]⟩
    rw [scan, if_neg (show t ≠ _ from hpbb), if_neg (show ¬ IsVlan t from hvlan)]
    rfl
  | cons k ts ih =>
    obtain ⟨fuel, rfl⟩ := exists_eq_succ_of_ne_zero (ne_of_gt (zero_lt_of_lt hfuel))
    have hfuel' : ts.length < fuel := lt_of_succ_lt_succ hfuel
    have hend := le_tagsEnd ts (a + k.size)
    simp only [tagsEnd] at hn
    cases k with
    | pbb =>
      obtain ⟨m, hm, hlen⟩ := ih h.2 hfuel' (n := n)
        (by simp only [Tag.size] at hn hend ⊢; omega) hpbb hvlan
      refine ⟨m, ?_, by simp only [tagsEnd, Tag.size] at hlen hend ⊢; omega⟩
      rw [scan, if_pos (show t = _ from h.1), show wordAt f (a + 16) = wordAt f (a + Tag.pbb.size - 2) from rfl]
      exact congrArg _ hm
    | vlan =>
      have hno : t ≠ ETHERTYPE_PBB := IsVlan.ne_pbb h.1
      obtain ⟨m, hm, hlen⟩ := ih h.2 hfuel' (n := n - 4)
        (by simp only [Tag.size] at hn hend ⊢; omega) hpbb hvlan
      refine ⟨m, ?_, by simp only [tagsEnd, Tag.size] at hlen hend ⊢; omega⟩
      rw [scan, if_neg hno, if_pos (show IsVlan t from h.1),
        if_neg (by simp only [Tag.size] at hn hend; omega),
        show wordAt f (a + 2) = wordAt f (a + Tag.vlan.size - 2) from rfl]
      exact congrArg _ hm

/-- A frame of `n` bytes has these tags, and something else behind them. -/
structure Tagged (f : Nat → Byte) (tags : List Tag) (n : Nat) : Prop where
  are : AreTags f tags 14 (wordAt f 12)
  ends : typeBehind f tags 14 (wordAt f 12) ≠ ETHERTYPE_PBB ∧
    ¬ IsVlan (typeBehind f tags 14 (wordAt f 12))
  fits : tagsEnd tags 14 ≤ n

theorem Tagged.stack {tags : List Tag} {n : Nat} (h : Tagged f tags n)
    (houter : tags.head? ≠ some .pbb) (hfuel : tags.length < fuel) : ∃ m, Lagopus.stack f fuel n = some
      { vlan := firstTag .vlan tags 14, pbb := firstTag .pbb tags 14, l3 := tagsEnd tags 14,
        etherType := typeBehind f tags 14 (wordAt f 12), pktlen := m } ∧ 4 ≤ m := by
  obtain ⟨htags, ⟨hpbb, hvlan⟩, hn⟩ := h
  cases tags with
  | nil =>
    obtain ⟨m, hm, hlen⟩ := scan_tags htags hfuel (n := n)
      (by simp only [tagsEnd] at hn ⊢; omega) hpbb hvlan
    refine ⟨m, ?_, by simp only [tagsEnd] at hn hlen; omega⟩
    rw [Lagopus.stack, if_neg (show wordAt f 12 ≠ _ from hpbb),
      if_neg (show ¬ IsVlan (wordAt f 12) from hvlan)]
    exact hm
  | cons k ts =>
    cases k with
    | pbb => exact absurd rfl houter
    | vlan =>
      have hend := le_tagsEnd ts 18
      have hout : IsVlan (wordAt f 12) := htags.1
      have hn' : tagsEnd ts 18 ≤ n := hn
      have hrest : AreTags f ts 18 (wordAt f 16) := htags.2
      obtain ⟨m, hm, hlen⟩ := scan_tags hrest (lt_of_succ_lt hfuel) (n := n) (by omega) hpbb hvlan
      refine ⟨m, ?_, by omega⟩
      rw [Lagopus.stack, if_neg hout.ne_pbb, if_pos hout]
      exact congrArg _ hm

theorem Layout.Describes.stack {l : Layout} {n : Nat} (h : l.Describes f n) (hn : l.stackEnd ≤ n)
    (houter : l.tags.head? ≠ some .pbb) (hfuel : l.tags.length < fuel) : ∃ m, Lagopus.stack f fuel n = some
      { vlan := firstTag .vlan l.tags 14, pbb := firstTag .pbb l.tags 14, l3 := l.stackEnd,
        etherType := typeBehind f l.tags 14 (wordAt f 12), pktlen := m } ∧ 4 ≤ m :=
  Tagged.stack ⟨h.tags, h.no_tag, hn⟩ houter hfuel

theorem scan_mod {s : Stack} (h : scan f fuel a t n = some s) : s.vlan.getD s.l3 % 18 = a % 18 := by
  induction fuel generalizing a t n s with
  | zero => cases h
  | succ fuel ih =>
    rw [scan] at h
    split_ifs at h
    · obtain ⟨s', hs', rfl⟩ := map_eq_some_iff.1 h
      exact (ih hs').trans (add_mod_right a 18)
    · cases h
      rfl
    · obtain ⟨s', -, rfl⟩ := map_eq_some_iff.1 h
      rfl
    · cases h
      rfl

theorem firstTag_mod (ts : List Tag) (a : Nat) :
    (firstTag .vlan ts a).getD (tagsEnd ts a) % 18 = a % 18 := by
  induction ts generalizing a with
  | nil => rfl
  | cons t ts ih =>
    cases t with
    | vlan => rfl
    | pbb => exact (ih (a + 18)).trans (add_mod_right a 18)

/-! ## The extension headers -/

theorem Ext.Announced.extHdr_eq {e : Ext} {b : Byte} (h : e.Announced b) :
    extHdr b = some ⟨e.1.after, e.1.flag, e.size⟩ :=
  ExtType.extHdr_of_ofProto h e.2.2

theorem extHdr_eq_none {b : Byte} (h : ∀ e : Ext, ¬ e.Announced b) (hesp : b ≠ IPPROTO_ESP) :
    extHdr b = none := by
  cases hb : ExtType.ofProto b with
  | none => exact (ExtType.extHdr_of_ofProto_none hb).1
  | some t =>
    by_cases hnone : t = .noNext
    · exact (ExtType.ofProto_noNext (hnone ▸ hb)).1
    · have ht : t ≠ .esp := fun ht => hesp (ExtType.ofProto_esp (ht ▸ hb))
      exact absurd hb (h ⟨t, ht, hnone⟩)

theorem le_chainEnd (f : Nat → Byte) (es : List Ext) (proto a : Nat) :
    a + 8 * es.length ≤ (chainEnd f es proto a).2 := by
  induction es generalizing proto a with
  | nil => exact le_rfl
  | cons e es ih =>
    have hsize : 8 ≤ e.size (f (a + 1)).toNat := e.1.eight_le_size _
    have hih := ih a (a + e.size (f (a + 1)).toNat)
    simp only [chainEnd, List.length_cons]
    omega

variable {proto : Nat}

theorem isChain_end {es : List Ext} (h : IsChain f es proto a) :
    ∀ e : Ext, ¬ e.Announced (f (chainEnd f es proto a).1) := by
  induction es generalizing proto a with
  | nil => exact h
  | cons e es ih => exact ih h.2

namespace Packet

variable (p : Packet)

/-- **The loop over the extension headers follows the chain** of a packet that is long enough. -/
theorem extHdrLoop_chain {es : List Ext} (exthdr : BitVec 16)
    (h : IsChain p.frame es proto a) (hfuel : es.length < fuel)
    (hn : ((chainEnd p.frame es proto a).2 : Int) - a + 2 < n) :
    ∃ fuel' exthdr' n', 2 < n' ∧ p.extHdrLoop fuel (proto + p.eth) (a + p.eth) exthdr n =
      p.extHdrLoop (fuel' + 1) ((chainEnd p.frame es proto a).1 + p.eth)
        ((chainEnd p.frame es proto a).2 + p.eth) exthdr' n' := by
  induction es generalizing proto a fuel exthdr n with
  | nil =>
    obtain ⟨fuel, rfl⟩ := exists_eq_succ_of_ne_zero (ne_of_gt hfuel)
    exact ⟨fuel, exthdr, n, by simp only [chainEnd] at hn; omega, rfl⟩
  | cons e es ih =>
    obtain ⟨fuel, rfl⟩ := exists_eq_succ_of_ne_zero (ne_of_gt (zero_lt_of_lt hfuel))
    have hext : extHdr (p.mem (proto + p.eth)) = some ⟨e.1.after, e.1.flag, e.size⟩ := h.1.extHdr_eq
    have hlen : p.mem (a + p.eth + 1) = p.frame (a + 1) := by
      congr 1
      omega
    have hnext : a + p.eth + e.size (p.mem (a + p.eth + 1)).toNat =
        a + e.size (p.frame (a + 1)).toNat + p.eth := by
      rw [hlen]
      omega
    have hend := le_chainEnd p.frame es a (a + e.size (p.frame (a + 1)).toNat)
    simp only [chainEnd] at hn
    rw [extHdrLoop, if_neg (by omega), hext]
    simp only
    rw [hnext]
    refine ih _ h.2 (lt_of_succ_lt_succ hfuel) ?_
    omega

theorem extHdrLoop_stops {next : Nat} {exthdr : BitVec 16}
    (h : ∀ e : Ext, ¬ e.Announced (p.mem proto)) (hesp : p.mem proto ≠ IPPROTO_ESP)
    (hnone : p.mem proto ≠ IPPROTO_NONE) :
    p.extHdrLoop (fuel + 1) proto next exthdr n = (proto, next, exthdr) := by
  rw [extHdrLoop, extHdr_eq_none h hesp]
  simp [if_neg hnone]

/-- An encrypted payload and the number for no next header are taken for headers. -/
theorem lt_extHdrLoop_of_followed {next : Nat} {exthdr : BitVec 16} (hn : 2 < n)
    (h : p.mem proto = IPPROTO_ESP ∨ p.mem proto = IPPROTO_NONE) :
    next < (p.extHdrLoop (fuel + 1) proto next exthdr n).2.1 := by
  rw [extHdrLoop, if_neg (by omega)]
  rcases h with h | h
  · have hext : extHdr (p.mem proto) =
        some ⟨OFPIEH_AFTER_ESP, OFPIEH_ESP, fun n => (1 + n) * 8⟩ := by
      rw [h]
      rfl
    have hsize := eight_le_size hext (p.mem (next + 1)).toNat
    rw [hext]
    exact (Nat.lt_add_of_pos_right (by omega)).trans_le (p.le_extHdrLoop _ _ _ _ _)
  · rw [h, show extHdr IPPROTO_NONE = none from rfl]
    simp only [if_true]
    omega

/-! ## The network layer -/

theorem upper_ipv6 {exts : List Ext} (h : IsChain p.frame exts (a + 6) (a + 40))
    (hends : (chainEnd p.frame exts (a + 6) (a + 40)).2 ≤ p.pktlen) :
    ∃ fuel exthdr n, 2 < n ∧ p.upper ETHERTYPE_IPV6 (a + p.eth) =
      (fun r : Nat × Nat × BitVec 16 => (some r.1, some r.2.1))
        (p.extHdrLoop (fuel + 1) ((chainEnd p.frame exts (a + 6) (a + 40)).1 + p.eth)
          ((chainEnd p.frame exts (a + 6) (a + 40)).2 + p.eth) exthdr n) := by
  have hend := le_chainEnd p.frame exts (a + 6) (a + 40)
  have hlen : (p.pktlen : Int) - ((a + p.eth : Nat) - p.eth) = p.pktlen - a := by omega
  have h6 : a + p.eth + 6 = a + 6 + p.eth := by omega
  have h40 : a + p.eth + 40 = a + 40 + p.eth := by omega
  have hupper : p.upper ETHERTYPE_IPV6 (a + p.eth) =
      (fun r : Nat × Nat × BitVec 16 => (some r.1, some r.2.1))
        (p.extHdrLoop ((p.pktlen : Int) - a).toNat (a + 6 + p.eth) (a + 40 + p.eth) 0
          (p.pktlen - a)) := by
    rw [upper, if_neg (by decide), if_pos rfl, hlen]
    simp [h6, h40]
  rw [hupper]
  have hfuel : exts.length < ((p.pktlen : Int) - a).toNat := by omega
  have hlong : ((chainEnd p.frame exts (a + 6) (a + 40)).2 : Int) - (a + 40 : Nat) + 2 <
      p.pktlen - a := by omega
  obtain ⟨fuel, exthdr, n, hn, hloop⟩ := p.extHdrLoop_chain 0 h hfuel hlong
  exact ⟨fuel, exthdr, n, hn, by rw [hloop]⟩

theorem upper_net {net : NetHeader} (hchain : net.Chained p.frame a)
    (hends : (net.upper p.frame a).2 ≤ p.pktlen) (hno : ¬ net.Followed p.frame a) :
    p.upper net.etherType (a + p.eth) =
      (some ((net.upper p.frame a).1 + p.eth), some ((net.upper p.frame a).2 + p.eth)) := by
  cases net with
  | ipv4 =>
    have hproto : a + p.eth + 9 = a + 9 + p.eth := by omega
    have hl4 : a + p.eth + 4 * (p.mem (a + p.eth) &&& 0x0f).toNat =
        a + 4 * (p.frame a &&& 0x0f).toNat + p.eth := by
      rw [frame]
      omega
    rw [upper, if_pos (show NetHeader.ipv4.etherType = ETHERTYPE_IP from rfl), hproto, hl4]
    rfl
  | ipv6 exts =>
    obtain ⟨fuel, exthdr, n, -, hupper⟩ := p.upper_ipv6 hchain hends
    obtain ⟨hesp, hnone⟩ := not_or.1 hno
    have hend : ∀ e : Ext, ¬ e.Announced (p.frame (chainEnd p.frame exts (a + 6) (a + 40)).1) :=
      isChain_end hchain
    refine hupper.trans ?_
    rw [p.extHdrLoop_stops hend hesp hnone]
    rfl

theorem lt_upper_of_followed {net : NetHeader} (hchain : net.Chained p.frame a)
    (hends : (net.upper p.frame a).2 ≤ p.pktlen) (h : net.Followed p.frame a) :
    (p.upper net.etherType (a + p.eth)).2 ≠ some ((net.upper p.frame a).2 + p.eth) := by
  cases net with
  | ipv4 => exact absurd h id
  | ipv6 exts =>
    obtain ⟨fuel, exthdr, n, hn, hupper⟩ := p.upper_ipv6 hchain hends
    intro heq
    rw [show (NetHeader.ipv6 exts).etherType = ETHERTYPE_IPV6 from rfl, hupper] at heq
    exact absurd (Option.some.inj heq) (ne_of_gt (p.lt_extHdrLoop_of_followed hn h))

theorem cached_classifyEtherPacket (fuel : Nat) (p : Packet) :
    (p.classifyEtherPacket fuel).map cached = (stack p.frame fuel p.pktlen).map p.found := by
  have htype : ∀ q : Packet, q.proto = none →
      ({ q with oob := { q.oob with packetType := 0 } } : Packet).classifyUpper.cached =
        q.classifyUpper.cached := by
    intro q hproto
    have hupper : ∀ t l3,
        ({ q with oob := { q.oob with packetType := 0 } } : Packet).upper t l3 = q.upper t l3 :=
      fun t l3 => upper_congr rfl (fun _ _ => rfl) (fun _ => rfl) fun _ => ⟨rfl, fun _ _ _ => rfl⟩
    rw [cached_classifyUpper hproto, cached_classifyUpper, hupper]
    · rfl
    · exact hproto
  rw [classifyEtherPacket, classifyPacketL2_eq, map_map, map_map]
  cases hstack : stack p.frame fuel p.pktlen with
  | none => rfl
  | some s =>
    have hends := (stack_within hstack).ends
    have hproto : (p.linked s).proto = none := by
      unfold linked innerHeader
      simp only
      split_ifs <;> rfl
    exact congrArg some ((htype _ hproto).trans (p.cached_linked fun h => (hends h).1))

end Packet

/-! ## Classification -/

theorem NetHeader.guess_first {net : NetHeader} {first : Byte} (h : net.First first) (t : BitVec 16) :
    guess first t = net.etherType := by
  cases net with
  | ipv4 => exact if_pos h
  | ipv6 exts =>
    have hsix : ∀ b : Byte, b &&& 0xf0 = 0x60 → ¬ (0x45 ≤ b ∧ b ≤ 0x4f) := by decide
    rw [guess, if_neg (hsix first h), if_pos (show first &&& 0xf0 = 0x60 from h)]
    rfl

theorem NetHeader.not_isMpls (net : NetHeader) : ¬ IsMpls net.etherType := by
  cases net with
  | ipv4 => exact show ¬ IsMpls ETHERTYPE_IP by decide
  | ipv6 exts => exact show ¬ IsMpls ETHERTYPE_IPV6 by decide

/-- A UDP packet with two VLAN tags. -/
def doubleTagged : List Byte :=
  ipv4Frame.take 12 ++ [0x88, 0xa8, 0, 10, 0x81, 0x00, 0, 20] ++ ipv4Frame.drop 12

/-- A UDP packet behind a PBB header. -/
def encapsulated : List Byte :=
  ipv4Frame.take 12 ++ [0x88, 0xe7, 0, 0, 0, 7] ++ ipv4Frame

namespace Layout

variable {l : Layout} {p : Packet}

theorem stackEnd_le_l3 (l : Layout) : l.stackEnd ≤ l.l3 := by
  unfold l3
  split_ifs <;> omega

theorem le_upper (net : NetHeader) (f : Nat → Byte) (a : Nat) : a ≤ (net.upper f a).2 := by
  cases net with
  | ipv4 => exact le_add_right _ _
  | ipv6 exts =>
    have := le_chainEnd f exts (a + 6) (a + 40)
    exact show a ≤ (chainEnd f exts (a + 6) (a + 40)).2 by omega

theorem foundIn_of_found {q : Packet} {m : Int} (h : l.Describes p.frame p.pktlen)
    (hno : ¬ l.net.Followed p.frame l.l3) (hm : 4 ≤ m) (hq : q.cached = p.found
      { vlan := firstTag .vlan l.tags 14, pbb := firstTag .pbb l.tags 14, l3 := l.stackEnd,
        etherType := typeBehind p.frame l.tags 14 (wordAt p.frame 12), pktlen := m }) :
    l.FoundIn p q := by
  obtain ⟨s, hs⟩ : ∃ s : Stack, s =
      { vlan := firstTag .vlan l.tags 14, pbb := firstTag .pbb l.tags 14, l3 := l.stackEnd,
        etherType := typeBehind p.frame l.tags 14 (wordAt p.frame 12), pktlen := m } := ⟨_, rfl⟩
  have hlabel : s.label = l.mpls := by
    cases hshim : l.shim with
    | true =>
      have hmpls := h.shim hshim
      rw [Stack.label, mpls, hshim, if_pos rfl, hs]
      exact if_pos ⟨rfl, hmpls, by simp only; omega⟩
    | false =>
      have hmpls := h.type hshim ▸ l.net.not_isMpls
      rw [Stack.label, mpls, hshim, if_neg Bool.false_ne_true, hs]
      exact if_neg fun hc => hmpls hc.2.1
  have hinner : s.inner = l.l3 := by
    rw [Stack.inner, hlabel, mpls, l3, hs]
    cases l.shim <;> rfl
  have htype : p.innerType s = l.net.etherType := by
    rw [Packet.innerType, hinner, hlabel, mpls]
    cases hshim : l.shim with
    | true =>
      rw [hs]
      exact NetHeader.guess_first h.first _
    | false =>
      rw [hs]
      exact h.type hshim
  have hupper := p.upper_net h.chain h.ends hno
  rw [← hs] at hq
  have hfound : q.cached =
      { vlan := (firstTag .vlan l.tags 14).map (· + p.eth)
        vlanTci := (p.found s).vlanTci
        pbb := (firstTag .pbb l.tags 14).map (· + p.eth)
        mpls := l.mpls.map (· + p.eth)
        etherType := l.net.etherType
        l3 := l.l3 + p.eth
        proto := some ((l.net.upper p.frame l.l3).1 + p.eth)
        l4 := some ((l.net.upper p.frame l.l3).2 + p.eth) } := by
    rw [hq, Packet.found, htype, hinner, hlabel, hupper, hs]
  exact
    { vlan := congrArg vlan hfound
      pbb := congrArg pbb hfound
      mpls := congrArg Cached.mpls hfound
      l3 := congrArg Cached.l3 hfound
      etherType := congrArg etherType hfound
      proto := congrArg proto hfound
      l4 := congrArg l4 hfound }

/-- Behind an outermost PBB header the code is 10 bytes off, and no stack makes up for that. -/
theorem FoundIn.outer {q : Packet} {s : Stack} (hl : l.FoundIn p q)
    (h : l.Describes p.frame p.pktlen) (hs : stack p.frame fuel p.pktlen = some s)
    (hq : q.cached = p.found s) : l.tags.head? ≠ some .pbb := by
  intro houter
  obtain ⟨ts, hts⟩ : ∃ ts, l.tags = .pbb :: ts := by
    cases htags : l.tags with
    | nil =>
      rw [htags] at houter
      cases houter
    | cons t ts =>
      rw [htags] at houter
      exact ⟨ts, congrArg (· :: ts) (Option.some.inj houter)⟩
  have hpbb : wordAt p.frame 12 = ETHERTYPE_PBB := by
    have htags := h.tags
    rw [hts] at htags
    exact htags.1
  rw [stack, if_pos hpbb] at hs
  obtain ⟨s', hs', rfl⟩ := map_eq_some_iff.1 hs
  have hcode := scan_mod hs'
  have hwire := firstTag_mod l.tags 14
  have hvlan : (firstTag .vlan l.tags 14).map (· + p.eth) = s'.vlan.map (· + p.eth) :=
    hl.vlan.symm.trans (congrArg Cached.vlan hq)
  have hl3 : l.l3 + p.eth = Stack.inner { s' with pbb := some 14 } + p.eth :=
    hl.l3.symm.trans (congrArg Cached.l3 hq)
  have hvlan' : firstTag .vlan l.tags 14 = s'.vlan := map_injective (fun _ _ => add_right_cancel) hvlan
  rw [hvlan'] at hwire
  cases hv : s'.vlan with
  | some v =>
    rw [hv] at hcode hwire
    simp only [getD_some] at hcode hwire
    omega
  | none =>
    rw [hv] at hcode hwire
    simp only [getD_none] at hcode hwire
    unfold Layout.l3 Layout.stackEnd Stack.inner at hl3
    simp only at hl3
    split_ifs at hl3 <;> omega

/-- **Classification lands on the headers of a frame**, whatever its stack, its shim and its chain,
if and only if the frame does not begin with a PBB header and the chain ends with a protocol that the
loop over the extension headers stops at. -/
theorem found_iff (h : l.Describes p.frame p.pktlen) :
    (∃ fuel q, p.classifyEtherPacket fuel = some q ∧ l.FoundIn p q) ↔
      l.tags.head? ≠ some .pbb ∧ ¬ l.net.Followed p.frame l.l3 := by
  constructor
  · rintro ⟨fuel, q, hclass, hl⟩
    have hcached := p.cached_classifyEtherPacket fuel
    rw [hclass, Option.map_some] at hcached
    obtain ⟨s, hs, hq⟩ := Option.map_eq_some_iff.1 hcached.symm
    refine ⟨hl.outer h hs hq.symm, fun hfollowed => ?_⟩
    have htype : p.innerType s = l.net.etherType := (congrArg etherType hq).trans hl.etherType
    have hl3 : s.inner + p.eth = l.l3 + p.eth := (congrArg Cached.l3 hq).trans hl.l3
    refine p.lt_upper_of_followed h.chain h.ends hfollowed ?_
    rw [← htype, ← hl3]
    exact (congrArg l4 hq).trans hl.l4
  · rintro ⟨houter, hno⟩
    have hn : l.stackEnd ≤ p.pktlen := l.stackEnd_le_l3.trans ((le_upper l.net p.frame l.l3).trans h.ends)
    obtain ⟨m, hm, hlen⟩ := h.stack hn houter (Nat.lt_succ_self _)
    have hcached := p.cached_classifyEtherPacket (l.tags.length + 1)
    rw [hm, Option.map_some] at hcached
    obtain ⟨q, hclass, hq⟩ := Option.map_eq_some_iff.1 hcached
    exact ⟨_, q, hclass, foundIn_of_found h hno hlen hq⟩

/-- A UDP packet with two VLAN tags is classified as its layout says. -/
theorem found_iff_of_double_tagged :
    (⟨[.vlan, .vlan], false, .ipv4⟩ : Layout).Describes (Packet.ofFrame doubleTagged).frame 50 ∧
      ∃ fuel q, (Packet.ofFrame doubleTagged).classifyEtherPacket fuel = some q ∧
        (⟨[.vlan, .vlan], false, .ipv4⟩ : Layout).FoundIn (Packet.ofFrame doubleTagged) q := by
  have h : (⟨[.vlan, .vlan], false, .ipv4⟩ : Layout).Describes
      (Packet.ofFrame doubleTagged).frame (Packet.ofFrame doubleTagged).pktlen :=
    ⟨⟨by decide, by decide, trivial⟩, by decide, fun _ => rfl, by decide, trivial, by decide⟩
  exact ⟨h, (found_iff h).2 ⟨by decide, id⟩⟩

/-- The UDP packet behind a PBB header: the network layer begins at offset 32, and 22 is found. -/
theorem not_found_behind_pbb :
    (⟨[.pbb], false, .ipv4⟩ : Layout).Describes (Packet.ofFrame encapsulated).frame
        (Packet.ofFrame encapsulated).pktlen ∧
      (⟨[.pbb], false, .ipv4⟩ : Layout).l3 + (Packet.ofFrame encapsulated).eth = 160 ∧
      ((Packet.ofFrame encapsulated).classifyEtherPacket 2).map (·.l3) = some 150 := by
  refine ⟨⟨⟨by decide, trivial⟩, by decide, fun _ => rfl, by decide, trivial, by decide⟩, rfl, ?_⟩
  decide

end Layout

end Lagopus
