import Lagopus.Dataplane.Classify

/-!
# IPv6 extension headers

`classify_packet_ipv6` walks the extension headers and notes their types, repeated ones, and ones it takes to
be out of order, each by the flags it has gathered so far.

* `Chain`: the extension headers of a packet, when all of them are inside of it;
* `OutOfOrder`: the positions at which the code notes a header out of order;
* `notes_foldl`: what the flags say, by induction on the chain;
* `exthdr_right_iff`: the chains for which the order is noted as it should be.
-/

namespace Lagopus

open List

/-! ## Chains -/

/-- The types of extension headers. -/
inductive ExtType
  | hop | routing | fragment | ah | esp | dest | noNext
deriving DecidableEq

namespace ExtType

def ofProto (proto : Byte) : Option ExtType :=
  if proto = 0 then some hop
  else if proto = 43 then some routing
  else if proto = 44 then some fragment
  else if proto = 51 then some ah
  else if proto = 50 then some esp
  else if proto = 60 then some dest
  else if proto = 59 then some noNext
  else none

/-- `OFPIEH_*`. -/
def flag : ExtType → BitVec 16
  | hop => OFPIEH_HOP
  | routing => OFPIEH_ROUTER
  | fragment => OFPIEH_FRAG
  | ah => OFPIEH_AUTH
  | esp => OFPIEH_ESP
  | dest => OFPIEH_DEST
  | noNext => OFPIEH_NONEXT

/-- The flags that the code tests at a header of the type. -/
def after : ExtType → BitVec 16
  | hop => 0xffff
  | routing => OFPIEH_HOP ||| OFPIEH_DEST ||| OFPIEH_UNREP
  | fragment => OFPIEH_HOP ||| OFPIEH_DEST ||| OFPIEH_ROUTER ||| OFPIEH_UNREP
  | ah => OFPIEH_AFTER_AH
  | esp => OFPIEH_AFTER_ESP
  | dest => 0
  | noNext => 0

/-- The size of a header with length byte `n`. -/
def size : ExtType → Nat → Nat
  | fragment, _ => 8
  | ah, n => (2 + n) * 4
  | _, n => (1 + n) * 8

/-- The order of the headers. -/
def rank : ExtType → Nat
  | hop => 0
  | routing => 1
  | fragment => 2
  | ah => 3
  | esp => 4
  | dest => 5
  | noNext => 6

/-- The headers before the authentication header. -/
def isEarly : ExtType → Bool
  | hop | routing | fragment => true
  | _ => false

variable {proto : Byte}

theorem extHdr_of_ofProto {t : ExtType} (h : ofProto proto = some t) (hne : t ≠ noNext) :
    extHdr proto = some ⟨t.after, t.flag, t.size⟩ := by
  unfold ofProto at h
  unfold extHdr
  split_ifs at h ⊢ <;> first | cases h; first | rfl | exact absurd rfl hne

theorem extHdr_of_ofProto_none (h : ofProto proto = none) : extHdr proto = none ∧ proto ≠ IPPROTO_NONE := by
  unfold ofProto at h
  unfold extHdr
  split_ifs at h ⊢ with _ _ _ _ _ _ hnone
  exact ⟨rfl, hnone⟩

theorem ofProto_noNext (h : ofProto proto = some noNext) : extHdr proto = none ∧ proto = IPPROTO_NONE := by
  unfold ofProto at h
  split_ifs at h with _ _ _ _ _ _ hnone
  all_goals first | (subst hnone; exact ⟨rfl, rfl⟩) | cases h

theorem ofProto_esp (h : ofProto proto = some esp) : proto = 50 := by
  unfold ofProto at h
  split_ifs at h with _ _ _ _ hesp
  all_goals first | exact hesp | cases h

theorem eight_le_size (t : ExtType) (n : Nat) : 8 ≤ t.size n := by
  cases t <;> simp only [size] <;> omega

end ExtType

namespace Packet

/-- The extension headers from the one of the type at `proto` on, the first of them at `next`.  All of them
are inside the packet. -/
inductive Chain (p : Packet) : Nat → Nat → List ExtType → Prop
  | upper {proto next : Nat} : ExtType.ofProto (p.mem proto) = none → Chain p proto next []
  | noNext {proto next : Nat} : ExtType.ofProto (p.mem proto) = some .noNext →
      Chain p proto next [.noNext]
  | header {proto next : Nat} {t : ExtType} {ts : List ExtType} :
      ExtType.ofProto (p.mem proto) = some t → t ≠ .noNext →
      next + t.size (p.mem (next + 1)).toNat ≤ p.eth + p.pktlen →
      Chain p next (next + t.size (p.mem (next + 1)).toNat) ts → Chain p proto next (t :: ts)

end Packet

/-- The flags of a chain. -/
def noteAll (exthdr : BitVec 16) (ts : List ExtType) : BitVec 16 :=
  ts.foldl (fun exthdr t => noteExtHdr t.after t.flag exthdr) exthdr

theorem Packet.Chain.extHdrLoop_eq {p : Packet} {proto next : Nat} {ts : List ExtType}
    (h : p.Chain proto next ts) {fuel : Nat} {exthdr : BitVec 16} {pktlen : Int}
    (hinside : next ≤ p.eth + p.pktlen) (hpktlen : pktlen = p.eth + p.pktlen + 40 - next)
    (hfuel : pktlen ≤ fuel) : (p.extHdrLoop fuel proto next exthdr pktlen).2.2 = noteAll exthdr ts := by
  induction h generalizing fuel exthdr pktlen with
  | @upper proto next hproto =>
    obtain ⟨hext, hnone⟩ := ExtType.extHdr_of_ofProto_none hproto
    cases fuel with
    | zero => rfl
    | succ fuel =>
      rw [extHdrLoop, if_neg (by omega), hext]
      simp only [if_neg hnone]
      rfl
  | @noNext proto next hproto =>
    obtain ⟨hext, hnone⟩ := ExtType.ofProto_noNext hproto
    cases fuel with
    | zero => omega
    | succ fuel =>
      rw [extHdrLoop, if_neg (by omega), hext]
      simp only [if_pos hnone]
      rfl
  | @header proto next t ts hproto hne hin _ ih =>
    have hsize := t.eight_le_size (p.mem (next + 1)).toNat
    cases fuel with
    | zero => omega
    | succ fuel =>
      rw [extHdrLoop, if_neg (by omega), ExtType.extHdr_of_ofProto hproto hne]
      show (p.extHdrLoop fuel next (next + t.size (p.mem (next + 1)).toNat)
        (noteExtHdr t.after t.flag exthdr)
        (pktlen - (t.size (p.mem (next + 1)).toNat : Nat))).2.2 = noteAll exthdr (t :: ts)
      exact ih hin (by push_cast; omega) (by omega)

theorem Packet.Chain.noNext_last {p : Packet} {proto next : Nat} {ts : List ExtType}
    (h : p.Chain proto next ts) {pre post : List ExtType} {t : ExtType} (hts : ts = pre ++ t :: post) :
    ExtType.noNext ∉ pre := by
  induction h generalizing pre with
  | upper => simp at hts
  | noNext =>
    cases pre with
    | nil => exact not_mem_nil
    | cons u pre => simp at hts
  | header _ hne _ _ ih =>
    cases pre with
    | nil => exact not_mem_nil
    | cons u pre =>
      rw [cons_append, List.cons.injEq] at hts
      rw [mem_cons, not_or]
      exact ⟨fun heq => hne (hts.1.trans heq.symm), ih hts.2⟩

/-! ## Flags -/

/-- One of the flags is there. -/
def HasFlag (exthdr flags : BitVec 16) : Prop := exthdr &&& flags ≠ 0#16

instance (exthdr flags : BitVec 16) : Decidable (HasFlag exthdr flags) := inferInstanceAs (Decidable (_ ≠ _))

section

variable {x y m n : BitVec 16}

theorem hasFlag_or_left : HasFlag (x ||| y) m ↔ HasFlag x m ∨ HasFlag y m := by
  have hdistrib : (x ||| y) &&& m = (x &&& m) ||| (y &&& m) := by
    rw [BitVec.and_comm, BitVec.and_or_distrib_left, BitVec.and_comm m x, BitVec.and_comm m y]
  rw [HasFlag, HasFlag, HasFlag, hdistrib, ne_eq, BitVec.or_eq_zero_iff, not_and_or]

theorem hasFlag_or_right : HasFlag x (m ||| n) ↔ HasFlag x m ∨ HasFlag x n := by
  rw [HasFlag, HasFlag, HasFlag, BitVec.and_or_distrib_left, ne_eq, BitVec.or_eq_zero_iff, not_and_or]

theorem hasFlag_all : HasFlag x 0xffff ↔ x ≠ 0 := by
  rw [HasFlag, show (0xffff : BitVec 16) = BitVec.allOnes 16 from rfl, BitVec.and_allOnes]
  exact Iff.rfl

theorem not_hasFlag_zero : ¬ HasFlag x 0 := fun h => h BitVec.and_zero

theorem hasFlag_flag (t u : ExtType) : HasFlag t.flag u.flag ↔ t = u := by
  cases t <;> cases u <;> decide

theorem hasFlag_noteExtHdr (after : BitVec 16) (t : ExtType) (x : BitVec 16) :
    (∀ u : ExtType, HasFlag (noteExtHdr after t.flag x) u.flag ↔ HasFlag x u.flag ∨ t = u) ∧
    (HasFlag (noteExtHdr after t.flag x) OFPIEH_UNREP ↔ HasFlag x OFPIEH_UNREP ∨ HasFlag x t.flag) ∧
    (HasFlag (noteExtHdr after t.flag x) OFPIEH_UNSEQ ↔ HasFlag x OFPIEH_UNSEQ ∨ HasFlag x after) := by
  have hflag (f : BitVec 16) (c : Prop) [Decidable c] (z m : BitVec 16) :
      HasFlag (if c then z ||| f else z) m ↔ HasFlag z m ∨ (c ∧ HasFlag f m) := by
    split
    · next hc => rw [hasFlag_or_left, and_iff_right hc]
    · next hc => simp [hc]
  have htype (u : ExtType) : ¬ HasFlag OFPIEH_UNSEQ u.flag ∧ ¬ HasFlag OFPIEH_UNREP u.flag ∧
      ¬ HasFlag u.flag OFPIEH_UNREP ∧ ¬ HasFlag u.flag OFPIEH_UNSEQ := by
    cases u <;> decide
  have hrep : HasFlag OFPIEH_UNREP OFPIEH_UNREP ∧ ¬ HasFlag OFPIEH_UNREP OFPIEH_UNSEQ ∧
      ¬ HasFlag OFPIEH_UNSEQ OFPIEH_UNREP ∧ HasFlag OFPIEH_UNSEQ OFPIEH_UNSEQ := by decide
  have hseq : HasFlag (if x &&& after ≠ 0 then x ||| OFPIEH_UNSEQ else x) t.flag ↔ HasFlag x t.flag := by
    rw [hflag, or_iff_left]
    exact fun h => (htype t).1 h.2
  refine ⟨fun u => ?_, ?_, ?_⟩
  · rw [noteExtHdr, hasFlag_or_left, hasFlag_flag, hflag, hflag]
    simp [htype u]
  · rw [noteExtHdr, hasFlag_or_left, hflag, hflag]
    simp only [htype t, hrep, and_true, and_false, or_false]
    exact or_congr_right hseq
  · rw [noteExtHdr, hasFlag_or_left, hflag, hflag]
    simp only [htype t, hrep, and_true, and_false, or_false]
    exact Iff.rfl

end

namespace ExtType

/-- The code takes a header of type `t` to be out of order behind the headers `pre`. -/
def Follows (pre : List ExtType) : ExtType → Prop
  | hop => pre ≠ []
  | routing => hop ∈ pre ∨ dest ∈ pre ∨ ¬ pre.Nodup
  | fragment => hop ∈ pre ∨ dest ∈ pre ∨ routing ∈ pre ∨ ¬ pre.Nodup
  | ah => esp ∈ pre ∨ dest ∈ pre ∨ ¬ pre.Nodup
  | esp => noNext ∈ pre
  | dest => False
  | noNext => False

end ExtType

/-- Some header is taken to be out of order. -/
def OutOfOrder (ts : List ExtType) : Prop := ∃ pre t post, ts = pre ++ t :: post ∧ ExtType.Follows pre t

variable {ts : List ExtType}

theorem outOfOrder_concat {t : ExtType} :
    OutOfOrder (ts ++ [t]) ↔ OutOfOrder ts ∨ ExtType.Follows ts t := by
  constructor
  · rintro ⟨pre, u, post, heq, hfollows⟩
    rcases eq_nil_or_concat post with rfl | ⟨post, v, rfl⟩
    · obtain ⟨rfl, hu⟩ := append_inj' heq rfl
      rw [singleton_inj] at hu
      exact .inr (hu ▸ hfollows)
    · rw [concat_eq_append, ← cons_append, ← append_assoc] at heq
      exact .inl ⟨pre, u, post, (append_inj' heq rfl).1, hfollows⟩
  · rintro (⟨pre, u, post, rfl, hfollows⟩ | hfollows)
    · exact ⟨pre, u, post ++ [t], by simp, hfollows⟩
    · exact ⟨ts, t, [], rfl, hfollows⟩

/-- The flags say what was in the chain. -/
structure Notes (exthdr : BitVec 16) (ts : List ExtType) : Prop where
  types : ∀ t : ExtType, HasFlag exthdr t.flag ↔ t ∈ ts
  unrep : HasFlag exthdr OFPIEH_UNREP ↔ ¬ ts.Nodup
  unseq : HasFlag exthdr OFPIEH_UNSEQ ↔ OutOfOrder ts
  eq_zero_iff : exthdr = 0 ↔ ts = []

theorem Notes.hasFlag_after {exthdr : BitVec 16} (h : Notes exthdr ts) (t : ExtType) :
    HasFlag exthdr t.after ↔ ExtType.Follows ts t := by
  cases t with
  | hop => exact hasFlag_all.trans (not_congr h.eq_zero_iff)
  | routing =>
    rw [ExtType.after, hasFlag_or_right, hasFlag_or_right, or_assoc, h.unrep]
    exact or_congr (h.types .hop) (or_congr_left (h.types .dest))
  | fragment =>
    rw [ExtType.after, hasFlag_or_right, hasFlag_or_right, hasFlag_or_right, or_assoc, or_assoc, h.unrep]
    exact or_congr (h.types .hop) (or_congr (h.types .dest) (or_congr_left (h.types .routing)))
  | ah =>
    rw [ExtType.after, OFPIEH_AFTER_AH, hasFlag_or_right, hasFlag_or_right, or_assoc, h.unrep]
    exact or_congr (h.types .esp) (or_congr_left (h.types .dest))
  | esp => exact h.types .noNext
  | dest => exact iff_of_false not_hasFlag_zero id
  | noNext => exact iff_of_false not_hasFlag_zero id

theorem Notes.concat {exthdr : BitVec 16} (h : Notes exthdr ts) (t : ExtType) :
    Notes (noteExtHdr t.after t.flag exthdr) (ts ++ [t]) := by
  obtain ⟨htypes, hunrep, hunseq⟩ := hasFlag_noteExtHdr t.after t exthdr
  refine ⟨fun u => ?_, ?_, ?_, ?_⟩
  · rw [htypes, h.types, mem_append, mem_singleton, eq_comm (a := t)]
  · rw [hunrep, h.unrep, h.types, nodup_append]
    simp only [nodup_singleton, mem_singleton, true_and, not_and_or]
    refine or_congr_right ?_
    push Not
    exact ⟨fun hmem => ⟨t, hmem, t, rfl, rfl⟩, fun ⟨u, hu, v, hv, huv⟩ => hv ▸ huv ▸ hu⟩
  · rw [hunseq, h.unseq, h.hasFlag_after, outOfOrder_concat]
  · refine iff_of_false (fun hzero => ?_) (by simp)
    have := (htypes t).2 (.inr rfl)
    rw [hzero] at this
    exact this (BitVec.zero_and ..)

theorem notes_noteAll (ts : List ExtType) : Notes (noteAll 0 ts) ts := by
  induction ts using List.reverseRecOn with
  | nil =>
    refine ⟨fun t => iff_of_false (fun h => h (BitVec.zero_and ..)) not_mem_nil,
      iff_of_false (fun h => h (BitVec.zero_and ..)) (not_not.2 nodup_nil),
      iff_of_false (fun h => h (BitVec.zero_and ..)) ?_, iff_of_true rfl rfl⟩
    rintro ⟨pre, t, post, heq, -⟩
    simp at heq
  | append_singleton ts t ih =>
    rw [noteAll, foldl_append]
    exact ih.concat t

/-! ## Order -/

/-- A hop-by-hop header is not the first, or a routing, fragment or authentication header comes behind an ESP
or destination options header. -/
def Misplaced (ts : List ExtType) : Prop :=
  (∃ pre post, ts = pre ++ .hop :: post ∧ pre ≠ []) ∨
  (∃ pre t post, ts = pre ++ t :: post ∧ (t = .routing ∨ t = .fragment ∨ t = .ah) ∧
    (ExtType.esp ∈ pre ∨ ExtType.dest ∈ pre))

/-- What is asked of the flags of a chain. -/
structure ExthdrRight (exthdr : BitVec 16) (ts : List ExtType) : Prop where
  types : ∀ t : ExtType, HasFlag exthdr t.flag ↔ t ∈ ts
  unrep : HasFlag exthdr OFPIEH_UNREP ↔ ¬ ts.Nodup
  ordered : (ts.Pairwise fun t u => t.rank < u.rank) → ¬ HasFlag exthdr OFPIEH_UNSEQ
  misplaced : Misplaced ts → HasFlag exthdr OFPIEH_UNSEQ

/-- An ordered chain has at most one hop-by-hop, routing or fragment header; and where a routing or fragment
header comes behind an ESP header, some header is flagged. -/
structure ExthdrCond (ts : List ExtType) : Prop where
  early : (ts.Pairwise fun t u => t.rank < u.rank) → (ts.filter ExtType.isEarly).length ≤ 1
  behindEsp : (∃ pre t post, ts = pre ++ t :: post ∧ (t = .routing ∨ t = .fragment) ∧
    ExtType.esp ∈ pre) → OutOfOrder ts

section

variable {ts : List ExtType} {pre post : List ExtType}

theorem rank_lt_of_ordered {t u : ExtType}
    (h : (pre ++ t :: post).Pairwise fun t u => t.rank < u.rank) (hu : u ∈ pre) : u.rank < t.rank :=
  (pairwise_append.1 h).2.2 u hu t mem_cons_self

theorem two_early {t u : ExtType} (ht : t.isEarly = true) (hu : u ∈ pre)
    (hearly : u.isEarly = true) : 2 ≤ ((pre ++ t :: post).filter ExtType.isEarly).length := by
  rw [filter_append, filter_cons_of_pos ht, length_append, length_cons]
  have := length_pos_of_mem (mem_filter.2 ⟨hu, hearly⟩)
  omega

theorem two_early_of_outOfOrder (hts : ts.Pairwise fun t u => t.rank < u.rank) (h : OutOfOrder ts)
    (hlast : ∀ pre t post, ts = pre ++ t :: post → ExtType.noNext ∉ pre) :
    2 ≤ (ts.filter ExtType.isEarly).length := by
  obtain ⟨pre, t, post, rfl, hfollows⟩ := h
  have hnodup : pre.Nodup :=
    ((pairwise_append.1 hts).1.imp fun hlt => fun heq => absurd (heq ▸ hlt) (lt_irrefl _))
  have hrank {u : ExtType} (hu : u ∈ pre) := rank_lt_of_ordered hts hu
  cases t with
  | hop =>
    obtain ⟨u, hu⟩ := exists_mem_of_ne_nil pre hfollows
    exact absurd (hrank hu) (Nat.not_lt_zero _)
  | routing =>
    rcases hfollows with hmem | hmem | hrep
    · exact two_early rfl hmem rfl
    · exact absurd (hrank hmem) (by decide)
    · exact absurd hnodup hrep
  | fragment =>
    rcases hfollows with hmem | hmem | hmem | hrep
    · exact two_early rfl hmem rfl
    · exact absurd (hrank hmem) (by decide)
    · exact two_early rfl hmem rfl
    · exact absurd hnodup hrep
  | ah =>
    rcases hfollows with hmem | hmem | hrep
    · exact absurd (hrank hmem) (by decide)
    · exact absurd (hrank hmem) (by decide)
    · exact absurd hnodup hrep
  | esp => exact absurd hfollows (hlast pre .esp post rfl)
  | dest => exact hfollows.elim
  | noNext => exact hfollows.elim

theorem outOfOrder_of_two_early (hts : ts.Pairwise fun t u => t.rank < u.rank)
    (h : 2 ≤ (ts.filter ExtType.isEarly).length) : OutOfOrder ts := by
  obtain ⟨u, t, more, hfilter⟩ : ∃ u t more, ts.filter ExtType.isEarly = u :: t :: more := by
    rcases hl : ts.filter ExtType.isEarly with _ | ⟨u, _ | ⟨t, more⟩⟩
    · rw [hl] at h
      exact absurd h (by decide)
    · rw [hl] at h
      exact absurd h (by simp)
    · exact ⟨u, t, more, rfl⟩
  have hmem : ∀ v ∈ u :: t :: more, v ∈ ts ∧ v.isEarly = true := fun v hv =>
    mem_filter.1 (hfilter ▸ hv)
  have hlt : u.rank < t.rank := by
    have := hts.filter ExtType.isEarly
    rw [hfilter] at this
    exact (pairwise_cons.1 this).1 t mem_cons_self
  obtain ⟨htmem, htearly⟩ := hmem t (by simp)
  obtain ⟨humem, huearly⟩ := hmem u (by simp)
  obtain ⟨pre, post, rfl⟩ := append_of_mem htmem
  have hu : u ∈ pre := by
    rcases mem_append.1 humem with hu | hu
    · exact hu
    · rcases mem_cons.1 hu with rfl | hu
      · exact absurd hlt (lt_irrefl _)
      · have := (pairwise_cons.1 (pairwise_append.1 hts).2.1).1 u hu
        omega
  refine ⟨pre, t, post, rfl, ?_⟩
  cases t with
  | hop => exact ne_nil_of_mem hu
  | routing =>
    cases u with
    | hop => exact .inl hu
    | routing => exact absurd hlt (lt_irrefl _)
    | fragment => exact absurd hlt (by decide)
    | _ => cases huearly
  | fragment =>
    cases u with
    | hop => exact .inl hu
    | routing => exact .inr (.inr (.inl hu))
    | fragment => exact absurd hlt (lt_irrefl _)
    | _ => cases huearly
  | _ => cases htearly

/-- Headers out of their place are flagged, unless they are routing or fragment headers behind ESP. -/
theorem outOfOrder_of_misplaced (h : Misplaced ts) (hesp : (∃ pre t post, ts = pre ++ t :: post ∧
    (t = .routing ∨ t = .fragment) ∧ ExtType.esp ∈ pre) → OutOfOrder ts) : OutOfOrder ts := by
  rcases h with ⟨pre, post, hts, hne⟩ | ⟨pre, t, post, hts, ht, hesp' | hdest⟩
  · exact ⟨pre, .hop, post, hts, hne⟩
  · rcases ht with rfl | rfl | rfl
    · exact hesp ⟨pre, _, post, hts, .inl rfl, hesp'⟩
    · exact hesp ⟨pre, _, post, hts, .inr rfl, hesp'⟩
    · exact ⟨pre, .ah, post, hts, .inl hesp'⟩
  · refine ⟨pre, t, post, hts, ?_⟩
    rcases ht with rfl | rfl | rfl
    · exact .inr (.inl hdest)
    · exact .inr (.inl hdest)
    · exact .inr (.inl hdest)

end

/-- **The pseudo field of a chain** has the types and repetitions of the headers; their order is noted as it
should be in exactly these cases. -/
theorem exthdr_right_iff {p : Packet} {ts : List ExtType} (hinside : p.l3 + 40 ≤ p.eth + p.pktlen)
    (hchain : p.Chain (p.l3 + 6) (p.l3 + 40) ts) :
    ExthdrRight p.classifyPacketIpv6.oob2.ipv6Exthdr ts ↔ ExthdrCond ts := by
  have hvalue : p.classifyPacketIpv6.oob2.ipv6Exthdr = noteAll 0 ts := by
    show (p.extHdrLoop ((p.pktlen : Int) - (p.l3 - p.eth)).toNat (p.l3 + 6) (p.l3 + 40) 0
      ((p.pktlen : Int) - (p.l3 - p.eth))).2.2 = _
    exact hchain.extHdrLoop_eq hinside (by push_cast; omega) (by omega)
  rw [hvalue]
  have hnotes := notes_noteAll ts
  constructor
  · intro hright
    constructor
    · intro hts
      by_contra hlen
      exact hright.ordered hts (hnotes.unseq.2 (outOfOrder_of_two_early hts (by omega)))
    · rintro ⟨pre, t, post, heq, ht, hesp⟩
      refine hnotes.unseq.1 (hright.misplaced (Or.inr ⟨pre, t, post, heq, ?_, Or.inl hesp⟩))
      exact ht.imp_right Or.inl
  · intro hcond
    refine ⟨hnotes.types, hnotes.unrep, fun hts hunseq => ?_, fun hmis => ?_⟩
    · have := two_early_of_outOfOrder hts (hnotes.unseq.1 hunseq) fun pre t post heq => hchain.noNext_last heq
      have := hcond.early hts
      omega
    · exact hnotes.unseq.2 (outOfOrder_of_misplaced hmis hcond.behindEsp)

/-- A packet with an authentication header and destination options. -/
def ahDestPacket : Packet where
  mem := fun a => if a = 20 then 51 else if a = 54 then 60 else if a = 55 then 4 else if a = 78 then 6 else 0
  pktlen := 100

theorem exthdr_right_of_ahDest :
    ExthdrRight ahDestPacket.classifyPacketIpv6.oob2.ipv6Exthdr [.ah, .dest] := by
  have hchain : ahDestPacket.Chain (14 + 6) (14 + 40) [.ah, .dest] :=
    .header (by decide) (by decide) (by decide)
      (.header (by decide) (by decide) (by decide) (.upper (by decide)))
  refine (exthdr_right_iff (by decide) hchain).2 ⟨fun _ => by decide, ?_⟩
  rintro ⟨pre, t, post, heq, -, hesp⟩
  have hmem : ExtType.esp ∈ [ExtType.ah, .dest] := heq ▸ List.mem_append_left _ hesp
  exact absurd hmem (by decide)

/-- A packet with a hop-by-hop and a routing header, in this order. -/
def hopRoutingPacket : Packet where
  mem := fun a => if a = 54 then 43 else if a = 62 then 6 else 0
  pktlen := 100

/-- The routing header behind the hop-by-hop header is flagged. -/
theorem hop_routing_flagged : hopRoutingPacket.Chain (14 + 6) (14 + 40) [.hop, .routing] ∧
    ¬ ExthdrRight hopRoutingPacket.classifyPacketIpv6.oob2.ipv6Exthdr [.hop, .routing] := by
  refine ⟨.header (by decide) (by decide) (by decide)
    (.header (by decide) (by decide) (by decide) (.upper (by decide))), fun hright => ?_⟩
  exact hright.ordered (by decide) (by decide)

end Lagopus
