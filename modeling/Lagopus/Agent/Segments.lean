import Lagopus.Agent.Pbuf
import Lagopus.Agent.ChannelRead

/-!
# Multipart replies

The entries of a multipart reply are encoded one by one, and appended to the last message.  When an entry
does not fit, the header of the message is written once more, now with its length and with the flag that
more follows, and a copy of the header starts the next message.

* `ofpMultipartAppend`, `ofpHeaderMpCopy`, `ofpHeaderLengthSet`: the code;
* `statsReplyCreate`: what the functions that create replies have in common;
* `Segmenting`: the messages so far, of which only the last is open;
* `reply_segmented`: the messages of every reply.
-/

namespace Lagopus.Pbufs

open Octets Pbuf List

/-! ## Headers -/

/-- `struct ofp_header`. -/
@[ext]
structure OfpHeader where
  version : Octet
  type : Octet
  length : BitVec 16
  xid : BitVec 32

/-- `struct ofp_multipart_reply`, with its four bytes of padding as one number. -/
@[ext]
structure OfpMultipartReply where
  header : OfpHeader
  type : BitVec 16
  flags : BitVec 16
  pad : BitVec 32

/-- `OFPMPF_REPLY_MORE`. -/
def OFPMPF_REPLY_MORE : BitVec 16 := 1

namespace OfpHeader

def bytes (h : OfpHeader) : List Octet :=
  h.version :: h.type :: (Octets.ofNat 2 h.length.toNat ++ Octets.ofNat 4 h.xid.toNat)

def ofBytes (l : List Octet) : OfpHeader where
  version := l.getD 0 0
  type := l.getD 1 0
  length := BitVec.ofNat 16 (field l 2 2)
  xid := BitVec.ofNat 32 (field l 4 4)

@[simp]
theorem length_bytes (h : OfpHeader) : h.bytes.length = 8 := rfl

theorem ofNat_field_ofNat (n : Nat) {w : Nat} (v : BitVec w) (hw : 256 ^ n = 2 ^ w) :
    BitVec.ofNat w (Octets.toNat (Octets.ofNat n v.toNat)) = v := by
  rw [toNat_ofNat, hw, Nat.mod_eq_of_lt v.isLt, BitVec.ofNat_toNat, BitVec.setWidth_eq]

theorem ofBytes_bytes (h : OfpHeader) (l : List Octet) : ofBytes (h.bytes ++ l) = h := by
  apply OfpHeader.ext
  · rfl
  · rfl
  · exact ofNat_field_ofNat 2 h.length (by norm_num)
  · exact ofNat_field_ofNat 4 h.xid (by norm_num)

end OfpHeader

namespace OfpMultipartReply

def bytes (r : OfpMultipartReply) : List Octet :=
  r.header.bytes ++ (Octets.ofNat 2 r.type.toNat ++ (Octets.ofNat 2 r.flags.toNat ++
    Octets.ofNat 4 r.pad.toNat))

def ofBytes (l : List Octet) : OfpMultipartReply where
  header := .ofBytes l
  type := BitVec.ofNat 16 (field l 8 2)
  flags := BitVec.ofNat 16 (field l 10 2)
  pad := BitVec.ofNat 32 (field l 12 4)

@[simp]
theorem length_bytes (r : OfpMultipartReply) : r.bytes.length = 16 := rfl

theorem ofBytes_bytes (r : OfpMultipartReply) : ofBytes r.bytes = r := by
  apply OfpMultipartReply.ext
  · exact r.header.ofBytes_bytes _
  · exact OfpHeader.ofNat_field_ofNat 2 r.type (by norm_num)
  · exact OfpHeader.ofNat_field_ofNat 2 r.flags (by norm_num)
  · exact OfpHeader.ofNat_field_ofNat 4 r.pad (by norm_num)

/-- With another length and other flags. -/
def marked (r : OfpMultipartReply) (length flags : BitVec 16) : OfpMultipartReply :=
  { r with header := { r.header with length }, flags }

end OfpMultipartReply

/-- `ofp_multipart_reply_decode`, with the buffer read. -/
def ofpMultipartReplyDecode (p : Pbuf) : Except PbufError (OfpMultipartReply × Pbuf) :=
  if p.plen < 16 then .error .outOfRange
  else do
    let l ← p.fetch 16
    .ok (.ofBytes l, { p with getp := p.getp + 16, plen := p.plen - 16 })

/-- `ofp_multipart_reply_encode`. -/
def ofpMultipartReplyEncode (p : Pbuf) (r : OfpMultipartReply) : Except PbufError Pbuf :=
  if p.plen < 16 then .error .outOfRange
  else (p.store r.bytes).map fun p => { p with plen := p.plen - 16 }

/-- `ofp_header_decode_sneak`. -/
def headerDecodeSneak (p : Pbuf) : Except PbufError OfpHeader :=
  if p.plen < 8 then .error .outOfRange else (p.fetch 8).map .ofBytes

/-- `ofp_header_encode`. -/
def ofpHeaderEncode (p : Pbuf) (h : OfpHeader) : Except PbufError Pbuf :=
  if p.plen < 8 then .error .outOfRange
  else (p.store h.bytes).map fun p => { p with plen := p.plen - 8 }

/-- `ofp_header_mp_copy`: the new buffer and the one before it. -/
def ofpHeaderMpCopy (dst src : Pbuf) : Except PbufError (Pbuf × Pbuf) := do
  let curSrcLength ← pbufLengthGet src
  let (mpReply, read) ← ofpMultipartReplyDecode { src with getp := 0, putp := 16, plen := 16 }
  let old ← ofpMultipartReplyEncode { read.reset with plen := 16 }
    (mpReply.marked curSrcLength OFPMPF_REPLY_MORE)
  let new ← ofpMultipartReplyEncode { dst.reset with plen := dst.plen } (mpReply.marked 16 0)
  .ok (new, old.infoLoad src)

/-- `ofp_header_length_set`. -/
def ofpHeaderLengthSet (p : Pbuf) (length : BitVec 16) : Except PbufError Pbuf := do
  let header ← headerDecodeSneak { p with getp := 0, putp := 8, plen := 8 }
  let q ← ofpHeaderEncode { p.reset with plen := 8 } { header with length }
  .ok (q.infoLoad p)

/-! ## Replies -/

/-- `pbuf_list_last_get`, and the buffers before it. -/
def pbufListLastGet (pbufList : List Pbuf) : List Pbuf × Pbuf :=
  match pbufList.getLast? with
  | none => ([], pbufAlloc OFP_PACKET_MAX_SIZE)
  | some pbuf => (pbufList.dropLast, pbuf)

/-- `ofp_multipart_append`. -/
def ofpMultipartAppend (pbufList : List Pbuf) (src : Pbuf) : Except PbufError (List Pbuf) :=
  let (before, dst) := pbufListLastGet pbufList
  match pbufAppend dst src with
  | .ok dst => .ok (before ++ [dst])
  | .error .overrun => .error .overrun
  | .error .outOfRange => do
    let (new, old) ← ofpHeaderMpCopy
      { pbufAlloc OFP_PACKET_MAX_SIZE with plen := OFP_PACKET_MAX_SIZE } dst
    let new ← pbufAppend new src
    .ok (before ++ [old, new])

/-- The reply that is encoded first. -/
def multipartReply (version : Octet) (xid : BitVec 32) (type : BitVec 16) : OfpMultipartReply where
  header := { version, type := 19, length := 0, xid }
  type := type
  flags := 0
  pad := 0

/-- `ofp_flow_stats_reply_create` and the others, with the encoded entries of their lists. -/
def statsReplyCreate (version : Octet) (xid : BitVec 32) (type : BitVec 16) (entries : List Pbuf) :
    Except PbufError (List Pbuf) := do
  let (_, pbuf) := pbufListLastGet []
  let pbuf ← ofpMultipartReplyEncode { pbuf with plen := pbuf.data.length }
    (multipartReply version xid type)
  let pbufList ← entries.foldlM ofpMultipartAppend [pbuf]
  let (before, pbuf) := pbufListLastGet pbufList
  let length ← pbufLengthGet pbuf
  let pbuf ← ofpHeaderLengthSet pbuf length
  .ok (before ++ [{ pbuf with plen := 0 }])

/-- What is asked of the messages `msgs` of a reply with these entries. -/
structure Segmented (xid : BitVec 32) (type : BitVec 16) (entries msgs : List (List Octet)) :
    Prop where
  size_le : ∀ m ∈ msgs, m.length ≤ OFP_PACKET_MAX_SIZE
  length_eq : ∀ m ∈ msgs, ofpHeaderLength m = m.length
  xid_eq : ∀ m ∈ msgs, field m 4 4 = xid.toNat
  type_eq : ∀ m ∈ msgs, field m 8 2 = type.toNat
  more : ∀ m ∈ msgs.dropLast, field m 10 2 = OFPMPF_REPLY_MORE.toNat
  last : ∃ m, msgs.getLast? = some m ∧ field m 10 2 = 0
  /-- Each body has some of the entries, all of them in order. -/
  whole : ∃ parts : List (List (List Octet)), parts.flatten = entries ∧
    msgs.map (drop 16) = parts.map flatten

/-! ## Writing headers again -/

section

variable {r : OfpMultipartReply} {body rest : List Octet} {plen : Nat}

theorem ofpMultipartReplyEncode_alloc (r : OfpMultipartReply) :
    ofpMultipartReplyEncode { pbufAlloc OFP_PACKET_MAX_SIZE with plen := OFP_PACKET_MAX_SIZE } r =
      .ok (filled r.bytes (replicate (OFP_PACKET_MAX_SIZE - 16) 0)
        (OFP_PACKET_MAX_SIZE - 16)) := by
  have hplen : ¬ OFP_PACKET_MAX_SIZE < 16 := by decide
  have halloc : ({ pbufAlloc OFP_PACKET_MAX_SIZE with plen := OFP_PACKET_MAX_SIZE } : Pbuf) =
      filled [] (replicate OFP_PACKET_MAX_SIZE 0) OFP_PACKET_MAX_SIZE := by
    rw [pbufAlloc, if_neg (by decide)]
    rfl
  rw [ofpMultipartReplyEncode, if_neg hplen, halloc, store_filled]
  · rw [nil_append, drop_replicate, OfpMultipartReply.length_bytes]
    rfl
  · rw [length_replicate, OfpMultipartReply.length_bytes]
    decide

theorem ofpHeaderMpCopy_filled (hsize : (r.bytes ++ body).length < 2 ^ 16) :
    ofpHeaderMpCopy { pbufAlloc OFP_PACKET_MAX_SIZE with plen := OFP_PACKET_MAX_SIZE }
        (filled (r.bytes ++ body) rest plen) =
      .ok (filled (r.marked 16 0).bytes (replicate (OFP_PACKET_MAX_SIZE - 16) 0)
          (OFP_PACKET_MAX_SIZE - 16),
        filled ((r.marked (BitVec.ofNat 16 (r.bytes ++ body).length) OFPMPF_REPLY_MORE).bytes ++ body)
          rest plen) := by
  have hdecode : ofpMultipartReplyDecode ({ filled (r.bytes ++ body) rest plen with
      getp := 0, putp := 16, plen := 16 } : Pbuf) =
      .ok (r, ⟨r.bytes ++ body ++ rest, 16, 16, 0⟩) := by
    simp only [ofpMultipartReplyDecode, filled, append_assoc, lt_irrefl, if_false]
    rw [← r.length_bytes, fetch_head]
    simp [bind, Except.bind, r.ofBytes_bytes, r.length_bytes]
  have hencode (r' : OfpMultipartReply) : ofpMultipartReplyEncode
      ({ (filled (r.bytes ++ body) rest plen).reset with plen := 16 } : Pbuf) r' =
        .ok ⟨r'.bytes ++ (body ++ rest), 0, 16, 0⟩ := by
    rw [ofpMultipartReplyEncode, if_neg (lt_irrefl 16), store_reset_filled]
    · rw [r'.length_bytes, drop_left' r.length_bytes]
      rfl
    · rw [length_append, r.length_bytes, r'.length_bytes]
      omega
  have hreset : ({ (⟨r.bytes ++ body ++ rest, 16, 16, 0⟩ : Pbuf).reset with plen := 16 } : Pbuf) =
      { (filled (r.bytes ++ body) rest plen).reset with plen := 16 } := rfl
  have hnew : ({ ({ pbufAlloc OFP_PACKET_MAX_SIZE with plen := OFP_PACKET_MAX_SIZE } : Pbuf).reset with
      plen := OFP_PACKET_MAX_SIZE } : Pbuf) =
      { pbufAlloc OFP_PACKET_MAX_SIZE with plen := OFP_PACKET_MAX_SIZE } := rfl
  simp only [ofpHeaderMpCopy, pbufLengthGet_filled hsize, hdecode, hreset, hencode, hnew,
    ofpMultipartReplyEncode_alloc, bind, Except.bind]
  simp [filled, infoLoad, OfpMultipartReply.length_bytes]

theorem ofpHeaderLengthSet_filled (length : BitVec 16) :
    ofpHeaderLengthSet (filled (r.bytes ++ body) rest plen) length =
      .ok (filled ((r.marked length r.flags).bytes ++ body) rest plen) := by
  obtain ⟨tail, htail, hmarked⟩ : ∃ tail, r.bytes = r.header.bytes ++ tail ∧
      (r.marked length r.flags).bytes = { r.header with length }.bytes ++ tail := ⟨_, rfl, rfl⟩
  have hsneak : headerDecodeSneak ({ filled (r.bytes ++ body) rest plen with
      getp := 0, putp := 8, plen := 8 } : Pbuf) = .ok r.header := by
    simp only [headerDecodeSneak, filled, htail, append_assoc, lt_irrefl, if_false]
    rw [← r.header.length_bytes, fetch_head]
    have hheader := r.header.ofBytes_bytes []
    rw [append_nil] at hheader
    simp [Except.map, hheader]
  have hencode : ofpHeaderEncode
      ({ (filled (r.bytes ++ body) rest plen).reset with plen := 8 } : Pbuf)
        { r.header with length } =
        .ok ⟨(r.marked length r.flags).bytes ++ (body ++ rest), 0, 8, 0⟩ := by
    rw [ofpHeaderEncode, if_neg (lt_irrefl 8), store_reset_filled]
    · rw [OfpHeader.length_bytes, htail, hmarked, append_assoc, drop_left' r.header.length_bytes]
      simp [Except.map]
    · rw [length_append, r.length_bytes, OfpHeader.length_bytes]
      omega
  simp only [ofpHeaderLengthSet, hsneak, hencode, bind, Except.bind]
  simp [filled, infoLoad, OfpMultipartReply.length_bytes]

end

/-! ## The messages so far -/

/-- A message that is finished, with its entries. -/
def Closed (r : OfpMultipartReply) (p : Pbuf) (entries : List (List Octet)) : Prop :=
  ∃ rest plen, 16 + entries.flatten.length ≤ OFP_PACKET_MAX_SIZE ∧
    p = filled ((r.marked (BitVec.ofNat 16 (16 + entries.flatten.length)) OFPMPF_REPLY_MORE).bytes ++
      entries.flatten) rest plen

/-- The last message: `plen` is the room that is left. -/
def Unclosed (r : OfpMultipartReply) (p : Pbuf) (entries : List (List Octet)) : Prop :=
  ∃ length rest, 16 + entries.flatten.length + rest.length = OFP_PACKET_MAX_SIZE ∧
    p = filled ((r.marked length 0).bytes ++ entries.flatten) rest rest.length

/-- All messages but the last are finished. -/
def Segmenting (r : OfpMultipartReply) (entries : List (List Octet)) (pbufList : List Pbuf) : Prop :=
  ∃ before last parts part, pbufList = before ++ [last] ∧ Forall₂ (Closed r) before parts ∧
    Unclosed r last part ∧ entries = parts.flatten ++ part

theorem pbufListLastGet_concat (before : List Pbuf) (last : Pbuf) :
    pbufListLastGet (before ++ [last]) = (before, last) := by
  simp [pbufListLastGet]

variable {r : OfpMultipartReply} {src : Pbuf} {part : List (List Octet)}

theorem pbufAppend_unclosed (length : BitVec 16) {rest : List Octet}
    (htotal : 16 + part.flatten.length + rest.length = OFP_PACKET_MAX_SIZE) (hsrc : src.Sound)
    (hfits : src.unread.length ≤ rest.length) :
    ∃ p, pbufAppend (filled ((r.marked length 0).bytes ++ part.flatten) rest rest.length) src = .ok p ∧
      Unclosed r p (part ++ [src.unread]) := by
  refine ⟨_, pbufAppend_filled hsrc hfits hfits, length, rest.drop src.unread.length, ?_, ?_⟩
  · rw [flatten_append, length_append, length_drop, flatten_cons, flatten_nil, append_nil]
    omega
  · rw [length_drop, flatten_append, flatten_cons, flatten_nil, append_nil, append_assoc]

theorem pbufAppend_new (hsrc : src.Sound) (hsize : src.unread.length ≤ OFP_PACKET_MAX_SIZE - 16) :
    ∃ p, pbufAppend (filled (r.marked 16 0).bytes (replicate (OFP_PACKET_MAX_SIZE - 16) 0)
      (OFP_PACKET_MAX_SIZE - 16)) src = .ok p ∧ Unclosed r p [src.unread] := by
  have hlength : (replicate (OFP_PACKET_MAX_SIZE - 16) (0 : Octet)).length =
      OFP_PACKET_MAX_SIZE - 16 := length_replicate
  have htotal : 16 + ([] : List (List Octet)).flatten.length +
      (replicate (OFP_PACKET_MAX_SIZE - 16) (0 : Octet)).length = OFP_PACKET_MAX_SIZE := by
    rw [hlength]
    rfl
  obtain ⟨p, happend, hopen⟩ := pbufAppend_unclosed (r := r) 16 htotal hsrc (by rwa [hlength])
  rw [flatten_nil, append_nil, hlength] at happend
  exact ⟨p, happend, hopen⟩

variable {p : Pbuf}

theorem Unclosed.append (h : Unclosed r p part) (hsrc : src.Sound)
    (hsize : src.unread.length ≤ OFP_PACKET_MAX_SIZE - 16) (before : List Pbuf) :
    (∃ p', ofpMultipartAppend (before ++ [p]) src = .ok (before ++ [p']) ∧
      Unclosed r p' (part ++ [src.unread])) ∨
    (∃ old new, ofpMultipartAppend (before ++ [p]) src = .ok (before ++ [old] ++ [new]) ∧
      Closed r old part ∧ Unclosed r new [src.unread]) := by
  obtain ⟨length, rest, htotal, rfl⟩ := h
  rw [ofpMultipartAppend, pbufListLastGet_concat]
  rcases Nat.lt_or_ge rest.length src.unread.length with hlong | hfits
  · right
    have hlength : ((r.marked length 0).bytes ++ part.flatten).length = 16 + part.flatten.length :=
      length_append
    have hlt : ((r.marked length 0).bytes ++ part.flatten).length < 2 ^ 16 := by
      have : OFP_PACKET_MAX_SIZE < 2 ^ 16 := by decide
      omega
    have hmark : (r.marked length 0).marked 16 0 = r.marked 16 0 := rfl
    obtain ⟨new, hnew, hopen⟩ := pbufAppend_new (r := r) hsrc hsize
    refine ⟨_, new, ?_, ⟨rest, rest.length, by omega, rfl⟩, hopen⟩
    simp only [pbufAppend_outOfRange hsrc hlong, ofpHeaderMpCopy_filled hlt, hmark, hlength, hnew,
      bind, Except.bind, append_assoc, cons_append, nil_append]
    rfl
  · left
    obtain ⟨p', happend, hopen⟩ := pbufAppend_unclosed length htotal hsrc hfits
    exact ⟨p', by simp only [happend], hopen⟩

variable {entries : List (List Octet)} {pbufList : List Pbuf}

theorem Segmenting.append (h : Segmenting r entries pbufList) (hsrc : src.Sound)
    (hsize : src.unread.length ≤ OFP_PACKET_MAX_SIZE - 16) :
    ∃ pbufList', ofpMultipartAppend pbufList src = .ok pbufList' ∧
      Segmenting r (entries ++ [src.unread]) pbufList' := by
  obtain ⟨before, last, parts, part, rfl, hbefore, hlast, rfl⟩ := h
  rcases hlast.append hsrc hsize before with ⟨p, happend, hopen⟩ | ⟨old, new, happend, hold, hnew⟩
  · exact ⟨_, happend, before, p, parts, _, rfl, hbefore, hopen, append_assoc ..⟩
  · refine ⟨_, happend, before ++ [old], new, parts ++ [part], _, rfl, ?_, hnew, ?_⟩
    · exact rel_append hbefore (Forall₂.cons hold .nil)
    · rw [flatten_append, flatten_cons, flatten_nil, append_nil]

theorem Segmenting.foldlM {srcs : List Pbuf} (hsrcs : ∀ src ∈ srcs,
      src.Sound ∧ src.unread.length ≤ OFP_PACKET_MAX_SIZE - 16)
    (h : Segmenting r entries pbufList) :
    ∃ pbufList', srcs.foldlM ofpMultipartAppend pbufList = .ok pbufList' ∧
      Segmenting r (entries ++ srcs.map Pbuf.unread) pbufList' := by
  induction srcs generalizing entries pbufList with
  | nil => exact ⟨pbufList, rfl, by rwa [map_nil, append_nil]⟩
  | cons src srcs ih =>
    obtain ⟨hsrc, hsize⟩ := hsrcs src mem_cons_self
    obtain ⟨next, happend, hnext⟩ := h.append hsrc hsize
    obtain ⟨pbufList', hrest, hdone⟩ := ih (fun s hs => hsrcs s (mem_cons_of_mem _ hs)) hnext
    refine ⟨pbufList', ?_, ?_⟩
    · rw [foldlM_cons, happend]
      exact hrest
    · rwa [map_cons, append_cons]

/-! ## Finished replies -/

theorem field_marked (r : OfpMultipartReply) (length flags : BitVec 16) (body : List Octet) :
    ofpHeaderLength ((r.marked length flags).bytes ++ body) = length.toNat ∧
    field ((r.marked length flags).bytes ++ body) 4 4 = r.header.xid.toNat ∧
    field ((r.marked length flags).bytes ++ body) 8 2 = r.type.toNat ∧
    field ((r.marked length flags).bytes ++ body) 10 2 = flags.toNat := by
  refine ⟨?_, ?_, ?_, ?_⟩
  · exact (toNat_ofNat 2 _).trans (Nat.mod_eq_of_lt length.isLt)
  · exact (toNat_ofNat 4 _).trans (Nat.mod_eq_of_lt r.header.xid.isLt)
  · exact (toNat_ofNat 2 _).trans (Nat.mod_eq_of_lt r.type.isLt)
  · exact (toNat_ofNat 2 _).trans (Nat.mod_eq_of_lt flags.isLt)

/-- A message with its length, its entries and the flag `flags`. -/
structure Finished (r : OfpMultipartReply) (flags : BitVec 16) (p : Pbuf)
    (part : List (List Octet)) : Prop where
  size_le : 16 + part.flatten.length ≤ OFP_PACKET_MAX_SIZE
  unread_eq : p.unread =
    (r.marked (BitVec.ofNat 16 (16 + part.flatten.length)) flags).bytes ++ part.flatten

namespace Finished

variable {flags : BitVec 16} {p : Pbuf} {part : List (List Octet)} (h : Finished r flags p part)

include h

theorem length_unread : p.unread.length = 16 + part.flatten.length := by
  rw [h.unread_eq, length_append, OfpMultipartReply.length_bytes]

theorem fields : ofpHeaderLength p.unread = p.unread.length ∧ field p.unread 4 4 = r.header.xid.toNat ∧
      field p.unread 8 2 = r.type.toNat ∧ field p.unread 10 2 = flags.toNat := by
  have hlt : 16 + part.flatten.length < 2 ^ 16 := h.size_le.trans_lt (by decide)
  rw [h.length_unread, h.unread_eq]
  obtain ⟨hlength, hfields⟩ := field_marked r (BitVec.ofNat 16 (16 + part.flatten.length)) flags
    part.flatten
  exact ⟨hlength.trans (Nat.mod_eq_of_lt hlt), hfields⟩

theorem drop_unread : p.unread.drop 16 = part.flatten := by
  rw [h.unread_eq]
  exact drop_left' (OfpMultipartReply.length_bytes _)

end Finished

theorem Closed.finished (h : Closed r p part) : Finished r OFPMPF_REPLY_MORE p part := by
  obtain ⟨rest, plen, hsize, rfl⟩ := h
  exact ⟨hsize, unread_filled ..⟩

theorem Unclosed.finish (h : Unclosed r p part) :
    ∃ length q, pbufLengthGet p = .ok length ∧ ofpHeaderLengthSet p length = .ok q ∧
      Finished r 0 { q with plen := 0 } part := by
  obtain ⟨length, rest, htotal, rfl⟩ := h
  have hlength : ((r.marked length 0).bytes ++ part.flatten).length = 16 + part.flatten.length :=
    length_append
  have hlt : ((r.marked length 0).bytes ++ part.flatten).length < 2 ^ 16 := by
    have : OFP_PACKET_MAX_SIZE < 2 ^ 16 := by decide
    omega
  refine ⟨_, _, pbufLengthGet_filled hlt, ofpHeaderLengthSet_filled _, by omega, ?_⟩
  rw [hlength]
  exact unread_filled _ rest 0

variable {parts : List (List (List Octet))}

theorem exists_finished {flags : BitVec 16} {pbufs : List Pbuf}
    (h : Forall₂ (Finished r flags) pbufs parts) (hp : p ∈ pbufs) :
    ∃ part, Finished r flags p part := by
  induction h with
  | nil => cases hp
  | cons hfirst _ ih =>
    rcases mem_cons.1 hp with rfl | hp
    · exact ⟨_, hfirst⟩
    · exact ih hp

theorem bodies_of_finished {flags : BitVec 16} {pbufs : List Pbuf}
    (h : Forall₂ (Finished r flags) pbufs parts) :
    (pbufs.map unread).map (drop 16) = parts.map flatten := by
  induction h with
  | nil => rfl
  | cons hfirst _ ih => rw [map_cons, map_cons, map_cons, hfirst.drop_unread, ih]

theorem segmented_of_finished {before : List Pbuf} {last : Pbuf}
    (hbefore : Forall₂ (Finished r OFPMPF_REPLY_MORE) before parts) (hlast : Finished r 0 last part) :
    Segmented r.header.xid r.type (parts.flatten ++ part) ((before ++ [last]).map unread) := by
  have hall : ∀ m ∈ (before ++ [last]).map unread, ∃ flags p part, m = p.unread ∧
      Finished r flags p part := by
    intro m hm
    obtain ⟨p, hp, rfl⟩ := mem_map.1 hm
    rcases mem_append.1 hp with hp | hp
    · obtain ⟨part, hpart⟩ := exists_finished hbefore hp
      exact ⟨_, p, part, rfl, hpart⟩
    · rw [mem_singleton.1 hp]
      exact ⟨_, last, part, rfl, hlast⟩
  refine ⟨?_, ?_, ?_, ?_, ?_, ⟨last.unread, by simp, hlast.fields.2.2.2⟩, parts ++ [part], by simp, ?_⟩
  · intro m hm
    obtain ⟨_, p, _, rfl, hp⟩ := hall m hm
    exact hp.length_unread ▸ hp.size_le
  · intro m hm
    obtain ⟨_, p, _, rfl, hp⟩ := hall m hm
    exact hp.fields.1
  · intro m hm
    obtain ⟨_, p, _, rfl, hp⟩ := hall m hm
    exact hp.fields.2.1
  · intro m hm
    obtain ⟨_, p, _, rfl, hp⟩ := hall m hm
    exact hp.fields.2.2.1
  · intro m hm
    rw [map_append, map_singleton, dropLast_concat] at hm
    obtain ⟨p, hp, rfl⟩ := mem_map.1 hm
    obtain ⟨_, hpart⟩ := exists_finished hbefore hp
    exact hpart.fields.2.2.2
  · rw [map_append, map_append, map_append, map_singleton, map_singleton,
      map_singleton, hlast.drop_unread, bodies_of_finished hbefore]

/-- **Replies are segmented between entries**, whatever fits exactly or not. -/
theorem reply_segmented (version : Octet) (xid : BitVec 32) (type : BitVec 16) {entries : List Pbuf}
    (h : ∀ e ∈ entries, e.Sound ∧ e.unread.length ≤ OFP_PACKET_MAX_SIZE - 16) :
    ∃ pbufList, statsReplyCreate version xid type entries = .ok pbufList ∧
      Segmented xid type (entries.map unread) (pbufList.map unread) := by
  have hstart : Segmenting (multipartReply version xid type) []
      [filled (multipartReply version xid type).bytes
        (replicate (OFP_PACKET_MAX_SIZE - 16) 0) (OFP_PACKET_MAX_SIZE - 16)] := by
    refine ⟨[], _, [], [], rfl, .nil, ⟨0, replicate (OFP_PACKET_MAX_SIZE - 16) 0, ?_, ?_⟩, rfl⟩
    · rw [length_replicate]
      rfl
    · rw [length_replicate, flatten_nil, append_nil]
      rfl
  obtain ⟨_, hfold, before, last, parts, part, rfl, hbefore, hlast, hentries⟩ := hstart.foldlM h
  obtain ⟨length, q, hget, hset, hfinished⟩ := hlast.finish
  have hempty : pbufListLastGet [] = ([], pbufAlloc OFP_PACKET_MAX_SIZE) := rfl
  have hsize : (pbufAlloc OFP_PACKET_MAX_SIZE).data.length = OFP_PACKET_MAX_SIZE := by
    rw [pbufAlloc, if_neg (by decide)]
    exact length_replicate
  refine ⟨before ++ [{ q with plen := 0 }], ?_, ?_⟩
  · simp only [statsReplyCreate, hempty, hsize, ofpMultipartReplyEncode_alloc, hfold,
      pbufListLastGet_concat, hget, hset, bind, Except.bind]
  · rw [nil_append] at hentries
    rw [hentries]
    exact segmented_of_finished (hbefore.imp fun _ _ => Closed.finished) hfinished

/-- An entry that takes more than half of a message. -/
def large (b : Octet) : List Octet := replicate 40000 b

theorem length_large (b : Octet) : (large b).length = 40000 := length_replicate

/-- Two entries that do not fit into one message. -/
theorem reply_segmented_of_two :
    ∃ pbufList, statsReplyCreate 4 7 1 [filled (large 1) [] 0, filled (large 2) [] 0] = .ok pbufList ∧
      Segmented 7 1 [large 1, large 2] (pbufList.map unread) ∧ 2 ≤ pbufList.length := by
  have hsound : ∀ e ∈ [filled (large 1) [] 0, filled (large 2) [] 0],
      e.Sound ∧ e.unread.length ≤ OFP_PACKET_MAX_SIZE - 16 := by
    simp [sound_filled, length_large, OFP_PACKET_MAX_SIZE]
  obtain ⟨pbufList, hcreate, hseg⟩ := reply_segmented 4 7 1 hsound
  have hentries : [filled (large 1) [] 0, filled (large 2) [] 0].map unread = [large 1, large 2] := by
    simp
  rw [hentries] at hseg
  refine ⟨pbufList, hcreate, hseg, ?_⟩
  -- one message has not room for the 80000 bytes
  obtain ⟨parts, hparts, hbodies⟩ := hseg.whole
  have htotal : ((pbufList.map unread).map (drop 16)).flatten.length = 80000 := by
    rw [hbodies, ← flatten_flatten, hparts]
    simp [length_large]
  rcases pbufList with - | ⟨p, - | ⟨q, ps⟩⟩
  · simp at htotal
  · have hsize := hseg.size_le p.unread (by simp)
    simp only [map_cons, map_nil, flatten_cons, flatten_nil, append_nil, length_drop] at htotal
    have hmax : OFP_PACKET_MAX_SIZE = 65535 := rfl
    omega
  · simp

end Lagopus.Pbufs
