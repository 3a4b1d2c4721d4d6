import Lagopus.Agent.ParseSpec
import Lagopus.Agent.TableFeatures

/-!
# What the parsers answer

A parser answers when it comes to an end without a byte read behind the message, and when a failure has set
an error and left the list empty.  There are four ways not to: a match field that runs over the message, a
port name in an encap or decap action that is cut off, a property of a table without the instructions or
actions that should be in it, and a property of a table whose first action says that its length is 0.

* `Answers`: what is expected;
* `OxmRuns`, `PortNameCut`, `PropertyStuck`: the exceptions, on the bytes that are left;
* `parsers_answer_iff`: for every message the parsers answer, unless they come to an exception.
-/

namespace Lagopus.Wire

open Octets Scan List

/-! ## What is expected -/

/-- The parser is done, or has failed with an error set and with its list empty. -/
def Answers {α : Type} (p : Parsed α) : Prop :=
  (∃ rest, p.ret = .ok () rest) ∨ ∃ e, p.ret = .stop (.error (some e)) ∧ p.list = []

/-- Not the way to stop: without an error set, behind the message, or never. -/
def Unanswered : Scan.Stop (Option OfpError) → Prop
  | .error e => e = none
  | .overrun => True
  | .unfinished => True

@[simp]
theorem unanswered_some (e : OfpError) : Unanswered (.error (some e)) ↔ False := by simp [Unanswered]

@[simp]
theorem unanswered_none : Unanswered (.error none) ↔ True := by simp [Unanswered]

@[simp]
theorem unanswered_overrun : Unanswered .overrun ↔ True := Iff.rfl

@[simp]
theorem unanswered_unfinished : Unanswered .unfinished ↔ True := Iff.rfl

/-- The parser does not answer. -/
abbrev Stuck {α : Type} (x : Parser α) (b : List Octet) : Prop := StopsWith Unanswered x b

variable {fuel : Nat} {b rest : List Octet} {α : Type}

theorem answers_iff {x : Parser (List α)} : Answers (Parsed.of (x b)) ↔ ¬ Stuck x b := by
  cases hx : x b with
  | ok l rest => simp [Answers, Parsed.of, StopsWith, hx]
  | stop r =>
    cases r with
    | error e => cases e <;> simp [Answers, Parsed.of, StopsWith, hx]
    | overrun => simp [Answers, Parsed.of, StopsWith, hx]
    | unfinished => simp [Answers, Parsed.of, StopsWith, hx]

/-- What `ofp_tlv_decode_sneak` gives, where it does not fail. -/
def tlvOf (b : List Octet) : Nat × Nat := (field b 0 2, field b 2 2)

@[simp]
theorem stuck_sneak (e : OfpError) : Stuck (ofpTlvDecodeSneak e) b ↔ False := by
  simp [ofpTlvDecodeSneak, stopsWith_bind]

variable {n k : Nat}

theorem field_take (b : List Octet) {i : Nat} (h : i + n ≤ k) : field (b.take k) i n = field b i n := by
  rw [field, field, drop_take, take_take, Nat.min_eq_left (by omega)]

theorem field_of_append {i : Nat} {h : Block n} {m : List Octet} (hb : b = h.bytes ++ m)
    (hle : i + k ≤ n) : field b i k = field h.bytes i k := by
  rw [hb, ← field_take _ hle, take_left' h.length_eq]

variable {e : OfpError}

theorem sneak_eq_ok_iff {t : Nat × Nat} :
    ofpTlvDecodeSneak e b = .ok t rest ↔ 4 ≤ b.length ∧ t = tlvOf b ∧ b = rest := by
  simp only [ofpTlvDecodeSneak, bind_eq_ok_iff, pure_apply, Outcome.ok.injEq, Scan.sneak]
  by_cases h : 4 ≤ b.length
  · simp only [dif_pos h, Outcome.ok.injEq, tlvOf]
    constructor
    · rintro ⟨_, _, ⟨rfl, rfl⟩, rfl, rfl⟩
      exact ⟨h, by rw [field_take b (by decide), field_take b (by decide)], rfl⟩
    · rintro ⟨-, rfl, rfl⟩
      exact ⟨_, _, ⟨rfl, rfl⟩, by rw [field_take b (by decide), field_take b (by decide)], rfl⟩
  · simp [h]

theorem stuck_sneak_bind {f : Nat × Nat → Parser α} :
    Stuck (ofpTlvDecodeSneak e >>= f) b ↔ 4 ≤ b.length ∧ Stuck (f (tlvOf b)) b := by
  simp only [stopsWith_bind, stuck_sneak, false_or, sneak_eq_ok_iff]
  constructor
  · rintro ⟨_, _, ⟨h, rfl, rfl⟩, hf⟩
    exact ⟨h, hf⟩
  · rintro ⟨h, hf⟩
    exact ⟨_, _, ⟨h, rfl, rfl⟩, hf⟩

variable {f : Unit → Parser α}

theorem stuck_require_bind {p : Prop} [Decidable p] :
    Stuck (Scan.require p (some e) >>= f) b ↔ p ∧ Stuck (f ()) b := by
  simp only [stopsWith_bind, stopsWith_require, unanswered_some, and_false, false_or, require_eq_ok_iff]
  constructor
  · rintro ⟨_, _, ⟨hp, rfl⟩, hf⟩
    exact ⟨hp, hf⟩
  · rintro ⟨hp, hf⟩
    exact ⟨(), b, ⟨hp, rfl⟩, hf⟩

theorem stuck_need_bind : Stuck (Scan.need n (some e) >>= f) b ↔ n ≤ b.length ∧ Stuck (f ()) b := by
  simp only [stopsWith_bind, stopsWith_need, unanswered_some, and_false, false_or, need_eq_ok_iff]
  constructor
  · rintro ⟨_, _, ⟨hn, rfl⟩, hf⟩
    exact ⟨hn, hf⟩
  · rintro ⟨hn, hf⟩
    exact ⟨(), b, ⟨hn, rfl⟩, hf⟩

theorem stuck_left_bind {f : Nat → Parser α} : Stuck (Scan.left >>= f) b ↔ Stuck (f b.length) b := by
  simp [stopsWith_bind]

theorem stuck_bind_of_not {β : Type} {x : Parser α} {f : α → Parser β} (h : ∀ a m, ¬ Stuck (f a) m)
    : Stuck (x >>= f) b ↔ Stuck x b := by
  simp [stopsWith_bind, h]

theorem stuck_take_bind {f : Block n → Parser α} : Stuck (Scan.take n (some e) >>= f) b ↔
      ∃ h : Block n, b = h.bytes ++ b.drop n ∧ Stuck (f h) (b.drop n) := by
  simp only [stopsWith_bind, stopsWith_take, unanswered_some, and_false, false_or, take_eq_ok_iff]
  constructor
  · rintro ⟨h, m, rfl, hf⟩
    rw [drop_left' h.length_eq]
    exact ⟨h, rfl, hf⟩
  · rintro ⟨h, hb, hf⟩
    exact ⟨h, _, hb, hf⟩

theorem stuck_takePair_bind {f : Block n × Block k → Parser α} :
    Stuck (Scan.takePair n k (some e) >>= f) b ↔
      ∃ (h : Block n) (w : Block k), b = h.bytes ++ (w.bytes ++ b.drop (n + k)) ∧
        Stuck (f (h, w)) (b.drop (n + k)) := by
  simp only [stopsWith_bind, stopsWith_takePair, unanswered_some, and_false, false_or, takePair_eq_ok_iff]
  constructor
  · rintro ⟨⟨h, w⟩, m, rfl, hf⟩
    have hdrop : (h.bytes ++ (w.bytes ++ m)).drop (n + k) = m := by
      rw [← append_assoc, drop_left' (by simp)]
    rw [hdrop]
    exact ⟨h, w, rfl, hf⟩
  · rintro ⟨h, w, hb, hf⟩
    exact ⟨(h, w), _, hb, hf⟩

theorem exists_blocks (h : n + k ≤ b.length) :
    ∃ (v : Block n) (w : Block k), b = v.bytes ++ (w.bytes ++ b.drop (n + k)) := by
  refine ⟨⟨b.take n, ?_⟩, ⟨(b.drop n).take k, ?_⟩, ?_⟩
  · rw [length_take]
    omega
  · rw [length_take, length_drop]
    omega
  · rw [← drop_drop, take_append_drop, take_append_drop]

/-! ## Matches -/

/-- The field that begins here is supported and runs over the message, or its header does. -/
def OxmRuns (b : List Octet) : Prop :=
  b.length < 4 ∨ ∃ (h : Block 4) (m : List Octet), b = h.bytes ++ m ∧
    (oxmClassOf h = OFPXMC_OPENFLOW_BASIC ∧ ofpOxmFieldCheck (oxmFieldOf h) = true) ∧
    m.length < (oxmLengthOf h).toNat

theorem stuck_oxmRound {l : List Oxm} : Stuck (oxmRound l) b ↔ OxmRuns b := by
  have hcheck (c f b) : ¬ Stuck (ofpOxmCheck c f) b := by simp [ofpOxmCheck, stopsWith_bind]
  simp only [oxmRound, oxmParse, stopsWith_bind, stopsWith_takeUnchecked, stopsWith_pure,
    takeUnchecked_eq_ok_iff, hcheck, ofpOxmCheck_eq_ok_iff, unanswered_overrun, and_true, and_false,
    exists_false, or_false, false_or, OxmRuns]
  refine or_congr_right ⟨?_, ?_⟩
  · rintro ⟨h, m, rfl, _, _, ⟨hs, rfl⟩, hlen⟩
    exact ⟨h, m, rfl, hs, hlen⟩
  · rintro ⟨h, m, rfl, hs, hlen⟩
    exact ⟨h, m, rfl, (), _, ⟨hs, rfl⟩, hlen⟩

/-- The loop over the fields comes to one that runs over the message. -/
def MatchRuns (version : Nat) (l : List Oxm) (b : List Octet) : Prop :=
  4 ≤ b.length ∧ (version < OPENFLOW_VERSION_1_3 ∨ (tlvOf b).1 = OFPMT_OXM) ∧
    ((tlvOf b).2 + 7) / 8 * 8 ≤ b.length ∧ (tlvOf b).2 ≠ 4 ∧
    Reaches (fun _ m => before ((b.length : Int) - (tlvOf b).2) m) oxmRound
      (fun _ m => OxmRuns m) l (b.drop 4)

theorem stuck_ofpMatchParse {version : Nat} {l : List Oxm} (hfuel : b.length < fuel) :
    Stuck (ofpMatchParse fuel version l) b ↔ MatchRuns version l b := by
  have hdrop : (b.drop 4).length < fuel := by
    rw [length_drop]
    omega
  rw [ofpMatchParse, stuck_sneak_bind, stuck_require_bind, stuck_need_bind, MatchRuns]
  refine and_congr_right fun _ => and_congr_right fun _ => and_congr_right fun _ => ?_
  by_cases hfour : (tlvOf b).2 = 4
  · simp [hfour, stopsWith_bind]
  · rw [if_neg hfour, stuck_left_bind, and_iff_right hfour, stuck_bind_of_not (by simp [stopsWith_bind])]
    refine stopsWith_ahead.trans ((stopsWith_loop consumes_oxmRound hdrop).trans ?_)
    exact reaches_congr consumes_oxmRound fun _ _ _ => stuck_oxmRound

/-! ## Actions -/

/-- The property that begins here is a port name, says that it fits, and is cut off. -/
def PortNameCut (b : List Octet) : Prop :=
  4 ≤ b.length ∧ (tlvOf b).1 = OFPPPT_PROP_PORT_NAME ∧ (tlvOf b).2 ≤ b.length ∧ b.length < 24

theorem stuck_edProp : Stuck ofpActionEdPropParse b ↔ PortNameCut b := by
  rw [ofpActionEdPropParse, stuck_sneak_bind, stuck_need_bind, PortNameCut]
  refine and_congr_right fun _ => ?_
  by_cases htype : (tlvOf b).1 = OFPPPT_PROP_PORT_NAME
  · simp [htype, stopsWith_bind]
  · simp [htype]

/-- The action that begins here has properties, and its loop over them comes to one that is cut off. -/
def ActionCut (b : List Octet) : Prop :=
  4 ≤ b.length ∧ (tlvOf b).2 ≤ b.length ∧ ∃ t : EdAction, (tlvOf b).1 = t.code ∧
    4 + t.bodySize ≤ b.length ∧
    Reaches (fun _ m => before ((b.length : Int) - (tlvOf b).2) m)
      (Scan.append ofpActionEdPropParse) (fun _ m => PortNameCut m) [] (b.drop (4 + t.bodySize))

theorem stuck_edParse {t : EdAction} (hfuel : b.length < fuel) :
    Stuck (edParse fuel t) b ↔ 4 + t.bodySize ≤ b.length ∧
      Reaches (fun _ m => before ((b.length : Int) - (tlvOf b).2) m)
        (Scan.append ofpActionEdPropParse) (fun _ m => PortNameCut m) [] (b.drop (4 + t.bodySize)) := by
  have hconsumes {endLeft : Int} : Consumes (fun _ m => before endLeft m)
    (Scan.append ofpActionEdPropParse) := takes_edProp.consumes
  have hprops (endLeft : Int) (m : List Octet) (hm : m.length < fuel) :
      Stuck (edPropLoop fuel endLeft) m ↔ Reaches (fun _ m => before endLeft m)
        (Scan.append ofpActionEdPropParse) (fun _ m => PortNameCut m) [] m := by
    refine (stopsWith_loop hconsumes hm).trans ?_
    exact reaches_congr hconsumes fun _ _ _ => stopsWith_append.trans stuck_edProp
  rw [edParse, stuck_takePair_bind]
  have hloop (h : Block 4) (w : Block t.bodySize)
      (hb : b = h.bytes ++ (w.bytes ++ b.drop (4 + t.bodySize))) :
      ((b.drop (4 + t.bodySize)).length : Int) - ((field h.bytes 2 2 : Int) - (4 + t.bodySize : Nat)) =
        (b.length : Int) - (tlvOf b).2 := by
    have hlen : (tlvOf b).2 = field h.bytes 2 2 := field_of_append hb (by decide)
    have hle := congrArg List.length hb
    simp only [length_append, h.length_eq, w.length_eq, length_drop] at hle
    rw [hlen, length_drop]
    omega
  have hdrop : (b.drop (4 + t.bodySize)).length < fuel := by
    rw [length_drop]
    omega
  simp only [stuck_left_bind]
  constructor
  · rintro ⟨h, w, hb, hs⟩
    have hle := congrArg List.length hb
    simp only [length_append, h.length_eq, w.length_eq] at hle
    rw [stuck_bind_of_not (by simp [stopsWith_bind]), hloop h w hb, hprops _ _ hdrop] at hs
    exact ⟨by omega, hs⟩
  · rintro ⟨hle, hr⟩
    obtain ⟨h, w, hb⟩ := exists_blocks hle
    refine ⟨h, w, hb, ?_⟩
    rw [stuck_bind_of_not (by simp [stopsWith_bind]), hloop h w hb, hprops _ _ hdrop]
    exact hr

theorem not_stuck_setField : ¬ Stuck ofpActionSetFieldParse b := by
  simp [ofpActionSetFieldParse, stopsWith_bind]

theorem not_stuck_struct {t : FixedAction} : ¬ Stuck (structParse t) b := by
  simp [structParse, stopsWith_bind]

theorem stuck_actionSwitch :
    Stuck (actionSwitch fuel n) b ↔ ∃ t : EdAction, n = t.code ∧ Stuck (edParse fuel t) b := by
  constructor
  · intro hs
    obtain ⟨t, rfl, h⟩ | ⟨rfl, h⟩ | ⟨t, rfl, h⟩ | ⟨e, h⟩ := @actionSwitch_cases fuel n
    · exact absurd (h ▸ hs) not_stuck_struct
    · exact absurd (h ▸ hs) not_stuck_setField
    · exact ⟨t, rfl, h ▸ hs⟩
    · rw [h] at hs
      simp at hs
  · rintro ⟨t, rfl, h⟩
    rwa [actionSwitch_ed]

theorem stuck_actionRound (hfuel : b.length < fuel) : Stuck (actionRound fuel) b ↔ ActionCut b := by
  rw [actionRound, stuck_sneak_bind, stuck_need_bind, stuck_left_bind,
    stuck_bind_of_not (by simp [stopsWith_bind]), stuck_actionSwitch, ActionCut]
  simp only [stuck_edParse hfuel]

/-- The loop over the actions comes to one that is cut off. -/
def ActionsCut (fuel : Nat) (todo : Int) (l : List Action) (b : List Octet) : Prop :=
  Reaches actionMore (actionStep fuel) (fun _ m => ActionCut m) (todo, l) b

theorem stuck_ofpActionParse {todo : Int} {l : List Action} (hfuel : b.length < fuel) :
    Stuck (ofpActionParse fuel todo l) b ↔ ActionsCut fuel todo l b := by
  rw [ofpActionParse, stuck_bind_of_not (by simp)]
  refine (stopsWith_loop consumes_actionStep hfuel).trans ?_
  refine reaches_congr consumes_actionStep fun st m hm => ?_
  change Stuck (actionStep fuel st) m ↔ _
  rw [actionStep, stuck_bind_of_not (by simp), stuck_actionRound (by omega)]

/-! ## Instructions and buckets -/

/-- The instruction that begins here has actions, and the loop over them comes to one that is cut off. -/
def InstructionCut (fuel : Nat) (b : List Octet) : Prop :=
  8 ≤ b.length ∧ (tlvOf b).2 ≤ b.length ∧
    (∃ t : InstructionType, t.hasActions = true ∧ (tlvOf b).1 = t.code) ∧
    ActionsCut fuel (((tlvOf b).2 : Int) - 8) [] (b.drop 8)

variable {len : Nat} {t : InstructionType}

theorem stuck_instructionStruct : ¬ Stuck (instructionStruct t len) b := by
  simp [instructionStruct, stopsWith_bind]

theorem stuck_instructionActions (ht : t.hasActions = true) (hfuel : b.length < fuel) :
    Stuck (instructionActions fuel t len) b ↔
      8 ≤ b.length ∧ ActionsCut fuel ((len : Int) - 8) [] (b.drop 8) := by
  have hbody : 4 + t.bodySize = 8 := by rw [InstructionType.bodySize_of_hasActions ht]
  have hdrop : (b.drop 8).length < fuel := by
    rw [length_drop]
    omega
  have hactions : Stuck (ofpActionParse fuel ((len : Int) - 8) []) (b.drop 8) ↔ _ :=
    stuck_ofpActionParse hdrop
  rw [instructionActions]
  simp only [stopsWith_bind, stuck_instructionStruct, false_or, instructionStruct_eq_ok_iff,
    stopsWith_require, unanswered_some, and_false, stopsWith_pure, exists_false, or_false]
  constructor
  · rintro ⟨_, m, ⟨h, body, -, rfl⟩, hs⟩
    have hm : (h.bytes ++ (body.bytes ++ m)).drop 8 = m := by
      rw [← append_assoc, drop_left' (by simp [hbody])]
    rw [hm] at hactions ⊢
    refine ⟨?_, hactions.1 hs⟩
    simp only [length_append, h.length_eq, body.length_eq]
    omega
  · rintro ⟨hle, hs⟩
    obtain ⟨h, body, hb⟩ := @exists_blocks b 4 t.bodySize (by omega)
    rw [hbody] at hb
    exact ⟨_, _, ⟨h, body, rfl, hb⟩, hactions.2 hs⟩

theorem stuck_instructionSwitch (hfuel : b.length < fuel) :
    Stuck (instructionSwitch fuel len n) b ↔ 8 ≤ b.length ∧
      (∃ t : InstructionType, t.hasActions = true ∧ n = t.code) ∧
      ActionsCut fuel ((len : Int) - 8) [] (b.drop 8) := by
  constructor
  · intro hs
    obtain ⟨t, -, -, -, h⟩ | ⟨t, ht, rfl, h⟩ | ⟨e, h⟩ := @instructionSwitch_cases fuel len n
    · exact absurd (h ▸ hs) stuck_instructionStruct
    · obtain ⟨hle, hcut⟩ := (stuck_instructionActions ht hfuel).1 (h ▸ hs)
      exact ⟨hle, ⟨t, ht, rfl⟩, hcut⟩
    · rw [h] at hs
      simp at hs
  · rintro ⟨hle, ⟨t, ht, rfl⟩, hcut⟩
    rw [instructionSwitch_actions ht]
    exact (stuck_instructionActions ht hfuel).2 ⟨hle, hcut⟩

theorem stuck_ofpInstructionParse {l : List Instruction} (hfuel : b.length < fuel) :
    Stuck (ofpInstructionParse fuel l) b ↔ InstructionCut fuel b := by
  refine stopsWith_append.trans ?_
  change Stuck (instructionParse fuel) b ↔ _
  rw [instructionParse, stuck_sneak_bind, stuck_need_bind, stuck_instructionSwitch hfuel, InstructionCut]
  constructor
  · rintro ⟨-, hlen, hle, ht, hcut⟩
    exact ⟨hle, hlen, ht, hcut⟩
  · rintro ⟨hle, hlen, ht, hcut⟩
    exact ⟨by omega, hlen, hle, ht, hcut⟩

/-- The loop over the actions of the bucket that begins here comes to one that is cut off. -/
def BucketCut (fuel : Nat) (b : List Octet) : Prop :=
  16 ≤ field b 0 2 ∧ field b 0 2 ≤ b.length ∧
    ActionsCut fuel ((field b 0 2 : Int) - 16) [] (b.drop 16)

theorem stuck_ofpBucketParse {l : List Bucket} (hfuel : b.length < fuel) :
    Stuck (ofpBucketParse fuel l) b ↔ BucketCut fuel b := by
  refine stopsWith_append.trans ?_
  change Stuck (bucketParse fuel) b ↔ _
  have hdrop : (b.drop 16).length < fuel := by
    rw [length_drop]
    omega
  have hlen {h : Block 2} {w : Block 14} (hb : b = h.bytes ++ (w.bytes ++ b.drop (2 + 14))) :
      toNat h.bytes = field b 0 2 ∧ 16 ≤ b.length := by
    have hl := congrArg List.length hb
    simp only [length_append, h.length_eq, w.length_eq] at hl
    refine ⟨?_, by omega⟩
    rw [field, drop_zero, hb, take_left' h.length_eq]
  rw [bucketParse, stuck_left_bind, stuck_takePair_bind, BucketCut]
  constructor
  · rintro ⟨h, w, hb, hs⟩
    rw [stuck_require_bind, stuck_need_bind, stuck_bind_of_not (by simp [stopsWith_bind]),
      stuck_ofpActionParse hdrop] at hs
    obtain ⟨hfield, hl⟩ := hlen hb
    simp only [hfield, length_drop] at hs
    exact ⟨hs.1, by omega, hs.2.2⟩
  · rintro ⟨hle, hfits, hcut⟩
    obtain ⟨h, w, hb⟩ := @exists_blocks b 2 14 (by omega)
    obtain ⟨hfield, hl⟩ := hlen hb
    refine ⟨h, w, hb, ?_⟩
    rw [stuck_require_bind, stuck_need_bind, stuck_bind_of_not (by simp [stopsWith_bind]),
      stuck_ofpActionParse hdrop]
    simp only [hfield, length_drop]
    exact ⟨hle, by omega, hcut⟩

/-! ## Elements -/

theorem shrinks_sneak : Shrinks (ofpTlvDecodeSneak e) := by
  intro b t rest h
  rw [(sneak_eq_ok_iff.1 h).2.2]

theorem consumes_of_takes {σ : Type} {more : σ → List Octet → Bool} {body : σ → Parser σ}
    (h : ∀ t, Takes (body t)) : Consumes more body := fun _ _ _ _ _ hbody => h _ hbody

theorem takes_bitmapRound (st : Int × List (Block 4)) : Takes (bitmapRound st) :=
  (takes_take (by decide)).bind fun _ => shrinks_pure

theorem not_stuck_versionbitmap (hfuel : b.length < fuel) : ¬ Stuck (versionbitmapParse fuel) b := by
  have hround (st : Int × List (Block 4)) (m : List Octet) : ¬ Stuck (bitmapRound st) m := by
    simp [bitmapRound, stopsWith_bind]
  rw [versionbitmapParse, stuck_take_bind]
  rintro ⟨h, -, hs⟩
  rw [stuck_bind_of_not (by simp)] at hs
  refine not_stopsWith_loop (consumes_of_takes takes_bitmapRound) ?_ (fun st m _ => hround st m) hs
  rw [length_drop]
  omega

theorem not_stuck_ofpElementParse {l : List Element} (hfuel : b.length < fuel) :
    ¬ Stuck (ofpElementParse fuel l) b := by
  rw [ofpElementParse, stuck_sneak_bind]
  rintro ⟨-, hs⟩
  split at hs
  · simp [stopsWith_bind] at hs
  split at hs
  · simp at hs
  split at hs
  · rw [stuck_bind_of_not (by simp [stopsWith_bind])] at hs
    exact not_stuck_versionbitmap hfuel hs
  · simp [stopsWith_bind] at hs

/-! ## Properties of tables -/

section Count

variable {α : Type} {byte n : Nat} {x : List α → Parser (List α)}

theorem takes_countRound (h : ∀ l, Takes (x l)) (st : Nat × List α) :
    Takes (countRound n x st) := (h st.2).bind fun _ => shrinks_pure

theorem not_stuck_countLoop (hfuel : b.length < fuel) (h : ∀ l, Takes (x l))
    (hs : ∀ l m, m.length ≤ b.length → ¬ Stuck (x l) m) : ¬ Stuck (countLoop fuel byte n x) b := by
  refine not_stopsWith_loop (consumes_of_takes (takes_countRound h)) hfuel fun st m hm => ?_
  change ¬ Stuck (countRound n x st) m
  rw [countRound, stuck_bind_of_not (by simp)]
  exact hs st.2 m hm

theorem shrinks_countLoop (h : ∀ l, Shrinks (x l)) : Shrinks (countLoop fuel byte n x) :=
  shrinks_loop fun st => (h st.2).bind fun _ => shrinks_pure

end Count

theorem takes_instructionHeader : Takes instructionHeader := by
  refine shrinks_sneak.bind_takes fun t => shrinks_need.bind_takes fun _ => ?_
  unfold instructionHeaderSwitch
  split <;> first | exact takes_take (by decide) | exact takes_fail

theorem not_stuck_instructionHeader : ¬ Stuck instructionHeader b := by
  have hswitch (n : Nat) (m : List Octet) : ¬ Stuck (instructionHeaderSwitch n) m := by
    unfold instructionHeaderSwitch
    split <;> simp
  rw [instructionHeader, stuck_sneak_bind, stuck_need_bind]
  exact fun h => hswitch _ _ h.2.2

variable {byte : Nat}

theorem stuck_instructions (hfuel : b.length < fuel) :
    Stuck (sOfpInstructionHeaderParse fuel byte) b ↔ byte = 0 := by
  have hloop : ¬ Stuck (countLoop fuel byte 4 ofpInstructionHeaderParse) b :=
    not_stuck_countLoop hfuel (fun _ => takes_append takes_instructionHeader)
      fun _ _ _ hs => not_stuck_instructionHeader (stopsWith_append.1 hs)
  simp only [sOfpInstructionHeaderParse, stopsWith_bind, stopsWith_require, unanswered_none,
    and_true, require_eq_ok_iff, stopsWith_pure, and_false, exists_false, or_false]
  constructor
  · rintro (h | ⟨_, _, ⟨-, rfl⟩, hs⟩)
    · omega
    · exact absurd hs hloop
  · intro h
    exact .inl (by omega)

theorem takes_actionHeaderStep (st : Int × List (Block 8)) : Takes (actionHeaderStep st) := by
  refine shrinks_sneak.bind_takes fun t => shrinks_need.bind_takes fun _ => ?_
  refine Takes.bind ?_ fun _ => shrinks_pure
  unfold actionHeaderSwitch
  split <;> first | exact takes_take (by decide) | exact takes_fail

theorem not_stuck_actionHeader {l : List (Block 8)} (hfuel : b.length < fuel) :
    ¬ Stuck (ofpActionHeaderParse fuel n l) b := by
  have hswitch (n : Nat) (m : List Octet) : ¬ Stuck (actionHeaderSwitch n) m := by
    unfold actionHeaderSwitch
    split <;> simp
  rw [ofpActionHeaderParse, stuck_bind_of_not (by simp)]
  refine not_stopsWith_loop (consumes_of_takes takes_actionHeaderStep) hfuel fun st m _ => ?_
  change ¬ Stuck (actionHeaderStep st) m
  rw [actionHeaderStep, stuck_sneak_bind, stuck_need_bind, stuck_bind_of_not (by simp)]
  exact fun h => hswitch _ _ h.2.2

theorem takes_actionHeader (hn : 0 < n) (l : List (Block 8)) : Takes (ofpActionHeaderParse fuel n l) := by
  intro b l' rest h
  obtain ⟨r, m, hloop, h⟩ := bind_eq_ok_iff.1 h
  cases h
  exact length_lt_of_loop takes_actionHeaderStep (by simpa [actionHeaderMore] using hn) hloop

/-- With a length of 0 there are rounds for ever, none of which reads anything. -/
theorem countLoop_zero (hbyte : 0 < byte) :
    countLoop (k + 1) byte 0 (ofpActionHeaderParse (k + 1) 0) b = .stop .unfinished := by
  have hidle : ofpActionHeaderParse (k + 1) 0 [] b = .ok [] b := by
    rw [ofpActionHeaderParse, bind_of_ok (loop_of_done (by simp [actionHeaderMore])), pure_apply]
  refine loop_of_idle (by simpa [countMore] using hbyte) ?_
  rw [countRound, bind_of_ok hidle, pure_apply]

theorem stuck_actions (hfuel : b.length < fuel) :
    Stuck (sOfpActionHeaderParse fuel byte n) b ↔ byte = 0 ∨ n = 0 := by
  simp only [sOfpActionHeaderParse, stopsWith_bind, stopsWith_require, unanswered_none,
    and_true, require_eq_ok_iff, stopsWith_pure, and_false, exists_false, or_false]
  constructor
  · rintro (h | ⟨_, _, ⟨-, rfl⟩, hs⟩)
    · exact .inl (by omega)
    · refine .inr (by_contra fun hn => ?_)
      exact not_stuck_countLoop hfuel (takes_actionHeader (Nat.pos_of_ne_zero hn))
        (fun _ _ hm => not_stuck_actionHeader (by omega)) hs
  · intro h
    by_cases hbyte : byte = 0
    · exact .inl (by omega)
    · obtain rfl : n = 0 := h.resolve_left hbyte
      have hpos : 0 < byte := Nat.pos_of_ne_zero hbyte
      obtain ⟨k, rfl⟩ : ∃ k, fuel = k + 1 := ⟨fuel - 1, by omega⟩
      exact .inr ⟨(), b, ⟨hpos, rfl⟩, .unfinished, trivial, countLoop_zero hpos⟩

theorem not_stuck_units (hn : 0 < n) (hfuel : b.length < fuel) : ¬ Stuck (unitsParse fuel byte n) b := by
  rw [unitsParse, stuck_bind_of_not (by simp [stopsWith_bind])]
  exact not_stuck_countLoop hfuel (fun _ => takes_append (takes_take hn)) (by simp)

/-- The property that begins here should contain instructions or actions and does not, or its first action
says that its length is 0. -/
def PropertyStuck (b : List Octet) : Prop :=
  4 ≤ b.length ∧ 4 ≤ (tlvOf b).2 ∧ (tlvOf b).2 ≤ b.length ∧
    (((tlvOf b).1 ≤ 1 ∧ (tlvOf b).2 = 4) ∨
      (4 ≤ (tlvOf b).1 ∧ (tlvOf b).1 ≤ 7 ∧ 8 ≤ b.length ∧ ((tlvOf b).2 = 4 ∨ field b 6 2 = 0)))

variable {type length : Nat}

theorem stuck_propertySwitch (hfuel : b.length < fuel) :
    Stuck (propertySwitch fuel byte type) b ↔ (type ≤ 1 ∧ byte = 0) ∨
      (4 ≤ type ∧ type ≤ 7 ∧ 4 ≤ b.length ∧ (byte = 0 ∨ (tlvOf b).2 = 0)) := by
  have hactions : Stuck (propertyActions fuel byte) b ↔
      4 ≤ b.length ∧ (byte = 0 ∨ (tlvOf b).2 = 0) := by
    rw [propertyActions, stuck_sneak_bind, stuck_actions hfuel]
  have hone : ¬ Stuck (sPropNextTablesParse fuel byte) b := not_stuck_units (by decide) hfuel
  have hfour : ¬ Stuck (sTableFeaturePropOxmParse fuel byte) b := not_stuck_units (by decide) hfuel
  unfold propertySwitch
  split
  all_goals
    simp only [stuck_bind_of_not, stopsWith_pure, not_false_eq_true, implies_true,
      stuck_instructions hfuel, hactions, hone, hfour, stopsWith_fail, unanswered_some, false_iff]
    grind

theorem stuck_tableProperty (hfuel : b.length < fuel) : Stuck (tableProperty fuel) b ↔ PropertyStuck b := by
  have hdrop : (b.drop 4).length < fuel := by
    rw [length_drop]
    omega
  have hfield : (tlvOf (b.drop 4)).2 = field b 6 2 := by
    change field (b.drop 4) 2 2 = _
    rw [field, field, drop_drop]
  have htlv {h : Block 4} (hb : b = h.bytes ++ b.drop 4) :
      (tlvOf b).1 = field h.bytes 0 2 ∧ (tlvOf b).2 = field h.bytes 2 2 :=
    ⟨field_of_append hb (by decide), field_of_append hb (by decide)⟩
  rw [tableProperty, stuck_take_bind, PropertyStuck]
  simp only [stuck_require_bind, stuck_need_bind]
  constructor
  · rintro ⟨h, hb, hle, hfits, hs⟩
    obtain ⟨htype, hlen⟩ := htlv hb
    have hl := congrArg List.length hb
    rw [stuck_bind_of_not (by simp [stopsWith_bind]), stuck_propertySwitch hdrop, hfield] at hs
    rw [htype, hlen]
    simp only [length_append, h.length_eq, length_drop] at hl hs hfits
    refine ⟨by omega, hle, by omega, ?_⟩
    omega
  · rintro ⟨hle, hlen, hfits, hs⟩
    obtain ⟨h, hb⟩ : ∃ h : Block 4, b = h.bytes ++ b.drop 4 :=
      ⟨⟨b.take 4, by rw [length_take]; omega⟩, (take_append_drop 4 b).symm⟩
    obtain ⟨htype, hlen'⟩ := htlv hb
    refine ⟨h, hb, by omega, by rw [length_drop]; omega, ?_⟩
    rw [stuck_bind_of_not (by simp [stopsWith_bind]), stuck_propertySwitch hdrop, hfield,
      ← htype, ← hlen', length_drop]
    omega

/-! ## Tables -/

theorem shrinks_propertySwitch : Shrinks (propertySwitch fuel byte type) := by
  have hinstructions : Shrinks (sOfpInstructionHeaderParse fuel byte) :=
    shrinks_require.bind fun _ =>
      (shrinks_countLoop fun _ => (takes_append takes_instructionHeader).shrinks).bind fun _ =>
        shrinks_pure
  have hheader (n : Nat) (l : List (Block 8)) : Shrinks (ofpActionHeaderParse fuel n l) :=
    (shrinks_loop fun st => (takes_actionHeaderStep st).shrinks).bind fun _ => shrinks_pure
  have hactions : Shrinks (propertyActions fuel byte) :=
    shrinks_sneak.bind fun _ => shrinks_require.bind fun _ =>
      (shrinks_countLoop (hheader _)).bind fun _ => shrinks_pure
  have hunits (n : Nat) : Shrinks (unitsParse fuel byte n) :=
    (shrinks_countLoop fun _ => shrinks_take.bind fun _ => shrinks_pure).bind fun _ =>
      shrinks_require.bind fun _ => shrinks_pure
  unfold propertySwitch
  split
  · exact hinstructions.bind fun _ => shrinks_pure
  · exact hinstructions.bind fun _ => shrinks_pure
  all_goals first
    | exact (hunits 1).bind fun _ => shrinks_pure
    | exact hactions.bind fun _ => shrinks_pure
    | exact (hunits 4).bind fun _ => shrinks_pure
    | exact takes_fail.shrinks

theorem takes_tableProperty : Takes (tableProperty fuel) :=
  (takes_take (by decide)).bind fun _ => shrinks_require.bind fun _ =>
    shrinks_need.bind fun _ => shrinks_propertySwitch.bind fun _ =>
      shrinks_take.bind fun _ => shrinks_pure

theorem takes_propertyStep (st : PropertyState) : Takes (propertyStep fuel st) :=
  (takes_append takes_tableProperty).bind fun _ => shrinks_pure

variable {l : List TableProperty}

theorem shrinks_tablePropertyParse : Shrinks (tablePropertyParse fuel length l) :=
  shrinks_left.bind fun _ => (shrinks_loop fun st => (takes_propertyStep st).shrinks).bind
    fun _ => shrinks_left.bind fun _ => shrinks_require.bind fun _ => shrinks_pure

theorem takes_tableFeaturesRound (l : List TableProperty) : Takes (tableFeaturesRound fuel l) := by
  refine (takes_take (by decide)).bind fun _ => shrinks_left.bind fun _ => ?_
  split
  · exact shrinks_pure
  · exact shrinks_tablePropertyParse

/-- The loop over the properties of the table that begins here comes to one that gets stuck. -/
def TableStuck (fuel : Nat) (l : List TableProperty) (b : List Octet) : Prop :=
  64 ≤ b.length ∧ ¬ (l = [] ∧ b.length = 64) ∧
    Reaches (propertyMore ((b.length : Int) - field b 0 2)) (propertyStep fuel)
      (fun _ m => PropertyStuck m) (true, l) (b.drop 64)

theorem stuck_tablePropertyParse (hfuel : b.length < fuel) : Stuck (tablePropertyParse fuel length l) b ↔
      Reaches (propertyMore ((b.length : Int) - ((length : Int) - 64))) (propertyStep fuel)
        (fun _ m => PropertyStuck m) (true, l) b := by
  have hconsumes {endLeft : Int} : Consumes (propertyMore endLeft) (propertyStep fuel) :=
    consumes_of_takes takes_propertyStep
  rw [tablePropertyParse, stuck_left_bind, stuck_bind_of_not (by simp [stopsWith_bind])]
  refine (stopsWith_loop hconsumes hfuel).trans ?_
  refine reaches_congr hconsumes fun st m hm => ?_
  change Stuck (propertyStep fuel st) m ↔ _
  rw [propertyStep, stuck_bind_of_not (by simp)]
  exact stopsWith_append.trans (stuck_tableProperty (by omega))

theorem stuck_tableFeaturesRound (hfuel : b.length < fuel) :
    Stuck (tableFeaturesRound fuel l) b ↔ TableStuck fuel l b := by
  have hdrop : (b.drop 64).length < fuel := by
    rw [length_drop]
    omega
  have hparse (h : Block 64) (hb : b = h.bytes ++ b.drop 64) :
      Stuck (parseTablePropertyList fuel (field h.bytes 0 2) l) (b.drop 64) ↔ TableStuck fuel l b := by
    have hfield : field h.bytes 0 2 = field b 0 2 := (field_of_append hb (by decide)).symm
    have hl : b.length = 64 + (b.drop 64).length := by
      conv_lhs => rw [hb, length_append, h.length_eq]
    have hend : ((b.drop 64).length : Int) - ((field b 0 2 : Int) - 64) = b.length - field b 0 2 := by
      omega
    have hempty : (l = [] ∧ (b.drop 64).length = 0) ↔ (l = [] ∧ b.length = 64) :=
      and_congr_right fun _ => by omega
    have hle : 64 ≤ b.length := by omega
    rw [parseTablePropertyList, stuck_left_bind, hfield, TableStuck, and_iff_right hle]
    by_cases hdone : l = [] ∧ (b.drop 64).length = 0
    · simp [hempty.1 hdone]
    · rw [if_neg hdone, stuck_tablePropertyParse hdrop, hend, and_iff_right (mt hempty.2 hdone)]
  rw [tableFeaturesRound, stuck_take_bind]
  constructor
  · rintro ⟨h, hb, hs⟩
    exact (hparse h hb).1 hs
  · intro hs
    have hlen := hs.1
    obtain ⟨h, hb⟩ : ∃ h : Block 64, b = h.bytes ++ b.drop 64 :=
      ⟨⟨b.take 64, by rw [length_take]; omega⟩, (take_append_drop 64 b).symm⟩
    exact ⟨h, hb, (hparse h hb).2 hs⟩

/-- The loop over the tables comes to one that gets stuck. -/
def TablesStuck (fuel : Nat) (b : List Octet) : Prop :=
  Reaches (fun _ m => before 0 m) (tableFeaturesRound fuel) (TableStuck fuel) [] b

theorem stuck_tableFeaturesParse (hfuel : b.length < fuel) :
    Stuck (tableFeaturesParse fuel) b ↔ TablesStuck fuel b := by
  have hconsumes : Consumes (fun _ m => before 0 m) (tableFeaturesRound fuel) :=
    consumes_of_takes takes_tableFeaturesRound
  refine (stopsWith_loop hconsumes hfuel).trans ?_
  exact reaches_congr hconsumes fun l m hm => stuck_tableFeaturesRound (by omega)

/-! ## All parsers -/

/-- For every message, a parser answers if and only if it comes to none of the exceptions. -/
theorem parsers_answer_iff (b : List Octet) {fuel : Nat} (hfuel : b.length < fuel) :
    (∀ version l, Answers (.of (ofpMatchParse fuel version l b)) ↔ ¬ MatchRuns version l b) ∧
    (∀ todo l, Answers (.of (ofpActionParse fuel todo l b)) ↔ ¬ ActionsCut fuel todo l b) ∧
    (∀ l, Answers (.of (ofpInstructionParse fuel l b)) ↔ ¬ InstructionCut fuel b) ∧
    (∀ l, Answers (.of (ofpBucketParse fuel l b)) ↔ ¬ BucketCut fuel b) ∧
    (∀ l, Answers (.of (ofpElementParse fuel l b))) ∧
    (Answers (.of (tableFeaturesParse fuel b)) ↔ ¬ TablesStuck fuel b) := by
  refine ⟨fun version l => ?_, fun todo l => ?_, fun l => ?_, fun l => ?_, fun l => ?_, ?_⟩
  · rw [answers_iff, stuck_ofpMatchParse hfuel]
  · rw [answers_iff, stuck_ofpActionParse hfuel]
  · rw [answers_iff, stuck_ofpInstructionParse hfuel]
  · rw [answers_iff, stuck_ofpBucketParse hfuel]
  · rw [answers_iff]
    exact not_stuck_ofpElementParse hfuel
  · rw [answers_iff, stuck_tableFeaturesParse hfuel]

/-- A match on the port: the parser of matches answers, and so does the one of elements. -/
theorem parsers_answer_of_inPort :
    let b : List Octet := [0, 1, 0, 12, 0x80, 0, 0, 4, 0, 0, 0, 1, 0, 0, 0, 0]
    ¬ MatchRuns 4 [] b ∧ Answers (.of (ofpElementParse 17 [] b)) := by
  intro b
  obtain ⟨hmatch, -, -, -, helement, -⟩ := parsers_answer_iff b (show b.length < 17 by decide)
  exact ⟨(hmatch 4 []).1 (.inl ⟨[], by decide⟩), helement []⟩

/-- A request for one table, with `struct ofp_table_features` and the bytes of its properties. -/
def tableRequest (properties : List Octet) : List Octet :=
  Octets.ofNat 2 (64 + properties.length) ++ (List.replicate 62 0 ++ properties)

/-- An action of length 0 in a property: the bytes are read again and again. -/
theorem tableFeaturesParse_zero (fuel : Nat) :
    tableFeaturesParse fuel (tableRequest [0, 4, 0, 8, 0, 0, 0, 0]) = .stop .unfinished := by
  cases fuel with
  | zero => rfl
  | succ k =>
    have hactions : propertyActions (k + 1) 4 [0, 0, 0, 0] = .stop .unfinished := by
      rw [propertyActions, bind_of_ok (show _ = Outcome.ok (0, 0) [0, 0, 0, 0] by decide),
        sOfpActionHeaderParse, bind_of_ok (require_of (by decide)),
        bind_of_stop (countLoop_zero (by decide))]
    have hswitch : propertySwitch (k + 1) 4 4 [0, 0, 0, 0] = .stop .unfinished := bind_of_stop hactions
    have hproperty : tableProperty (k + 1) [0, 4, 0, 8, 0, 0, 0, 0] = .stop .unfinished := by
      rw [tableProperty, bind_of_ok
        (show _ = Outcome.ok (⟨[0, 4, 0, 8], rfl⟩ : Block 4) [0, 0, 0, 0] by decide)]
      have htype : field [0, 4, 0, 8] 0 2 = 4 := by decide
      have hlength : field [0, 4, 0, 8] 2 2 = 8 := by decide
      simp only [htype, hlength]
      rw [bind_of_ok (require_of (by decide)), bind_of_ok (need_of (by decide)), bind_of_stop hswitch]
    have hloop (endLeft : Int) : Scan.loop (propertyMore endLeft) (propertyStep (k + 1)) (k + 1) (true, [])
        [0, 4, 0, 8, 0, 0, 0, 0] = .stop .unfinished := by
      rw [loop_of_more rfl, bind_of_stop]
      exact bind_of_stop (bind_of_stop hproperty)
    have hround : tableFeaturesRound (k + 1) [] (tableRequest [0, 4, 0, 8, 0, 0, 0, 0]) =
        .stop .unfinished := by
      rw [tableFeaturesRound, bind_of_ok
        (show _ = Outcome.ok (⟨Octets.ofNat 2 72 ++ List.replicate 62 0, rfl⟩ : Block 64)
          [0, 4, 0, 8, 0, 0, 0, 0] by decide)]
      rw [parseTablePropertyList, bind_of_ok left_apply, if_neg (by decide), tablePropertyParse,
        bind_of_ok left_apply, bind_of_stop (hloop _)]
    rw [tableFeaturesParse, loop_of_more (by decide), bind_of_stop hround]

/-- A match field of 255 bytes in a match of eight, a port name of which only the header is there, a
property without instructions, and one with an action of length 0. -/
theorem parsers_do_not_answer :
    ofpMatchParse 9 4 [] [0, 1, 0, 8, 0x80, 0, 0, 255] = .stop .overrun ∧
    ofpActionParse 13 12 [] [0, 28, 0, 12, 0, 0, 0, 0, 0, 1, 0, 4] = .stop (.error none) ∧
    tableFeaturesParse 73 (tableRequest [0, 0, 0, 4, 0, 0, 0, 0]) = .stop (.error none) ∧
    ∀ fuel, tableFeaturesParse fuel (tableRequest [0, 4, 0, 8, 0, 0, 0, 0]) = .stop .unfinished :=
  ⟨by decide, by decide +kernel, by decide +kernel, tableFeaturesParse_zero⟩

end Lagopus.Wire
