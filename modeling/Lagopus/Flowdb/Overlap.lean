import Lagopus.Flowdb.Update

/-!
# The overlap check

A flow-mod with `OFPFF_CHECK_OVERLAP` is to be refused if some packet could match both its entry and
one of the same priority.  `flowdb_flow_add` refuses it if there is an identical entry.

* `Overlap`: some packet could match both lists;
* `flowdbFlowAdd_overlap_iff`: when the error is reported;
* `overlap_right_iff`: when that is right.
-/

namespace Lagopus

/-- The values agree wherever both masks have a bit, for every field named by both. -/
def Overlap (ml ml' : List Match) : Prop :=
  ∀ m ∈ ml, ∀ m' ∈ ml', m.field = m'.field → ∀ i < m.field.bytes,
    m.byte i &&& (m.maskByte i &&& m'.maskByte i) = m'.byte i &&& (m.maskByte i &&& m'.maskByte i)

/-- An entry of the same priority overlaps with that of the request. -/
def FlowMod.Overlapped (fm : FlowMod) (ml : List Match) (fs : List Flow) : Prop :=
  ∃ f ∈ fs, f.head.priority = fm.priority ∧ Overlap f.head.matchList ml

/-- An entry is identical to that of the request, which passes the checks before. -/
def FlowMod.Identical (fm : FlowMod) (ml : List Match) (il : List Instruction) (fs : List Flow) : Prop :=
  (∃ ins, mapInstructionListToArray il = .ok ins) ∧ Accepted ml ∧
    ∃ f ∈ fs, f.identicalTo fm.priority ml = true

/-- **The overlap check**: an overlap is reported, and what does not overlap is added unless there is
something else wrong with the request. -/
structure OverlapRight (b : Bridge) (fm : FlowMod) (ml : List Match) (il : List Instruction)
    (t : TableId) : Prop where
  rejects : (flowdbFlowAdd b fm ml il).2 = .error .flowModFailedOverlap ↔ fm.Overlapped ml (b.flows t)
  adds : ¬ fm.Overlapped ml (b.flows t) → ∀ ins, mapInstructionListToArray il = .ok ins → Accepted ml →
    b.Knows ins → (flowdbFlowAdd b fm ml il).2 = .ok () ∧
      (flowdbFlowAdd b fm ml il).1.flows t = flowListAdd (b.flows t) (fm.flow b.next t ml ins).installed

/-! ## Other errors -/

theorem mapInstructionListToArray_ne_overlap (il : List Instruction) :
    mapInstructionListToArray il ≠ .error .flowModFailedOverlap := by
  have hplace : ∀ (dest : Instructions) inst, dest.place inst ≠ .error .flowModFailedOverlap := by
    intro dest inst
    cases inst <;> grind [Instructions.place]
  have hfold : ∀ dest, il.foldlM Instructions.place dest ≠ .error .flowModFailedOverlap := by
    induction il with
    | nil => simp [pure, Except.pure]
    | cons inst il ih =>
      intro dest
      rw [List.foldlM_cons]
      cases hdest : dest.place inst with
      | error e => exact fun h => hplace dest inst (hdest.trans h)
      | ok dest' => exact ih dest'
  exact hfold {}

theorem preRequisiteLoop_ne_overlap (bits : List Nat) (ml : List Match) :
    preRequisiteLoop bits ml ≠ .error .flowModFailedOverlap := by
  induction ml generalizing bits with
  | nil => simp [preRequisiteLoop]
  | cons m ml ih => grind [preRequisiteLoop]

theorem flowMaskCheck_ne_overlap (ml : List Match) : flowMaskCheck ml ≠ .error .flowModFailedOverlap := by
  induction ml with
  | nil => simp [flowMaskCheck]
  | cons m ml ih =>
    rw [flowMaskCheck]
    split_ifs
    · simp
    · exact ih

theorem Result.next_ne {r : Result} {k : Bridge → Result} {e : OfpError} (hr : r.2 ≠ .error e)
    (hk : ∀ b, (k b).2 ≠ .error e) : (Result.next r k).2 ≠ .error e := by
  obtain ⟨b, _ | u⟩ := r
  · exact hr
  · exact hk b

theorem addNew_ne_overlap (b : Bridge) (t : TableId) (flow : Flow) :
    (addNew b t flow).2 ≠ .error .flowModFailedOverlap := by
  have hactions : ∀ as b, (checkActions flow.head.id b as).2 ≠ .error .flowModFailedOverlap := by
    intro as
    induction as with
    | nil => simp [checkActions]
    | cons a as ih =>
      intro b
      refine Result.next_ne ?_ ih
      cases a <;> grind [checkAction]
  refine Result.next_ne (Result.next_ne ?_ fun b => Result.next_ne (hactions _ b) fun b =>
    Result.next_ne (hactions _ b) fun b => ?_) fun _ => by simp
  · cases flow.instruction.meter <;> grind [checkMeter]
  · cases flow.instruction.gotoTable <;> grind [checkGotoTable]

/-! ## The check -/

section

variable {b : Bridge} {fm : FlowMod} {ml : List Match} {il : List Instruction} {t : TableId}

theorem overlapped_of_identical {fs : List Flow} (h : fm.Identical ml il fs) : fm.Overlapped ml fs := by
  obtain ⟨-, hacc, f, hf, hsame⟩ := h
  obtain ⟨hprio, hlist⟩ := identicalTo_iff.1 hsame
  refine ⟨f, hf, hprio, fun m hm m' hm' hfield i _ => ?_⟩
  rw [hlist] at hm
  rw [hacc.eq_of_field_eq hm hm' hfield]

variable (ht : fm.tableId = some t) (hflag : checkFlag fm.flags OFPFF_CHECK_OVERLAP = true) (h : b.Sound)

include ht hflag h

theorem flowdbFlowAdd_checked :
    (flowdbFlowAdd b fm ml il).2 = .error .flowModFailedOverlap ∧ fm.Identical ml il (b.flows t) ∨
      (flowdbFlowAdd b fm ml il).2 ≠ .error .flowModFailedOverlap ∧ ¬ fm.Identical ml il (b.flows t) ∧
        ∀ ins, mapInstructionListToArray il = .ok ins → Accepted ml →
          flowdbFlowAdd b fm ml il = addNew (b.touched t) t (fm.flow b.next t ml ins) := by
  rcases flowdbFlowAdd_cases b ml il ht with
    ⟨e, hadd, herr⟩ | ⟨ins, hins, hacc, ⟨hident, hadd⟩ | ⟨old, hident, hadd⟩⟩
  · have hno : ∀ ins, mapInstructionListToArray il = .ok ins → ¬ Accepted ml := by
      rintro ins hins ⟨hpre, hmask⟩
      rw [hins, hpre, hmask] at herr
      simp at herr
    rw [hadd]
    refine .inr ⟨?_, fun ⟨⟨ins, hins⟩, hacc, _⟩ => hno ins hins hacc,
      fun ins hins hacc => absurd hacc (hno ins hins)⟩
    rintro ⟨⟩
    rcases herr with herr | herr | herr
    · exact mapInstructionListToArray_ne_overlap il herr
    · exact preRequisiteLoop_ne_overlap [] ml herr
    · exact flowMaskCheck_ne_overlap ml herr
  · rw [hadd]
    refine .inr ⟨addNew_ne_overlap _ _ _, fun ⟨_, _, f, hf, hsame⟩ => ?_, fun ins' hins' _ => ?_⟩
    · rw [not_identicalTo_of_none h hident f hf] at hsame
      cases hsame
    · cases hins.symm.trans hins'
      rfl
  · obtain ⟨hold, hsame⟩ := ((h.touched t).tables t).identical_eq_some hident
    rw [hadd, replaceIdentical_overlap hflag]
    exact .inl ⟨rfl, ⟨ins, hins⟩, hacc, old, flowList_touched b t ▸ hold, same_iff_identicalTo.1 hsame⟩

variable (ml il) in
theorem flowdbFlowAdd_overlap_iff :
    (flowdbFlowAdd b fm ml il).2 = .error .flowModFailedOverlap ↔ fm.Identical ml il (b.flows t) := by
  rcases flowdbFlowAdd_checked ht hflag h with ⟨herr, hident⟩ | ⟨hno, hnone, -⟩
  · exact iff_of_true herr hident
  · exact iff_of_false hno hnone

theorem flowdbFlowAdd_adds (hno : ¬ fm.Identical ml il (b.flows t)) {ins : Instructions}
    (hins : mapInstructionListToArray il = .ok ins) (hacc : Accepted ml) (hknows : b.Knows ins) :
    (flowdbFlowAdd b fm ml il).2 = .ok () ∧
      (flowdbFlowAdd b fm ml il).1.flows t = flowListAdd (b.flows t) (fm.flow b.next t ml ins).installed := by
  rcases flowdbFlowAdd_checked ht hflag h with ⟨-, hident⟩ | ⟨-, -, hadd⟩
  · exact absurd hident hno
  · have hsame : b.SameNames (b.touched t) := ⟨rfl, rfl, rfl⟩
    have hknows' := (knows_unflagged _ ins).2 ((hsame.knows ins).2 hknows)
    obtain ⟨b', hr⟩ : ∃ b', flowActionCheck (b.touched t) b.next ins.unflagged = (b', .ok ()) :=
      ⟨_, Prod.ext rfl ((flowActionCheck_checks _ _ _).ok_iff.2 hknows')⟩
    have hok : (addNew (b.touched t) t (fm.flow b.next t ml ins)).2 = .ok () := by
      rw [addNew_ok hr]
    rw [hadd ins hins hacc]
    exact ⟨hok, (flows_addNew hok).2.trans (congrArg (flowListAdd · _) (b.flows_touch t t))⟩

omit h in
/-- **An overlap is what is reported**, exactly if every overlap is one with an identical entry. -/
theorem overlap_right_iff (hreach : b.Reachable) :
    OverlapRight b fm ml il t ↔
      (fm.Overlapped ml (b.flows t) → fm.Identical ml il (b.flows t)) := by
  have h := hreach.sound
  have hiff := flowdbFlowAdd_overlap_iff ml il ht hflag h
  constructor
  · intro hright hover
    exact hiff.1 (hright.rejects.2 hover)
  · intro hcond
    refine ⟨hiff.trans ⟨overlapped_of_identical, hcond⟩, fun hno ins hins hacc hknows => ?_⟩
    exact flowdbFlowAdd_adds ht hflag h (fun hident => hno (overlapped_of_identical hident)) hins hacc
      hknows

end

/-- A request for the entry that is there. -/
theorem overlap_right_of_identical :
    checkFlag (2 : BitVec 16) OFPFF_CHECK_OVERLAP = true ∧
      OverlapRight oneEntry { addAgain with flags := 2 } [] [] 0 := by
  have hreach : oneEntry.Reachable := ⟨{ ports := [1, 2] }, fun _ => rfl, [_], rfl⟩
  refine ⟨by decide, (overlap_right_iff rfl (by decide) hreach).2 fun _ => ⟨⟨_, rfl⟩, by decide, ?_⟩⟩
  decide

/-- The entry that is there matches every packet. One for the packets of a port, with the same priority,
is added all the same. -/
theorem overlap_not_reported :
    let fm : FlowMod := { addAgain with flags := 2 }
    let ml : List Match := [⟨0x8000, .inPort, false, [0, 0, 0, 1]⟩]
    checkFlag fm.flags OFPFF_CHECK_OVERLAP = true ∧ fm.Overlapped ml (oneEntry.flows 0) ∧
      (flowdbFlowAdd oneEntry fm ml []).2 = .ok () := by
  refine ⟨by decide, ?_, by decide⟩
  unfold FlowMod.Overlapped Overlap
  decide

end Lagopus
