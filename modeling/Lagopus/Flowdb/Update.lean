import Lagopus.Flowdb.Invariant

/-!
# What an add and a modify leave

An add is to leave one entry with the priority and the match list of the request, and everything
else in it from the request too; a modify is to give the entries it selects the instructions of the
request.  An entry that comes to its instructions in another way than by being added new is to be no
different from one that was.

* `FlowMod.Added`, `FlowMod.Modified`: that, for the flow list of a table.
* `flowdbFlowAdd_added_iff`: an identical entry keeps its own cookie, flags and timeouts, so these
  have to be those of the request already.
* `flowdbFlowModify_modified_iff`: a strict modify leaves instructions without the notes of
  `flow_instruction_examination`, so there has to be nothing to note; and a modify that fails
  reports success.
-/

namespace Lagopus

open List Bridge

/-! ## What they are to leave -/

/-- The entry of an add, as it is to be in the table: its instructions examined, and a timer armed if
there is a timeout. -/
structure FlowMod.IsEntry (fm : FlowMod) (ml : List Match) (ins : Instructions) (f : Flow) :
    Prop where
  priority : f.head.priority = fm.priority
  matchList : f.head.matchList = ml
  cookie : f.cookie = fm.cookie
  flags : f.flags = fm.flags
  idleTimeout : f.idleTimeout = fm.idleTimeout
  hardTimeout : f.hardTimeout = fm.hardTimeout
  instruction : f.instruction = ins.unflagged.examine
  timer : f.flowTimer = true ↔ fm.idleTimeout ≠ 0 ∨ fm.hardTimeout ≠ 0

/-- What an add is to make of the flow list `fs`: one entry with the priority and the match list of
the request, all of it from the request, and the others as they were. -/
structure FlowMod.Added (fm : FlowMod) (ml : List Match) (ins : Instructions) (fs fs' : List Flow) :
    Prop where
  entry : ∃ f, fs'.filter (Flow.identicalTo fm.priority ml) = [f] ∧ fm.IsEntry ml ins f
  others : fs'.filter (fun f => !f.identicalTo fm.priority ml) =
    fs.filter fun f => !f.identicalTo fm.priority ml

/-- What an identical entry keeps is what the request has. -/
def Flow.Carries (f : Flow) (fm : FlowMod) : Prop :=
  f.cookie = fm.cookie ∧ f.flags = fm.flags ∧ f.idleTimeout = fm.idleTimeout ∧
    f.hardTimeout = fm.hardTimeout

instance (f : Flow) (fm : FlowMod) : Decidable (f.Carries fm) :=
  inferInstanceAs (Decidable (_ ∧ _ ∧ _ ∧ _))

/-- The entries a modify selects: the identical one, or all those with the matches of the request and
its cookie, as far as the mask goes. -/
def Flow.modifies (f : Flow) (fm : FlowMod) (ml : List Match) : Bool :=
  if fm.strict then f.head.priority = fm.priority ∧ f.head.matchList = ml
  else f.cookie &&& fm.cookieMask = fm.cookie &&& fm.cookieMask ∧ ∀ m ∈ ml, m ∈ f.head.matchList

/-- What a modify is to make of the flow list `fs`: if there is anything to modify, the instructions
are ones an entry could be added with, and the entries selected have them as if they had been. -/
structure FlowMod.Modified (fm : FlowMod) (ml : List Match) (b : Bridge) (il : List Instruction)
    (fs fs' : List Flow) : Prop where
  rewritten : (∀ f ∈ fs, f.modifies fm ml = false) ∧ fs' = fs ∨
    ∃ ins, mapInstructionListToArray il = .ok ins ∧ b.Knows ins ∧
      fs' = fs.map fun f => if f.modifies fm ml then f.given fm ins.unflagged.examine else f

/-! ## Add -/

variable {ml : List Match} {f : Flow} {priority addr : Nat}

theorem identicalTo_iff :
    f.identicalTo priority ml = true ↔ f.head.priority = priority ∧ f.head.matchList = ml := by
  rw [Flow.identicalTo, decide_eq_true_iff]

variable {b : Bridge} {t : TableId}

theorem Bridge.Sound.split (h : b.Sound) (hf : f ∈ b.flows t) :
    ∃ front back, b.flows t = front ++ f :: back ∧
      ∀ g ∈ front ++ back, ¬ f.head.Same g.head ∧ g.head.id ≠ f.head.id := by
  obtain ⟨front, back, hsplit⟩ := append_of_mem hf
  have hheads : (b.getTable t).heads = (front ++ f :: back).map Flow.head := by
    rw [FlowTable.heads, b.flowList_getTable, hsplit]
  have htable := h.tables t
  rw [hheads] at htable
  have hunique := pairwise_map.1 htable.unique
  have hids := htable.distinct
  rw [DistinctIds, map_map, nodup_iff_pairwise_ne, pairwise_map] at hids
  obtain ⟨-, huback, hufront⟩ := pairwise_append.1 hunique
  obtain ⟨-, hiback, hifront⟩ := pairwise_append.1 hids
  refine ⟨front, back, hsplit, fun g hg => ?_⟩
  rcases mem_append.1 hg with hg | hg
  · have hno := hufront g hg f mem_cons_self
    exact ⟨fun hsame => hno ⟨hsame.1.symm, hsame.2.symm⟩, hifront g hg f mem_cons_self⟩
  · exact ⟨(pairwise_cons.1 huback).1 g hg, ((pairwise_cons.1 hiback).1 g hg).symm⟩

variable {front back : List Flow} {old : Flow} {new flow : Flow}

theorem flowList_put {table : FlowTable}
    (hsplit : table.flowList = front ++ old :: back) (hhead : new.head = old.head)
    (hids : ∀ g ∈ front ++ back, g.head.id ≠ old.head.id) :
    (table.put new).flowList = front ++ new :: back := by
  have hkeep : ∀ l : List Flow, (∀ g ∈ l, g ∈ front ++ back) →
      (l.map fun f => if f.head.id = new.head.id then new else f) = l := by
    intro l hl
    refine (map_congr_left fun g hg => ?_).trans (map_id _)
    rw [hhead, if_neg (hids g (hl g hg)), id]
  rw [FlowTable.put, hsplit, map_append, map_cons, hkeep front fun g hg => mem_append_left _ hg,
    hkeep back fun g hg => mem_append_right _ hg, if_pos (by rw [hhead])]

variable {fm : FlowMod} {ins : Instructions}

theorem same_iff_identicalTo :
    (fm.flow addr t ml ins).head.Same f.head ↔ f.identicalTo fm.priority ml = true := by
  rw [identicalTo_iff]
  exact and_congr eq_comm eq_comm

theorem flows_addNew (hok : (addNew b t flow).2 = .ok ()) :
    (∀ i, i ≠ t → (addNew b t flow).1.flows i = b.flows i) ∧
      (addNew b t flow).1.flows t = flowListAdd (b.flows t) flow.installed := by
  have hcheck := sameTables_flowActionCheck b flow.head.id flow.instruction
  generalize hr : flowActionCheck b flow.head.id flow.instruction = r at hcheck
  obtain ⟨b', result⟩ := r
  cases result with
  | error e =>
    rw [addNew_error hr] at hok
    cases hok
  | ok u =>
    rw [addNew_ok hr]
    refine ⟨fun i hi => ?_, ?_⟩
    · rw [flows_setTable, if_neg hi, hcheck.flows]
    · rw [flows_setTable, if_pos rfl, b.flowList_getTable]

theorem flows_replaceIdentical (hok : (replaceIdentical b t fm flow old).2 = .ok ())
    (hsplit : b.flows t = front ++ old :: back) (hsame : flow.head.Same old.head)
    (hids : ∀ g ∈ front ++ back, g.head.id ≠ old.head.id) :
    (∀ i, i ≠ t → (replaceIdentical b t fm flow old).1.flows i = b.flows i) ∧
      (replaceIdentical b t fm flow old).1.flows t = front ++ old.replacedBy fm flow :: back := by
  cases hoverlap : checkFlag fm.flags OFPFF_CHECK_OVERLAP with
  | true =>
    rw [replaceIdentical_overlap hoverlap] at hok
    cases hok
  | false =>
    obtain ⟨htables, -⟩ := @tables_replaceIdentical b t fm flow old hoverlap
    have hflows := flows_congr _ htables
    refine ⟨fun i hi => ?_, ?_⟩
    · rw [hflows, flows_setTable, if_neg hi]
    · rw [hflows, flows_setTable, if_pos rfl]
      exact flowList_put ((b.flowList_getTable t).trans hsplit) (head_replacedBy hsame) hids

variable {il : List Instruction}

theorem flowList_touched (b : Bridge) (t : TableId) : ((b.touched t).getTable t).flowList = b.flows t :=
  ((b.touched t).flowList_getTable t).trans (b.flows_touch t t)

theorem not_identicalTo_of_none (h : b.Sound)
    (hnone : ((b.touched t).getTable t).identical (fm.flow b.next t ml ins) = none) :
    ∀ f ∈ b.flows t, f.identicalTo fm.priority ml = false := by
  intro f hf
  have htable := (h.touched t).tables t
  have hno := htable.differ (htable.identical_eq_none hnone) f.head (mem_heads (flowList_touched b t ▸ hf))
  exact Bool.eq_false_iff.2 fun hident => hno (same_iff_identicalTo.2 hident)

theorem flowdbFlowAdd_ok_instructions (ht : fm.tableId = some t)
    (hok : (flowdbFlowAdd b fm ml il).2 = .ok ()) : ∃ ins, mapInstructionListToArray il = .ok ins := by
  rcases flowdbFlowAdd_cases b ml il ht with ⟨e, hadd, -⟩ | ⟨ins, hins, -⟩
  · rw [hadd] at hok
    cases hok
  · exact ⟨ins, hins⟩

/-- **The two ways of a successful add**: a new entry, or an identical one that is replaced. -/
theorem flowdbFlowAdd_ok (h : b.Sound) (ht : fm.tableId = some t)
    (hins : mapInstructionListToArray il = .ok ins) (hok : (flowdbFlowAdd b fm ml il).2 = .ok ()) :
    (∀ i, i ≠ t → (flowdbFlowAdd b fm ml il).1.flows i = b.flows i) ∧
      ((∀ f ∈ b.flows t, f.identicalTo fm.priority ml = false) ∧
          (flowdbFlowAdd b fm ml il).1.flows t =
            flowListAdd (b.flows t) (fm.flow b.next t ml ins).installed ∨
        ∃ front old back, b.flows t = front ++ old :: back ∧
          old.identicalTo fm.priority ml = true ∧
          (∀ f ∈ front ++ back, f.identicalTo fm.priority ml = false) ∧
          (flowdbFlowAdd b fm ml il).1.flows t =
            front ++ old.replacedBy fm (fm.flow b.next t ml ins) :: back) := by
  have hlater := h.touched t
  have hlist : ∀ i, (b.touched t).flows i = b.flows i := b.flows_touch t
  rcases flowdbFlowAdd_cases b ml il ht with
    ⟨e, hadd, -⟩ | ⟨ins', hins', -, ⟨hident, hadd⟩ | ⟨old, hident, hadd⟩⟩
  · rw [hadd] at hok
    cases hok
  · cases hins.symm.trans hins'
    rw [hadd] at hok ⊢
    obtain ⟨hothers, ht⟩ := flows_addNew hok
    refine ⟨fun i hi => (hothers i hi).trans (hlist i), .inl ⟨not_identicalTo_of_none h hident, ?_⟩⟩
    rw [ht, hlist]
  · cases hins.symm.trans hins'
    rw [hadd] at hok ⊢
    obtain ⟨hold, hsame⟩ := (hlater.tables t).identical_eq_some hident
    rw [flowList_getTable] at hold
    obtain ⟨front, back, hsplit, hapart⟩ := hlater.split hold
    obtain ⟨hothers, ht⟩ := flows_replaceIdentical hok hsplit hsame fun g hg => (hapart g hg).2
    refine ⟨fun i hi => (hothers i hi).trans (hlist i),
      .inr ⟨front, old, back, (hlist t).symm.trans hsplit, same_iff_identicalTo.1 hsame, ?_, ht⟩⟩
    intro g hg
    refine Bool.eq_false_iff.2 fun hg' => (hapart g hg).1 ?_
    have hflow : (fm.flow b.next t ml ins).head.Same g.head := same_iff_identicalTo.2 hg'
    exact ⟨hsame.1.symm.trans hflow.1, hsame.2.symm.trans hflow.2⟩

theorem filter_not_identicalTo {fs : List Flow} (h : ∀ f ∈ fs, f.identicalTo priority ml = false) :
    fs.filter (fun f => !f.identicalTo priority ml) = fs :=
  filter_eq_self.2 fun f hf => by simp [h f hf]

theorem added_middle {fs : List Flow}
    (hfs : fs.filter (fun f => !f.identicalTo fm.priority ml) = front ++ back)
    (hnew : new.identicalTo fm.priority ml = true)
    (hothers : ∀ f ∈ front ++ back, f.identicalTo fm.priority ml = false) :
    fm.Added ml ins fs (front ++ new :: back) ↔ fm.IsEntry ml ins new := by
  obtain ⟨hfront, hback⟩ := forall_mem_append.1 hothers
  have hnone : ∀ l : List Flow, (∀ f ∈ l, f.identicalTo fm.priority ml = false) →
      l.filter (Flow.identicalTo fm.priority ml) = [] := fun l hl =>
    filter_eq_nil_iff.2 fun f hf => by simp [hl f hf]
  have hone : (front ++ new :: back).filter (Flow.identicalTo fm.priority ml) = [new] := by
    rw [filter_append, filter_cons_of_pos hnew, hnone front hfront, hnone back hback, nil_append]
  have hrest : (front ++ new :: back).filter (fun f => !f.identicalTo fm.priority ml) =
      front ++ back := by
    rw [filter_append, filter_cons_of_neg (by simp [hnew]), filter_not_identicalTo hfront,
      filter_not_identicalTo hback]
  constructor
  · rintro ⟨⟨f, hf, hentry⟩, -⟩
    rw [hone, singleton_inj] at hf
    exact hf ▸ hentry
  · intro hentry
    exact ⟨⟨new, hone, hentry⟩, hrest.trans hfs.symm⟩

theorem isEntry_installed (fm : FlowMod) (addr : Nat) (t : TableId) (ml : List Match)
    (ins : Instructions) : fm.IsEntry ml ins (fm.flow addr t ml ins).installed :=
  ⟨rfl, rfl, rfl, rfl, rfl, rfl, rfl, decide_eq_true_iff⟩

theorem isEntry_replacedBy (hident : old.identicalTo fm.priority ml = true)
    (htimer : old.flowTimer = decide (old.idleTimeout ≠ 0 ∨ old.hardTimeout ≠ 0)) :
    fm.IsEntry ml ins (old.replacedBy fm (fm.flow addr t ml ins)) ↔ old.Carries fm := by
  obtain ⟨packets, bytes, hreset⟩ := resetCounts_eq old fm
  have hold : old.replacedBy fm (fm.flow addr t ml ins) =
      { old with
        head := { old.head with matchList := ml }
        packetCount := packets
        byteCount := bytes
        instruction := ins.unflagged.examine } := by
    rw [Flow.replacedBy, hreset]
    rfl
  rw [hold]
  constructor
  · intro hentry
    exact ⟨hentry.cookie, hentry.flags, hentry.idleTimeout, hentry.hardTimeout⟩
  · rintro ⟨hcookie, hflags, hidle, hhard⟩
    refine ⟨(identicalTo_iff.1 hident).1, rfl, hcookie, hflags, hidle, hhard, rfl, ?_⟩
    rw [← hidle, ← hhard]
    exact (congrArg (· = true) htimer).to_iff.trans decide_eq_true_iff

/-- **Add**: right, if there was no identical entry or all the request has beside its instructions is
in it already. -/
theorem flowdbFlowAdd_added_iff (h : b.Sound) (ht : fm.tableId = some t)
    (hins : mapInstructionListToArray il = .ok ins) (hok : (flowdbFlowAdd b fm ml il).2 = .ok ()) :
    fm.Added ml ins (b.flows t) ((flowdbFlowAdd b fm ml il).1.flows t) ↔
      ∀ f ∈ b.flows t, f.identicalTo fm.priority ml = true → f.Carries fm := by
  rcases (flowdbFlowAdd_ok h ht hins hok).2 with ⟨hnone, hflows⟩ | ⟨front, old, back, hsplit, hold,
    hothers, hflows⟩
  · rw [hflows]
    refine iff_of_true ?_ fun f hf hident => ?_
    · have hsorted := heads_sorted (h.tables t) fm.priority
      rw [b.flowList_getTable] at hsorted
      obtain ⟨front, back, hsplit, heq, -, -⟩ :=
        SortedInsert.insertWith_eq hsorted (fm.flow b.next t ml ins).installed
      have hlist : flowListAdd (b.flows t) (fm.flow b.next t ml ins).installed =
          front ++ (fm.flow b.next t ml ins).installed :: back := heq
      have hnew : (fm.flow b.next t ml ins).installed.identicalTo fm.priority ml = true :=
        identicalTo_iff.2 ⟨rfl, rfl⟩
      rw [hlist]
      refine (added_middle ?_ hnew (hsplit ▸ hnone)).2 (isEntry_installed fm b.next t ml ins)
      rw [filter_not_identicalTo hnone, hsplit]
    · rw [hnone f hf] at hident
      cases hident
  · have hin : old ∈ b.flows t := by simp [hsplit]
    rw [hflows, added_middle ?_ ?_ hothers, isEntry_replacedBy hold (h.timers t old hin)]
    · constructor
      · intro hcarries f hf hident
        rw [hsplit] at hf
        rcases mem_append.1 hf with hf | hf
        · rw [hothers f (mem_append_left _ hf)] at hident
          cases hident
        · rcases mem_cons.1 hf with rfl | hf
          · exact hcarries
          · rw [hothers f (mem_append_right _ hf)] at hident
            cases hident
      · exact fun hall => hall old hin hold
    · rw [hsplit, filter_append, filter_cons_of_neg (by simp [hold]),
        filter_not_identicalTo fun f hf => hothers f (mem_append_left _ hf),
        filter_not_identicalTo fun f hf => hothers f (mem_append_right _ hf)]
    · exact identicalTo_iff.2 ⟨(identicalTo_iff.1 hold).1, rfl⟩

/-! ## Modify -/

theorem modifies_strict (h : fm.strict = true) (ml : List Match) (f : Flow) :
    f.modifies fm ml = f.identicalTo fm.priority ml := by
  simp [Flow.modifies, Flow.identicalTo, h]

theorem modifies_loose (h : fm.strict = false) (ml : List Match) (f : Flow) :
    f.modifies fm ml = f.modifiedBy fm ml := by
  rw [Bool.eq_iff_iff, Flow.modifiedBy, Bool.and_eq_true, matchCompare]
  simp only [Flow.modifies, h, Bool.false_eq_true, if_false, decide_eq_true_iff, all_eq_true,
    contains_eq_mem, Flow.cookieAgrees]
  refine and_congr_left fun _ => ⟨.inr, ?_⟩
  rintro (hmask | hagree)
  · simp [hmask]
  · exact hagree

/-- The flow list the loops of a modify are about to leave, for the instructions of the request. -/
def FlowMod.rewrite (fm : FlowMod) (b : Bridge) (t : TableId) (ml : List Match) (ins : Instructions) :
    List Flow :=
  let flow := { fm.flow b.next t ml ins with instruction := ins.unflagged.examine }
  let b' := { b.setTable t (b.getTable t) with next := b.next + 1 }
  if fm.strict then (modifyStrict fm flow (b.flows t) b').1
  else (modifyLoop fm ml flow.instruction (b.flows t) b').1

theorem flowdbFlowModify_ok (ht : fm.tableId = some t) (hok : (flowdbFlowModify b fm ml il).2 = .ok ()) :
    (∀ i, i ≠ t → (flowdbFlowModify b fm ml il).1.flows i = b.flows i) ∧
      (∀ e, mapInstructionListToArray il = .error e →
        (flowdbFlowModify b fm ml il).1.flows t = b.flows t) ∧
      ∀ ins, mapInstructionListToArray il = .ok ins →
        (flowdbFlowModify b fm ml il).1.flows t = fm.rewrite b t ml ins := by
  unfold flowdbFlowModify at hok ⊢
  cases hpre : flowPreRequisiteCheck ml with
  | error e =>
    rw [hpre] at hok
    cases hok
  | ok u =>
    simp only [ht]
    cases hins : mapInstructionListToArray il with
    | error e =>
      rw [flowModifySub, flowPrepare_of_error hins]
      exact ⟨fun i _ => b.flows_touch t i, fun _ _ => b.flows_touch t t, fun ins h => nomatch h⟩
    | ok ins =>
      have htouch : (b.getTable t).flowList = b.flows t := b.flowList_getTable t
      have hflows : ∀ i, (b.setTable t (b.getTable t)).flows i = b.flows i := b.flows_touch t
      have hnext : (b.setTable t (b.getTable t)).next = b.next := rfl
      rw [flowModifySub, flowPrepare_of_ok hins hpre]
      simp only [getTable_setTable, htouch, FlowMod.rewrite, hnext]
      generalize b.setTable t (b.getTable t) = b' at hflows ⊢
      cases fm.strict with
      | true =>
        simp only [if_true, flows_setTable]
        refine ⟨fun i hi => ?_, (fun e h => nomatch h), fun ins' h => by cases h; rfl⟩
        rw [if_neg hi, (sameTables_modifyStrict _ _).flows]
        exact hflows i
      | false =>
        simp only [Bool.false_eq_true, if_false, if_true, flows_setTable]
        refine ⟨fun i hi => ?_, (fun e h => nomatch h), fun ins' h => by cases h; rfl⟩
        rw [if_neg hi, (sameTables_modifyLoop _ _).flows]
        exact hflows i

theorem given_inj {ins' : Instructions} : f.given fm ins = f.given fm ins' ↔ ins = ins' :=
  ⟨fun h => congrArg Flow.instruction h, fun h => h ▸ rfl⟩

theorem rewrite_none (h : ∀ f ∈ b.flows t, f.modifies fm ml = false) :
    fm.rewrite b t ml ins = b.flows t := by
  unfold FlowMod.rewrite
  cases hstrict : fm.strict with
  | true =>
    simp only [if_true]
    rw [modifyStrict_none]
    intro f hf
    rw [← h f hf, modifies_strict hstrict, ← flowCompare_eq_identicalTo b.next]
    rfl
  | false =>
    simp only [Bool.false_eq_true, if_false]
    rw [modifyLoop_none fun f hf => (modifies_loose hstrict ml f).symm.trans (h f hf)]

theorem rewrite_strict (h : b.Sound) (hstrict : fm.strict = true) (hf : f ∈ b.flows t)
    (hsel : f.modifies fm ml = true) (ins : Instructions) : ∃ front back, b.flows t = front ++ f :: back ∧
      (∀ g ∈ front ++ back, g.modifies fm ml = false) ∧
      fm.rewrite b t ml ins = front ++ f.given fm ins.unflagged :: back := by
  obtain ⟨front, back, hsplit, hapart⟩ := h.split hf
  have hident := identicalTo_iff.1 ((modifies_strict hstrict ml f).symm.trans hsel)
  have hothers : ∀ g ∈ front ++ back, g.modifies fm ml = false := by
    intro g hg
    rw [modifies_strict hstrict]
    refine Bool.eq_false_iff.2 fun hg' => (hapart g hg).1 ?_
    obtain ⟨hpriority, hml⟩ := identicalTo_iff.1 hg'
    exact ⟨hident.1.trans hpriority.symm, hident.2.trans hml.symm⟩
  have hcompare : ∀ g : Flow, flowCompare ⟨b.next, fm.priority, ml⟩ g.head = g.modifies fm ml :=
    fun g => (flowCompare_eq_identicalTo b.next fm.priority ml g).trans (modifies_strict hstrict ml g).symm
  refine ⟨front, back, hsplit, hothers, ?_⟩
  simp only [FlowMod.rewrite, hstrict, if_true, hsplit]
  rw [modifyStrict_some (fun g hg => (hcompare g).trans (hothers g (mem_append_left _ hg)))
    ((hcompare f).trans hsel), ins.unflagged_examine]

/-- **Modify**: right, if there is nothing to modify, or the request could be added and, with a strict
one, examining its instructions changes nothing. -/
theorem flowdbFlowModify_modified_iff (h : b.Sound) (ht : fm.tableId = some t)
    (hok : (flowdbFlowModify b fm ml il).2 = .ok ()) :
    fm.Modified ml b il (b.flows t) ((flowdbFlowModify b fm ml il).1.flows t) ↔
      (∀ f ∈ b.flows t, f.modifies fm ml = false) ∨
        ∃ ins, mapInstructionListToArray il = .ok ins ∧ b.Knows ins ∧
          (fm.strict = true → ins.unflagged.examine = ins.unflagged) := by
  obtain ⟨-, herror, hins⟩ := flowdbFlowModify_ok ht hok
  by_cases hnone : ∀ f ∈ b.flows t, f.modifies fm ml = false
  · refine iff_of_true ⟨.inl ⟨hnone, ?_⟩⟩ (.inl hnone)
    cases hmap : mapInstructionListToArray il with
    | error e => exact herror e hmap
    | ok ins => exact (hins ins hmap).trans (rewrite_none hnone)
  · obtain ⟨f, hf, hsel⟩ : ∃ f ∈ b.flows t, f.modifies fm ml = true := by
      simpa using hnone
    rw [or_iff_right hnone]
    have hiff : fm.Modified ml b il (b.flows t) ((flowdbFlowModify b fm ml il).1.flows t) ↔
        ∃ ins, mapInstructionListToArray il = .ok ins ∧ b.Knows ins ∧ fm.rewrite b t ml ins =
          (b.flows t).map fun f =>
            if f.modifies fm ml then f.given fm ins.unflagged.examine else f := by
      constructor
      · rintro ⟨⟨hno, -⟩ | ⟨ins, hmap, hknows, heq⟩⟩
        · exact absurd hno hnone
        · exact ⟨ins, hmap, hknows, (hins ins hmap).symm.trans heq⟩
      · rintro ⟨ins, hmap, hknows, heq⟩
        exact ⟨.inr ⟨ins, hmap, hknows, (hins ins hmap).trans heq⟩⟩
    rw [hiff]
    refine exists_congr fun ins => and_congr_right fun hmap => and_congr_right fun hknows => ?_
    cases hstrict : fm.strict with
    | true =>
      obtain ⟨front, back, hsplit, hothers, hrewrite⟩ := rewrite_strict h hstrict hf hsel ins
      have hkeep : ∀ l : List Flow, (∀ g ∈ l, g ∈ front ++ back) →
          (l.map fun f => if f.modifies fm ml then f.given fm ins.unflagged.examine else f) = l := by
        intro l hl
        refine (map_congr_left fun g hg => ?_).trans (map_id _)
        simp [hothers g (hl g hg)]
      rw [hrewrite, hsplit, map_append, map_cons, hkeep front fun g hg => mem_append_left _ hg,
        hkeep back fun g hg => mem_append_right _ hg, if_pos hsel, append_cancel_left_eq,
        List.cons.injEq, and_iff_left rfl, given_inj]
      exact ⟨fun heq _ => heq.symm, fun heq => (heq rfl).symm⟩
    | false =>
      refine iff_of_true ?_ fun h => nomatch h
      have hnames : b.SameNames { b.setTable t (b.getTable t) with next := b.next + 1 } := ⟨rfl, rfl, rfl⟩
      have hall := ((hnames.knows _).2 ((knows_examine b ins).2 hknows))
      simp only [FlowMod.rewrite, hstrict, Bool.false_eq_true, if_false]
      rw [(modifyLoop_knows hall _).1, ins.unflagged_examine]
      exact map_congr_left fun g _ => by rw [modifies_loose hstrict]

/-! ## Both -/

/-- **What successful flow mods leave.** An add is right if the identical entry, if there is one, has
the cookie, flags and timeouts of the request; a modify if there is nothing to modify, or the request
names nothing unknown and, with a strict one, there is nothing to note about its instructions. -/
theorem flowMods_replace_and_rewrite_iff {b : Bridge} (h : b.Reachable) {fm : FlowMod} {t : TableId}
    (ht : fm.tableId = some t) (ml : List Match) (il : List Instruction) :
    ((flowdbFlowAdd b fm ml il).2 = .ok () →
      (∀ i, i ≠ t → (flowdbFlowAdd b fm ml il).1.flows i = b.flows i) ∧
        ∃ ins, mapInstructionListToArray il = .ok ins ∧
          (fm.Added ml ins (b.flows t) ((flowdbFlowAdd b fm ml il).1.flows t) ↔
            ∀ f ∈ b.flows t, f.identicalTo fm.priority ml = true → f.Carries fm)) ∧
      ((flowdbFlowModify b fm ml il).2 = .ok () →
        (∀ i, i ≠ t → (flowdbFlowModify b fm ml il).1.flows i = b.flows i) ∧
          (fm.Modified ml b il (b.flows t) ((flowdbFlowModify b fm ml il).1.flows t) ↔
            (∀ f ∈ b.flows t, f.modifies fm ml = false) ∨
              ∃ ins, mapInstructionListToArray il = .ok ins ∧ b.Knows ins ∧
                (fm.strict = true → ins.unflagged.examine = ins.unflagged))) := by
  refine ⟨fun hok => ?_, fun hok => ?_⟩
  · obtain ⟨ins, hins⟩ := flowdbFlowAdd_ok_instructions ht hok
    exact ⟨(flowdbFlowAdd_ok h.sound ht hins hok).1, ins, hins, flowdbFlowAdd_added_iff h.sound ht hins hok⟩
  · exact ⟨(flowdbFlowModify_ok ht hok).1, flowdbFlowModify_modified_iff h.sound ht hok⟩

/-- An entry with a timeout, in a bridge with two ports. -/
def oneEntry : Bridge :=
  FlowdbCall.run { ports := [1, 2] }
    (.add { tableId := some 0, priority := 1, cookie := 1, idleTimeout := 10 } []
      [.applyActions [.output 1 false]])

/-- The same priority and match list, another cookie and no timeout. -/
def addAgain : FlowMod := { tableId := some 0, priority := 1, cookie := 2 }

def modifyIt : FlowMod := { tableId := some 0, priority := 1, strict := true }

def toBothPorts : List Instruction := [.applyActions [.output 1 false, .output 2 false]]

/-- The ports a packet is sent to by the apply-actions instructions of the entries. -/
def sentTo (env : Env) (p : Packet) (fs : List Flow) : List (Except Stuck (List Nat)) :=
  fs.map fun f => (executeInstructionApplyActions env (f.instruction.applyActions.getD [])
    { pkt := p }).map fun r => r.1.sent.map Prod.fst

theorem sentTo_eq (env : Env) (p : Packet) (fs : List Flow) :
    sentTo env p fs = (fs.map (·.instruction.applyActions)).map fun as =>
      (executeInstructionApplyActions env (as.getD []) { pkt := p }).map
        fun r => r.1.sent.map Prod.fst := by
  rw [map_map]
  rfl

/-- **The entry that is added again keeps its cookie and its timeout; the entry that is modified to
send to both ports sends to the first one only**, where one that is added with these instructions
sends to both. -/
theorem oneEntry_diverges :
    (flowdbFlowAdd oneEntry addAgain [] []).2 = .ok () ∧
      ((flowdbFlowAdd oneEntry addAgain [] []).1.flows 0).map (fun f => (f.cookie, f.idleTimeout)) =
        [(1, 10)] ∧
      (flowdbFlowModify oneEntry modifyIt [] toBothPorts).2 = .ok () ∧
      (∀ env p, sentTo env p ((flowdbFlowModify oneEntry modifyIt [] toBothPorts).1.flows 0) =
        [.ok [1]]) ∧
      (flowdbFlowAdd oneEntry addAgain [] toBothPorts).2 = .ok () ∧
      ∀ env p, sentTo env p ((flowdbFlowAdd oneEntry addAgain [] toBothPorts).1.flows 0) =
        [.ok [1, 2]] := by
  have hmodify : ((flowdbFlowModify oneEntry modifyIt [] toBothPorts).1.flows 0).map
      (·.instruction.applyActions) = [some [.output 1 false, .output 2 false]] := by decide
  have hadd : ((flowdbFlowAdd oneEntry addAgain [] toBothPorts).1.flows 0).map
      (·.instruction.applyActions) = [some [.output 1 true, .output 2 false]] := by decide
  refine ⟨by decide, by decide +kernel, by decide +kernel, fun env p => ?_,
    by decide, fun env p => ?_⟩
  · rw [sentTo_eq, hmodify]
    simp [executeInstructionApplyActions, executeActionList, execAction, executeActionOutput,
      Run.register, Run.send, andThen, Except.map]
  · rw [sentTo_eq, hadd]
    simp [executeInstructionApplyActions, executeActionList, execAction, executeActionOutput,
      Run.register, Run.send, andThen, Except.map]

/-- A new entry, and a non-strict modify. -/
theorem flowMods_replace_and_rewrite_iff_one :
    FlowMod.Added { addAgain with priority := 2 } [] {} (oneEntry.flows 0)
        ((flowdbFlowAdd oneEntry { addAgain with priority := 2 } [] []).1.flows 0) ∧
      FlowMod.Modified { modifyIt with strict := false } [] oneEntry toBothPorts (oneEntry.flows 0)
        ((flowdbFlowModify oneEntry { modifyIt with strict := false } [] toBothPorts).1.flows 0) := by
  have hreach : oneEntry.Reachable := ⟨{ ports := [1, 2] }, fun _ => rfl, [_], rfl⟩
  constructor
  · obtain ⟨-, ins, hins, hiff⟩ := (flowMods_replace_and_rewrite_iff hreach rfl [] []).1
      (by decide : (flowdbFlowAdd oneEntry { addAgain with priority := 2 } [] []).2 = .ok ())
    cases hins
    exact hiff.2 (by decide)
  · have hports : oneEntry.ports = [1, 2] := by decide
    refine ((flowMods_replace_and_rewrite_iff hreach rfl [] toBothPorts).2
      (by decide)).2.2 (Or.inr ⟨_, rfl, ⟨?_, fun a ha => ?_, ?_, ?_⟩, fun h => nomatch h⟩)
    · exact fun id h => nomatch h
    · have ha : a = .output 1 false ∨ a = .output 2 false := by simpa using ha
      rcases ha with rfl | rfl
      all_goals exact Or.inr (by simp [hports])
    · exact fun a ha => nomatch ha
    · exact fun t h => nomatch h

end Lagopus
