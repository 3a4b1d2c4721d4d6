import Lagopus.Flowdb.Effect

/-!
# What a delete removes

A delete addresses one table or all of them, and selects entries by what the request says; nothing
else is to go, and everything else is to stay as it is.

* `Flow.Selected` says which entries a non-strict delete is to remove, and `FlowMod.leaves` what a
  delete is to leave of a flow list.
* `flows_deleteTables_strict`: a strict delete of all tables has the match list of the request in
  the first of them only; in the others it looks for an entry without matches.
* `flowdbFlowDelete_exact_iff`: when a delete removes what it is to remove.
-/

namespace Lagopus

open List

/-! ## What a delete is to leave -/

/-- The entries a non-strict delete is to remove. -/
structure Flow.Selected (fm : FlowMod) (ml : List Match) (f : Flow) : Prop where
  cookie : f.cookie &&& fm.cookieMask = fm.cookie &&& fm.cookieMask
  outPort : fm.outPort = OFPP_ANY ∨ ∃ copied, Action.output fm.outPort copied ∈ f.actions
  outGroup : fm.outGroup = OFPG_ANY ∨ Action.group fm.outGroup ∈ f.actions
  matches_ : ∀ m ∈ ml, m ∈ f.head.matchList

variable (f : Flow) (fm : FlowMod)

theorem cookieAgrees_iff :
    f.cookieAgrees fm = true ↔ f.cookie &&& fm.cookieMask = fm.cookie &&& fm.cookieMask := by
  rw [Flow.cookieAgrees, decide_eq_true_iff, or_iff_right_iff_imp]
  intro hzero
  simp [hzero]

theorem findActionOutput_iff (port : Nat) :
    f.findActionOutput port = true ↔ ∃ copied, Action.output port copied ∈ f.actions := by
  rw [Flow.findActionOutput, any_eq_true]
  constructor
  · rintro ⟨a, ha, hport⟩
    cases a with
    | output port' copied => exact ⟨copied, of_decide_eq_true hport ▸ ha⟩
    | _ => cases hport
  · rintro ⟨copied, ha⟩
    exact ⟨_, ha, by simp⟩

theorem findActionGroup_iff (id : Nat) : f.findActionGroup id = true ↔ Action.group id ∈ f.actions := by
  rw [Flow.findActionGroup, any_eq_true]
  constructor
  · rintro ⟨a, ha, hid⟩
    cases a with
    | group id' => exact of_decide_eq_true hid ▸ ha
    | _ => cases hid
  · exact fun ha => ⟨_, ha, by simp⟩

theorem matchCompare_iff (ml₁ ml₂ : List Match) : matchCompare ml₁ ml₂ = true ↔ ∀ m ∈ ml₂, m ∈ ml₁ := by
  simp [matchCompare]

variable (ml : List Match)

theorem deletedBy_iff : f.deletedBy fm ml = true ↔ f.Selected fm ml := by
  simp only [Flow.deletedBy, Bool.and_eq_true, Bool.or_eq_true, decide_eq_true_eq,
    cookieAgrees_iff, findActionOutput_iff, findActionGroup_iff, matchCompare_iff]
  exact ⟨fun ⟨⟨⟨hc, hp⟩, hg⟩, hm⟩ => ⟨hc, hp, hg, hm⟩, fun ⟨hc, hp, hg, hm⟩ => ⟨⟨⟨hc, hp⟩, hg⟩, hm⟩⟩

instance (fm : FlowMod) (ml : List Match) (f : Flow) : Decidable (f.Selected fm ml) :=
  decidable_of_iff _ (deletedBy_iff f fm ml)

/-- The table is addressed by the request. -/
def FlowMod.Addresses (fm : FlowMod) (t : TableId) : Prop := fm.tableId = none ∨ fm.tableId = some t

instance (fm : FlowMod) (t : TableId) : Decidable (fm.Addresses t) := inferInstanceAs (Decidable (_ ∨ _))

/-- What a delete is to leave of the flow list of a table it addresses: a strict one removes the
entry identical to that of the request, if there is one. -/
def FlowMod.leaves (fm : FlowMod) (ml : List Match) (fs : List Flow) : List Flow :=
  if fm.strict then fs.eraseP (Flow.identicalTo fm.priority ml)
  else fs.filter fun f => ¬ f.Selected fm ml

theorem remaining_eq_leaves (fs : List Flow) : fm.remaining ml fs = fm.leaves ml fs := by
  unfold FlowMod.remaining FlowMod.leaves
  split_ifs
  · rfl
  · refine filter_congr fun f _ => ?_
    rw [Bool.eq_iff_iff, Bool.not_eq_true', Bool.eq_false_iff, decide_eq_true_iff, ne_eq, deletedBy_iff]

theorem remaining_nil : fm.remaining ml [] = [] := by
  unfold FlowMod.remaining
  split_ifs <;> rfl

/-! ## All tables -/

variable {fm : FlowMod} {ml : List Match} {ts : List TableId}

theorem flows_deleteTables (h : flowPreRequisiteCheck ml = .ok ())
    (hkeep : fm.strict = false ∨ ml = []) (hts : ts.Nodup) (b : Bridge) (i : TableId) :
    (deleteTables fm ts b ml).flows i =
      if i ∈ ts then fm.remaining ml (b.flows i) else b.flows i := by
  have hsame : (if fm.strict then [] else ml) = ml := by
    rcases hkeep with hnot | hnil <;> simp_all
  induction ts generalizing b with
  | nil => rfl
  | cons t ts ih =>
    obtain ⟨ht, hrest⟩ := nodup_cons.1 hts
    rw [deleteTables]
    split_ifs with hsome hmem hmem
    · simp only [snd_flowDelSub, hsame]
      rw [ih hrest, flows_flowDelSub h]
      by_cases hi : i = t
      · rw [if_neg (hi ▸ ht), if_pos hi, hi]
      · rw [if_neg hi, if_pos ((mem_cons.1 hmem).resolve_left hi)]
    · simp only [snd_flowDelSub, hsame]
      rw [ih hrest, flows_flowDelSub h, if_neg (fun hin => hmem (mem_cons_of_mem t hin)),
        if_neg (fun hi : i = t => hmem (hi ▸ mem_cons_self))]
    · rw [ih hrest]
      by_cases hi : i = t
      · -- a table that is not there has no entries
        have hnil : b.flows t = [] := by
          rw [Bridge.flows, Option.not_isSome_iff_eq_none.1 hsome]
          rfl
        rw [if_neg (hi ▸ ht), hi, hnil, remaining_nil]
      · rw [if_pos ((mem_cons.1 hmem).resolve_left hi)]
    · rw [ih hrest, if_neg fun hin => hmem (mem_cons_of_mem t hin)]

theorem flows_deleteTables_of_notMem {i : TableId} (hi : i ∉ ts)
    (b : Bridge) (ml : List Match) : (deleteTables fm ts b ml).flows i = b.flows i := by
  induction ts generalizing b ml with
  | nil => rfl
  | cons t ts ih =>
    obtain ⟨hne, hrest⟩ := not_or.1 (mem_cons.not.1 hi)
    rw [deleteTables]
    have hsub : (flowDelSub b t fm ml).1.flows i = b.flows i := by
      rw [Bridge.flows, tables_flowDelSub_of_ne hne, Bridge.flows]
    split_ifs
    · exact (ih hrest _ _).trans hsub
    · exact ih hrest b ml

/-- There is a table before `t`. -/
def Bridge.TableBefore (b : Bridge) (t : TableId) : Prop := ∃ s < t, (b.tables s).isSome = true

/-- **A strict delete of all tables** has the match list for the first table only. -/
theorem flows_deleteTables_strict (h : flowPreRequisiteCheck ml = .ok ()) (hstrict : fm.strict = true)
    (hts : ts.Pairwise (· < ·)) {b : Bridge} (hall : ∀ s, (b.tables s).isSome = true → s ∈ ts)
    (i : TableId) (hi : i ∈ ts) :
    (b.TableBefore i → (deleteTables fm ts b ml).flows i = fm.remaining [] (b.flows i)) ∧
      (¬ b.TableBefore i → (deleteTables fm ts b ml).flows i = fm.remaining ml (b.flows i)) := by
  induction ts with
  | nil => cases hi
  | cons t ts ih =>
    obtain ⟨hlt, hrest⟩ := pairwise_cons.1 hts
    have ht : t ∉ ts := fun hin => lt_irrefl t (hlt t hin)
    have hfirst : ¬ b.TableBefore t := by
      rintro ⟨s, hs, hsome⟩
      rcases mem_cons.1 (hall s hsome) with rfl | hin
      · exact lt_irrefl s hs
      · exact lt_asymm hs (hlt s hin)
    rw [deleteTables]
    split_ifs with hsome
    · -- the match list is gone for the tables behind this one
      simp only [snd_flowDelSub, hstrict, if_true]
      rcases mem_cons.1 hi with rfl | hin
      · refine ⟨fun hbefore => absurd hbefore hfirst, fun _ => ?_⟩
        rw [flows_deleteTables_of_notMem ht, flows_flowDelSub h, if_pos rfl]
      · have hne : i ≠ t := fun heq => ht (heq ▸ hin)
        refine ⟨fun _ => ?_, fun hnone => absurd ⟨t, hlt i hin, hsome⟩ hnone⟩
        rw [flows_deleteTables rfl (Or.inr rfl) (hrest.imp fun h => h.ne), if_pos hin,
          flows_flowDelSub h, if_neg hne]
    · rcases mem_cons.1 hi with rfl | hin
      · have hnil : b.flows i = [] := by
          rw [Bridge.flows, Option.not_isSome_iff_eq_none.1 hsome]
          rfl
        rw [flows_deleteTables_of_notMem ht, hnil, remaining_nil, remaining_nil]
        exact ⟨fun _ => rfl, fun _ => rfl⟩
      · refine ih hrest (fun s hs => ?_) hin
        refine (mem_cons.1 (hall s hs)).resolve_left fun heq => hsome (heq ▸ hs)

/-! ## When a delete is exact -/

/-- A strict delete of all tables whose match list is missed: in a table with another one before
it, there is an entry to remove, or one without matches in the way. -/
def FlowMod.MissesList (fm : FlowMod) (ml : List Match) (b : Bridge) : Prop :=
  fm.strict = true ∧ fm.tableId = none ∧ ml ≠ [] ∧ ∃ t, b.TableBefore t ∧
    ∃ f ∈ b.flows t, f.head.priority = fm.priority ∧ (f.head.matchList = ml ∨ f.head.matchList = [])

/-- The entry is one that the request names. -/
def FlowMod.Names (fm : FlowMod) (ml : List Match) (f : Flow) : Prop :=
  if fm.strict then f.identicalTo fm.priority ml = true else f.Selected fm ml

/-- A request that passes the check does not miss its match list, and one that is refused names no
entry of the tables it addresses. -/
structure DeleteCond (b : Bridge) (fm : FlowMod) (ml : List Match) : Prop where
  accepted : flowPreRequisiteCheck ml = .ok () → ¬ fm.MissesList ml b
  refused : flowPreRequisiteCheck ml ≠ .ok () →
    ∀ t, fm.Addresses t → ∀ f ∈ b.flows t, ¬ fm.Names ml f

variable {p q : Flow → Bool}

theorem countP_eraseP_of_disjoint (hpq : ∀ f, q f = true → p f = false)
    (l : List Flow) : (l.eraseP q).countP p = l.countP p := by
  induction l with
  | nil => rfl
  | cons f l ih =>
    cases hq : q f with
    | true => simp [hq, hpq f hq]
    | false => simp [hq, countP_cons, ih]

theorem countP_eraseP_lt {l : List Flow} (h : ∃ f ∈ l, p f = true) :
    (l.eraseP p).countP p < l.countP p := by
  obtain ⟨f, hf, hp⟩ := h
  obtain ⟨g, l₁, l₂, -, hg, rfl, herase⟩ := exists_of_eraseP hf hp
  rw [herase]
  simp [hg]

/-- Removing one kind of entry is removing another kind only where there are none of either. -/
theorem eraseP_eq_eraseP_iff (hpq : ∀ f, ¬ (p f = true ∧ q f = true))
    (l : List Flow) : l.eraseP p = l.eraseP q ↔ ∀ f ∈ l, p f = false ∧ q f = false := by
  constructor
  · intro heq f hf
    have hp : ¬ ∃ f ∈ l, p f = true := fun hex => by
      have hlt := countP_eraseP_lt hex
      rw [heq, countP_eraseP_of_disjoint fun f hq => by simpa using fun hp => hpq f ⟨hp, hq⟩] at hlt
      exact lt_irrefl _ hlt
    have hq : ¬ ∃ f ∈ l, q f = true := fun hex => by
      have hlt := countP_eraseP_lt hex
      rw [← heq, countP_eraseP_of_disjoint fun f hp => by simpa using fun hq => hpq f ⟨hp, hq⟩] at hlt
      exact lt_irrefl _ hlt
    exact ⟨by simpa using fun hpf => hp ⟨f, hf, hpf⟩, by simpa using fun hqf => hq ⟨f, hf, hqf⟩⟩
  · intro hnone
    rw [eraseP_of_forall_not fun f hf => by simp [(hnone f hf).1],
      eraseP_of_forall_not fun f hf => by simp [(hnone f hf).2]]

/-- A delete whose match list passes the check is exact unless it misses the list. -/
theorem delete_exact_iff_of_check {b : Bridge} {fm : FlowMod} {ml : List Match}
    (hcheck : flowPreRequisiteCheck ml = .ok ()) :
    (∀ t, (flowdbFlowDelete b fm ml).1.flows t =
        if fm.Addresses t then fm.leaves ml (b.flows t) else b.flows t) ↔
      ¬ fm.MissesList ml b := by
  cases htable : fm.tableId with
  | some t =>
    refine iff_of_true (fun i => ?_) fun hmiss => ?_
    · have hdelete : (flowdbFlowDelete b fm ml).1 =
          (flowDelSub (b.setTable t (b.getTable t)) t fm ml).1 := by
        simp [flowdbFlowDelete, hcheck, htable]
      rw [hdelete, flows_flowDelSub hcheck, b.flows_touch, b.flows_touch, remaining_eq_leaves]
      by_cases hi : i = t
      · simp [FlowMod.Addresses, htable, hi]
      · simp [FlowMod.Addresses, htable, hi, Ne.symm hi]
    · rw [FlowMod.MissesList, htable] at hmiss
      cases hmiss.2.1
  | none =>
    have hdelete : (flowdbFlowDelete b fm ml).1 = deleteTables fm (List.finRange 255) b ml := by
      simp [flowdbFlowDelete, hcheck, htable]
    have haddr : ∀ t, fm.Addresses t := fun t => Or.inl htable
    simp only [hdelete, haddr, if_true, ← remaining_eq_leaves]
    by_cases hkeep : fm.strict = false ∨ ml = []
    · refine iff_of_true (fun i => ?_) fun hmiss => ?_
      · rw [flows_deleteTables hcheck hkeep (List.nodup_finRange 255), if_pos (List.mem_finRange i)]
      · obtain ⟨hstrict, -, hne, -⟩ := hmiss
        rcases hkeep with hnot | hnil
        · rw [hstrict] at hnot
          cases hnot
        · exact hne hnil
    · obtain ⟨hstrict, hne⟩ := not_or.1 hkeep
      have hstrict : fm.strict = true := by simpa using hstrict
      have hone : ∀ t, (deleteTables fm (List.finRange 255) b ml).flows t =
          fm.remaining ml (b.flows t) ↔ (b.TableBefore t → ∀ f ∈ b.flows t,
            f.identicalTo fm.priority [] = false ∧ f.identicalTo fm.priority ml = false) := by
        intro t
        obtain ⟨hlater, hfirst⟩ := flows_deleteTables_strict hcheck hstrict
          (List.pairwise_lt_finRange 255) (fun s _ => List.mem_finRange s) t (List.mem_finRange t)
        by_cases hbefore : b.TableBefore t
        · rw [hlater hbefore]
          simp only [hbefore, true_imp_iff, FlowMod.remaining, hstrict, if_true]
          refine eraseP_eq_eraseP_iff (fun f hboth => ?_) _
          simp only [Flow.identicalTo, decide_eq_true_eq] at hboth
          exact hne (hboth.2.2.symm.trans hboth.1.2)
        · exact iff_of_true (hfirst hbefore) fun h => absurd h hbefore
      simp only [hone, FlowMod.MissesList, hstrict, htable, true_and, not_and, not_exists]
      refine ⟨fun hno hml t hbefore f hf hprio hlist => ?_, fun hno t hbefore f hf => ?_⟩
      · obtain ⟨h₁, h₂⟩ := hno t hbefore f hf
        rcases hlist with hlist | hlist
        · simp [Flow.identicalTo, hprio, hlist] at h₂
        · simp [Flow.identicalTo, hprio, hlist] at h₁
      · have hnot := hno hne t hbefore f hf
        simp only [Flow.identicalTo, decide_eq_false_iff_not]
        exact ⟨fun hid => hnot hid.1 (Or.inr hid.2), fun hid => hnot hid.1 (Or.inl hid.2)⟩

theorem leaves_eq_self_iff (fs : List Flow) : fm.leaves ml fs = fs ↔ ∀ f ∈ fs, ¬ fm.Names ml f := by
  unfold FlowMod.leaves FlowMod.Names
  split_ifs
  · exact eraseP_eq_self_iff
  · rw [filter_eq_self]
    exact forall₂_congr fun f _ => decide_eq_true_iff

/-- **A delete removes exactly what it selects**, in every table it addresses, and nothing
elsewhere, unless it is a strict delete of all tables that misses its match list, or one that is refused
although it names an entry. -/
theorem flowdbFlowDelete_exact_iff (b : Bridge) (fm : FlowMod) (ml : List Match) :
    (∀ t, (flowdbFlowDelete b fm ml).1.flows t =
        if fm.Addresses t then fm.leaves ml (b.flows t) else b.flows t) ↔
      DeleteCond b fm ml := by
  cases hcheck : flowPreRequisiteCheck ml with
  | ok u =>
    rw [delete_exact_iff_of_check hcheck]
    exact ⟨fun h => ⟨fun _ => h, fun hne => absurd hcheck hne⟩, fun h => h.accepted hcheck⟩
  | error e =>
    have hrefused : (flowdbFlowDelete b fm ml).1 = b := by simp [flowdbFlowDelete, hcheck]
    have hne : flowPreRequisiteCheck ml ≠ .ok () := by simp [hcheck]
    have hnone : ∀ t, (b.flows t = if fm.Addresses t then fm.leaves ml (b.flows t) else b.flows t) ↔
        (fm.Addresses t → ∀ f ∈ b.flows t, ¬ fm.Names ml f) := by
      intro t
      by_cases ht : fm.Addresses t
      · simp only [ht, if_true, true_imp_iff, ← leaves_eq_self_iff]
        exact eq_comm
      · simp [ht]
    simp only [hrefused, hnone]
    exact ⟨fun h => ⟨fun hok => absurd hok hne, fun _ => h⟩, fun h => h.refused hne⟩

/-! ## A delete that misses -/

/-- To an Ethernet type. -/
def ethTypeList : List Match := [{ field := .ethType, value := [0x08, 0x06] }]

/-- Two tables: in the second one an entry for ARP, and one for everything. -/
def twoTables : Bridge :=
  let b := (flowdbFlowAdd {} { tableId := some 0, priority := 1 } ethTypeList []).1
  let b := (flowdbFlowAdd b { tableId := some 1, priority := 1 } ethTypeList []).1
  (flowdbFlowAdd b { tableId := some 1, priority := 1 } [] []).1

/-- A strict delete of the entries for ARP. -/
def deleteArp : FlowMod := { tableId := none, strict := true, priority := 1 }

/-- **The entry that was to go stays, and the other one goes.** -/
theorem deleteArp_misses :
    (flowdbFlowDelete twoTables deleteArp ethTypeList).2 = .ok () ∧
      (twoTables.flows 1).map (·.head.matchList) = [ethTypeList, []] ∧
      ((flowdbFlowDelete twoTables deleteArp ethTypeList).1.flows 1).map (·.head.matchList) =
        [ethTypeList] ∧
      (deleteArp.leaves ethTypeList (twoTables.flows 1)).map (·.head.matchList) = [[]] := by
  decide +kernel

/-- In one table the entry goes. -/
theorem flowdbFlowDelete_exact_one :
    (flowdbFlowDelete twoTables { deleteArp with tableId := some 1 } ethTypeList).2 = .ok () ∧
      ∀ t, (flowdbFlowDelete twoTables { deleteArp with tableId := some 1 } ethTypeList).1.flows t =
        if FlowMod.Addresses { deleteArp with tableId := some 1 } t then
          FlowMod.leaves { deleteArp with tableId := some 1 } ethTypeList (twoTables.flows t)
        else twoTables.flows t := by
  have hok : (flowdbFlowDelete twoTables { deleteArp with tableId := some 1 } ethTypeList).2 =
      .ok () := rfl
  refine ⟨hok, (flowdbFlowDelete_exact_iff _ _ _).2 ⟨fun _ hmiss => ?_, fun hrefused => ?_⟩⟩
  · cases hmiss.2.1
  · exact absurd rfl hrefused

end Lagopus
