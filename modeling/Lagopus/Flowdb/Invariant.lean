import Lagopus.Flowdb.Effect
import Lagopus.Flowinfo.Contents

/-!
# The flow list and the index of a table

Four operations write to the tables of a bridge, each with loops of its own, and the flow list and
the index are written next to each other.  What they have in common is stated in `HeadsSound`,
and only the addresses, priorities and match lists of the entries matter to it.

* `HeadsSound.add`, `HeadsSound.drop`: the two things that happen to a table.
* `sound_flowdbFlowAdd`, `sound_flowdbFlowModify`, `sound_flowdbFlowDelete` and
  `sound_flowRemoveWithReason`: every operation keeps every table sound, failing or not.
* `sound_run`: so do all operations one after the other, starting with a bridge without entries.
-/

namespace Lagopus

open List Lagopus.Flow FlowTable Bridge

/-! ## Sound tables -/

/-- By priority, and by age where it is the same. Addresses grow with age. -/
def FlowHead.Before (x y : FlowHead) : Prop :=
  y.priority < x.priority ∨ y.priority = x.priority ∧ x.id < y.id

/-- The same priority and the same match list. -/
def FlowHead.Same (x y : FlowHead) : Prop := x.priority = y.priority ∧ x.matchList = y.matchList

/-- The flow list and the index of a table, the former by the heads of its entries. -/
structure HeadsSound (t : TableId) (heads : List FlowHead) (userdata : Option Index) : Prop where
  distinct : DistinctIds heads
  sorted : heads.Pairwise FlowHead.Before
  unique : heads.Pairwise fun x y => ¬ x.Same y
  indexed : ∃ L, IndexRep t userdata L ∧ L.Perm heads

namespace HeadsSound

variable {t : TableId} {heads : List FlowHead} {u : Option Index}

theorem empty (t : TableId) : HeadsSound t [] none :=
  ⟨nodup_nil, .nil, .nil, [], rfl, .refl _⟩

variable {f : FlowHead}

theorem drop (h : HeadsSound t heads u) (hf : f ∈ heads) :
    HeadsSound t (dropId f heads) (Index.delFlow u f) := by
  obtain ⟨L, hrep, hperm⟩ := h.indexed
  exact ⟨h.distinct.dropId f, h.sorted.sublist filter_sublist,
    h.unique.sublist filter_sublist, dropId f L, index_del hrep (hperm.mem_iff.2 hf),
    hperm.filter _⟩

theorem differ (h : HeadsSound t heads u) (hfind : Index.findFlow u f = none) :
    ∀ g ∈ heads, ¬ f.Same g := by
  intro g hg hsame
  obtain ⟨L, hrep, hperm⟩ := h.indexed
  have hno := (index_find hrep).2 hfind g (hperm.mem_iff.2 hg)
  rw [flowCompare_iff.2 hsame] at hno
  cases hno

/-- An entry comes, between those that are to be before it and those that are to be behind it. -/
theorem add {front back : List FlowHead} (h : HeadsSound t (front ++ back) u)
    (hnew : ∀ g ∈ front ++ back, g.id < f.id) (hfront : ∀ g ∈ front, f.priority ≤ g.priority)
    (hback : ∀ g ∈ back, g.priority < f.priority) (hfind : Index.findFlow u f = none) :
    HeadsSound t (front ++ f :: back) (Index.addFlow t u f) := by
  obtain ⟨L, hrep, hperm⟩ := h.indexed
  have hmiddle : (front ++ f :: back).Perm (f :: (front ++ back)) := perm_middle
  have hdiffer := h.differ hfind
  refine ⟨?_, ?_, ?_, f :: L, ?_, (hperm.cons f).trans hmiddle.symm⟩
  · refine (hmiddle.map FlowHead.id).nodup_iff.2 ?_
    exact h.distinct.cons fun g hg => (hnew g hg).ne
  · obtain ⟨hp₁, hp₂, hcross⟩ := pairwise_append.1 h.sorted
    refine pairwise_append.2 ⟨hp₁, pairwise_cons.2 ⟨fun g hg => ?_, hp₂⟩, ?_⟩
    · exact .inl (hback g hg)
    · intro g hg k hk
      rcases mem_cons.1 hk with rfl | hk
      · rcases (hfront g hg).lt_or_eq with hlt | heq
        · exact .inl hlt
        · exact .inr ⟨heq, hnew g (mem_append_left _ hg)⟩
      · exact hcross g hg k hk
  · obtain ⟨hp₁, hp₂, hcross⟩ := pairwise_append.1 h.unique
    refine pairwise_append.2 ⟨hp₁, pairwise_cons.2 ⟨fun g hg => ?_, hp₂⟩, ?_⟩
    · exact hdiffer g (mem_append_right _ hg)
    · intro g hg k hk
      rcases mem_cons.1 hk with rfl | hk
      · exact fun hsame => hdiffer g (mem_append_left _ hg) ⟨hsame.1.symm, hsame.2.symm⟩
      · exact hcross g hg k hk
  · exact index_add hrep fun g hg => (hnew g (hperm.mem_iff.1 hg)).ne

end HeadsSound

def FlowTable.heads (table : FlowTable) : List FlowHead := table.flowList.map head

/-- Every table is sound; entries are older than the next one, are in the table they name, and have
a timer if they have a timeout. -/
structure Bridge.Sound (b : Bridge) : Prop where
  tables : ∀ t, HeadsSound t (b.getTable t).heads (b.getTable t).userdata
  old : ∀ t, ∀ f ∈ b.flows t, f.head.id < b.next
  tableId : ∀ t, ∀ f ∈ b.flows t, f.tableId = t
  timers : ∀ t, ∀ f ∈ b.flows t, f.flowTimer = decide (f.idleTimeout ≠ 0 ∨ f.hardTimeout ≠ 0)

variable {b b' : Bridge}

theorem Bridge.Sound.setTable (h : b.Sound) (t : TableId) (table : FlowTable)
    (hsame : b'.tables = (b.setTable t table).tables) (hnext : b.next ≤ b'.next)
    (htable : HeadsSound t table.heads table.userdata)
    (hflows : ∀ f ∈ table.flowList, f.head.id < b'.next ∧ f.tableId = t ∧ f.flowTimer = decide (f.idleTimeout ≠ 0 ∨ f.hardTimeout ≠ 0))
    : b'.Sound := by
  have hget : ∀ i, b'.getTable i = if i = t then table else b.getTable i := by
    intro i
    unfold getTable
    rw [hsame]
    unfold Bridge.setTable
    simp only
    split_ifs <;> rfl
  have hlist : ∀ i, b'.flows i = if i = t then table.flowList else b.flows i := by
    intro i
    rw [← flowList_getTable, hget, ← b.flowList_getTable]
    split_ifs <;> rfl
  refine ⟨fun i => ?_, fun i f hf => ?_, fun i f hf => ?_, fun i f hf => ?_⟩
  · rw [hget]
    split_ifs with hi
    · exact hi ▸ htable
    · exact h.tables i
  all_goals
    rw [hlist] at hf
    split_ifs at hf with hi
  · exact (hflows f hf).1
  · exact (h.old i f hf).trans_le hnext
  · exact hi ▸ (hflows f hf).2.1
  · exact h.tableId i f hf
  · exact (hflows f hf).2.2
  · exact h.timers i f hf

theorem Bridge.Sound.sameTables (h : b.Sound) (hsame : b'.tables = b.tables)
    (hnext : b.next ≤ b'.next) : b'.Sound := by
  have hget : ∀ t, b'.getTable t = b.getTable t := fun t => by
    rw [getTable, hsame, getTable]
  have hflows : ∀ t, b'.flows t = b.flows t := fun t => by rw [flows, hsame, flows]
  refine ⟨fun t => ?_, fun t f hf => ?_, fun t f hf => ?_, fun t f hf => ?_⟩
  · rw [hget]
    exact h.tables t
  all_goals rw [hflows] at hf
  · exact (h.old t f hf).trans_le hnext
  · exact h.tableId t f hf
  · exact h.timers t f hf

/-! ## Add -/

section Table

variable {t : TableId} {table : FlowTable}

theorem mem_heads {f : Flow} (hf : f ∈ table.flowList) : f.head ∈ table.heads :=
  mem_map_of_mem hf

variable (h : HeadsSound t table.heads table.userdata)

include h

theorem HeadsSound.identical_eq_none {flow : Flow}
    (hnone : table.identical flow = none) : Index.findFlow table.userdata flow.head = none := by
  obtain ⟨L, hrep, hperm⟩ := h.indexed
  cases hfind : Index.findFlow table.userdata flow.head with
  | none => rfl
  | some found =>
    obtain ⟨hmem, -⟩ := (index_find hrep).1 found hfind
    obtain ⟨f, hf, rfl⟩ := mem_map.1 (hperm.mem_iff.1 hmem)
    simp only [identical, hfind, Option.bind_some, find?_eq_none] at hnone
    exact absurd (by simp) (hnone f hf)

theorem HeadsSound.identical_eq_some {flow old : Flow} (hsome : table.identical flow = some old) :
    old ∈ table.flowList ∧ flow.head.Same old.head := by
  obtain ⟨L, hrep, hperm⟩ := h.indexed
  obtain ⟨found, hfind, hold⟩ := Option.bind_eq_some_iff.1 hsome
  obtain ⟨hmem, hcompare⟩ := (index_find hrep).1 found hfind
  have hin := mem_of_find?_eq_some hold
  have hid : old.head.id = found.id := by simpa using find?_some hold
  have heq : old.head = found := h.distinct.eq_of_id_eq (mem_heads hin) (hperm.mem_iff.1 hmem) hid
  exact ⟨hin, heq ▸ flowCompare_iff.1 hcompare⟩

theorem heads_sorted (p : Nat) : table.flowList.Pairwise fun x y =>
      decide ((p : Int) ≤ y.head.priority) = true → decide ((p : Int) ≤ x.head.priority) = true := by
  have hsorted := pairwise_map.1 h.sorted
  refine hsorted.imp fun {x y} hxy => ?_
  simp only [decide_eq_true_eq]
  rcases hxy with hlt | ⟨heq, -⟩ <;> omega

theorem HeadsSound.flowListAdd (flow : Flow) (hnew : ∀ f ∈ table.flowList, f.head.id < flow.head.id)
    (hnone : table.identical flow = none) : HeadsSound t ((flowListAdd table.flowList flow).map head)
      (Index.addFlow t table.userdata flow.head) := by
  obtain ⟨front, back, hsplit, heq, hfront, hback⟩ :=
    SortedInsert.insertWith_eq (heads_sorted h flow.head.priority) flow
  have hheads : table.heads = front.map head ++ back.map head := by
    rw [heads, hsplit, map_append]
  simp only [decide_eq_true_eq, decide_eq_false_iff_not] at hfront hback
  rw [Lagopus.flowListAdd, heq, map_append, map_cons]
  refine HeadsSound.add (hheads ▸ h) ?_ ?_ ?_ (h.identical_eq_none hnone)
  · intro g hg
    rw [← hheads] at hg
    obtain ⟨f, hf, rfl⟩ := mem_map.1 hg
    exact hnew f hf
  · intro g hg
    obtain ⟨f, hf, rfl⟩ := mem_map.1 hg
    have := hfront f hf
    omega
  · intro g hg
    obtain ⟨f, hf, rfl⟩ := mem_map.1 hg
    have := hback f hf
    omega

end Table

variable {fs : List Flow} {f : Flow}

theorem mem_flowListAdd {g : Flow} : g ∈ flowListAdd fs f ↔ g = f ∨ g ∈ fs := by
  rw [flowListAdd, (SortedInsert.insertWith_perm _ _ _).mem_iff, mem_cons]

/-- The entry as `addNew` puts it into the table. -/
def Flow.installed (flow : Flow) : Flow :=
  { flow with
    instruction := flow.instruction.examine
    flowTimer := flow.idleTimeout ≠ 0 ∨ flow.hardTimeout ≠ 0 }

variable {t : TableId} {flow : Flow}

theorem addNew_ok (h : flowActionCheck b flow.head.id flow.instruction = (b', .ok ())) :
    addNew b t flow = (b'.setTable t
      { flowList := flowListAdd (b.getTable t).flowList flow.installed
        userdata := Index.addFlow t (b.getTable t).userdata flow.head }, .ok ()) := by
  have hget := (sameTables_flowActionCheck b flow.head.id flow.instruction).getTable t
  rw [h] at hget
  simp only [addNew, h, Result.next, hget]
  rfl

theorem addNew_error {e : OfpError} (h : flowActionCheck b flow.head.id flow.instruction = (b', .error e)) :
    addNew b t flow = (b', .error e) := by
  simp [addNew, h, Result.next]

theorem sound_addNew (h : b.Sound) (hnew : ∀ f ∈ b.flows t, f.head.id < flow.head.id)
    (hnext : flow.head.id < b.next) (ht : flow.tableId = t) (hnone : (b.getTable t).identical flow = none) :
    (addNew b t flow).1.Sound := by
  have hcheck := sameTables_flowActionCheck b flow.head.id flow.instruction
  generalize hr : flowActionCheck b flow.head.id flow.instruction = r at hcheck
  obtain ⟨b', result⟩ := r
  cases result with
  | error e =>
    rw [addNew_error hr]
    exact h.sameTables hcheck.tables hcheck.next.ge
  | ok u =>
    rw [addNew_ok hr]
    refine h.setTable t _ (b.setTable_congr hcheck.tables t _) hcheck.next.ge ?_ ?_
    · refine (h.tables t).flowListAdd flow.installed ?_ hnone
      rw [b.flowList_getTable]
      exact hnew
    · intro f hf
      rcases mem_flowListAdd.1 hf with rfl | hold
      · exact ⟨hcheck.next ▸ hnext, ht, rfl⟩
      · rw [b.flowList_getTable] at hold
        exact ⟨hcheck.next ▸ h.old t f hold, h.tableId t f hold, h.timers t f hold⟩

variable {old : Flow}

theorem heads_put {table : FlowTable} (h : HeadsSound t table.heads table.userdata) {new : Flow}
    (hold : old ∈ table.flowList) (hhead : new.head = old.head) : (table.put new).heads = table.heads := by
  simp only [heads, put, map_map]
  refine map_congr_left fun f hf => ?_
  simp only [Function.comp_apply]
  split_ifs with hid
  · rw [hhead] at hid ⊢
    exact (h.distinct.eq_of_id_eq (mem_heads hf) (mem_heads hold) hid).symm
  · rfl

theorem head_replacedBy {fm : FlowMod} (h : flow.head.Same old.head) :
    (old.replacedBy fm flow).head = old.head := by
  simp [replacedBy, h.2]

variable (h : b.Sound)

include h

theorem sound_replaceIdentical {fm : FlowMod} (hold : old ∈ b.flows t) (hsame : flow.head.Same old.head) :
    (replaceIdentical b t fm flow old).1.Sound := by
  cases hoverlap : checkFlag fm.flags OFPFF_CHECK_OVERLAP with
  | true =>
    rw [replaceIdentical_overlap hoverlap]
    exact h
  | false =>
    obtain ⟨htables, hnext⟩ := @tables_replaceIdentical b t fm flow old hoverlap
    have hin : old ∈ (b.getTable t).flowList := by rwa [b.flowList_getTable]
    refine h.setTable t _ htables hnext.ge ?_ fun f hf => ?_
    · rw [heads_put (h.tables t) hin (head_replacedBy hsame)]
      exact h.tables t
    · obtain ⟨g, hg, rfl⟩ := mem_map.1 hf
      rw [b.flowList_getTable] at hg
      rw [hnext]
      split_ifs
      · obtain ⟨packets, bytes, hreset⟩ := resetCounts_eq old fm
        simp only [replacedBy, hreset]
        exact ⟨h.old t old hold, h.tableId t old hold, h.timers t old hold⟩
      · exact ⟨h.old t g hg, h.tableId t g hg, h.timers t g hg⟩

theorem Bridge.Sound.touch (t : TableId) : (b.setTable t (b.getTable t)).Sound :=
  h.setTable t _ rfl le_rfl (h.tables t) fun f hf => by
    rw [b.flowList_getTable] at hf
    exact ⟨h.old t f hf, h.tableId t f hf, h.timers t f hf⟩

theorem Bridge.Sound.touched (t : TableId) : (b.touched t).Sound :=
  (h.touch t).sameTables rfl (Nat.le_succ _)

variable (fm : FlowMod) (ml : List Match)

theorem sound_flowdbFlowAdd (il : List Instruction) : (flowdbFlowAdd b fm ml il).1.Sound := by
  cases ht : fm.tableId with
  | none =>
    rw [flowdbFlowAdd, ht]
    exact h
  | some t =>
    have hlater := h.touched t
    rcases flowdbFlowAdd_cases b ml il ht with
      ⟨e, hadd, -⟩ | ⟨ins, -, -, ⟨hident, hadd⟩ | ⟨old, hident, hadd⟩⟩
    · rw [hadd]
      exact h.touch t
    · rw [hadd]
      exact sound_addNew hlater ((h.touch t).old t) (Nat.lt_succ_self _) rfl hident
    · obtain ⟨hold, hsame⟩ := (hlater.tables t).identical_eq_some hident
      rw [flowList_getTable] at hold
      rw [hadd]
      exact sound_replaceIdentical hlater hold hsame

/-! ## Modify -/

variable {gs : List Flow}

omit h in
theorem map_head_of_keeps (h : List.Forall₂ Keeps fs gs) : gs.map head = fs.map head := by
  induction h with
  | nil => rfl
  | cons hfg _ ih =>
    obtain ⟨packets, bytes, ins, rfl⟩ := hfg
    simp [ih]

omit h in
theorem exists_of_mem_keeps (h : List.Forall₂ Keeps fs gs) {g : Flow} (hg : g ∈ gs) :
    ∃ f ∈ fs, f.Keeps g := by
  induction h with
  | nil => cases hg
  | cons hfg _ ih =>
    rcases mem_cons.1 hg with rfl | hin
    · exact ⟨_, mem_cons_self, hfg⟩
    · obtain ⟨f, hf, hk⟩ := ih hin
      exact ⟨f, mem_cons_of_mem _ hf, hk⟩

theorem Bridge.Sound.rewrite (hkeeps : List.Forall₂ Keeps (b.flows t) gs)
    (htables : b'.tables = (b.setTable t { b.getTable t with flowList := gs }).tables)
    (hnext : b.next ≤ b'.next) : b'.Sound := by
  refine h.setTable t _ htables hnext ?_ fun g hg => ?_
  · have hheads : heads { b.getTable t with flowList := gs } = (b.getTable t).heads := by
      simp [heads, map_head_of_keeps hkeeps, b.flowList_getTable]
    rw [hheads]
    exact h.tables t
  · obtain ⟨f, hf, packets, bytes, ins, rfl⟩ := exists_of_mem_keeps hkeeps hg
    exact ⟨(h.old t f hf).trans_le hnext, h.tableId t f hf, h.timers t f hf⟩

theorem sound_flowModifySub (t : TableId) (fm : FlowMod) (ml : List Match)
    (il : List Instruction) : (flowModifySub b t fm ml il).1.Sound := by
  unfold flowModifySub
  cases flowPrepare b t fm ml il with
  | error e => exact h
  | ok flow =>
    cases fm.strict with
    | true =>
      have hsame := @sameTables_modifyStrict fm
        { flow with instruction := flow.instruction.examine } (b.getTable t).flowList
        { b with next := b.next + 1 }
      refine h.rewrite (b.flowList_getTable t ▸ keeps_modifyStrict _ _)
        (b.setTable_congr hsame.tables t _) ?_
      exact (Nat.le_succ _).trans hsame.next.ge
    | false =>
      have hsame := @sameTables_modifyLoop fm ml flow.instruction.examine (b.getTable t).flowList
        { b with next := b.next + 1 }
      refine h.rewrite (b.flowList_getTable t ▸ keeps_modifyLoop _ _) (b.setTable_congr hsame.tables t _) ?_
      exact (Nat.le_succ _).trans hsame.next.ge

theorem sound_flowdbFlowModify (il : List Instruction) : (flowdbFlowModify b fm ml il).1.Sound := by
  unfold flowdbFlowModify
  cases flowPreRequisiteCheck ml with
  | error e => exact h
  | ok u =>
    cases fm.tableId with
    | none => exact h
    | some t => exact sound_flowModifySub (h.touch t) t fm ml il

/-! ## Delete -/

variable {front back : List Flow}

omit h in
theorem dropId_middle (h : DistinctIds ((front ++ f :: back).map head)) :
    dropId f.head ((front ++ f :: back).map head) = (front ++ back).map head := by
  have hperm : ((front ++ f :: back).map head).Perm (f.head :: (front ++ back).map head) :=
    perm_middle.map head
  have hne : ∀ g ∈ (front ++ back).map head, g.id ≠ f.head.id := by
    have hnodup := (hperm.map FlowHead.id).nodup_iff.1 h
    intro g hg heq
    exact (nodup_cons.1 hnodup).1 (heq ▸ mem_map_of_mem hg)
  rw [map_append] at hne
  rw [map_append, map_cons, map_append, dropId, filter_append,
    filter_cons_of_neg (by simp), ← filter_append]
  exact dropId_of_forall_ne hne

omit h in
theorem HeadsSound.dropAll {heads : List FlowHead} {u : Option Index} (h : HeadsSound t heads u)
    {gone : List Flow} (hgone : ∀ f ∈ gone, f.head ∈ heads) (hdistinct : DistinctIds (gone.map head)) :
    HeadsSound t (gone.foldl (fun hs f => dropId f.head hs) heads)
      (gone.foldl (fun u f => Index.delFlow u f.head) u) := by
  induction gone generalizing heads u with
  | nil => exact h
  | cons f gone ih =>
    obtain ⟨hf, hrest⟩ := forall_mem_cons.1 hgone
    obtain ⟨hnew, hnodup⟩ := nodup_cons.1 hdistinct
    refine ih (h.drop hf) (fun g hg => mem_dropId.2 ⟨hrest g hg, fun heq => hnew ?_⟩) hnodup
    exact heq ▸ mem_map_of_mem (mem_map_of_mem hg)

omit h in
theorem foldl_dropId (gone : List Flow) (heads : List FlowHead) :
    gone.foldl (fun hs f => dropId f.head hs) heads =
      heads.filter fun g => gone.all fun f => g.id ≠ f.head.id := by
  induction gone generalizing heads with
  | nil => simp
  | cons f gone ih =>
    rw [foldl_cons, ih, dropId, filter_filter]
    refine filter_congr fun g _ => ?_
    rw [List.all_cons, Bool.and_comm]

omit h in
theorem foldl_dropId_filter (h : DistinctIds (fs.map head)) (p : Flow → Bool) :
    (fs.filter p).foldl (fun hs f => dropId f.head hs) (fs.map head) =
      (fs.filter fun f => !p f).map head := by
  rw [foldl_dropId, filter_map]
  congr 1
  refine filter_congr fun f hf => ?_
  rw [Function.comp_apply, Bool.eq_iff_iff, all_eq_true, Bool.not_eq_true']
  constructor
  · intro hall
    by_contra hp
    have hself := hall f (mem_filter.2 ⟨hf, by simpa using hp⟩)
    simp at hself
  · intro hp g hg
    obtain ⟨hgin, hpg⟩ := mem_filter.1 hg
    refine decide_eq_true fun heq => ?_
    have hnodup : (fs.map (FlowHead.id ∘ head)).Nodup := by
      rw [← map_map]
      exact h
    have hsame := inj_on_of_nodup_map hnodup hf hgin heq
    rw [hsame, hpg] at hp
    cases hp

omit h in
theorem getTable_unlink (b : Bridge) (t : TableId) (f sent : Flow) (reason : RemovedReason) :
    (b.unlink t f sent reason).getTable t =
      { b.getTable t with userdata := Index.delFlow (b.getTable t).userdata f.head } := by
  rw [getTable, tables_unlink, if_pos rfl, Option.getD_some]

omit h in
theorem userdata_unlinkAll (t : TableId) (gone : List Flow) (b : Bridge) :
    ((unlinkAll t gone b).getTable t).userdata =
      gone.foldl (fun u f => Index.delFlow u f.head) (b.getTable t).userdata := by
  induction gone generalizing b with
  | nil => rfl
  | cons f gone ih =>
    refine (ih _).trans ?_
    rw [getTable_unlink, foldl_cons]

omit h in
theorem next_unlinkAll (t : TableId) (gone : List Flow) (b : Bridge) :
    (unlinkAll t gone b).next = b.next := by
  induction gone generalizing b with
  | nil => rfl
  | cons f gone ih => exact (ih _).trans (next_unlink b t f f .delete)

theorem Bridge.Sound.remove (t : TableId) (table : FlowTable)
    (hleft : table.flowList.Sublist (b.flows t)) (hsound : HeadsSound t table.heads table.userdata)
    (hothers : ∀ i ≠ t, b'.tables i = b.tables i) (hnext : b'.next = b.next) :
    (b'.setTable t table).Sound := by
  refine h.setTable t table (funext fun i => ?_) hnext.ge hsound fun f hf => ?_
  · unfold Bridge.setTable
    simp only
    split_ifs with hi
    · rfl
    · exact hothers i hi
  · have hin := hleft.subset hf
    exact ⟨(h.old t f hin).trans_eq hnext.symm, h.tableId t f hin, h.timers t f hin⟩

theorem sound_unlink (hflows : b.flows t = front ++ f :: back) (sent : Flow) (reason : RemovedReason) :
    ((b.unlink t f sent reason).setTable t
      { (b.unlink t f sent reason).getTable t with flowList := front ++ back }).Sound := by
  have hheads : (b.getTable t).heads = (front ++ f :: back).map head := by
    rw [heads, b.flowList_getTable, hflows]
  have htable := h.tables t
  refine h.remove t _ ?_ ?_ (fun i hi => ?_) (next_unlink b t f sent reason)
  · rw [hflows]
    exact (List.Sublist.refl front).append (sublist_cons_self f back)
  · rw [heads, ← dropId_middle (hheads ▸ htable.distinct), ← hheads, getTable_unlink]
    exact htable.drop (by simp [hheads])
  · rw [tables_unlink, if_neg hi]

theorem sound_flowDelSub (t : TableId) (fm : FlowMod) (ml : List Match) :
    (flowDelSub b t fm ml).1.Sound := by
  unfold flowDelSub
  cases fm.strict with
  | true =>
    cases flowPreRequisiteCheck ml with
    | error e => exact h
    | ok u =>
      simp only [if_true]
      obtain ⟨hlist, hfound⟩ := deleteStrict_eq t
        { head := ⟨b.next, fm.priority, ml⟩, flags := fm.flags, cookie := fm.cookie,
          idleTimeout := fm.idleTimeout, hardTimeout := fm.hardTimeout } (b.getTable t).flowList b
      rw [hlist]
      rcases hfound with ⟨hnone, hb⟩ | ⟨f, hsome, hb⟩
      · rw [hb, eraseP_of_forall_not fun f hf => find?_eq_none.1 hnone f hf]
        exact h.touch t
      · obtain ⟨hp, front, back, heq, hfront⟩ := find?_eq_some_iff_append.1 hsome
        have herase : (b.getTable t).flowList.eraseP
            (fun f => flowCompare ⟨b.next, fm.priority, ml⟩ f.head) = front ++ back := by
          rw [heq, eraseP_append_right _ (fun g hg => by simpa using hfront g hg)]
          simp [hp]
        rw [hb, herase]
        exact sound_unlink h (b.flowList_getTable t ▸ heq) _ .delete
  | false =>
    have hcompact := compaction_deleteLoop t fm ml (b.flows t) b
    rw [deleteLoop_eq] at hcompact
    simp only [Bool.false_eq_true, if_false, deleteLoop_eq, b.flowList_getTable, hcompact]
    have htable := h.tables t
    have hheads : (b.getTable t).heads = (b.flows t).map head := by
      rw [heads, b.flowList_getTable]
    refine h.remove t _ filter_sublist ?_ (fun i hi => tables_unlinkAll_of_ne hi _ b) (next_unlinkAll t _ b)
    rw [heads, ← foldl_dropId_filter (hheads ▸ htable.distinct), userdata_unlinkAll, ← hheads]
    refine htable.dropAll (fun f hf => ?_) ?_
    · exact hheads ▸ mem_map_of_mem (mem_filter.1 hf).1
    · exact (hheads ▸ htable.distinct : DistinctIds ((b.flows t).map head)).sublist
        ((filter_sublist.map head).map FlowHead.id)

theorem sound_deleteTables (ts : List TableId) (ml : List Match) : (deleteTables fm ts b ml).Sound := by
  induction ts generalizing b ml with
  | nil => exact h
  | cons t ts ih =>
    rw [deleteTables]
    split_ifs
    · exact ih (sound_flowDelSub h t fm ml) _
    · exact ih h ml

theorem sound_flowdbFlowDelete : (flowdbFlowDelete b fm ml).1.Sound := by
  unfold flowdbFlowDelete
  cases flowPreRequisiteCheck ml with
  | error e => exact h
  | ok u =>
    cases fm.tableId with
    | none => exact sound_deleteTables h fm _ ml
    | some t => exact sound_flowDelSub (h.touch t) t fm ml

theorem sound_flowRemoveWithReason (t : TableId) (addr : Nat) (reason : RemovedReason)
    : (flowRemoveWithReason b t addr reason).Sound := by
  unfold flowRemoveWithReason
  simp only
  cases hfind : (b.getTable t).flowList.find? fun f => f.head.id = addr with
  | none => exact h.touch t
  | some f =>
    obtain ⟨hp, front, back, heq, hfront⟩ := find?_eq_some_iff_append.1 hfind
    have herase : (b.getTable t).flowList.eraseP (fun f => f.head.id = addr) = front ++ back := by
      rw [heq, eraseP_append_right _ (fun g hg => by simpa using hfront g hg)]
      simp [hp]
    rw [herase]
    refine sound_unlink (h.touch t) ?_ f reason
    rw [b.flows_touch, ← b.flowList_getTable, heq]

omit h

/-! ## All of them -/

/-- The calls that write to the tables, and the others, which write to groups, meters and ports. -/
inductive FlowdbCall
  | add (fm : FlowMod) (ml : List Match) (il : List Instruction)
  | modify (fm : FlowMod) (ml : List Match) (il : List Instruction)
  | delete (fm : FlowMod) (ml : List Match)
  | remove (t : TableId) (addr : Nat) (reason : RemovedReason)
  | other (groups : GroupTable) (meters : List Meter) (ports : List Nat)

def FlowdbCall.run (b : Bridge) : FlowdbCall → Bridge
  | .add fm ml il => (flowdbFlowAdd b fm ml il).1
  | .modify fm ml il => (flowdbFlowModify b fm ml il).1
  | .delete fm ml => (flowdbFlowDelete b fm ml).1
  | .remove t addr reason => flowRemoveWithReason b t addr reason
  | .other groups meters ports => { b with groups := groups, meters := meters, ports := ports }

theorem sound_empty (h : ∀ t, b.getTable t = {}) : b.Sound := by
  have hflows : ∀ t, b.flows t = [] := fun t => by rw [← b.flowList_getTable, h]
  refine ⟨fun t => ?_, fun t f hf => ?_, fun t f hf => ?_, fun t f hf => ?_⟩
  · rw [h]
    exact .empty t
  all_goals
    rw [hflows] at hf
    cases hf

theorem sound_call (h : b.Sound) (call : FlowdbCall) : (call.run b).Sound := by
  cases call with
  | add fm ml il => exact sound_flowdbFlowAdd h fm ml il
  | modify fm ml il => exact sound_flowdbFlowModify h fm ml il
  | delete fm ml => exact sound_flowdbFlowDelete h fm ml
  | remove t addr reason => exact sound_flowRemoveWithReason h t addr reason
  | other groups meters ports => exact h.sameTables rfl le_rfl

/-- **Any calls, in any order**, successful or not. -/
theorem sound_run (calls : List FlowdbCall) (h : b.Sound) : (calls.foldl FlowdbCall.run b).Sound := by
  induction calls generalizing b with
  | nil => exact h
  | cons call calls ih => exact ih (sound_call h call)

/-- A bridge whose flow entries all come from calls of the flow database. -/
def Bridge.Reachable (b : Bridge) : Prop :=
  ∃ b₀ : Bridge, (∀ t, b₀.getTable t = {}) ∧ ∃ calls : List FlowdbCall,
    b = calls.foldl FlowdbCall.run b₀

theorem Bridge.Reachable.sound (h : b.Reachable) : b.Sound := by
  obtain ⟨b₀, hempty, calls, rfl⟩ := h
  exact sound_run calls (sound_empty hempty)

/-- **The flow list and the index of every table agree**, whatever is done to the tables of a
bridge: no entry is there twice, the list is in order, and the index holds the same entries. -/
theorem flowTables_sound (b : Bridge) (h : ∀ t, b.getTable t = {}) (calls : List FlowdbCall)
    (t : TableId) :
    HeadsSound t ((calls.foldl FlowdbCall.run b).getTable t).heads
      ((calls.foldl FlowdbCall.run b).getTable t).userdata :=
  (sound_run calls (sound_empty h)).tables t

/-- Two entries of one priority, the older one first, and one of a higher priority. -/
theorem flowTables_sound_threeEntries :
    let calls : List FlowdbCall :=
      [.add { tableId := some 0, priority := 1 } [] [],
        .add { tableId := some 0, priority := 1 } [{ field := .ethType, value := [0x08, 0x06] }] [],
        .add { tableId := some 0, priority := 2 } [] []]
    let table := (calls.foldl FlowdbCall.run {}).getTable 0
    table.heads.map (fun f => (f.priority, f.id)) = [(2, 2), (1, 0), (1, 1)] ∧
      HeadsSound 0 table.heads table.userdata :=
  ⟨by decide, flowTables_sound {} (fun _ => rfl) _ 0⟩

end Lagopus
