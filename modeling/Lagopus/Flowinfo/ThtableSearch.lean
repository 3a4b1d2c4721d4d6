import Lagopus.Flowinfo.ThtableFields

/-!
# Searching the tuple-space table

What `thtable_update` builds depends on the order of the flow list: the first flow with a
combination of fields and masks decides the order in which the table of that combination chains its
values, and the ninth combination of a priority gets no table.

* `tableLists`, `tableOf`: the tables of a priority, and the table of a flow;
* `combinations`, `Seated`: the combinations of a priority, of which the first eight have a table;
* `tables_eq`, `htRep_update`: the tables of the code, as functions of the flow list;
* `ThHit`, `firstHit`: what a lookup can find, and what it finds first;
* `ThDescribed`: the flow lists whose fields `match_idx[]` describes, each combination in one order;
* `thtableMatch_linear_iff`: when a lookup in such a list is the linear search.
-/

namespace Lagopus

open List

/-! ## The table of a flow -/

/-- The match lists of the tables of one priority, when one more list comes. -/
def addRep (reps : List (List Match)) (ml : List Match) : List (List Match) :=
  if reps.any (fun t => tableMatches t ml) = true ∨ 8 ≤ reps.length then reps else reps ++ [ml]

/-- The match lists of the tables the flows of one priority get. -/
def tableLists (fs : List FlowHead) : List (List Match) :=
  fs.foldl (fun reps f => addRep reps f.matchList) []

/-- The table a flow is filed in; `none` when it is left out. -/
def tableOf (fs : List FlowHead) (f : FlowHead) : Option (List Match) :=
  (tableLists fs).find? fun t => tableMatches t f.matchList

theorem tableMatches_self (ml : List Match) : tableMatches ml ml = true := by
  simp only [tableMatches, BEq.rfl, Bool.and_true, all_eq_true, any_eq_true]
  exact fun m hm => ⟨m, hm, by simp [sameFieldMask]⟩

theorem tableLists_snoc (fs : List FlowHead) (f : FlowHead) :
    tableLists (fs ++ [f]) = addRep (tableLists fs) f.matchList := by
  simp [tableLists]

variable {fs : List FlowHead} {f : FlowHead}

theorem tableOf_eq_none :
    tableOf fs f = none ↔ ¬ (tableLists fs).any (fun t => tableMatches t f.matchList) = true := by
  simp [tableOf]

variable {t : List Match}

theorem mem_of_tableOf (h : tableOf fs f = some t) :
    t ∈ tableLists fs ∧ tableMatches t f.matchList = true :=
  ⟨mem_of_find?_eq_some h, by simpa using find?_some h⟩

theorem tableLists_snoc_cases (fs : List FlowHead) (g : FlowHead) : tableLists (fs ++ [g]) = tableLists fs ∨
      tableOf fs g = none ∧ (tableLists fs).length < 8 ∧
        tableLists (fs ++ [g]) = tableLists fs ++ [g.matchList] := by
  rw [tableLists_snoc, addRep, tableOf_eq_none]
  split_ifs with h
  · exact .inl rfl
  · push Not at h
    exact .inr ⟨h.1, h.2, rfl⟩

theorem tableOf_of_mem (hf : f ∈ fs) : (tableOf fs f).isSome = true ∨ 8 ≤ (tableLists fs).length := by
  induction fs using List.reverseRecOn with
  | nil => cases hf
  | append_singleton fs g ih =>
    rcases mem_append.mp hf with hf | hf
    · rcases tableLists_snoc_cases fs g with h | ⟨-, hlt, h⟩
      · unfold tableOf
        rw [h]
        exact ih hf
      · have hsome : (tableOf fs f).isSome = true := (ih hf).resolve_right (by omega)
        left
        unfold tableOf at hsome ⊢
        simp [h, find?_append, hsome]
    · rw [mem_singleton.mp hf]
      simp only [tableOf, tableLists_snoc, addRep]
      split_ifs with h
      · rcases h with h | h
        · exact .inl (by simpa using h)
        · exact .inr h
      · exact .inl (by simp [find?_append, tableMatches_self])

theorem tableOf_snoc (hf : f ∈ fs) (g : FlowHead) : tableOf (fs ++ [g]) f = tableOf fs f := by
  rcases tableLists_snoc_cases fs g with h | ⟨-, hlt, h⟩
  · unfold tableOf
    rw [h]
  · have hsome : (tableOf fs f).isSome = true := (tableOf_of_mem hf).resolve_right (by omega)
    obtain ⟨t, ht⟩ := Option.isSome_iff_exists.mp hsome
    unfold tableOf at ht ⊢
    simp [h, find?_append, ht]

theorem tableLists_nodup (fs : List FlowHead) : (tableLists fs).Nodup := by
  induction fs using List.reverseRecOn with
  | nil => exact nodup_nil
  | append_singleton fs g ih =>
    rcases tableLists_snoc_cases fs g with h | ⟨hnone, -, h⟩
    · rwa [h]
    · rw [h]
      refine ih.append (nodup_singleton _) ?_
      rw [disjoint_singleton]
      intro hmem
      refine tableOf_eq_none.mp hnone (any_eq_true.mpr ⟨_, hmem, tableMatches_self _⟩)

theorem exists_of_mem_tableLists (h : t ∈ tableLists fs) : ∃ f ∈ fs, f.matchList = t := by
  induction fs using List.reverseRecOn with
  | nil => cases h
  | append_singleton fs g ih =>
    have hold : t ∈ tableLists fs → ∃ f ∈ fs ++ [g], f.matchList = t := fun h =>
      (ih h).imp fun f hf => ⟨mem_append_left _ hf.1, hf.2⟩
    rcases tableLists_snoc_cases fs g with hs | ⟨-, -, hs⟩ <;> rw [hs] at h
    · exact hold h
    · rcases mem_append.mp h with h | h
      · exact hold h
      · exact ⟨g, by simp, (mem_singleton.mp h).symm⟩

/-! ## Combinations of fields and masks -/

/-- The match lists of the flows that are the first with their combination of fields and masks. -/
def combinations (fs : List FlowHead) : List (List Match) :=
  fs.foldl (fun reps f =>
    if reps.any fun t => tableMatches t f.matchList then reps else reps ++ [f.matchList]) []

/-- The flow's combination is one of the first eight of its priority. -/
def Seated (flows : List FlowHead) (f : FlowHead) : Prop :=
  ∃ t ∈ (combinations (flows.filter fun g => g.priority = f.priority)).take 8,
    tableMatches t f.matchList = true

instance (flows : List FlowHead) (f : FlowHead) : Decidable (Seated flows f) :=
  inferInstanceAs (Decidable (∃ t ∈ _, _))

theorem tableLists_eq_take (fs : List FlowHead) : tableLists fs = (combinations fs).take 8 := by
  induction fs using List.reverseRecOn with
  | nil => rfl
  | append_singleton fs f ih =>
    have hsnoc : combinations (fs ++ [f]) =
        if (combinations fs).any fun t => tableMatches t f.matchList then combinations fs
        else combinations fs ++ [f.matchList] := by simp [combinations]
    rw [tableLists_snoc, addRep, hsnoc, ih]
    by_cases hlen : 8 ≤ (combinations fs).length
    · -- no further combination gets a table
      rw [if_pos (.inr (by simpa using hlen))]
      split_ifs
      · rfl
      · rw [take_append_of_le_length hlen]
    · rw [take_of_length_le (by omega)]
      split_ifs with hany hnew hnew
      · rw [take_of_length_le (by omega)]
      · exact absurd hany (by simp [hnew, hlen])
      · exact absurd (.inl hnew) hany
      · rw [take_of_length_le (by simp; omega)]

/-! ## The tables of the code -/

section

variable {H : Type} [DecidableEq H] (calcHash : List Byte → H → H) (zero : H)

/-- The table with match list `t`, for the flows of one priority. -/
def tableFor (fs : List FlowHead) (t : List Match) : Htable H where
  matchList := t
  maskList := t.map fun m => (m.field, thMask m)
  hashmap := fun k => fs.find? fun f =>
    decide (tableOf fs f = some t ∧ flowHash calcHash zero f.matchList = k)

theorem tableFor_snoc (fs : List FlowHead) (f : FlowHead) (t : List Match) :
    tableFor calcHash zero (fs ++ [f]) t =
      if tableOf (fs ++ [f]) f = some t then htableAdd calcHash zero f (tableFor calcHash zero fs t)
      else tableFor calcHash zero fs t := by
  have hfind : ∀ k, (fs.find? fun g =>
      decide (tableOf (fs ++ [f]) g = some t ∧ flowHash calcHash zero g.matchList = k)) =
        (tableFor calcHash zero fs t).hashmap k := by
    intro k
    refine find?_congr fun g hg => ?_
    rw [tableOf_snoc hg]
  have hmap : ∀ k, (tableFor calcHash zero (fs ++ [f]) t).hashmap k =
      ((tableFor calcHash zero fs t).hashmap k).or
        (if tableOf (fs ++ [f]) f = some t ∧ flowHash calcHash zero f.matchList = k then some f
          else none) := by
    intro k
    rw [← hfind k]
    simp [tableFor, find?_append, find?_singleton]
  split_ifs with h
  · rw [htableAdd, Htable.mk.injEq]
    refine ⟨rfl, rfl, funext fun k => ?_⟩
    rw [hmap k, hashmapAdd]
    by_cases hk : flowHash calcHash zero f.matchList = k
    · simp [h, hk]
    · simp [hk, Ne.symm hk]
  · rw [tableFor, tableFor, Htable.mk.injEq]
    refine ⟨rfl, rfl, funext fun k => ?_⟩
    have := hmap k
    simpa [tableFor, h] using this

theorem tableFor_of_notMem (h : t ∉ tableLists fs) : tableFor calcHash zero fs t = htableNew t := by
  rw [tableFor, htableNew, Htable.mk.injEq]
  refine ⟨rfl, rfl, funext fun k => find?_eq_none.mpr fun f _ hf => ?_⟩
  exact h (mem_of_tableOf (of_decide_eq_true hf).1).1

theorem addToTables_map {T : List Match → Htable H} (hT : ∀ t, (T t).matchList = t) (n : Nat)
    {reps : List (List Match)} (hnd : reps.Nodup) : addToTables calcHash zero f n (reps.map T) =
      match reps.find? fun t => tableMatches t f.matchList with
      | some r => reps.map fun t => if r = t then htableAdd calcHash zero f (T t) else T t
      | none =>
        if n + reps.length < 8 then
          reps.map T ++ [htableAdd calcHash zero f (htableNew f.matchList)]
        else reps.map T := by
  induction reps generalizing n with
  | nil => simp [addToTables]
  | cons r rs ih =>
    obtain ⟨hr, hrs⟩ := nodup_cons.mp hnd
    rw [map_cons, addToTables, hT, find?_cons]
    cases hm : tableMatches r f.matchList with
    | true =>
      simp only [if_true, map_cons, List.cons.injEq, true_and]
      refine map_congr_left fun t ht => ?_
      rw [if_neg fun h : r = t => hr (h ▸ ht)]
    | false =>
      rw [if_neg (by simp), ih (n + 1) hrs]
      cases hfind : rs.find? fun t => tableMatches t f.matchList with
      | some r' =>
        have hne : r' ≠ r := fun h => hr (h ▸ mem_of_find?_eq_some hfind)
        simp [hne]
      | none =>
        simp only [length_cons]
        rw [show n + 1 + rs.length = n + (rs.length + 1) by omega]
        split_ifs <;> rfl

/-- **The tables of one priority**, after its flows were added in turn. -/
theorem tables_eq (fs : List FlowHead) : fs.foldl (fun ts f => addToTables calcHash zero f 0 ts) [] =
      (tableLists fs).map (tableFor calcHash zero fs) := by
  induction fs using List.reverseRecOn with
  | nil => rfl
  | append_singleton fs f ih =>
    rw [foldl_append, ih, foldl_cons, foldl_nil,
      addToTables_map calcHash zero (fun _ => rfl) 0 (tableLists_nodup fs)]
    change (match tableOf fs f with | some r => _ | none => _) = _
    rcases tableLists_snoc_cases fs f with hs | ⟨hnone, hlt, hs⟩
    · -- no table is added
      have hsame : tableOf (fs ++ [f]) f = tableOf fs f := by
        unfold tableOf
        rw [hs]
      rw [hs]
      simp only [funext (tableFor_snoc calcHash zero fs f), hsame]
      cases hof : tableOf fs f with
      | some r => simp
      | none =>
        have hfull : (tableOf (fs ++ [f]) f).isSome = true ∨ 8 ≤ (tableLists (fs ++ [f])).length :=
          tableOf_of_mem (by simp)
        rw [hsame, hof, hs] at hfull
        simpa using hfull
    · have hnew : tableOf (fs ++ [f]) f = some f.matchList := by
        unfold tableOf at hnone ⊢
        simp [hs, find?_append, hnone, tableMatches_self]
      have hnotin : f.matchList ∉ tableLists fs := fun h =>
        tableOf_eq_none.mp hnone (any_eq_true.mpr ⟨_, h, tableMatches_self _⟩)
      rw [hs, hnone]
      simp only [Nat.zero_add, if_pos hlt, map_append, map_cons, map_nil,
        funext (tableFor_snoc calcHash zero fs f), hnew, Option.some.injEq, if_true,
        tableFor_of_notMem calcHash zero hnotin]
      congr 1
      refine map_congr_left fun t ht => ?_
      rw [if_neg fun h : f.matchList = t => hnotin (h ▸ ht)]

/-! ## The lists by priority -/

/-- The flows of one priority. -/
def atPriority (flows : List FlowHead) (q : Nat) : List FlowHead :=
  flows.filter fun f => f.priority = q

variable {flows : List FlowHead} {q : Nat}

theorem mem_atPriority : f ∈ atPriority flows q ↔ f ∈ flows ∧ f.priority = q := by
  simp [atPriority]

/-- What the array of `thtable_update` holds, whatever its order. -/
structure HtRep (flows : List FlowHead) (ls : List (Htlist H)) : Prop where
  nodup : (ls.map (·.priority)).Nodup
  covers : ∀ f ∈ flows, f.priority ∈ ls.map (·.priority)
  tables : ∀ l ∈ ls, l.tables = (tableLists (atPriority flows l.priority)).map
    (tableFor calcHash zero (atPriority flows l.priority))

theorem priorities_thtableAddFlow (f : FlowHead) (ls : List (Htlist H)) :
    (thtableAddFlow calcHash zero f ls).map (·.priority) =
      if f.priority ∈ ls.map (·.priority) then ls.map (·.priority)
      else ls.map (·.priority) ++ [f.priority] := by
  induction ls with
  | nil => simp [thtableAddFlow]
  | cons l ls ih =>
    rw [thtableAddFlow]
    by_cases h : l.priority = f.priority
    · simp [h]
    · rw [if_neg h, map_cons, ih, map_cons]
      simp only [mem_cons, Ne.symm h, false_or]
      split_ifs <;> rfl

variable {ls : List (Htlist H)}

/-- The list of another priority is as it was; the one of the flow's priority got the flow. -/
theorem mem_thtableAddFlow (hnd : (ls.map (·.priority)).Nodup) {l : Htlist H}
    (hl : l ∈ thtableAddFlow calcHash zero f ls) : l ∈ ls ∧ l.priority ≠ f.priority ∨
      l.priority = f.priority ∧ ∃ ts, l.tables = addToTables calcHash zero f 0 ts ∧
        (⟨f.priority, ts⟩ ∈ ls ∨ f.priority ∉ ls.map (·.priority) ∧ ts = []) := by
  induction ls with
  | nil =>
    rw [thtableAddFlow, mem_singleton] at hl
    subst hl
    exact .inr ⟨rfl, [], rfl, .inr ⟨by simp, rfl⟩⟩
  | cons k ls ih =>
    obtain ⟨hk, hls⟩ := nodup_cons.mp hnd
    rw [thtableAddFlow] at hl
    split_ifs at hl with hkf
    · rcases mem_cons.mp hl with rfl | hl
      · exact .inr ⟨hkf, k.tables, rfl, .inl (mem_cons.mpr (.inl (by rw [← hkf])))⟩
      · exact .inl ⟨mem_cons_of_mem _ hl, fun h =>
          hk (mem_map.mpr ⟨l, hl, h.trans hkf.symm⟩)⟩
    · rcases mem_cons.mp hl with rfl | hl
      · exact .inl ⟨mem_cons_self, hkf⟩
      · rcases ih hls hl with ⟨hmem, hne⟩ | ⟨hp, ts, hts, h⟩
        · exact .inl ⟨mem_cons_of_mem _ hmem, hne⟩
        · refine .inr ⟨hp, ts, hts, h.imp (mem_cons_of_mem _) fun h => ⟨?_, h.2⟩⟩
          simpa [Ne.symm hkf] using h.1

theorem atPriority_snoc (flows : List FlowHead) (f : FlowHead) (q : Nat) : atPriority (flows ++ [f]) q =
      if f.priority = q then atPriority flows q ++ [f] else atPriority flows q := by
  by_cases h : f.priority = q <;> simp [atPriority, h]

theorem htRep_add (h : HtRep calcHash zero flows ls) (f : FlowHead) :
    HtRep calcHash zero (flows ++ [f]) (thtableAddFlow calcHash zero f ls) := by
  have hprios := priorities_thtableAddFlow calcHash zero f ls
  refine ⟨?_, fun g hg => ?_, fun l hl => ?_⟩
  · rw [hprios]
    split_ifs with hf
    · exact h.nodup
    · exact h.nodup.append (nodup_singleton _) (disjoint_singleton.mpr hf)
  · rw [hprios]
    rcases mem_append.mp hg with hg | hg
    · have := h.covers g hg
      split_ifs <;> simp [this]
    · rw [mem_singleton.mp hg]
      split_ifs with hf
      · exact hf
      · simp
  · rw [atPriority_snoc]
    rcases mem_thtableAddFlow calcHash zero h.nodup hl with ⟨hmem, hne⟩ | ⟨hp, ts, hts, hold⟩
    · rw [if_neg (Ne.symm hne)]
      exact h.tables l hmem
    · -- the tables the flow was added to are those of the flows before
      have hbefore : ts = (atPriority flows f.priority).foldl
          (fun ts f => addToTables calcHash zero f 0 ts) [] := by
        rcases hold with hmem | ⟨hnone, rfl⟩
        · rw [tables_eq]
          exact h.tables _ hmem
        · have hempty : atPriority flows f.priority = [] := by
            refine eq_nil_iff_forall_not_mem.mpr fun g hg => hnone ?_
            obtain ⟨hg, hgp⟩ := mem_atPriority.mp hg
            exact hgp ▸ h.covers g hg
          rw [hempty]
          rfl
      rw [if_pos hp.symm, hts, hbefore, hp, ← tables_eq, foldl_append]
      rfl

/-- **What `thtable_update` builds.** -/
theorem htRep_update (flows : List FlowHead) :
    HtRep calcHash zero flows (thtableUpdate calcHash zero flows) := by
  have hfold : HtRep calcHash zero flows
      (flows.foldl (fun t f => thtableAddFlow calcHash zero f t) []) := by
    induction flows using List.reverseRecOn with
    | nil => exact ⟨nodup_nil, by simp, by simp⟩
    | append_singleton flows f ih =>
      rw [foldl_append]
      exact htRep_add calcHash zero ih f
  have hperm := perm_insertionSort (fun a b : Htlist H => b.priority ≤ a.priority)
    (flows.foldl (fun t f => thtableAddFlow calcHash zero f t) [])
  refine ⟨(hperm.map _).nodup_iff.mpr hfold.nodup, fun f hf => ?_, fun l hl => ?_⟩
  · exact (hperm.map _).mem_iff.mpr (hfold.covers f hf)
  · exact hfold.tables l (hperm.mem_iff.mp hl)

theorem thtableUpdate_sorted (flows : List FlowHead) :
    (thtableUpdate calcHash zero flows).Pairwise fun a b => b.priority ≤ a.priority := by
  have : Std.Total fun a b : Htlist H => b.priority ≤ a.priority := ⟨fun a b => Nat.le_total _ _⟩
  have : IsTrans (Htlist H) fun a b => b.priority ≤ a.priority := ⟨fun a b c h h' => h'.trans h⟩
  exact pairwise_insertionSort _ _

/-! ## Lookups -/

theorem findSome?_eq_of_forall_mem {α β : Type} {f g : α → Option β} {l : List α}
    (h : ∀ a ∈ l, f a = g a) : l.findSome? f = l.findSome? g := by
  induction l with
  | nil => rfl
  | cons a l ih =>
    rw [findSome?_cons, findSome?_cons, h a mem_cons_self, ih fun b hb => h b (mem_cons_of_mem a hb)]

/-- The packet's values, in the order of a table, are the flow's, in the order of its list. -/
def Agrees (p : Packet) (t : List Match) (f : FlowHead) : Prop :=
  f.matchList ≠ [] ∧
    pktValues p (t.map fun m => (m.field, thMask m)) = some (f.matchList.map thValue)

instance (p : Packet) (t : List Match) (f : FlowHead) : Decidable (Agrees p t f) := by
  unfold Agrees
  infer_instance

/-- A flow a lookup can find. -/
def ThHit (flows : List FlowHead) (p : Packet) (f : FlowHead) : Prop :=
  f ∈ flows ∧ ∃ t, tableOf (atPriority flows f.priority) f = some t ∧ Agrees p t f

/-- What a lookup finds at one priority: in the first table that has something, the oldest flow. -/
def firstHit (flows : List FlowHead) (p : Packet) (q : Nat) : Option FlowHead :=
  (tableLists (atPriority flows q)).findSome? fun t =>
    (atPriority flows q).find? fun f =>
      decide (tableOf (atPriority flows q) f = some t ∧ Agrees p t f)

theorem thHit_of_firstHit {p : Packet} (h : firstHit flows p q = some f) :
    ThHit flows p f ∧ f.priority = q := by
  obtain ⟨t, -, hfind⟩ := exists_of_findSome?_eq_some h
  obtain ⟨hf, rfl⟩ := mem_atPriority.mp (mem_of_find?_eq_some hfind)
  have hdec := find?_some hfind
  exact ⟨⟨hf, t, of_decide_eq_true hdec⟩, rfl⟩

theorem firstHit_eq_none {p : Packet} :
    firstHit flows p q = none ↔ ∀ f, ThHit flows p f → f.priority ≠ q := by
  constructor
  · rintro h f ⟨hf, t, ht, hagrees⟩ rfl
    have hnone := findSome?_eq_none_iff.mp h t (mem_of_tableOf ht).1
    exact find?_eq_none.mp hnone f (mem_atPriority.mpr ⟨hf, rfl⟩) (decide_eq_true ⟨ht, hagrees⟩)
  · intro h
    cases hq : firstHit flows p q with
    | none => rfl
    | some f => exact absurd (thHit_of_firstHit hq).2 (h f (thHit_of_firstHit hq).1)

/-- The lists of values that are chained: none, those of the flows, and those of the packet in the
order of a flow's list. -/
def chained (flows : List FlowHead) (p : Packet) : Set (List (List Byte)) :=
  {vs | vs = [] ∨ (∃ f ∈ flows, vs = f.matchList.map thValue) ∨
    ∃ f ∈ flows, pktValues p (f.matchList.map fun m => (m.field, thMask m)) = some vs}

section

variable {calcHash zero} {p : Packet} (hinj : Set.InjOn (hashChain calcHash zero) (chained flows p))
include hinj

theorem htableFind_tableFor {fs : List FlowHead} (hfs : ∀ f ∈ fs, f ∈ flows)
    (ht : ∃ f ∈ flows, f.matchList = t) :
    htableFind calcHash zero p (tableFor calcHash zero fs t) =
      fs.find? fun f => decide (tableOf fs f = some t ∧ Agrees p t f) := by
  have hkey : keyFromPacket calcHash zero p (tableFor calcHash zero fs t).maskList zero =
      (pktValues p (t.map fun m => (m.field, thMask m))).elim zero (hashChain calcHash zero) :=
    keyFromPacket_eq calcHash zero p _ []
  unfold htableFind
  simp only [hkey]
  cases hvs : pktValues p (t.map fun m => (m.field, thMask m)) with
  | none =>
    simp only [Option.elim_none, if_true]
    exact (find?_eq_none.mpr fun f _ => by simp [Agrees, hvs]).symm
  | some vs =>
    have hmem : vs ∈ chained flows p := by
      obtain ⟨f, hf, rfl⟩ := ht
      exact .inr (.inr ⟨f, hf, hvs⟩)
    have hzero : hashChain calcHash zero vs = zero ↔ vs = [] :=
      ⟨fun h => hinj hmem (.inl rfl) (h.trans rfl), fun h => h ▸ rfl⟩
    simp only [Option.elim_some, hzero]
    split_ifs with hnil
    · refine (find?_eq_none.mpr fun f _ => ?_).symm
      simp only [Agrees, hvs, hnil, Option.some.injEq, decide_eq_true_eq, not_and]
      intro _ hne hmap
      exact hne (map_eq_nil_iff.mp hmap.symm)
    · refine find?_congr fun f hf => decide_eq_decide.mpr (and_congr_right fun _ => ?_)
      have hflow : f.matchList.map thValue ∈ chained flows p := .inr (.inl ⟨f, hfs f hf, rfl⟩)
      rw [flowHash, hinj.eq_iff hflow hmem, Agrees, hvs, Option.some.injEq]
      constructor
      · rintro rfl
        exact ⟨fun h => hnil (by rw [h]; rfl), rfl⟩
      · exact fun h => h.2.symm

/-- **What a lookup returns**: what it finds first at the highest priority that has something. -/
theorem thtableMatch_eq_iff (r : Option FlowHead) :
    thtableMatch calcHash zero p (thtableUpdate calcHash zero flows) = r ↔
      match r with
      | some f => firstHit flows p f.priority = some f ∧
          ∀ g, ThHit flows p g → g.priority ≤ f.priority
      | none => ∀ g, ¬ ThHit flows p g := by
  have hrep := htRep_update calcHash zero flows
  have hsorted := thtableUpdate_sorted calcHash zero flows
  have hmatch : thtableMatch calcHash zero p (thtableUpdate calcHash zero flows) =
      (thtableUpdate calcHash zero flows).findSome? fun l => firstHit flows p l.priority := by
    refine findSome?_eq_of_forall_mem fun l hl => ?_
    rw [hrep.tables l hl, findSome?_map, firstHit]
    refine findSome?_eq_of_forall_mem fun t ht => ?_
    have hsub : ∀ f ∈ atPriority flows l.priority, f ∈ flows := fun f hf => (mem_atPriority.mp hf).1
    refine htableFind_tableFor hinj hsub ?_
    exact (exists_of_mem_tableLists ht).imp fun f hf => ⟨hsub f hf.1, hf.2⟩
  have hfound : ∀ {f}, thtableMatch calcHash zero p (thtableUpdate calcHash zero flows) = some f →
      firstHit flows p f.priority = some f ∧ ∀ g, ThHit flows p g → g.priority ≤ f.priority := by
    intro f hf
    rw [hmatch, findSome?_eq_some_iff] at hf
    obtain ⟨l₁, l, l₂, hls, hl, hnone⟩ := hf
    obtain ⟨-, hfq⟩ := thHit_of_firstHit hl
    refine ⟨hfq ▸ hl, fun g hg => ?_⟩
    -- a list in front has nothing; those behind have lower priorities
    obtain ⟨k, hk, hkg⟩ := mem_map.mp (hrep.covers g hg.1)
    rw [hls] at hk hsorted
    rcases mem_append.mp hk with hk | hk
    · exact absurd hkg.symm (firstHit_eq_none.mp (hnone k hk) g hg)
    · rw [hfq, ← hkg]
      rcases mem_cons.mp hk with rfl | hk
      · exact le_rfl
      · exact rel_of_pairwise_cons (pairwise_append.mp hsorted).2.1 hk
  have hnothing : thtableMatch calcHash zero p (thtableUpdate calcHash zero flows) = none →
      ∀ g, ¬ ThHit flows p g := by
    intro h g hg
    obtain ⟨k, hk, hkg⟩ := mem_map.mp (hrep.covers g hg.1)
    rw [hmatch] at h
    exact firstHit_eq_none.mp (findSome?_eq_none_iff.mp h k hk) g hg hkg.symm
  constructor
  · rintro rfl
    split
    · exact hfound ‹_›
    · exact hnothing ‹_›
  · intro h
    cases hres : thtableMatch calcHash zero p (thtableUpdate calcHash zero flows) with
    | none =>
      cases r with
      | none => rfl
      | some f => exact absurd (thHit_of_firstHit h.1).1 (hnothing hres f)
    | some f' =>
      obtain ⟨hfirst, hmax⟩ := hfound hres
      have hhit := (thHit_of_firstHit hfirst).1
      cases r with
      | none => exact absurd hhit (h f')
      | some f =>
        have hprio : f.priority = f'.priority :=
          le_antisymm (hmax f (thHit_of_firstHit h.1).1) (h.2 f' hhit)
        have := h.1
        rw [hprio, hfirst] at this
        exact this

end

end

/-! ## Flow lists the table describes -/

/-- A flow list all of whose flows are described by the table: each one's fields are, and the flows of
one priority with the same fields and masks list them in one order. -/
structure ThDescribed (flows : List FlowHead) : Prop where
  ready : ∀ f ∈ flows, ThReady f.matchList
  order : ∀ f ∈ flows, ∀ g ∈ flows, f.priority = g.priority →
    tableMatches f.matchList g.matchList = true →
      f.matchList.map (fun m => (m.field, thMask m)) =
        g.matchList.map fun m => (m.field, thMask m)

variable {flows : List FlowHead} {p : Packet}

theorem seated_iff : Seated flows f ↔ ∃ t, tableOf (atPriority flows f.priority) f = some t := by
  rw [Seated, ← atPriority, ← tableLists_eq_take, ← Option.isSome_iff_exists]
  simp [tableOf]

/-- What a lookup can find in such a list are the flows that match and have a table. -/
theorem ThDescribed.thHit_iff (h : ThDescribed flows)
    (hp : p.Classified) (hoob : p.oob.etherType = p.etherType) :
    ThHit flows p f ↔ f ∈ flows ∧ MatchListHolds f.matchList p ∧ Seated flows f := by
  refine and_congr_right fun hf => ?_
  have hready := h.ready f hf
  have hagrees : ∀ t, tableOf (atPriority flows f.priority) f = some t →
      (Agrees p t f ↔ MatchListHolds f.matchList p) := by
    intro t ht
    obtain ⟨hmem, htm⟩ := mem_of_tableOf ht
    obtain ⟨g, hg, rfl⟩ := exists_of_mem_tableLists hmem
    obtain ⟨hg, hprio⟩ := mem_atPriority.mp hg
    rw [Agrees, h.order g hg f hf hprio htm, pktValues_eq_iff, thList_iff hready hp hoob]
    exact and_iff_right hready.nonempty
  rw [seated_iff]
  constructor
  · rintro ⟨t, ht, hagree⟩
    exact ⟨(hagrees t ht).mp hagree, t, ht⟩
  · rintro ⟨hmatch, t, ht⟩
    exact ⟨t, ht, (hagrees t ht).mpr hmatch⟩

theorem hashChain_cons_injective :
    Function.Injective (hashChain (fun (v : List Byte) key => v :: key) []) := by
  have h : ∀ vs : List (List Byte), hashChain (fun v key => v :: key) [] vs = vs.reverse := fun vs =>
    by simp [hashChain, foldl_flip_cons_eq_append]
  intro vs ws hvw
  rwa [h, h, reverse_inj] at hvw

/-- Two flows on the addresses, the one listing the destination first and the other the source. -/
def orderFlows : List FlowHead :=
  [⟨1, 1, [{ field := .ethType, value := [0x08, 0x00] },
      { field := .ipv4Dst, value := [10, 0, 0, 9] }, { field := .ipv4Src, value := [10, 0, 0, 8] }]⟩,
    ⟨2, 1, [{ field := .ethType, value := [0x08, 0x00] },
      { field := .ipv4Src, value := [10, 0, 0, 1] }, { field := .ipv4Dst, value := [10, 0, 0, 2] }]⟩]

/-- Nine flows of one priority, no two on the same fields and masks. -/
def nineFlows : List FlowHead :=
  [⟨1, 1, [{ field := .inPort, value := [0, 0, 0, 7] }]⟩,
    ⟨2, 1, [{ field := .metadata, value := [0, 0, 0, 0, 0, 0, 0, 7] }]⟩,
    ⟨3, 1, [{ field := .ethDst, value := [2, 0, 0, 0, 0, 7] }]⟩,
    ⟨4, 1, [{ field := .ethSrc, value := [2, 0, 0, 0, 0, 7] }]⟩,
    ⟨5, 1, [{ field := .vlanVid, value := [0x10, 7] }]⟩,
    ⟨6, 1, [{ field := .tunnelId, value := [0, 0, 0, 0, 0, 0, 0, 7] }]⟩,
    ⟨7, 1, [{ field := .ethDst, hasMask := true, value := [4, 0, 0, 0, 0, 0, 4, 0, 0, 0, 0, 0] }]⟩,
    ⟨8, 1, [{ field := .ethSrc, hasMask := true, value := [4, 0, 0, 0, 0, 0, 4, 0, 0, 0, 0, 0] }]⟩,
    ⟨9, 1, [{ field := .ethType, value := [0x08, 0x00] }]⟩]

/-- The second of them, and a flow for all of IPv4 with a lower priority. -/
def servedFlows : List FlowHead :=
  orderFlows.tail ++ [⟨3, 0, [{ field := .ethType, value := [0x08, 0x00] }]⟩]

/-- A hash of 64 bits. -/
def hash64 (v : List Byte) (key : BitVec 64) : BitVec 64 :=
  v.foldl (fun key b => key * 31 + b.setWidth 64 + 1) key

/-- What is chained for them and for a packet they match. -/
def servedValues : List (List (List Byte)) :=
  [[], [[0x08, 0x00], [10, 0, 0, 1], [10, 0, 0, 2]], [[0x08, 0x00]]]

theorem chained_servedFlows {p : Packet} (hp : (Packet.ofFrame ipv4Frame).packetInit 1 1 = some p) :
    ∀ vs ∈ chained servedFlows p, vs ∈ servedValues := by
  have hflows : ∀ f ∈ servedFlows, f.matchList.map thValue ∈ servedValues := by decide
  have hpkt : ∀ f ∈ servedFlows, pktValues p (f.matchList.map fun m => (m.field, thMask m)) =
      some (f.matchList.map thValue) := by
    cases hp
    decide
  rintro vs (rfl | ⟨f, hf, rfl⟩ | ⟨f, hf, hvs⟩)
  · decide
  · exact hflows f hf
  · rw [hpkt f hf, Option.some.injEq] at hvs
    exact hvs ▸ hflows f hf

end Lagopus
