import Lagopus.Lib.Acyclic
import Lagopus.Pipeline.Execute

/-!
# Chains of groups

A group refers to the groups its buckets' actions name and to those its buckets watch. The walks of
`group.c` and the execution of a group follow these references, so they end when no group refers to
itself through others.

* `Edge`, `ActionEdge`: the references inside a table;
* `groupLoopDetect_false`: what the check of `ofp_group_mod_add` excludes;
* `Terminates`, `terminates_of_acyclic`: the walks end on an acyclic table;
* `groupTrace_acyclic`: the requests that keep a table acyclic.
-/

namespace Lagopus

open FiniteGraph Relation List Option GroupTable

/-- Group `a` has a group action to group `b`. -/
def ActionEdge (T : GroupTable) (a b : Nat) : Prop :=
  ∃ g, T.lookup a = some g ∧ b ∈ g.actionRefs ∧ (T.lookup b).isSome = true

/-- Group `a` has a group action to group `b`, or watches it. -/
def Edge (T : GroupTable) (a b : Nat) : Prop :=
  ∃ g, T.lookup a = some g ∧ b ∈ g.actionRefs ++ g.watchRefs ∧ (T.lookup b).isSome = true

/-! ## The walks end -/

variable {T : GroupTable}

theorem exists_group_rank (h : Acyclic (Edge T)) :
    ∃ rank : Nat → Nat, (∀ a, rank a ≤ T.length) ∧ ∀ a b, Edge T a b → rank b < rank a := by
  obtain ⟨rank, hle, hlt⟩ := h.exists_rank (T.map Group.id).toFinset fun a b hab => by
    obtain ⟨g, -, -, hb⟩ := hab
    obtain ⟨g', hg', rfl⟩ := lookup_isSome.mp hb
    exact mem_toFinset.mpr (mem_map_of_mem hg')
  refine ⟨rank, fun a => (hle a).trans ?_, hlt⟩
  exact (toFinset_card_le _).trans (by simp)

variable {α : Type} {f : α → Option Bool}

theorem anyM_isSome {l : List α} (h : ∀ a ∈ l, (f a).isSome = true) : (l.anyM f).isSome = true := by
  induction l with
  | nil => rfl
  | cons a l ih =>
    obtain ⟨b, hb⟩ := isSome_iff_exists.mp (h a mem_cons_self)
    rw [List.anyM, hb]
    cases b with
    | true => rfl
    | false => exact ih fun a' ha' => h a' (mem_cons_of_mem a ha')

theorem findM?_isSome {l : List α} (h : ∀ a ∈ l, (f a).isSome = true) : (l.findM? f).isSome = true := by
  induction l with
  | nil => rfl
  | cons a l ih =>
    obtain ⟨b, hb⟩ := isSome_iff_exists.mp (h a mem_cons_self)
    rw [List.findM?, hb]
    cases b with
    | true => rfl
    | false => exact ih fun a' ha' => h a' (mem_cons_of_mem a ha')

section Walks

variable {T : GroupTable} {rank : Nat → Nat} (hrank : ∀ a b, Edge T a b → rank b < rank a)
include hrank

theorem groupLoopDetect_isSome {id fuel i : Nat} {g : Group} (hg : T.lookup i = some g)
    (hfuel : rank i < fuel) : (groupLoopDetect T id fuel g).isSome = true := by
  induction fuel generalizing i g with
  | zero => omega
  | succ fuel ih =>
    refine anyM_isSome fun j hj => ?_
    split_ifs
    · rfl
    · cases hlook : T.lookup j with
      | none => rfl
      | some g' =>
        have hedge : Edge T i j := ⟨g, hg, mem_append_left _ hj, by rw [hlook]; rfl⟩
        exact ih hlook (by have := hrank i j hedge; omega)

theorem groupLiveBucket_isSome {live : Nat → Bool} {fuel i : Nat} {g : Group}
    (hg : T.lookup i = some g) (hfuel : rank i < fuel) : (groupLiveBucket T live fuel g).isSome = true := by
  induction fuel generalizing i g with
  | zero => omega
  | succ fuel ih =>
    refine findM?_isSome fun b hb => ?_
    split_ifs with hlive hany
    · rfl
    · rfl
    · cases hlook : T.lookup b.watchGroup with
      | none => rfl
      | some g' =>
        have hwatch : b.watchGroup ∈ g.watchRefs := mem_filter.mpr ⟨mem_map_of_mem hb, by simpa using hany⟩
        have hedge : Edge T i b.watchGroup := ⟨g, hg, mem_append_right _ hwatch, by rw [hlook]; rfl⟩
        rw [isSome_map]
        exact ih hlook (by have := hrank i _ hedge; omega)

end Walks

/-! ## Executing a group ends -/

/-- The recursion through groups has come to an end.  That a header could not be classified again
(`Stuck.undefined`) is no matter of groups. -/
def Ends {α : Type} (o : Except Stuck α) : Prop := o ≠ .error .fuel

theorem ends_ok (a : α) : Ends (.ok a : Except Stuck α) := by
  intro h
  cases h

variable {o : Except Stuck α}

theorem ends_map {β : Type} {f : α → β} (h : Ends o) : Ends (o.map f) := by
  cases o with
  | error e =>
    intro h'
    cases h'
    exact h rfl
  | ok a => exact ends_ok _

theorem ends_bind {β : Type} {f : α → Except Stuck β} (h : Ends o)
    (hf : ∀ a, Ends (f a)) : Ends (o.bind f) := by
  cases o with
  | error e =>
    intro h'
    cases h'
    exact h rfl
  | ok a => exact hf a

theorem ends_andThen {o : Outcome} {k : Run → Outcome} (h : Ends o) (hk : ∀ run, Ends (k run)) :
    Ends (andThen o k) := by
  unfold andThen
  split
  · exact hk _
  · exact h

section Execute

variable {env : Env} {execGroup : Nat → Run → Outcome}

theorem execAction_ends {a : Action} (h : ∀ id, a = .group id → ∀ run, Ends (execGroup id run))
    (run : Run) : Ends (execAction env execGroup run a) := by
  cases a with
  | group id => exact h id rfl run
  | rewrite r =>
    rw [execAction]
    split
    · intro h'
      cases h'
    · exact ends_ok _
  | output port copied => exact ends_ok _
  | setQueue id => exact ends_ok _
  | experimenter => exact ends_ok _

theorem executeActionList_ends {as : List Action}
    (h : ∀ id, .group id ∈ as → ∀ run, Ends (execGroup id run)) (run : Run) :
    Ends (executeActionList env execGroup as run) := by
  induction as generalizing run with
  | nil => exact ends_ok _
  | cons a as ih =>
    refine ends_andThen (execAction_ends (fun id ha => ?_) run) fun run => ?_
    · exact h id (ha ▸ mem_cons_self)
    · exact ih (fun id hid => h id (mem_cons_of_mem a hid)) run

theorem executeActionSet_ends {slot : Run → Nat → List Action}
    (h : ∀ run i id, .group id ∈ slot run i → ∀ run, Ends (execGroup id run)) (run : Run) :
    Ends (executeActionSet env execGroup slot run) := by
  refine ends_map ?_
  generalize List.range ACTION_SET_ORDER_MAX = is
  induction is generalizing run with
  | nil => exact ends_ok _
  | cons i is ih =>
    exact ends_andThen (executeActionList_ends (fun id hid => h run i id hid) run) ih

theorem executeBucket_ends {b : Bucket}
    (h : ∀ id ∈ groupIds b.actionList, ∀ run, Ends (execGroup id run)) (run : Run) :
    Ends (executeActionSet env execGroup (fun _ => b.actions) run) := by
  refine executeActionSet_ends (fun _ i id hid => h id ?_) run
  rcases mem_mergeActionSet hid with hid | hid
  · cases hid
  · exact mem_groupIds.mpr hid

theorem executeCopies_ends {bs : List Bucket}
    (h : ∀ b ∈ bs, ∀ id ∈ groupIds b.actionList, ∀ run, Ends (execGroup id run)) (run : Run) :
    Ends (executeCopies env execGroup bs run) := by
  induction bs generalizing run with
  | nil => exact ends_ok _
  | cons b bs ih =>
    refine ends_bind ?_ (ih fun b' hb' => h b' (mem_cons_of_mem b hb'))
    unfold executeCopy
    split
    · intro h'
      cases h'
    · exact ends_map (executeBucket_ends (h b mem_cons_self) _)

end Execute

variable {bs : List Bucket} {b : Bucket}

theorem bucketAt_mem {weight : Bucket → Nat} {sel sum : Nat}
    (h : bucketAt weight sel sum bs = some b) : b ∈ bs := by
  induction bs generalizing sum with
  | nil => cases h
  | cons c bs ih =>
    rw [bucketAt] at h
    split_ifs at h
    · cases h
      exact mem_cons_self
    · exact mem_cons_of_mem c (ih h)

theorem groupSelectBucket_mem {hash64 : Nat} (h : groupSelectBucket hash64 bs = some b) : b ∈ bs := by
  unfold groupSelectBucket at h
  simp only at h
  split_ifs at h <;> exact bucketAt_mem h

variable {f : α → Option Bool}

theorem findM?_mem {l : List α} {a : α} (h : l.findM? f = some (some a)) : a ∈ l := by
  induction l with
  | nil => cases h
  | cons b l ih =>
    rw [List.findM?] at h
    cases hf : f b with
    | none =>
      rw [hf] at h
      cases h
    | some found =>
      rw [hf] at h
      cases found with
      | true =>
        cases h
        exact mem_cons_self
      | false => exact mem_cons_of_mem b (ih h)

variable {fuel : Nat} {g : Group}

theorem groupLiveBucket_mem {live : Nat → Bool} (h : groupLiveBucket T live fuel g = some (some b))
    : b ∈ g.buckets := by
  cases fuel with
  | zero => cases h
  | succ fuel => exact findM?_mem h

variable {id : Nat}

/-- **Executing a group ends** when the rank of the references leaves enough fuel. -/
theorem executeGroupAction_ends {env : Env} {rank : Nat → Nat}
    (hrank : ∀ a b, Edge env.groups a b → rank b < rank a) (hfuel : rank id + 1 < fuel) (run : Run)
    : Ends (executeGroupAction env fuel id run) := by
  induction fuel generalizing id run with
  | zero => omega
  | succ fuel ih =>
    rw [executeGroupAction]
    cases hg : env.groups.lookup id with
    | none => exact ends_ok _
    | some g =>
      have hnext : ∀ b ∈ g.buckets, ∀ j ∈ groupIds b.actionList, ∀ run,
          Ends (executeGroupAction env fuel j run) := by
        intro b hb j hj run
        cases hlook : env.groups.lookup j with
        | none =>
          obtain ⟨n, rfl⟩ : ∃ n, fuel = n + 1 := ⟨fuel - 1, by omega⟩
          rw [executeGroupAction, hlook]
          exact ends_ok _
        | some g' =>
          have hedge : Edge env.groups id j := ⟨g, hg,
            mem_append_left _ (mem_flatMap.mpr ⟨b, hb, hj⟩), by rw [hlook]; rfl⟩
          exact ih (by have := hrank id j hedge; omega) run
      have hbucket : ∀ (r : Option Bucket) run, (∀ b, r = some b → b ∈ g.buckets) →
          Ends (executeBucket env (executeGroupAction env fuel) run r) := by
        intro r run hr
        cases r with
        | none => exact ends_ok _
        | some b => exact executeBucket_ends (hnext b (hr b rfl)) run
      simp only
      split
      · exact ends_map (executeCopies_ends hnext run)
      · exact hbucket _ _ fun b hb => groupSelectBucket_mem hb
      · exact hbucket _ _ fun b hb => mem_of_head? hb
      · have hlive : (groupLiveBucket env.groups env.portLiveness (fuel + 1) g).isSome = true :=
          groupLiveBucket_isSome hrank hg (by omega)
        obtain ⟨r, hr⟩ := isSome_iff_exists.mp hlive
        rw [hr]
        exact hbucket r run fun b hb => groupLiveBucket_mem (hb ▸ hr)
      · exact ends_ok _

/-- The walks over a group table, and the execution of its groups, come to an end. -/
structure Terminates (T : GroupTable) : Prop where
  loopDetect : ∀ id g, (groupLoopDetect T id (T.length + 2) g).isSome = true
  liveBucket : ∀ live, ∀ id g, T.lookup id = some g →
    (groupLiveBucket T live (T.length + 2) g).isSome = true
  execute : ∀ env : Env, env.groups = T → ∀ id run,
    Ends (executeGroupAction env (T.length + 2) id run)

theorem terminates_of_acyclic (h : Acyclic (Edge T)) : Terminates T := by
  obtain ⟨rank, hle, hrank⟩ := exists_group_rank h
  refine ⟨fun id g => ?_, fun live id g hg => ?_, ?_⟩
  · refine anyM_isSome fun i _ => ?_
    split_ifs
    · rfl
    · cases hlook : T.lookup i with
      | none => rfl
      | some g' => exact groupLoopDetect_isSome hrank hlook (by have := hle i; omega)
  · exact groupLiveBucket_isSome hrank hg (by have := hle id; omega)
  · rintro env rfl id run
    exact executeGroupAction_ends hrank (by have := hle id; omega) run

/-! ## The check of `ofp_group_mod_add` -/

theorem anyM_eq_some_false {l : List α} (h : l.anyM f = some false) : ∀ a ∈ l, f a = some false := by
  induction l with
  | nil => simp
  | cons a l ih =>
    rw [List.anyM] at h
    cases hf : f a with
    | none =>
      rw [hf] at h
      cases h
    | some found =>
      rw [hf] at h
      cases found with
      | true => cases h
      | false =>
        intro b hb
        rcases mem_cons.mp hb with rfl | hb
        · exact hf
        · exact ih h b hb

/-- A group the check came past: it is not the one looked for, and was looked through itself. -/
def Passed (T : GroupTable) (id i : Nat) : Prop :=
  i ≠ id ∧ ∀ g, T.lookup i = some g → ∃ fuel, groupLoopDetect T id fuel g = some false

theorem passed_of_loopDetect (h : groupLoopDetect T id fuel g = some false) :
    ∀ i ∈ g.actionRefs, Passed T id i := by
  cases fuel with
  | zero => cases h
  | succ fuel =>
    intro i hi
    have hi := anyM_eq_some_false h i hi
    split_ifs at hi with heq
    · cases hi
    · refine ⟨heq, fun g' hg' => ⟨fuel, ?_⟩⟩
      rwa [hg'] at hi

theorem lookup_cons (T : GroupTable) (g : Group) (i : Nat) :
    lookup (g :: T) i = if g.id = i then some g else T.lookup i := by
  unfold GroupTable.lookup
  by_cases h : g.id = i <;> simp [h]

/-- **The check excludes every cycle of group actions** through the new group. -/
theorem groupLoopDetect_false (h : groupLoopDetect T g.id fuel g = some false) :
    ¬ TransGen (ActionEdge (g :: T)) g.id g.id := by
  intro hcycle
  -- every group on the way from the new one was passed by the check
  have hpassed : ∀ i, TransGen (ActionEdge (g :: T)) g.id i → Passed T g.id i := by
    intro i hi
    induction hi with
    | single hstep =>
      obtain ⟨g', hg', hmem, -⟩ := hstep
      rw [lookup_cons, if_pos rfl, Option.some.injEq] at hg'
      exact passed_of_loopDetect h _ (hg' ▸ hmem)
    | tail _ hstep ih =>
      obtain ⟨g', hg', hmem, -⟩ := hstep
      rw [lookup_cons, if_neg (Ne.symm ih.1)] at hg'
      obtain ⟨fuel', hdetect⟩ := ih.2 g' hg'
      exact passed_of_loopDetect hdetect _ hmem
  exact (hpassed _ hcycle).1 rfl

/-! ## Sequences of requests -/

/-- The tables reached from the empty one by requests that come back, each accepted one `Ok` for the
table it meets. A request that is refused leaves the table as it is. -/
inductive GroupTrace (Ok : GroupTable → GroupMod → Prop) : GroupTable → Prop
  | empty : GroupTrace Ok []
  | accepted {T T' : GroupTable} (fuel : Nat) (m : GroupMod) : GroupTrace Ok T → Ok T m →
      ofpGroupMod fuel T m = some (.ok T') → GroupTrace Ok T'
  | refused {T : GroupTable} {e : GroupModFailed} (fuel : Nat) (m : GroupMod) : GroupTrace Ok T →
      ofpGroupMod fuel T m = some (.error e) → GroupTrace Ok T

/-- A new group closes no cycle that goes through a watched group; new buckets close no cycle at
all. -/
def ClosesNoCycle (T : GroupTable) : GroupMod → Prop
  | .add id type buckets =>
    let T' : GroupTable := { id := id, type := type, buckets := buckets } :: T
    TransGen (Edge T') id id → TransGen (ActionEdge T') id id
  | .modify id type buckets => ¬ TransGen (Edge (groupModify T id type buckets)) id id
  | .delete _ => True

theorem lookup_groupModify (T : GroupTable) (id : Nat) (type : GroupType) (bs : List Bucket)
    (i : Nat) : (groupModify T id type bs).lookup i = (T.lookup i).map fun g =>
      if g.id = id then { g with type := type, buckets := bs } else g := by
  unfold GroupTable.lookup groupModify
  rw [find?_map]
  congr 1
  refine find?_congr fun g _ => ?_
  simp only [Function.comp]
  split_ifs <;> rfl

variable {a : Nat}

theorem edge_of_groupModify {type : GroupType} {b : Nat} (h : Edge (groupModify T id type bs) a b)
    (ha : a ≠ id) : Edge T a b := by
  obtain ⟨g, hg, hmem, hb⟩ := h
  rw [lookup_groupModify] at hg hb
  obtain ⟨g', hg', rfl⟩ := map_eq_some_iff.mp hg
  rw [if_neg ((lookup_eq_some hg').2 ▸ ha)] at hmem
  exact ⟨g', hg', hmem, by simpa using hb⟩

theorem edge_of_cons {b : Nat} (h : Edge (g :: T) a b) (ha : a ≠ g.id) (hb : b ≠ g.id) : Edge T a b := by
  obtain ⟨g', hg', hmem, hlook⟩ := h
  rw [lookup_cons, if_neg (Ne.symm ha)] at hg'
  rw [lookup_cons, if_neg (Ne.symm hb)] at hlook
  exact ⟨g', hg', hmem, hlook⟩

theorem lookup_filter {i : Nat} (h : lookup (T.filter fun g => g.id ≠ id) i = some g) :
    T.lookup i = some g := by
  obtain ⟨hmem, hid⟩ := lookup_eq_some h
  have hne : i ≠ id := hid ▸ by simpa using (mem_filter.mp hmem).2
  unfold GroupTable.lookup at h ⊢
  rw [find?_filter] at h
  rw [← h]
  refine find?_congr fun g' _ => ?_
  by_cases hg' : g'.id = i
  · simp [hg', hne]
  · simp [hg']

theorem edge_of_delete {b : Nat} (h : Edge (groupTableDelete T id) a b) : Edge T a b := by
  unfold groupTableDelete at h
  split_ifs at h
  · obtain ⟨g, hg, -⟩ := h
    cases hg
  · obtain ⟨g, hg, hmem, hb⟩ := h
    obtain ⟨g', hg'⟩ := isSome_iff_exists.mp hb
    exact ⟨g, lookup_filter hg, hmem, by rw [lookup_filter hg']; rfl⟩

/-- **A request keeps an acyclic table acyclic exactly when it closes no cycle** in the sense of
`ClosesNoCycle`. -/
theorem ofpGroupMod_acyclic_iff {T' : GroupTable} {m : GroupMod} (hT : Acyclic (Edge T))
    (h : ofpGroupMod fuel T m = some (.ok T')) : Acyclic (Edge T') ↔ ClosesNoCycle T m := by
  cases m with
  | add id type buckets =>
    rw [ofpGroupMod] at h
    split_ifs at h with hexists
    · cases h
    · obtain ⟨found, hfound, hres⟩ := map_eq_some_iff.mp h
      cases found with
      | true => cases hres
      | false =>
        cases hres
        rw [acyclic_iff_of_change hT fun a b hab ha hb => edge_of_cons hab ha hb]
        have hcheck := groupLoopDetect_false hfound
        exact ⟨fun hno hcycle => absurd hcycle hno, fun hclose hcycle => hcheck (hclose hcycle)⟩
  | modify id type buckets =>
    rw [ofpGroupMod] at h
    split_ifs at h
    · cases h
      exact acyclic_iff_of_change hT fun a b hab ha _ => edge_of_groupModify hab ha
    · cases h
  | delete id =>
    cases h
    exact iff_of_true (hT.mono fun a b => edge_of_delete) trivial

theorem GroupTrace.acyclic (h : GroupTrace ClosesNoCycle T) : Acyclic (Edge T) := by
  induction h with
  | empty =>
    intro a ha
    obtain ⟨b, ⟨g, hg, -⟩, -⟩ := TransGen.head'_iff.mp ha
    cases hg
  | accepted _ _ _ hok hreq ih => exact (ofpGroupMod_acyclic_iff ih hreq).mpr hok
  | refused _ _ _ _ ih => exact ih

/-- **Requests that close no cycle keep the table acyclic**, and only those do; all the recursions over
it come to an end. -/
theorem groupTrace_acyclic {T : GroupTable} (h : GroupTrace ClosesNoCycle T) :
    Acyclic (Edge T) ∧ Terminates T ∧ ∀ fuel m T', ofpGroupMod fuel T m = some (.ok T') →
      (Acyclic (Edge T') ↔ ClosesNoCycle T m) :=
  ⟨h.acyclic, terminates_of_acyclic h.acyclic, fun _ _ _ hreq => ofpGroupMod_acyclic_iff h.acyclic hreq⟩

theorem closesNoCycle_add {type : GroupType} {buckets : List Bucket}
    (h : ∀ g ∈ ({ id := id, type := type, buckets := buckets } : Group) :: T, g.watchRefs = []) :
    ClosesNoCycle T (.add id type buckets) := by
  intro hcycle
  refine TransGen.mono (fun a b hab => ?_) _ _ hcycle
  obtain ⟨g, hg, hmem, hb⟩ := hab
  rw [h g (lookup_eq_some hg).1, append_nil] at hmem
  exact ⟨g, hg, hmem, hb⟩

/-- The bucket that only passes a packet on to another group. -/
def passOn (id : Nat) : Bucket := { actionList := [.group id] }

/-- Group 1 passing packets on to group 2, which sends them to port 3. -/
def chainOfTwo : GroupTable :=
  [{ id := 1, type := .indirect, buckets := [passOn 2] },
    { id := 2, type := .indirect, buckets := [{ actionList := [.output 3 false] }] }]

theorem chainOfTwo_trace : GroupTrace ClosesNoCycle chainOfTwo := by
  have hsecond : GroupTrace ClosesNoCycle
      [{ id := 2, type := .indirect, buckets := [{ actionList := [.output 3 false] }] }] :=
    .accepted 1 (.add 2 .indirect [{ actionList := [.output 3 false] }]) .empty
      (closesNoCycle_add (by decide)) rfl
  exact .accepted 2 (.add 1 .indirect [passOn 2]) hsecond (closesNoCycle_add (by decide)) rfl

theorem groupTrace_acyclic_chainOfTwo : GroupTrace ClosesNoCycle chainOfTwo ∧
    Acyclic (Edge chainOfTwo) ∧ Terminates chainOfTwo :=
  ⟨chainOfTwo_trace, (groupTrace_acyclic chainOfTwo_trace).1, (groupTrace_acyclic chainOfTwo_trace).2.1⟩

/-- Two groups that pass packets on to each other. -/
def ring : GroupTable :=
  [{ id := 2, type := .indirect, buckets := [passOn 1] },
    { id := 1, type := .indirect, buckets := [passOn 2] }]

/-- A group one bucket of which watches the group itself. -/
def selfWatch : Group := { id := 1, type := .ff, buckets := [{ watchGroup := 1 }] }

/-- Executing the bucket that passes a packet on is executing the other group, up to the action
set. -/
theorem executeBucket_passOn (env : Env) (exec : Nat → Run → Outcome) (run : Run)
    (h : ∀ run, exec id run = .error .fuel) :
    executeBucket env exec run (some (passOn id)) = .error .fuel := by
  have hslots : executeSlots env exec (fun _ => (passOn id).actions)
      (List.range ACTION_SET_ORDER_MAX) run = .error .fuel := by
    change andThen (andThen (exec id run) _) _ = _
    rw [h run]
    rfl
  rw [executeBucket, executeActionSet, hslots]
  rfl

theorem executeGroupAction_ring {env : Env} (henv : env.groups = ring) (fuel : Nat) :
    ∀ id run, id = 1 ∨ id = 2 → executeGroupAction env fuel id run = .error .fuel := by
  induction fuel with
  | zero => exact fun _ _ _ => rfl
  | succ fuel ih =>
    rintro id run (rfl | rfl)
    · rw [executeGroupAction, henv]
      exact executeBucket_passOn env _ run fun run => ih 2 run (Or.inr rfl)
    · rw [executeGroupAction, henv]
      exact executeBucket_passOn env _ run fun run => ih 1 run (Or.inl rfl)

theorem groupLiveBucket_selfWatch (fuel : Nat) :
    groupLiveBucket [selfWatch] (fun _ => false) fuel selfWatch = none := by
  induction fuel with
  | zero => rfl
  | succ fuel ih =>
    have hlook : lookup [selfWatch] 1 = some selfWatch := rfl
    rw [groupLiveBucket]
    simp only [selfWatch, List.findM?] at ih hlook ⊢
    rw [if_neg Bool.false_ne_true, if_neg (by decide), hlook]
    simp only [ih]
    rfl

/-- **Accepted requests close cycles**: by changing a member of a chain, after which executing the
group never ends, and by adding a group that watches itself, after which looking for its live bucket
never ends. -/
theorem groupTrace_cyclic :
    (GroupTrace (fun _ _ => True) ring ∧ TransGen (Edge ring) 1 1 ∧
      ∀ env : Env, env.groups = ring → ∀ fuel run,
        executeGroupAction env fuel 1 run = .error .fuel) ∧
    (GroupTrace (fun _ _ => True) [selfWatch] ∧ TransGen (Edge [selfWatch]) 1 1 ∧
      ∀ fuel, groupLiveBucket [selfWatch] (fun _ => false) fuel selfWatch = none) := by
  refine ⟨⟨?_, ?_, fun env henv fuel run => executeGroupAction_ring henv fuel 1 run (Or.inl rfl)⟩,
    ?_, ?_, groupLiveBucket_selfWatch⟩
  · have hfirst : GroupTrace (fun _ _ => True)
        [{ id := 1, type := .indirect, buckets := [passOn 2] }] :=
      .accepted 1 (.add 1 .indirect [passOn 2]) .empty trivial rfl
    have hsecond : GroupTrace (fun _ _ => True)
        [{ id := 2, type := .indirect, buckets := [] },
          { id := 1, type := .indirect, buckets := [passOn 2] }] :=
      .accepted 1 (.add 2 .indirect []) hfirst trivial rfl
    exact .accepted 1 (.modify 2 .indirect [passOn 1]) hsecond trivial rfl
  · have hto : Edge ring 1 2 := ⟨_, rfl, by decide, rfl⟩
    have hback : Edge ring 2 1 := ⟨_, rfl, by decide, rfl⟩
    exact .tail (.single hto) hback
  · exact .accepted 1 (.add 1 .ff [{ watchGroup := 1 }]) .empty trivial rfl
  · exact .single ⟨_, rfl, by decide, rfl⟩

end Lagopus
