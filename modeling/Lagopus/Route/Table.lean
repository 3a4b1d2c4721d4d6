import Lagopus.Lib.PrefixStore
import Lagopus.Lib.Trace

/-!
# The route table

`route.c` keeps the IPv4 routes of a bridge in a Patricia tree, taken here to be a
correct longest-prefix-match store (a `KeyedStore` searched for its `longest` match), beside a count of the entries.
Host routes are put in and looked for without a mask, all others with one; the tree takes no
destination with bits behind its mask.

* `routeEntryAdd`, `routeEntryDelete`, `routeEntryUpdate`, `routeEntryGet`,
  `routeEntriesAllClear` and `routeEntriesAllCopy` are the functions of the source.
* `RouteTable.routes` reads a table as the map from networks it stands for, and
  `RouteOp.spec` says what each operation ought to do to such maps.
* `Exact` is the condition under which an update or a delete touches the network it
  names and no other: a host route has to be in the table already, unless nothing
  at all contains its address.  The search for a host route is a longest match, so
  otherwise it finds, and removes, a shorter route.  And the destination of an update
  has to be the network itself: otherwise the old entry is removed and no new one put in.
* `routes_step_iff` says `Exact` is just what one step needs, `routes_run` carries
  it through a whole run, and `num_step_iff` says when the count survives a step:
  only when nothing was removed, for a removal is never counted.
-/

namespace Lagopus.Route

open Function KeyedStore UInt32 Trace

abbrev Addr := BitVec 32

/-- What a route says: where to send, and how. -/
structure NextHop where
  gate : Addr
  ifindex : Int
  scope : BitVec 8
  mac : BitVec 48
  deriving DecidableEq, Repr

/-- `struct route_entry`. -/
structure RouteEntry where
  dest : Addr
  prefixlen : Fin 33
  hop : NextHop
  deriving DecidableEq, Repr

def IPV4_BITLEN : Fin 33 := 32

def RouteEntry.net (e : RouteEntry) : Net 32 := Net.of e.dest e.prefixlen

/-- The test of `ptree_insert_mask_node`: no bit behind the mask is set. -/
def RouteEntry.Masked (e : RouteEntry) : Prop := e.net.base = e.dest

instance (e : RouteEntry) : Decidable e.Masked := inferInstanceAs (Decidable (_ = _))

/-- `struct route_table`: the tree and the number of its entries. -/
structure RouteTable where
  table : KeyedStore RouteEntry.net
  num : UInt32

def RouteTable.init : RouteTable := ⟨.empty, 0⟩

open RouteTable (init)

/-! ## The functions of the source -/

/-- `ptree_mask_filter`: for a host route the nodes without a mask, otherwise the nodes
with a mask of that very length. -/
def ptreeMaskFilter (prefixlen : Fin 33) (e : RouteEntry) : Bool := e.prefixlen = prefixlen

/-- The search `route_entry_delete` and `route_entry_get` share.  For a host route
it is `ptree_find_node`, which knows no filter. -/
def RouteTable.search (t : RouteTable) (dest : Addr) (prefixlen : Fin 33) : Option RouteEntry :=
  if prefixlen = IPV4_BITLEN then t.table.longest (fun _ => true) dest
  else t.table.longest (ptreeMaskFilter prefixlen) dest

/-- `route_entry_add`; a network that is there already is refused, and so is a destination with bits
behind its mask. -/
def routeEntryAdd (t : RouteTable) (e : RouteEntry) : Option RouteTable :=
  if e.Masked then (t.table.insert e).map fun table => ⟨table, t.num + 1⟩ else none

/-- `route_entry_delete`: the count is left as it is. -/
def routeEntryDelete (t : RouteTable) (dest : Addr) (prefixlen : Fin 33) : RouteTable :=
  match t.search dest prefixlen with
  | some e => { t with table := t.table.erase e.net }
  | none => t

/-- `route_entry_update`: delete, then add.  What was deleted stays so when the new entry is refused. -/
def routeEntryUpdate (t : RouteTable) (e : RouteEntry) : RouteTable :=
  let t := routeEntryDelete t e.dest e.prefixlen
  (routeEntryAdd t e).getD t

def routeEntryGet (t : RouteTable) (dest : Addr) (prefixlen : Fin 33) : Option NextHop :=
  (t.search dest prefixlen).map RouteEntry.hop

/-- `route_entries_all_clear`: every entry removed is counted off. -/
def routeEntriesAllClear (t : RouteTable) : RouteTable :=
  ⟨.empty, t.table.entries.foldl (fun num _ => num - 1) t.num⟩

/-- The loop of `route_entries_all_copy`, which gives up at the first entry refused. -/
def copyEntries : RouteTable → List RouteEntry → RouteTable
  | t, [] => t
  | t, e :: entries =>
    match routeEntryAdd t e with
    | some t => copyEntries t entries
    | none => t

/-! ## Tables side by side -/

section Tables

variable {ι : Type} [DecidableEq ι]

/-- The calls the table is driven by; a bridge keeps several tables and copies one
onto another. -/
inductive RouteOp (ι : Type) where
  | update (i : ι) (e : RouteEntry)
  | delete (i : ι) (dest : Addr) (prefixlen : Fin 33)
  | allCopy (src dst : ι)

/-- One call.  `route_entries_all_copy` clears the destination before it reads the
source. -/
def RouteOp.step (s : ι → RouteTable) : RouteOp ι → ι → RouteTable
  | .update i e => Function.update s i (routeEntryUpdate (s i) e)
  | .delete i dest prefixlen => Function.update s i (routeEntryDelete (s i) dest prefixlen)
  | .allCopy src dst =>
    let cleared := Function.update s dst (routeEntriesAllClear (s dst))
    Function.update cleared dst (copyEntries (cleared dst) (cleared src).table.entries)

def run (s : ι → RouteTable) (ops : List (RouteOp ι)) : ι → RouteTable :=
  ops.foldl RouteOp.step s

/-! ## What the tables stand for -/

/-- A table of routes as a map from networks. -/
abbrev Routes := Net 32 → Option NextHop

def RouteTable.routes (t : RouteTable) : Routes := fun n => (t.table.get n).map RouteEntry.hop

def RouteOp.spec (m : ι → Routes) : RouteOp ι → ι → Routes
  | .update i e => Function.update m i (Function.update (m i) e.net (some e.hop))
  | .delete i dest prefixlen =>
    Function.update m i (Function.update (m i) (Net.of dest prefixlen) none)
  | .allCopy src dst => Function.update m dst (m src)

def specRun (m : ι → Routes) (ops : List (RouteOp ι)) : ι → Routes := ops.foldl RouteOp.spec m

/-- The next hop of the longest network that contains the address. -/
def LongestMatch (m : Routes) (addr : Addr) (hop : NextHop) : Prop :=
  ∃ n : Net 32, n.Contains addr ∧ m n = some hop ∧
    ∀ k : Net 32, k.Contains addr → m k ≠ none → k.len ≤ n.len

/-- The search finds the network named, or nothing. -/
def RouteTable.Exact (t : RouteTable) (dest : Addr) (prefixlen : Fin 33) : Prop :=
  prefixlen = IPV4_BITLEN →
    t.routes (Net.of dest prefixlen) ≠ none ∨ ∀ n : Net 32, n.Contains dest → t.routes n = none

/-- The count of the table is the number of its entries. -/
def RouteTable.Counted (t : RouteTable) : Prop := t.num = ofNat t.table.entries.length

def RouteOp.Exact (s : ι → RouteTable) : RouteOp ι → Prop
  | .update i e => e.Masked ∧ (s i).Exact e.dest e.prefixlen
  | .delete i dest prefixlen => (s i).Exact dest prefixlen
  | .allCopy src dst => src = dst → ∀ n, (s src).routes n = none

/-- The call removes nothing that the count would still include. -/
def RouteOp.Fresh (s : ι → RouteTable) : RouteOp ι → Prop
  | .update i e => (s i).search e.dest e.prefixlen = none
  | .delete i dest prefixlen => (s i).search dest prefixlen = none
  | .allCopy _ _ => True

end Tables

/-! ## What a search finds -/

variable {prefixlen : Fin 33}

theorem search_masked (t : RouteTable) (dest : Addr) (h : prefixlen ≠ IPV4_BITLEN) :
    t.search dest prefixlen = t.table.get (Net.of dest prefixlen) := by
  rw [RouteTable.search, if_neg h]
  exact t.table.longest_exact dest prefixlen

theorem search_host (t : RouteTable) (dest : Addr) :
    t.search dest IPV4_BITLEN = t.table.longest (fun _ => true) dest := if_pos rfl

variable {t : RouteTable} {dest : Addr} {e : RouteEntry}

theorem mem_of_search (h : t.search dest prefixlen = some e) : e ∈ t.table.entries := by
  by_cases hhost : prefixlen = IPV4_BITLEN
  · subst hhost
    rw [search_host, longest_eq_some_iff] at h
    exact h.1.1
  · rw [search_masked t dest hhost, get_eq_some_iff] at h
    exact h.1

theorem routes_eq_none_iff (t : RouteTable) (n : Net 32) :
    t.routes n = none ↔ t.table.get n = none := Option.map_eq_none_iff

theorem routes_of_mem (he : e ∈ t.table.entries) : t.routes e.net = some e.hop := by
  have hget : t.table.get e.net = some e := t.table.get_eq_some_iff.2 ⟨he, rfl⟩
  simp [RouteTable.routes, hget]

theorem search_eq_none (h : t.search dest prefixlen = none) : t.routes (Net.of dest prefixlen) = none := by
  rw [routes_eq_none_iff]
  by_cases hhost : prefixlen = IPV4_BITLEN
  · subst hhost
    rw [search_host, longest_eq_none_iff] at h
    rw [get_eq_none_iff]
    intro e he hnet
    have hcontains : (RouteEntry.net e).Contains dest := (Net.contains_of_iff (by rw [hnet]; rfl)).2 hnet
    exact absurd (h e he hcontains) (by simp)
  · rwa [search_masked t dest hhost] at h

theorem search_exact_iff (t : RouteTable) (dest : Addr) (prefixlen : Fin 33) :
    (∀ e, t.search dest prefixlen = some e → e.net = Net.of dest prefixlen) ↔
      t.Exact dest prefixlen := by
  by_cases hhost : prefixlen = IPV4_BITLEN
  · subst hhost
    constructor
    · intro h _
      cases hsearch : t.search dest IPV4_BITLEN with
      | none =>
        refine .inr fun n hn => (routes_eq_none_iff t n).2 ?_
        rw [search_host, longest_eq_none_iff] at hsearch
        rw [get_eq_none_iff]
        rintro e he rfl
        exact absurd (hsearch e he hn) (by simp)
      | some e =>
        rw [← h e hsearch, routes_of_mem (mem_of_search hsearch)]
        exact .inl (by simp)
    · intro h e hsearch
      have hfound := hsearch
      rw [search_host, longest_eq_some_iff] at hfound
      obtain ⟨⟨he, hcontains, -⟩, hmax⟩ := hfound
      rcases h rfl with hhave | hnone
      · -- the host route itself is a candidate, and nothing is longer
        obtain ⟨d, hd⟩ := Option.ne_none_iff_exists'.1 (fun hget => hhave ((routes_eq_none_iff t _).2 hget))
        obtain ⟨hin, hnet⟩ := t.table.get_eq_some_iff.1 hd
        have hlen : d.net.len = IPV4_BITLEN := by rw [hnet]; rfl
        have hle := hmax d hin ((Net.contains_of_iff hlen).2 hnet) rfl
        rw [hlen] at hle
        exact (Net.contains_of_iff (le_antisymm (Fin.le_last _) hle)).1 hcontains
      · exact absurd (hnone e.net hcontains) (by simp [routes_of_mem he])
  · refine iff_of_true (fun e h => ?_) (fun h => absurd h hhost)
    rw [search_masked t dest hhost, get_eq_some_iff] at h
    exact h.2

theorem exact_of_search_eq_none (h : t.search dest prefixlen = none) : t.Exact dest prefixlen :=
  (search_exact_iff t dest prefixlen).1 (by simp [h])

/-! ## One call -/

theorem routes_remove (t : RouteTable) (e : RouteEntry) :
    ({ t with table := t.table.erase e.net } : RouteTable).routes =
      Function.update t.routes e.net none := by
  funext n
  simp only [RouteTable.routes, get_erase]
  by_cases hn : n = e.net
  · simp [hn]
  · simp [RouteTable.routes, update_of_ne hn]

theorem routes_delete_iff (t : RouteTable) (dest : Addr) (prefixlen : Fin 33) :
    (routeEntryDelete t dest prefixlen).routes =
        Function.update t.routes (Net.of dest prefixlen) none ↔ t.Exact dest prefixlen := by
  rw [← search_exact_iff, routeEntryDelete]
  cases hsearch : t.search dest prefixlen with
  | none =>
    refine iff_of_true ?_ (by simp)
    exact (update_eq_self_iff.2 (search_eq_none hsearch).symm).symm
  | some e =>
    simp only [Option.some.injEq, forall_eq', routes_remove]
    constructor
    · intro h
      by_contra hne
      have hat := congrFun h e.net
      rw [update_self, update_of_ne hne, routes_of_mem (mem_of_search hsearch)] at hat
      simp at hat
    · intro h
      rw [h]

theorem routes_delete_self (t : RouteTable) (dest : Addr) (prefixlen : Fin 33) :
    (routeEntryDelete t dest prefixlen).routes (Net.of dest prefixlen) = none := by
  by_cases hexact : t.Exact dest prefixlen
  · rw [(routes_delete_iff t dest prefixlen).2 hexact, update_self]
  · have hnone : t.routes (Net.of dest prefixlen) = none := by
      by_contra hhave
      exact hexact fun _ => .inl hhave
    rw [routeEntryDelete]
    cases t.search dest prefixlen with
    | none => exact hnone
    | some e =>
      simp only [routes_remove]
      by_cases hn : Net.of dest prefixlen = e.net
      · rw [hn, update_self]
      · rw [update_of_ne hn, hnone]

theorem routes_insert {table : KeyedStore RouteEntry.net} (h : t.table.insert e = some table)
    (num : UInt32) : (⟨table, num⟩ : RouteTable).routes = Function.update t.routes e.net (some e.hop) := by
  funext n
  simp only [RouteTable.routes, get_insert h]
  by_cases hn : n = e.net
  · simp [hn]
  · simp [RouteTable.routes, update_of_ne hn]

theorem update_succeeds (t : RouteTable) (he : e.Masked) :
    ∃ table, (routeEntryDelete t e.dest e.prefixlen).table.insert e = some table ∧
      routeEntryUpdate t e = ⟨table, (routeEntryDelete t e.dest e.prefixlen).num + 1⟩ := by
  have hgone := routes_delete_self t e.dest e.prefixlen
  cases hinsert : (routeEntryDelete t e.dest e.prefixlen).table.insert e with
  | none =>
    rw [insert_eq_none_iff] at hinsert
    exact absurd ((routes_eq_none_iff _ _).1 hgone) hinsert
  | some table =>
    refine ⟨table, rfl, ?_⟩
    simp [routeEntryUpdate, routeEntryAdd, he, hinsert]

theorem update_refused (t : RouteTable) (he : ¬ e.Masked) :
    routeEntryUpdate t e = routeEntryDelete t e.dest e.prefixlen := by
  simp [routeEntryUpdate, routeEntryAdd, he]

theorem routes_update_iff (t : RouteTable) (e : RouteEntry) :
    (routeEntryUpdate t e).routes = Function.update t.routes e.net (some e.hop) ↔
      e.Masked ∧ t.Exact e.dest e.prefixlen := by
  by_cases he : e.Masked
  swap
  · -- the network is gone, and nothing has come in its place
    refine iff_of_false (fun h => ?_) fun h => he h.1
    have hat := congrFun h e.net
    rw [update_refused t he, update_self, RouteEntry.net, routes_delete_self] at hat
    simp at hat
  rw [and_iff_right he]
  obtain ⟨table, hinsert, heq⟩ := update_succeeds t he
  rw [heq, routes_insert hinsert]
  constructor
  · intro h
    rw [← search_exact_iff]
    intro d hsearch
    by_contra hne
    have hne : d.net ≠ e.net := hne
    have hat := congrFun h d.net
    rw [update_of_ne hne, update_of_ne hne, routes_of_mem (mem_of_search hsearch)] at hat
    simp [routeEntryDelete, hsearch, routes_remove] at hat
  · intro h
    rw [(routes_delete_iff t e.dest e.prefixlen).2 h]
    exact update_idem _ _ _

/-! ## Copying a table -/

/-- The tree holds networks without bits behind their masks. -/
def RouteTable.Masked (t : RouteTable) : Prop := ∀ e ∈ t.table.entries, e.Masked

theorem masked_add {t' : RouteTable} (ht : t.Masked) (h : routeEntryAdd t e = some t') : t'.Masked := by
  unfold routeEntryAdd at h
  split_ifs at h with he
  obtain ⟨table, hinsert, rfl⟩ := Option.map_eq_some_iff.1 h
  unfold KeyedStore.insert at hinsert
  split_ifs at hinsert
  obtain rfl := Option.some.inj hinsert
  exact List.forall_mem_cons.2 ⟨he, ht⟩

theorem masked_delete (ht : t.Masked) (dest : Addr) (prefixlen : Fin 33) :
    (routeEntryDelete t dest prefixlen).Masked := by
  rw [routeEntryDelete]
  cases t.search dest prefixlen with
  | none => exact ht
  | some d => exact fun e he => ht e (mem_erase.1 he).1

theorem masked_update (ht : t.Masked) (e : RouteEntry) : (routeEntryUpdate t e).Masked := by
  have hdelete := masked_delete ht e.dest e.prefixlen
  rw [routeEntryUpdate]
  cases hadd : routeEntryAdd (routeEntryDelete t e.dest e.prefixlen) e with
  | none => exact hdelete
  | some t' => exact masked_add hdelete hadd

theorem masked_copyEntries (ht : t.Masked) (entries : List RouteEntry) : (copyEntries t entries).Masked := by
  induction entries generalizing t with
  | nil => exact ht
  | cons e entries ih =>
    rw [copyEntries]
    cases hadd : routeEntryAdd t e with
    | none => exact ht
    | some t' => exact ih (masked_add ht hadd)

theorem copyEntries_eq (t : RouteTable) (entries : List RouteEntry) (hmasked : ∀ e ∈ entries, e.Masked)
    (hnodup : (entries.map RouteEntry.net).Nodup) (hnew : ∀ e ∈ entries, t.routes e.net = none) :
    (copyEntries t entries).table.entries = entries.reverse ++ t.table.entries ∧
      (copyEntries t entries).num = t.num + ofNat entries.length := by
  induction entries generalizing t with
  | nil => simp [copyEntries]
  | cons e entries ih =>
    obtain ⟨hnotin, hrest⟩ := List.nodup_cons.1 hnodup
    obtain ⟨he, hothers⟩ := List.forall_mem_cons.1 hnew
    obtain ⟨hemasked, hmasked⟩ := List.forall_mem_cons.1 hmasked
    have hadd : ∃ table, t.table.insert e = some table ∧ table.entries = e :: t.table.entries := by
      have hin : RouteEntry.net e ∉ t.table.entries.map RouteEntry.net := by
        intro hmem
        obtain ⟨d, hd, hnet⟩ := List.mem_map.1 hmem
        have hroute := routes_of_mem hd
        rw [hnet, he] at hroute
        exact absurd hroute (by simp)
      exact ⟨_, dif_neg hin, rfl⟩
    obtain ⟨table, hinsert, hentries⟩ := hadd
    have hstep : copyEntries t (e :: entries) = copyEntries ⟨table, t.num + 1⟩ entries := by
      simp [copyEntries, routeEntryAdd, hemasked, hinsert]
    have hcopied := ih ⟨table, t.num + 1⟩ hmasked hrest (by
      intro d hd
      have hne : d.net ≠ e.net := fun heq => hnotin (heq ▸ List.mem_map_of_mem hd)
      rw [routes_insert hinsert, update_of_ne hne]
      exact hothers d hd)
    rw [hstep, hcopied.1, hcopied.2, hentries]
    refine ⟨by simp, ?_⟩
    rw [List.length_cons, Nat.add_comm, UInt32.ofNat_add, UInt32.add_assoc]
    rfl

section Tables

variable {ι : Type} [DecidableEq ι] (s : ι → RouteTable)

theorem masked_step (hs : ∀ i, (s i).Masked) (op : RouteOp ι) : ∀ i, (op.step s i).Masked := by
  have hupdate : ∀ {s : ι → RouteTable} {i : ι} {t : RouteTable}, (∀ j, (s j).Masked) → t.Masked →
      ∀ j, (Function.update s i t j).Masked := by
    intro s i t hs ht j
    by_cases hj : j = i
    · subst hj
      simpa using ht
    · simpa [update_of_ne hj] using hs j
  cases op with
  | update i e => exact hupdate hs (masked_update (hs i) e)
  | delete i dest prefixlen => exact hupdate hs (masked_delete (hs i) dest prefixlen)
  | allCopy src dst =>
    have hcleared := hupdate (i := dst) (t := routeEntriesAllClear (s dst)) hs (fun _ h => by cases h)
    exact hupdate hcleared (masked_copyEntries (hcleared dst) _)

theorem step_allCopy {src dst : ι} (hsrc : (s src).Masked) (hne : src ≠ dst) :
    ((RouteOp.allCopy src dst).step s dst).table.entries = (s src).table.entries.reverse ∧
      ((RouteOp.allCopy src dst).step s dst).num =
        (routeEntriesAllClear (s dst)).num + ofNat (s src).table.entries.length := by
  have hcopy := copyEntries_eq (routeEntriesAllClear (s dst)) (s src).table.entries hsrc
    (s src).table.distinct (fun _ _ => rfl)
  have hempty : (routeEntriesAllClear (s dst)).table.entries = [] := rfl
  simpa [RouteOp.step, update_of_ne hne, hempty] using hcopy

theorem step_allCopy_self (i : ι) : (RouteOp.allCopy i i).step s i = routeEntriesAllClear (s i) := by
  simp only [RouteOp.step, update_self]
  rfl

theorem routes_allCopy_iff {src : ι} (hsrc : (s src).Masked) (dst : ι) : (fun i => ((RouteOp.allCopy src dst).step s i).routes) =
        RouteOp.spec (fun i => (s i).routes) (.allCopy src dst) ↔
      (src = dst → ∀ n, (s src).routes n = none) := by
  by_cases hne : src = dst
  · subst hne
    have hself : (fun i => ((RouteOp.allCopy src src).step s i).routes) =
        Function.update (fun i => (s i).routes) src (fun _ => none) := by
      funext i
      by_cases hi : i = src
      · subst hi
        rw [step_allCopy_self, update_self]
        rfl
      · simp [RouteOp.step, update_of_ne hi]
    rw [hself]
    simp only [RouteOp.spec, update_eq_self]
    constructor
    · intro h _ n
      have hat := congrFun (congrFun h src) n
      simpa using hat.symm
    · intro h
      exact update_eq_self_iff.2 (funext fun n => (h trivial n).symm)
  · refine iff_of_true ?_ (fun h => absurd h hne)
    funext i
    by_cases hi : i = dst
    · subst hi
      have hget := get_congr (s := ((RouteOp.allCopy src i).step s i).table)
        (t := (s src).table) (fun e => by simp [(step_allCopy s hsrc hne).1])
      funext n
      simp [RouteOp.spec, RouteTable.routes, hget]
    · simp [RouteOp.step, RouteOp.spec, update_of_ne hi]

/-- A call does to the map of its table what it ought to, and leaves the other tables
alone, exactly when it is `Exact`. -/
theorem routes_step_iff (hs : ∀ i, (s i).Masked) (op : RouteOp ι) :
    (fun i => (op.step s i).routes) = op.spec (fun i => (s i).routes) ↔ op.Exact s := by
  have hupdate : ∀ (i : ι) (t : RouteTable) (m : Routes), (fun j => (Function.update s i t j).routes) =
          Function.update (fun j => (s j).routes) i m ↔ t.routes = m := by
    intro i t m
    constructor
    · intro h
      simpa using congrFun h i
    · rintro rfl
      funext j
      by_cases hj : j = i
      · subst hj
        simp
      · simp [update_of_ne hj]
  cases op with
  | update i e => exact (hupdate i _ _).trans (routes_update_iff (s i) e)
  | delete i dest prefixlen => exact (hupdate i _ _).trans (routes_delete_iff (s i) dest prefixlen)
  | allCopy src dst => exact routes_allCopy_iff s (hs src) dst

/-! ## The count -/

theorem ofNat_succ_ne (n : Nat) : UInt32.ofNat n ≠ UInt32.ofNat n + 1 := by
  intro h
  have hval := congrArg UInt32.toNat h
  simp only [UInt32.toNat_add, UInt32.toNat_ofNat', UInt32.reduceToNat] at hval
  omega

theorem counted_clear (h : t.Counted) : (routeEntriesAllClear t).num = 0 := by
  have hfold : ∀ (entries : List RouteEntry),
      entries.foldl (fun num _ => num - 1) (ofNat entries.length) = 0 := by
    intro entries
    induction entries with
    | nil => rfl
    | cons e entries ih =>
      have hone : ofNat (e :: entries).length - 1 = ofNat entries.length := by
        rw [List.length_cons, ofNat_add]
        exact UInt32.add_sub_cancel _ _
      rw [List.foldl_cons, hone, ih]
  unfold routeEntriesAllClear
  rw [h, hfold]

theorem counted_delete_iff (h : t.Counted) (dest : Addr) (prefixlen : Fin 33) :
    (routeEntryDelete t dest prefixlen).Counted ↔ t.search dest prefixlen = none := by
  rw [routeEntryDelete]
  cases hsearch : t.search dest prefixlen with
  | none => simpa using h
  | some e =>
    simp only [reduceCtorEq, iff_false]
    intro hcounted
    have hlength := length_erase (mem_of_search hsearch)
    unfold RouteTable.Counted at h hcounted
    rw [← hlength, ofNat_add] at h
    exact ofNat_succ_ne _ (hcounted.symm.trans h)

theorem counted_update_iff (h : t.Counted) (e : RouteEntry) :
    (routeEntryUpdate t e).Counted ↔ t.search e.dest e.prefixlen = none := by
  rw [← counted_delete_iff h]
  by_cases he : e.Masked
  swap
  · rw [update_refused t he]
  obtain ⟨table, hinsert, heq⟩ := update_succeeds t he
  have hentries : table.entries = e :: (routeEntryDelete t e.dest e.prefixlen).table.entries := by
    unfold KeyedStore.insert at hinsert
    split_ifs at hinsert
    rw [← Option.some.inj hinsert]
  rw [heq]
  simp only [RouteTable.Counted, hentries, List.length_cons, ofNat_add]
  exact UInt32.add_left_inj _

theorem num_step_iff {s : ι → RouteTable} (hs : ∀ i, (s i).Masked) (h : ∀ i, (s i).Counted)
    (op : RouteOp ι) :
    (∀ i, (op.step s i).Counted) ↔ op.Fresh s := by
  have hupdate : ∀ (i : ι) (t : RouteTable),
      (∀ j, (Function.update s i t j).Counted) ↔ t.Counted := by
    intro i t
    constructor
    · intro hall
      simpa using hall i
    · intro ht j
      by_cases hj : j = i
      · subst hj
        simpa using ht
      · simpa [update_of_ne hj] using h j
  cases op with
  | update i e => exact (hupdate i _).trans (counted_update_iff (h i) e)
  | delete i dest prefixlen => exact (hupdate i _).trans (counted_delete_iff (h i) dest prefixlen)
  | allCopy src dst =>
    refine iff_of_true (fun i => ?_) trivial
    by_cases hi : i = dst
    · subst hi
      by_cases hne : src = i
      · subst hne
        rw [step_allCopy_self]
        exact counted_clear (h src)
      · have hcopy := step_allCopy s (hs src) hne
        rw [RouteTable.Counted, hcopy.1, hcopy.2, counted_clear (h i)]
        simp
    · simpa [RouteOp.step, update_of_ne hi] using h i

/-! ## Whole runs -/

theorem masked_run (ops : List (RouteOp ι)) : ∀ i, (run (fun _ => RouteTable.init) ops i).Masked := by
  induction ops using List.reverseRecOn with
  | nil => exact fun i e he => by cases he
  | append_singleton ops op ih =>
    rw [run, List.foldl_append]
    exact masked_step _ ih op

theorem routes_run (hs : ∀ i, (s i).Masked) (ops : List (RouteOp ι))
    (h : EveryStep RouteOp.step RouteOp.Exact s ops) :
    (fun i => (run s ops i).routes) = specRun (fun i => (s i).routes) ops := by
  induction ops generalizing s with
  | nil => rfl
  | cons op ops ih =>
    have hstep := (routes_step_iff s hs op).2 h.1
    simp only [run, specRun, List.foldl_cons] at ih ⊢
    rw [← hstep]
    exact ih (op.step s) (masked_step s hs op) h.2

theorem num_run {s : ι → RouteTable} (hs : ∀ i, (s i).Masked) (hcounted : ∀ i, (s i).Counted)
    (ops : List (RouteOp ι)) (h : EveryStep RouteOp.step RouteOp.Fresh s ops) :
    ∀ i, (run s ops i).Counted := by
  induction ops generalizing s with
  | nil => exact hcounted
  | cons op ops ih => exact ih (masked_step s hs op) ((num_step_iff hs hcounted op).2 h.1) h.2

theorem routeEntryGet_iff (t : RouteTable) (addr : Addr) (hop : NextHop) :
    routeEntryGet t addr IPV4_BITLEN = some hop ↔ LongestMatch t.routes addr hop := by
  simp only [routeEntryGet, search_host, Option.map_eq_some_iff]
  constructor
  · rintro ⟨e, hfind, rfl⟩
    obtain ⟨⟨he, hcontains, -⟩, hmax⟩ := t.table.longest_eq_some_iff.1 hfind
    refine ⟨e.net, hcontains, routes_of_mem he, fun n hn hsome => ?_⟩
    obtain ⟨d, hd⟩ := Option.ne_none_iff_exists'.1 (fun hget => hsome ((routes_eq_none_iff t n).2 hget))
    obtain ⟨hin, rfl⟩ := t.table.get_eq_some_iff.1 hd
    exact hmax d hin hn rfl
  · rintro ⟨n, hcontains, hroute, hmax⟩
    obtain ⟨e, hget, rfl⟩ := Option.map_eq_some_iff.1 hroute
    obtain ⟨he, rfl⟩ := t.table.get_eq_some_iff.1 hget
    refine ⟨e, t.table.longest_eq_some_iff.2 ⟨⟨he, hcontains, rfl⟩, fun d hd hdc _ => ?_⟩, rfl⟩
    exact hmax d.net hdc (by simp [routes_of_mem hd])

/-- From empty tables: a run of exact calls keeps every table equal to its map, looks up
the longest match, and needs each call to be exact for that; and the counts are right
after a run whose calls remove nothing, and after no other call. -/
theorem routes_refine (ops : List (RouteOp ι))
    (hexact : EveryStep RouteOp.step RouteOp.Exact (fun _ => RouteTable.init) ops) :
    let s := run (fun _ => RouteTable.init) ops
    let m := specRun (fun _ _ => none) ops
    (∀ i, (s i).routes = m i) ∧
    (∀ i addr hop, routeEntryGet (s i) addr IPV4_BITLEN = some hop ↔ LongestMatch (m i) addr hop) ∧
    (∀ op : RouteOp ι, (fun i => (op.step s i).routes) = op.spec m ↔ op.Exact s) ∧
    (EveryStep RouteOp.step RouteOp.Fresh (fun _ => RouteTable.init) ops →
      (∀ i, (s i).Counted) ∧ ∀ op : RouteOp ι, (∀ i, (op.step s i).Counted) ↔ op.Fresh s) := by
  intro s m
  have hinit : ∀ i : ι, ((fun _ => RouteTable.init : ι → RouteTable) i).Masked := fun i e he => by cases he
  have hs : ∀ i, (s i).Masked := masked_run ops
  have hroutes : (fun i => (s i).routes) = m := routes_run _ hinit ops hexact
  refine ⟨congrFun hroutes, ?_, ?_, fun hfresh => ?_⟩
  · intro i addr hop
    rw [← hroutes]
    exact routeEntryGet_iff (s i) addr hop
  · intro op
    rw [← hroutes]
    exact routes_step_iff s hs op
  · have hcounted : ∀ i, (s i).Counted := num_run hinit (fun _ => by rfl) ops hfresh
    exact ⟨hcounted, num_step_iff hs hcounted⟩

end Tables

/-! ## On fixed routes -/

def viaGateway (gate : Addr) : NextHop := ⟨gate, 1, 0, 0⟩

/-- 10.0.0.0/8, 10.1.0.0/16 and the host 192.168.0.1, in the first table and copied to the
second. -/
def threeRoutes : List (RouteOp Bool) :=
  [.update false ⟨0x0a000000, 8, viaGateway 1⟩, .update false ⟨0x0a010000, 16, viaGateway 2⟩,
    .update false ⟨0xc0a80001, 32, viaGateway 3⟩, .allCopy false true]

theorem routes_refine_threeRoutes :
    routeEntryGet (run (fun _ => RouteTable.init) threeRoutes true) 0x0a010203 IPV4_BITLEN =
        some (viaGateway 2) ∧
      LongestMatch (specRun (fun _ _ => none) threeRoutes true) 0x0a010203 (viaGateway 2) ∧
      (run (fun _ => RouteTable.init) threeRoutes true).Counted := by
  have hexact : EveryStep RouteOp.step RouteOp.Exact (fun _ => init) threeRoutes := by
    refine ⟨?_, ?_, ?_, ?_, trivial⟩
    · exact ⟨by decide, exact_of_search_eq_none (by decide)⟩
    · exact ⟨by decide, exact_of_search_eq_none (by decide)⟩
    · exact ⟨by decide, exact_of_search_eq_none (by decide)⟩
    · exact fun h => absurd h (by decide)
  have hfresh : EveryStep RouteOp.step RouteOp.Fresh (fun _ => init) threeRoutes := by
    refine ⟨?_, ?_, ?_, trivial, trivial⟩ <;> (simp only [RouteOp.Fresh]; decide)
  have hget : routeEntryGet (run (fun _ => init) threeRoutes true) 0x0a010203
      IPV4_BITLEN = some (viaGateway 2) := by decide
  obtain ⟨-, hlongest, -, hcounted⟩ := routes_refine threeRoutes hexact
  exact ⟨hget, (hlongest true _ _).1 hget, (hcounted hfresh).1 true⟩

/-- Deleting a host route that is not there removes the route that covers it, and the count does not
notice.  An update whose destination has bits behind its mask removes the route of its network. -/
theorem delete_host_removes_cover :
    (run (fun _ => RouteTable.init) [.update () ⟨0x0a000000, 8, viaGateway 1⟩,
        .delete () 0x0a000001 IPV4_BITLEN] ()).routes (Net.of 0x0a000000 8) = none ∧
      (run (fun _ => RouteTable.init) [.update () ⟨0x0a000000, 8, viaGateway 1⟩,
        .delete () 0x0a000001 IPV4_BITLEN] ()).num = 1 ∧
      (run (fun _ => RouteTable.init) [.update () ⟨0x0a010200, 24, viaGateway 1⟩,
        .update () ⟨0x0a010203, 24, viaGateway 2⟩] ()).routes (Net.of 0x0a010200 24) = none := by
  decide

end Lagopus.Route
