import Lagopus.Pipeline.Cache
import Lagopus.Lib.Trace

/-!
# The banks of the flow cache

New entries go into the first bank.  A bank that is half full becomes the second one, whose entries are
dropped; a list of entries with the same `hash32_h` drops its oldest entry when it is full.  The number
of entries is counted beside the lists.

* `CacheCall`, `CacheRun.step`: calls of a cache, with the hashes that were registered and not dropped
  from a full list, the latest first;
* `FlowcacheBank.Holds`: a bank holds given hashes;
* `CacheRun.Banked`: the first bank has the latest hashes, the second bank the ones before them;
* `cache_exact`: counters, bounds, hits and misses along every run;
* `lookup_registered`: what is found was registered, and not cleared since.
-/

namespace Lagopus

/-! ## Calls -/

/-- `clear_all_cache_bank`. -/
def clearAllCacheBank (bank : FlowcacheBank) : FlowcacheBank :=
  if bank.nentries = 0 then bank else {}

/-- `clear_all_cache`. -/
def clearAllCache (cache : Flowcache) : Flowcache :=
  ⟨clearAllCacheBank cache.bank0, clearAllCacheBank cache.bank1⟩

namespace FlowcacheBank

/-- The list under a key. -/
def list (bank : FlowcacheBank) (key : Nat) : List CacheEntry := (bank.hashmap key).getD []

/-- The number of entries in the lists. -/
def stored (bank : FlowcacheBank) : Nat := ∑ key ∈ Finset.range (2 ^ 32), (bank.list key).length

/-- The hash that gives way when an entry is registered. -/
def evicted (bank : FlowcacheBank) (hash64 : Nat) : Option Nat :=
  if (bank.list (hash32h hash64)).length = CACHE_NODE_MAX_ENTRIES then
    (bank.list (hash32h hash64)).head?.map CacheEntry.hash64
  else none

end FlowcacheBank

inductive CacheCall
  | register (hash64 : BitVec 64) (flow : List FlowEntry)
  | lookup (hash64 : BitVec 64)
  | clear

/-- A cache, and the hashes that were registered since it was cleared and have not given way in a full
list, the latest first. -/
structure CacheRun where
  cache : Flowcache := {}
  kept : List Nat := []

namespace CacheRun

def step (s : CacheRun) : CacheCall → CacheRun
  | .register hash64 flow =>
    { cache := registerCache s.cache ⟨hash64.toNat, flow⟩
      kept := hash64.toNat :: s.kept.filter fun h =>
        h ≠ hash64.toNat ∧ s.cache.bank0.evicted hash64.toNat ≠ some h }
  | .lookup _ => s
  | .clear => { cache := clearAllCache s.cache }

/-- A hash is registered after it was missed. -/
def Missed (s : CacheRun) : CacheCall → Prop
  | .register hash64 _ => cacheLookup s.cache hash64.toNat = none
  | _ => True

/-- What is asked of every state. -/
structure Right (s : CacheRun) : Prop where
  counted : s.cache.bank0.nentries + s.cache.bank1.nentries =
    s.cache.bank0.stored + s.cache.bank1.stored
  bounded : s.cache.bank0.nentries + s.cache.bank1.nentries ≤ FLOWCACHE_MAX_ENTRIES
  lists : ∀ key, (s.cache.bank0.list key).length ≤ CACHE_NODE_MAX_ENTRIES ∧
    (s.cache.bank1.list key).length ≤ CACHE_NODE_MAX_ENTRIES
  hit : ∀ hash64 e, cacheLookup s.cache hash64 = some e → e.hash64 = hash64
  found : ∀ h ∈ s.kept.take (FLOWCACHE_MAX_ENTRIES / 2 - 1), (cacheLookup s.cache h).isSome = true
  cleared : ∀ hash64, cacheLookup (clearAllCache s.cache) hash64 = none

end CacheRun

/-! ## One bank -/

namespace FlowcacheBank

/-- The lists of a bank are those of the hashes `hs`, the latest of which comes first. -/
structure Holds (bank : FlowcacheBank) (hs : List Nat) : Prop where
  lists : ∀ key, (bank.list key).map CacheEntry.hash64 = hs.reverse.filter fun h => hash32h h = key
  counted : bank.nentries = hs.length
  nodup : hs.Nodup
  small : ∀ h ∈ hs, h < 2 ^ 64
  short : ∀ key, (bank.list key).length ≤ CACHE_NODE_MAX_ENTRIES

variable {bank : FlowcacheBank} {hs : List Nat}

theorem holds_nil : ({} : FlowcacheBank).Holds [] :=
  ⟨fun _ => rfl, rfl, List.nodup_nil, nofun, fun _ => Nat.zero_le _⟩

theorem lookup_eq_find (bank : FlowcacheBank) (hash64 : Nat) : cacheLookupBank bank hash64 =
      (bank.list (hash32h hash64)).find? fun e => hash32l hash64 = hash32l e.hash64 := by
  unfold cacheLookupBank list
  cases bank.hashmap (hash32h hash64) <;> rfl

theorem hash_eq {g h : Nat} (hhigh : hash32h g = hash32h h) (hlow : hash32l g = hash32l h) : g = h := by
  rw [← Nat.div_add_mod g (2 ^ 32), ← Nat.div_add_mod h (2 ^ 32)]
  exact congrArg₂ (fun q r => 2 ^ 32 * q + r) hhigh hlow

theorem list_registerCacheBank (bank : FlowcacheBank) (e : CacheEntry) (key : Nat) :
    (registerCacheBank bank e).list key =
      if key = hash32h e.hash64 then
        (if (bank.list key).length = CACHE_NODE_MAX_ENTRIES then (bank.list key).tail
          else bank.list key) ++ [e]
      else bank.list key := by
  simp only [registerCacheBank]
  rcases eq_or_ne key (hash32h e.hash64) with rfl | hne
  · split
    · next l hl => split <;> next hfull => simp [list, update, hl, hfull]
    · next hl => simp [list, update, hl, CACHE_NODE_MAX_ENTRIES]
  · split
    · split <;> simp [list, update, hne]
    · simp [list, update, hne]

theorem nentries_registerCacheBank (bank : FlowcacheBank) (e : CacheEntry) :
    (registerCacheBank bank e).nentries =
      if (bank.list (hash32h e.hash64)).length = CACHE_NODE_MAX_ENTRIES then bank.nentries
      else bank.nentries + 1 := by
  simp only [registerCacheBank]
  split
  · next l hl =>
    have hlist : bank.list (hash32h e.hash64) = l := by rw [list, hl, Option.getD_some]
    rw [hlist]
    split <;> rfl
  · next hl =>
    have hlist : bank.list (hash32h e.hash64) = [] := by rw [list, hl, Option.getD_none]
    rw [hlist, if_neg (by decide)]

namespace Holds

open List

variable (h : bank.Holds hs)

include h

variable {key hash64 : Nat} {e : CacheEntry}

theorem mem_of_mem_list (he : e ∈ bank.list key) : e.hash64 ∈ hs ∧ hash32h e.hash64 = key := by
  have hmem := mem_map_of_mem (f := CacheEntry.hash64) he
  rw [h.lists, mem_filter, mem_reverse, decide_eq_true_eq] at hmem
  exact hmem

theorem hash_of_lookup (he : cacheLookupBank bank hash64 = some e) : e.hash64 = hash64 := by
  rw [lookup_eq_find] at he
  have hlow := find?_some he
  rw [decide_eq_true_eq] at hlow
  exact hash_eq (h.mem_of_mem_list (mem_of_find?_eq_some he)).2 hlow.symm

theorem lookup_eq_none_iff (hash64 : Nat) : cacheLookupBank bank hash64 = none ↔ hash64 ∉ hs := by
  rw [lookup_eq_find, find?_eq_none]
  constructor
  · intro hnone hmem
    have hlist : hash64 ∈ (bank.list (hash32h hash64)).map CacheEntry.hash64 := by
      rw [h.lists, mem_filter, mem_reverse, decide_eq_true_eq]
      exact ⟨hmem, rfl⟩
    obtain ⟨e, he, rfl⟩ := mem_map.1 hlist
    exact hnone e he (decide_eq_true rfl)
  · intro hmem e he hlow
    rw [decide_eq_true_eq] at hlow
    obtain ⟨hin, hkey⟩ := h.mem_of_mem_list he
    rw [hash_eq hkey hlow.symm] at hin
    exact hmem hin

theorem stored_eq : bank.stored = bank.nentries := by
  have hlength (key : Nat) : (bank.list key).length = (hs.filter fun g => hash32h g = key).length := by
    rw [← length_map (f := CacheEntry.hash64), h.lists, filter_reverse, length_reverse]
  have hkeys : ∀ g ∈ hs, hash32h g ∈ Finset.range (2 ^ 32) := fun g hg => by
    have := h.small g hg
    rw [Finset.mem_range, hash32h]
    omega
  rw [stored, h.counted]
  simp only [hlength]
  clear h hlength
  induction hs with
  | nil => simp
  | cons g hs ih =>
    have hsum (key : Nat) : ((g :: hs).filter fun g => hash32h g = key).length =
        (if hash32h g = key then 1 else 0) + (hs.filter fun g => hash32h g = key).length := by
      rw [filter_cons]
      split_ifs with hd hkey hkey
      · rw [length_cons, Nat.add_comm]
      · exact absurd (of_decide_eq_true hd) hkey
      · exact absurd (decide_eq_true hkey) hd
      · rw [Nat.zero_add]
    simp only [hsum, Finset.sum_add_distrib, Finset.sum_ite_eq, if_pos (hkeys g mem_cons_self)]
    rw [ih fun g' hg' => hkeys g' (mem_cons_of_mem _ hg'), length_cons, Nat.add_comm]

theorem lookup_clear (hash64 : Nat) : cacheLookupBank (clearAllCacheBank bank) hash64 = none := by
  unfold clearAllCacheBank
  split
  · next hzero =>
    rw [h.counted, length_eq_zero_iff] at hzero
    rw [h.lookup_eq_none_iff, hzero]
    exact not_mem_nil
  · exact (holds_nil.lookup_eq_none_iff hash64).2 not_mem_nil

theorem clear : (clearAllCacheBank bank).Holds [] := by
  unfold clearAllCacheBank
  split
  · next hzero =>
    rw [h.counted, length_eq_zero_iff] at hzero
    rwa [hzero] at h
  · exact holds_nil

/-! ### Registering -/

theorem evicted_eq (hfull : (bank.list (hash32h hash64)).length = CACHE_NODE_MAX_ENTRIES) :
    ∃ old rest, bank.list (hash32h hash64) = old :: rest ∧
      bank.evicted hash64 = some old.hash64 ∧ old.hash64 ∈ hs ∧
      hash32h old.hash64 = hash32h hash64 := by
  cases hlist : bank.list (hash32h hash64) with
  | nil =>
    rw [hlist] at hfull
    cases hfull
  | cons old rest =>
    obtain ⟨hmem, hkey⟩ := h.mem_of_mem_list (hlist ▸ mem_cons_self : old ∈ _)
    refine ⟨old, rest, rfl, ?_, hmem, hkey⟩
    rw [evicted, if_pos hfull, hlist]
    rfl

theorem filter_ne_old {old : CacheEntry} {rest : List CacheEntry}
    (hlist : bank.list key = old :: rest) (key' : Nat) :
    (hs.filter (· ≠ old.hash64)).reverse.filter (fun g => hash32h g = key') =
      if key' = key then rest.map CacheEntry.hash64
      else (bank.list key').map CacheEntry.hash64 := by
  have hold := (h.mem_of_mem_list (hlist ▸ mem_cons_self : old ∈ _)).2
  rw [← filter_reverse, filter_comm, ← h.lists]
  split
  · next hkey =>
    have hnodup : ((bank.list key).map CacheEntry.hash64).Nodup := by
      rw [h.lists]
      exact (nodup_reverse.2 h.nodup).filter _
    rw [hlist, map_cons, nodup_cons] at hnodup
    rw [hkey, hlist, map_cons, filter_cons_of_neg (by simp), filter_eq_self]
    intro g hg
    simp only [ne_eq, decide_not, Bool.not_eq_true', decide_eq_false_iff_not]
    rintro rfl
    exact hnodup.1 hg
  · next hkey =>
    rw [filter_eq_self]
    intro g hg
    obtain ⟨e, he, rfl⟩ := mem_map.1 hg
    simp only [ne_eq, decide_not, Bool.not_eq_true', decide_eq_false_iff_not]
    intro heq
    exact hkey ((h.mem_of_mem_list he).2.symm.trans (heq ▸ hold))

/-- **A new entry comes first**, and what it drives out of a full list is gone. -/
theorem register (hnew : e.hash64 ∉ hs) (hsmall : e.hash64 < 2 ^ 64) : (registerCacheBank bank e).Holds
      (e.hash64 :: hs.filter fun g => bank.evicted e.hash64 ≠ some g) := by
  by_cases hfull : (bank.list (hash32h e.hash64)).length = CACHE_NODE_MAX_ENTRIES
  · obtain ⟨old, rest, hlist, hevicted, hmem, hkey⟩ := h.evicted_eq hfull
    have hfilter : (hs.filter fun g => bank.evicted e.hash64 ≠ some g) =
        hs.filter (· ≠ old.hash64) := by
      refine filter_congr fun g _ => ?_
      rw [hevicted]
      simp [eq_comm]
    have hlength : (hs.filter (· ≠ old.hash64)).length + 1 = hs.length := by
      have herase : hs.erase old.hash64 = hs.filter (· ≠ old.hash64) := by
        rw [h.nodup.erase_eq_filter]
        exact filter_congr fun g _ => by simp [bne, BEq.beq]
      rw [← herase, length_erase_of_mem hmem]
      have := length_pos_of_mem hmem
      omega
    rw [hfilter]
    refine ⟨fun key => ?_, ?_, ?_, ?_, fun key => ?_⟩
    · rw [list_registerCacheBank, reverse_cons, filter_append, h.filter_ne_old hlist]
      rcases eq_or_ne key (hash32h e.hash64) with rfl | hne
      · rw [if_pos rfl, if_pos rfl, if_pos hfull, hlist, map_append]
        simp
      · rw [if_neg hne, if_neg hne]
        simp [hne.symm]
    · rw [nentries_registerCacheBank, if_pos hfull, h.counted, length_cons, hlength]
    · refine nodup_cons.2 ⟨fun hin => hnew (mem_of_mem_filter hin), h.nodup.filter _⟩
    · exact forall_mem_cons.2 ⟨hsmall, fun g hg => h.small g (mem_of_mem_filter hg)⟩
    · rw [list_registerCacheBank]
      split
      · next hk =>
        subst hk
        rw [if_pos hfull, length_append, length_tail, hfull, length_singleton]
        decide
      · exact h.short key
  · have hfilter : (hs.filter fun g => bank.evicted e.hash64 ≠ some g) = hs := by
      rw [filter_eq_self]
      intro g _
      rw [evicted, if_neg hfull]
      rfl
    rw [hfilter]
    refine ⟨fun key => ?_, ?_, nodup_cons.2 ⟨hnew, h.nodup⟩, ?_, fun key => ?_⟩
    · rw [list_registerCacheBank, reverse_cons, filter_append, ← h.lists]
      rcases eq_or_ne key (hash32h e.hash64) with rfl | hne
      · rw [if_pos rfl, if_neg hfull, map_append]
        simp
      · rw [if_neg hne]
        simp [hne.symm]
    · rw [nentries_registerCacheBank, if_neg hfull, h.counted, length_cons]
    · exact forall_mem_cons.2 ⟨hsmall, h.small⟩
    · rw [list_registerCacheBank]
      split
      · next hk =>
        subst hk
        have := h.short (hash32h e.hash64)
        rw [if_neg hfull, length_append, length_singleton]
        omega
      · exact h.short key

theorem mem_of_evicted {g : Nat} (hg : bank.evicted hash64 = some g) : g ∈ hs := by
  by_cases hfull : (bank.list (hash32h hash64)).length = CACHE_NODE_MAX_ENTRIES
  · obtain ⟨old, -, -, hevicted, hmem, -⟩ := h.evicted_eq hfull
    cases hevicted.symm.trans hg
    exact hmem
  · rw [evicted, if_neg hfull] at hg
    cases hg

end Holds

end FlowcacheBank

/-! ## Two banks -/

namespace CacheRun

/-- The latest hashes are in the first bank, those before them in the second.  A second bank that was
never filled has had nothing before it. -/
structure Banked (s : CacheRun) (new old gone : List Nat) : Prop where
  first : s.cache.bank0.Holds new
  second : s.cache.bank1.Holds old
  kept_eq : s.kept = new ++ old ++ gone
  nodup : s.kept.Nodup
  half : new.length < FLOWCACHE_MAX_ENTRIES / 2
  full : old = [] ∧ gone = [] ∨ old.length = FLOWCACHE_MAX_ENTRIES / 2

variable {s : CacheRun} {new old gone : List Nat}

namespace Banked

open List

variable (h : s.Banked new old gone)

include h

theorem lookup_eq_none_iff (hash64 : Nat) :
    cacheLookup s.cache hash64 = none ↔ hash64 ∉ new ∧ hash64 ∉ old := by
  rw [cacheLookup, Option.or_eq_none_iff, h.first.lookup_eq_none_iff, h.second.lookup_eq_none_iff]

theorem filter_kept {x : Nat} (hnew : x ∉ new) (hold : x ∉ old) :
    (s.kept.filter fun g => g ≠ x ∧ s.cache.bank0.evicted x ≠ some g) =
      (new.filter fun g => s.cache.bank0.evicted x ≠ some g) ++ old ++
        gone.filter fun g => g ≠ x ∧ s.cache.bank0.evicted x ≠ some g := by
  have hnodup := h.nodup
  rw [h.kept_eq, append_assoc, nodup_append] at hnodup
  rw [h.kept_eq, filter_append, filter_append]
  congr 2
  · refine filter_congr fun g hg => ?_
    have hne : g ≠ x := fun heq => hnew (heq ▸ hg)
    simp [hne]
  · -- what is driven out comes from the first bank
    rw [filter_eq_self]
    intro g hg
    have hne : g ≠ x := fun heq => hold (heq ▸ hg)
    have hstays : s.cache.bank0.evicted x ≠ some g := fun heq =>
      hnodup.2.2 g (h.first.mem_of_evicted heq) g (mem_append_left _ hg) rfl
    exact decide_eq_true ⟨hne, hstays⟩

theorem register {hash64 : BitVec 64} (flow : List FlowEntry)
    (hmiss : cacheLookup s.cache hash64.toNat = none) :
    ∃ new' old' gone', (s.step (.register hash64 flow)).Banked new' old' gone' := by
  obtain ⟨hnew, hold⟩ := (h.lookup_eq_none_iff _).1 hmiss
  have hbank := h.first.register (e := ⟨hash64.toNat, flow⟩) hnew hash64.isLt
  obtain ⟨gone', hkept, hgone'⟩ : ∃ gone', (s.step (.register hash64 flow)).kept =
      hash64.toNat :: (new.filter (fun g => s.cache.bank0.evicted hash64.toNat ≠ some g) ++ old ++
        gone') ∧ (gone = [] → gone' = []) :=
    ⟨_, congrArg (hash64.toNat :: ·) (h.filter_kept hnew hold), fun hnil => by rw [hnil]; rfl⟩
  have hnodup : (s.step (.register hash64 flow)).kept.Nodup := by
    refine nodup_cons.2 ⟨fun hin => ?_, h.nodup.filter _⟩
    exact (of_decide_eq_true (mem_filter.1 hin).2).1 rfl
  have hcount := hbank.counted
  have hlength : (hash64.toNat :: new.filter fun g =>
      s.cache.bank0.evicted hash64.toNat ≠ some g).length ≤ new.length + 1 :=
    Nat.succ_le_succ (length_filter_le _ _)
  have hhalf := h.half
  by_cases hrotate : FLOWCACHE_MAX_ENTRIES / 2 ≤
      (registerCacheBank s.cache.bank0 ⟨hash64.toNat, flow⟩).nentries
  · have hcache : (s.step (.register hash64 flow)).cache =
        { bank0 := {}, bank1 := registerCacheBank s.cache.bank0 ⟨hash64.toNat, flow⟩ } := by
      simp [step, registerCache, if_pos hrotate]
    refine ⟨[], _, old ++ gone', ⟨?_, by rw [hcache]; exact hbank, ?_, hnodup, by decide, .inr ?_⟩⟩
    · rw [hcache]
      exact FlowcacheBank.holds_nil
    · rw [hkept, nil_append, append_assoc]
      rfl
    · rw [hcount] at hrotate
      exact le_antisymm (hlength.trans hhalf) hrotate
  · have hcache : (s.step (.register hash64 flow)).cache =
        { s.cache with bank0 := registerCacheBank s.cache.bank0 ⟨hash64.toNat, flow⟩ } := by
      simp [step, registerCache, if_neg hrotate]
    refine ⟨_, old, gone', ⟨by rw [hcache]; exact hbank, ?_, ?_, hnodup, ?_, ?_⟩⟩
    · rw [hcache]
      exact h.second
    · exact hkept
    · rw [hcount] at hrotate
      exact Nat.lt_of_not_le hrotate
    · rcases h.full with ⟨hnil, hgone⟩ | hfull
      · exact .inl ⟨hnil, hgone' hgone⟩
      · exact .inr hfull

theorem clear : (s.step .clear).Banked [] [] [] :=
  ⟨h.first.clear, h.second.clear, rfl, nodup_nil, by decide, .inl ⟨rfl, rfl⟩⟩

theorem step {e : CacheCall} (hmiss : s.Missed e) :
    ∃ new' old' gone', (s.step e).Banked new' old' gone' := by
  cases e with
  | register hash64 flow => exact h.register flow hmiss
  | lookup hash64 => exact ⟨new, old, gone, h⟩
  | clear => exact ⟨[], [], [], h.clear⟩

theorem found {g : Nat} (hg : g ∈ s.kept.take (FLOWCACHE_MAX_ENTRIES / 2 - 1)) :
    (cacheLookup s.cache g).isSome = true := by
  rw [Option.isSome_iff_ne_none, ne_eq, h.lookup_eq_none_iff, not_and_or, not_not, not_not, ← mem_append]
  rw [h.kept_eq] at hg
  rcases h.full with ⟨-, hgone⟩ | hfull
  · rw [hgone, append_nil] at hg
    exact mem_of_mem_take hg
  · have hlong : FLOWCACHE_MAX_ENTRIES / 2 - 1 ≤ (new ++ old).length := by
      rw [length_append]
      omega
    rw [take_append_of_le_length hlong] at hg
    exact mem_of_mem_take hg

theorem right : s.Right where
  counted := by rw [h.first.stored_eq, h.second.stored_eq]
  bounded := by
    have hhalf := h.half
    rw [h.first.counted, h.second.counted]
    rcases h.full with ⟨hnil, -⟩ | hfull
    · rw [hnil, length_nil]
      omega
    · omega
  lists key := ⟨h.first.short key, h.second.short key⟩
  hit hash64 e he := by
    rcases Option.or_eq_some_iff.1 he with hfirst | ⟨-, hsecond⟩
    · exact h.first.hash_of_lookup hfirst
    · exact h.second.hash_of_lookup hsecond
  found _ hg := h.found hg
  cleared hash64 := by
    rw [cacheLookup, Option.or_eq_none_iff]
    exact ⟨h.first.lookup_clear hash64, h.second.lookup_clear hash64⟩

end Banked

/-- **The bookkeeping of the flow cache is bounded and exact** along every run in which hashes are
registered after they were missed. -/
theorem cache_exact {es : List CacheCall} (h : Trace.EveryStep step Missed {} es) :
    (es.foldl step {}).Right := by
  have hkeep (s : CacheRun) (e : CacheCall) (hs : ∃ new old gone, s.Banked new old gone)
      (he : s.Missed e) : ∃ new old gone, (s.step e).Banked new old gone := by
    obtain ⟨new, old, gone, hbanked⟩ := hs
    exact hbanked.step he
  have hinit : ({} : CacheRun).Banked [] [] [] :=
    ⟨FlowcacheBank.holds_nil, FlowcacheBank.holds_nil, rfl, List.nodup_nil, by decide, Or.inl ⟨rfl, rfl⟩⟩
  obtain ⟨new, old, gone, hbanked⟩ := h.foldl_invariant hkeep ⟨_, _, _, hinit⟩
  exact hbanked.right

/-- After a clearing, three hashes are stored, two of them in one list. -/
theorem cache_exact_of_register :
    let s := [CacheCall.register 5 [], .lookup 5, .clear, .register 7 [], .lookup 7,
      .register 0x100000007 [], .register 8 []].foldl step {}
    s.Right ∧ s.kept = [8, 0x100000007, 7] ∧ s.cache.bank0.nentries = 3 :=
  ⟨cache_exact ⟨rfl, trivial, trivial, rfl, trivial, rfl, rfl, trivial⟩, rfl, rfl⟩

end CacheRun

/-! ## Where an entry comes from -/

namespace FlowcacheBank

/-- What is in the lists is as `P` has it, each entry under its `hash32_h`. -/
structure Stores (bank : FlowcacheBank) (P : CacheEntry → Prop) : Prop where
  stored : ∀ key, ∀ e ∈ bank.list key, hash32h e.hash64 = key ∧ P e
  empty : bank.nentries = 0 → ∀ key, bank.list key = []

variable {bank : FlowcacheBank} {P Q : CacheEntry → Prop}

theorem stores_nil : ({} : FlowcacheBank).Stores P where
  stored _ _ he := absurd he List.not_mem_nil
  empty _ _ := rfl

namespace Stores

variable (h : bank.Stores P)

include h

theorem mono (hPQ : ∀ e, P e → Q e) : bank.Stores Q :=
  ⟨fun key e he => (h.stored key e he).imp_right (hPQ e), h.empty⟩

theorem register {e : CacheEntry} (he : P e) : (registerCacheBank bank e).Stores P where
  stored key d hd := by
    rw [list_registerCacheBank] at hd
    split at hd
    · next hkey =>
      rcases List.mem_append.mp hd with hd | hd
      · apply h.stored key d
        split at hd
        · exact List.mem_of_mem_tail hd
        · exact hd
      · rw [List.mem_singleton.mp hd]
        exact ⟨hkey.symm, he⟩
    · exact h.stored key d hd
  empty hzero := by
    rw [nentries_registerCacheBank] at hzero
    split at hzero
    · next hfull =>
      rw [h.empty hzero] at hfull
      cases hfull
    · cases hzero

/-- A bank whose counter is zero is left alone. -/
theorem cleared : (clearAllCacheBank bank).Stores Q := by
  unfold clearAllCacheBank
  split
  · next hzero =>
    refine ⟨fun key e he => ?_, h.empty⟩
    rw [h.empty hzero] at he
    cases he
  · exact stores_nil

theorem lookup {hash64 : Nat} {e : CacheEntry} (he : cacheLookupBank bank hash64 = some e) :
    P e ∧ e.hash64 = hash64 := by
  rw [lookup_eq_find] at he
  obtain ⟨hhigh, hP⟩ := h.stored _ e (List.mem_of_find?_eq_some he)
  have hlow : hash32l hash64 = hash32l e.hash64 := by simpa using List.find?_some he
  exact ⟨hP, hash_eq hhigh hlow.symm⟩

end Stores

end FlowcacheBank

namespace CacheRun

/-- The entry was registered by one of the calls, and no clear comes after it. -/
def Registered (es : List CacheCall) (e : CacheEntry) : Prop :=
  ∃ before after hash64, es = before ++ .register hash64 e.flow :: after ∧ .clear ∉ after ∧
    e.hash64 = hash64.toNat

theorem Registered.concat {es : List CacheCall} {c : CacheCall} (hc : c ≠ .clear) (e : CacheEntry)
    (h : Registered es e) : Registered (es ++ [c]) e := by
  obtain ⟨before, after, hash64, rfl, hno, hhash⟩ := h
  refine ⟨before, after ++ [c], hash64, by simp, ?_, hhash⟩
  simpa using ⟨hno, hc.symm⟩

theorem stores_run (es : List CacheCall) :
    (es.foldl step {}).cache.bank0.Stores (Registered es) ∧
      (es.foldl step {}).cache.bank1.Stores (Registered es) := by
  induction es using List.reverseRecOn with
  | nil => exact ⟨FlowcacheBank.stores_nil, FlowcacheBank.stores_nil⟩
  | append_singleton es c ih =>
    rw [List.foldl_concat]
    have hold := fun hc => ih.imp (·.mono (Registered.concat (c := c) hc)) (·.mono (Registered.concat hc))
    cases c with
    | register hash64 flow =>
      obtain ⟨hold0, hold1⟩ := hold (by simp)
      have hnew := hold0.register (e := ⟨hash64.toNat, flow⟩)
        ⟨es, [], hash64, rfl, List.not_mem_nil, rfl⟩
      simp only [step, registerCache]
      split
      · exact ⟨FlowcacheBank.stores_nil, hnew⟩
      · exact ⟨hnew, hold1⟩
    | lookup hash64 => exact hold (by simp)
    | clear => exact ⟨ih.1.cleared, ih.2.cleared⟩

/-- **What a lookup finds was registered under that very hash**, after the last clear. -/
theorem lookup_registered {es : List CacheCall} {hash64 : Nat} {e : CacheEntry}
    (he : cacheLookup (es.foldl step {}).cache hash64 = some e) :
    Registered es e ∧ e.hash64 = hash64 := by
  obtain ⟨hfirst, hsecond⟩ := stores_run es
  rcases Option.or_eq_some_iff.mp he with he | ⟨-, he⟩
  · exact hfirst.lookup he
  · exact hsecond.lookup he

theorem lookup_registered_of_register :
    Registered [.clear, .register 5 [], .lookup 5] ⟨5, []⟩ ∧ (5 : Nat) = 5 :=
  lookup_registered (by decide)

end CacheRun

end Lagopus
