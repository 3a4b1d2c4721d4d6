import Lagopus.Lib.Trace
import Lagopus.Mactable.Table
import Mathlib.Data.List.OfFn

/-!
# Following a station from port to port

What a worker learned last about a station is spread over its cache, which a learning
fills but never overwrites; its queue, which the history of the last ten addresses
keeps an address out of whatever the port; and the table that is read.  A station that
moves is therefore not always followed.

* `pendingPort` is the port the next update will write for an address.
  `written_port` says so, for one worker at work and a table with room.
* `Settled` is the condition on a learning: the cache does not have the address under
  another port, and the port is queued, or pending already.  `learn_settled_iff` says it
  is just what makes the next lookup and the next update know the port.
* `Tracked` runs the table beside the record of what was learned last and of what has
  aged out since; `Following` is the invariant, with one lemma for each step.
-/

namespace Lagopus.L2

open List Option LocalData Trace

/-! ## The port an update writes -/

/-- The last entry for an address in a list of writes. -/
def lastFor (writes : List Macentry) (inteth : Inteth) : Option Macentry :=
  writes.reverse.find? (·.inteth = inteth)

theorem lastFor_concat (writes : List Macentry) (e : Macentry) (inteth : Inteth) :
    lastFor (writes ++ [e]) inteth = if e.inteth = inteth then some e else lastFor writes inteth := by
  by_cases h : e.inteth = inteth <;> simp [lastFor, h]

theorem lastFor_append (early late : List Macentry) (inteth : Inteth) :
    lastFor (early ++ late) inteth = (lastFor late inteth).or (lastFor early inteth) := by
  simp [lastFor, find?_append]

theorem port_add (w : Writing) (e : Macentry) (inteth : Inteth) :
    ((addEntryWriteTable w e).table.get inteth).map Macentry.portid =
      if e.inteth = inteth then some e.portid else (w.table.get inteth).map Macentry.portid := by
  have hput : ∀ e' : Macentry, e'.inteth = e.inteth → e'.portid = e.portid →
      ((w.table.put e').get inteth).map Macentry.portid = if e.inteth = inteth then some e.portid
        else (w.table.get inteth).map Macentry.portid := by
    intro e' hkey hport
    rw [KeyedStore.get_put]
    by_cases h : e.inteth = inteth
    · rw [if_pos h, ← h, ← hkey, Function.update_self]
      simp [hport]
    · rw [if_neg h, Function.update_of_ne (fun heq => h (hkey.symm.trans heq.symm))]
  unfold addEntryWriteTable
  cases w.table.get e.inteth with
  | none => exact hput e rfl rfl
  | some found =>
    by_cases hdyn : found.addressType = .dynamic
    · simp only [if_pos hdyn]
      exact hput e rfl rfl
    · simp only [if_neg hdyn]
      exact hput { e with addressType := .static } rfl rfl

theorem port_foldl (w : Writing) (writes : List Macentry) (inteth : Inteth) :
    ((writes.foldl addEntryWriteTable w).table.get inteth).map Macentry.portid =
      ((lastFor writes inteth).map Macentry.portid).or
        ((w.table.get inteth).map Macentry.portid) := by
  induction writes using List.reverseRecOn with
  | nil => rfl
  | append_singleton writes e ih =>
    rw [foldl_append, foldl_cons, foldl_nil, port_add, lastFor_concat]
    split_ifs
    · rfl
    · exact ih

theorem lastFor_stamped (bbq : List Macentry) (clock : Nat → Int) (inteth : Inteth) :
    (lastFor (bbq.mapIdx fun j e => { e with updateTime := clock j }) inteth).map Macentry.portid =
      (lastFor bbq inteth).map Macentry.portid := by
  induction bbq using List.reverseRecOn with
  | nil => rfl
  | append_singleton bbq e ih =>
    rw [mapIdx_concat, lastFor_concat, lastFor_concat]
    by_cases h : e.inteth = inteth
    · simp [h]
    · simpa [h] using ih

/-- Whatever order a hash map hands out its entries in, there is one for each address. -/
theorem lastFor_order (order : HashOrder) (table : MacHash) (inteth : Inteth) :
    lastFor (order.val table.entries) inteth = table.get inteth := by
  have hperm := (order.val table.entries).reverse_perm.trans (order.property table.entries)
  have hdistinct : ((order.val table.entries).reverse.map Macentry.inteth).Nodup :=
    (hperm.map Macentry.inteth).nodup_iff.2 table.distinct
  have hget := KeyedStore.get_congr (s := (⟨_, hdistinct⟩ : MacHash)) (t := table) (fun e => hperm.mem_iff)
  exact congrFun hget inteth

variable {bbqs : List (List Macentry)}

theorem takeQueues_nil (maxentries entryNum : Nat)
    (h : ∀ bbq ∈ bbqs, bbq = []) : takeQueues maxentries entryNum bbqs = [] := by
  induction bbqs generalizing entryNum with
  | nil => rfl
  | cons bbq bbqs ih =>
    obtain ⟨rfl, hrest⟩ := forall_mem_cons.1 h
    simpa [takeQueues] using ih 0 hrest

theorem takeQueues_single {maxentries : Nat} (entryNum : Nat)
    (hone : bbqs.Pairwise fun a b => a = [] ∨ b = []) {bbq : List Macentry} (hbbq : bbq ∈ bbqs)
    (hfits : entryNum + bbq.length ≤ maxentries) :
    takeQueues maxentries entryNum bbqs = bbq ∨ bbq = [] := by
  induction bbqs generalizing entryNum with
  | nil => exact absurd hbbq not_mem_nil
  | cons first bbqs ih =>
    obtain ⟨hfirst, hrest⟩ := pairwise_cons.1 hone
    rcases mem_cons.1 hbbq with rfl | hin
    · by_cases hnil : bbq = []
      · exact .inr hnil
      · left
        have hempty : ∀ b ∈ bbqs, b = [] := fun b hb => (hfirst b hb).resolve_left hnil
        have hnum : min bbq.length (maxentries - entryNum) = bbq.length := by omega
        simp [takeQueues, hnum, takeQueues_nil _ _ hempty]
    · rcases hfirst bbq hin with rfl | hnil
      · simpa [takeQueues] using ih 0 hrest hin (by omega)
      · exact .inr hnil

variable (m : Mactable) (l : LocalData)

/-- The port the next update will write for an address. -/
def pendingPort (inteth : Inteth) : Option Port :=
  ((lastFor l.bbq inteth).or (m.reading.get inteth)).map Macentry.portid

/-- There is room for all that is read and queued. -/
def Mactable.Fits (i : Worker) : Prop :=
  m.reading.entries.length + (m.locals i).bbq.length ≤ m.maxentries

theorem written_port {m : Mactable} {i : Worker} (halone : ∀ j, j ≠ i → (m.locals j).bbq = [])
    (hfits : m.Fits i) (order : HashOrder) (clock : Nat → Int) (inteth : Inteth) :
    ((m.written order clock).table.get inteth).map Macentry.portid =
      pendingPort m (m.locals i) inteth := by
  unfold Mactable.Fits at hfits
  have hone : (List.ofFn fun j => (m.locals j).bbq).Pairwise fun a b => a = [] ∨ b = [] := by
    rw [pairwise_ofFn]
    intro j k hjk
    by_cases hj : j = i
    · exact .inr (halone k (fun hk => absurd (hj.trans hk.symm) hjk.ne))
    · exact .inl (halone j hj)
  have hmin : min m.reading.entries.length m.maxentries = m.reading.entries.length := by omega
  have hqueue : takeQueues m.maxentries m.reading.entries.length
      (List.ofFn fun j => (m.locals j).bbq) = (m.locals i).bbq := by
    rcases takeQueues_single _ hone (mem_ofFn.2 ⟨i, rfl⟩) hfits with htaken | hnil
    · exact htaken
    · rw [hnil]
      refine takeQueues_nil _ _ fun bbq hbbq => ?_
      obtain ⟨j, rfl⟩ := mem_ofFn.1 hbbq
      by_cases hj : j = i
      · rw [hj]
        exact hnil
      · exact halone j hj
  have hread : m.readWrites order = order.val m.reading.entries := by
    refine take_of_length_le ?_
    rw [(order.property m.reading.entries).length_eq]
    omega
  rw [Mactable.written, port_foldl, Mactable.writes, lastFor_append, hread, lastFor_order,
    Mactable.queueWrites, hmin, hqueue, pendingPort]
  have hempty : m.cleared.table.get inteth = none := rfl
  rw [hempty, map_none, or_none, map_or, map_or, lastFor_stamped]

/-! ## What a worker does -/

/-- The worker has not yet noticed the last switch. -/
def Mactable.Switched : Prop := l.referredTable ≠ m.readTable

instance (m : Mactable) (l : LocalData) : Decidable (m.Switched l) :=
  inferInstanceAs (Decidable (_ ≠ _))

variable (m : Mactable) (l : LocalData)

theorem refresh_eq : refresh m l = ({ l with
      referredTable := m.readTable
      localcache := if m.Switched l then .empty else l.localcache }, decide (m.Switched l)) := by
  unfold refresh checkReferred Mactable.Switched
  simp only [Bool.eq_not]
  by_cases h : l.referredTable = m.readTable
  · simp [← h]
  · simp [h]

/-- The history lets the address through to the queue, and the queue has room. -/
def LocalData.Wanted (inteth : Inteth) (switched : Bool) : Prop :=
  (switched = true ∨ ∀ i, l.ethHistory i ≠ inteth) ∧ l.bbq.length < NR_MAX_ENTRIES

instance (l : LocalData) (inteth : Inteth) (switched : Bool) :
    Decidable (l.Wanted inteth switched) := inferInstanceAs (Decidable (_ ∧ _))

theorem note_spec (e : Macentry) (switched : Bool) : (note l e switched).localcache = l.localcache ∧
      (note l e switched).referredTable = l.referredTable ∧
      (note l e switched).referring = l.referring ∧
      (note l e switched).bbq = if l.Wanted e.inteth switched then l.bbq ++ [e] else l.bbq := by
  unfold note checkEthHistory addEntryBbq Wanted
  cases switched with
  | true =>
    by_cases hroom : l.bbq.length < NR_MAX_ENTRIES <;> simp [hroom]
  | false =>
    by_cases hhist : ∃ i, l.ethHistory i = e.inteth
    · have hnot : ¬ ∀ i, l.ethHistory i ≠ e.inteth := by simpa using hhist
      simp [hhist]
    · have hall : ∀ i, l.ethHistory i ≠ e.inteth := by simpa using hhist
      by_cases hroom : l.bbq.length < NR_MAX_ENTRIES <;> simp [hall, hroom]

def LocalData.cachePort (inteth : Inteth) : Option Port :=
  (l.localcache.get inteth).map Macentry.portid

def Mactable.readPort (inteth : Inteth) : Option Port :=
  (m.reading.get inteth).map Macentry.portid

/-- What the cache has for an address once the worker has noticed a switch. -/
def Mactable.freshPort (inteth : Inteth) : Option Port :=
  if m.Switched l then none else l.cachePort inteth

variable (inteth : Inteth)

theorem pendingPort_eq : pendingPort m l inteth =
      ((lastFor l.bbq inteth).map Macentry.portid).or (m.readPort inteth) := by
  simp [pendingPort, Mactable.readPort, map_or]

theorem freshPort_refresh :
    ((if m.Switched l then (.empty : MacHash) else l.localcache).get inteth).map Macentry.portid =
      m.freshPort l inteth := by
  unfold Mactable.freshPort cachePort
  split_ifs <;> rfl

theorem port_put (cache : MacHash) (e : Macentry) (inteth : Inteth) :
    ((cache.put e).get inteth).map Macentry.portid =
      if inteth = e.inteth then some e.portid else (cache.get inteth).map Macentry.portid := by
  rw [KeyedStore.get_put]
  by_cases h : inteth = e.inteth
  · simp [h]
  · simp [h]

variable (portid : Port)

/-- What one call of `learn_port` does to its worker. -/
theorem learnPort_spec (inteth : Inteth) (addressType : AddressType) :
    let l' := learnPort m l portid inteth addressType
    l'.referredTable = m.readTable ∧ l'.referring = l.referring ∧ (∀ a, l'.cachePort a =
        if a = inteth then some ((m.freshPort l inteth).getD portid) else m.freshPort l a) ∧
      l'.bbq = if l.Wanted inteth (decide (m.Switched l)) then
        l.bbq ++ [macentryAlloc inteth portid addressType] else l.bbq := by
  have hfresh := freshPort_refresh m l
  simp only [learnPort, refresh_eq]
  cases hget : (if m.Switched l then (.empty : MacHash) else l.localcache).get inteth with
  | none =>
    have hnone : m.freshPort l inteth = none := by rw [← hfresh, hget, map_none]
    obtain ⟨hcache, href, hring, hbbq⟩ := note_spec
      { l with
        referredTable := m.readTable
        localcache := (if m.Switched l then (.empty : MacHash) else l.localcache).put
          (macentryAlloc inteth portid addressType) }
      (macentryAlloc inteth portid addressType) (decide (m.Switched l))
    refine ⟨href, hring, fun a => ?_, hbbq⟩
    rw [cachePort, hcache, port_put, hfresh, hnone]
    rfl
  | some e =>
    have hsome : m.freshPort l inteth = some e.portid := by rw [← hfresh, hget, map_some]
    obtain ⟨hcache, href, hring, hbbq⟩ := note_spec
      { l with
        referredTable := m.readTable
        localcache := if m.Switched l then (.empty : MacHash) else l.localcache }
      (macentryAlloc inteth portid addressType) (decide (m.Switched l))
    refine ⟨href, hring, fun a => ?_, hbbq⟩
    rw [cachePort, hcache, hfresh]
    split_ifs with ha
    · rw [ha, hsome, getD_some]
    · rfl

/-- What one call of `lookup_port` does and answers. -/
theorem lookupPort_spec : let l' := (lookupPort m l inteth).1
    let found := (m.freshPort l inteth).or (m.readPort inteth)
    (lookupPort m l inteth).2 = found.getD OFPP_ALL ∧
      l'.referredTable = m.readTable ∧ l'.referring = l.referring ∧
      (∀ a, l'.cachePort a = if a = inteth then found else m.freshPort l a) ∧
      (l'.bbq = l.bbq ∨
        ∃ e : Macentry, e.inteth = inteth ∧ found = some e.portid ∧ l'.bbq = l.bbq ++ [e]) := by
  have hfresh := freshPort_refresh m l
  -- the two branches that answer from an entry note it in the same way
  have hnoted : ∀ (cache : MacHash) (e : Macentry), e.inteth = inteth →
      (m.freshPort l inteth).or (m.readPort inteth) = some e.portid →
      (∀ a, (cache.get a).map Macentry.portid = if a = inteth then some e.portid else m.freshPort l a) →
      let l₀ : LocalData := { l with referredTable := m.readTable, localcache := cache }
      let l' := if e.portid ≠ OFPP_ALL then note l₀ e (decide (m.Switched l)) else l₀
      l'.referredTable = m.readTable ∧ l'.referring = l.referring ∧
        (∀ a, l'.cachePort a = if a = inteth then some e.portid else m.freshPort l a) ∧
        (l'.bbq = l.bbq ∨ ∃ d : Macentry, d.inteth = inteth ∧
          some e.portid = some d.portid ∧ l'.bbq = l.bbq ++ [d]) := by
    intro cache e hkey hfound hcache
    split_ifs with hall
    · obtain ⟨hsame, href, hring, hbbq⟩ := note_spec
        { l with referredTable := m.readTable, localcache := cache } e (decide (m.Switched l))
      refine ⟨href, hring, fun a => by rw [cachePort, hsame, hcache], ?_⟩
      rw [hbbq]
      split_ifs
      · exact .inr ⟨e, hkey, rfl, rfl⟩
      · exact .inl rfl
    · exact ⟨rfl, rfl, hcache, .inl rfl⟩
  simp only [lookupPort, refresh_eq]
  cases hget : (if m.Switched l then (.empty : MacHash) else l.localcache).get inteth with
  | some e =>
    have hsome : m.freshPort l inteth = some e.portid := by rw [← hfresh, hget, map_some]
    have hfound : (m.freshPort l inteth).or (m.readPort inteth) = some e.portid := by
      rw [hsome, some_or]
    rw [hfound]
    refine ⟨rfl, hnoted _ (macentryAlloc inteth e.portid e.addressType) rfl hfound fun a => ?_⟩
    rw [hfresh]
    split_ifs with ha
    · rw [ha, hsome]
      rfl
    · rfl
  | none =>
    have hnone : m.freshPort l inteth = none := by rw [← hfresh, hget, map_none]
    cases hread : m.reading.get inteth with
    | some e =>
      have hfound : (m.freshPort l inteth).or (m.readPort inteth) = some e.portid := by
        rw [hnone, none_or, Mactable.readPort, hread, map_some]
      rw [hfound]
      refine ⟨rfl, hnoted _ (macentryAlloc inteth e.portid e.addressType) rfl hfound fun a => ?_⟩
      rw [port_put, hfresh]
      rfl
    | none =>
      have hfound : (m.freshPort l inteth).or (m.readPort inteth) = none := by
        rw [hnone, none_or, Mactable.readPort, hread, map_none]
      rw [hfound]
      refine ⟨rfl, rfl, rfl, fun a => ?_, .inl rfl⟩
      rw [cachePort, hfresh]
      split_ifs with ha
      · rw [ha, hnone]
      · rfl

/-! ## A learning that is heeded -/

/-- The cache does not have the address under another port, and the port is queued or
pending already. -/
def Settled (portid : Port) (inteth : Inteth) : Prop :=
  (∀ q ∈ m.freshPort l inteth, q = portid) ∧
    (l.Wanted inteth (decide (m.Switched l)) ∨ pendingPort m l inteth = some portid)

instance (m : Mactable) (l : LocalData) (portid : Port) (inteth : Inteth) :
    Decidable (Settled m l portid inteth) :=
  decidable_of_iff ((m.freshPort l inteth).all (· = portid) = true ∧
    (l.Wanted inteth (decide (m.Switched l)) ∨ pendingPort m l inteth = some portid))
    (by simp [Settled, Option.all_eq_true])

theorem pendingPort_concat {m : Mactable} {l l' : LocalData} {e : Macentry}
    (hbbq : l'.bbq = l.bbq ++ [e]) (inteth : Inteth) : pendingPort m l' inteth =
      if e.inteth = inteth then some e.portid else pendingPort m l inteth := by
  rw [pendingPort_eq, pendingPort_eq, hbbq, lastFor_concat]
  split_ifs <;> rfl

theorem pendingPort_learn (inteth a : Inteth) : pendingPort m (learnPort m l portid inteth .dynamic) a =
      if l.Wanted inteth (decide (m.Switched l)) ∧ a = inteth then some portid
      else pendingPort m l a := by
  obtain ⟨-, -, -, hbbq⟩ := learnPort_spec m l portid inteth .dynamic
  by_cases hwanted : l.Wanted inteth (decide (m.Switched l))
  · rw [if_pos hwanted] at hbbq
    rw [pendingPort_concat hbbq]
    by_cases ha : a = inteth
    · simp [hwanted, ha, macentryAlloc]
    · simp [hwanted, ha, macentryAlloc, Ne.symm ha]
  · rw [if_neg hwanted] at hbbq
    simp [pendingPort, hbbq, hwanted]

/-- Right after a learning the next lookup answers the port, and the next update has it
to write, exactly when the learning is `Settled`. -/
theorem learn_settled_iff (inteth : Inteth) : let l' := learnPort m l portid inteth .dynamic
    ((lookupPort m l' inteth).2 = portid ∧ pendingPort m l' inteth = some portid) ↔
      Settled m l portid inteth := by
  intro l'
  obtain ⟨href, -, hcache, -⟩ := learnPort_spec m l portid inteth .dynamic
  have hlookup : (lookupPort m l' inteth).2 = (m.freshPort l inteth).getD portid := by
    have hnot : ¬ m.Switched l' := not_not.2 href
    rw [(lookupPort_spec m l' inteth).1, Mactable.freshPort, if_neg hnot, hcache, if_pos rfl]
    rfl
  rw [hlookup, pendingPort_learn]
  refine and_congr ?_ ?_
  · cases m.freshPort l inteth <;> simp
  · by_cases hwanted : l.Wanted inteth (decide (m.Switched l)) <;> simp [hwanted]

/-! ## The record beside the table -/

/-- The table, the port last learned for each address, and the addresses that an update
aged out since. -/
structure Tracked where
  m : Mactable
  last : Inteth → Option Port
  agedOut : Inteth → Bool

inductive Step where
  | learn (portid : Port) (inteth : Inteth)
  | lookup (inteth : Inteth)
  | update (order : HashOrder) (clock : Nat → Int)

/-- The update removed the entry it had written. -/
def Mactable.agesOut (order : HashOrder) (clock : Nat → Int) (a : Inteth) : Bool :=
  ((m.written order clock).table.get a).isSome && ((m.aged order clock).table.get a).isNone

def Tracked.step (i : Worker) (t : Tracked) : Step → Tracked
  | .learn portid inteth =>
    ⟨t.m.step (.learn i portid inteth), Function.update t.last inteth (some portid),
      Function.update t.agedOut inteth false⟩
  | .lookup inteth => ⟨t.m.step (.lookup i inteth), t.last, t.agedOut⟩
  | .update order clock =>
    ⟨t.m.step (.update order clock), t.last, fun a => t.agedOut a || t.m.agesOut order clock a⟩

/-- A table with some bound and ageing time, and nothing learned yet. -/
def Tracked.init (maxentries ageingTime : Nat) : Tracked :=
  ⟨{ Mactable.init with maxentries := maxentries, ageingTime := ageingTime }, fun _ => none,
    fun _ => false⟩

/-- The learnings are settled, and the updates have room. -/
def Tracked.Orderly (i : Worker) (t : Tracked) : Step → Prop
  | .learn portid inteth => Settled t.m (t.m.locals i) portid inteth
  | .lookup _ => True
  | .update _ _ => t.m.Fits i

instance (i : Worker) (t : Tracked) : (step : Step) → Decidable (t.Orderly i step)
  | .learn portid inteth => inferInstanceAs (Decidable (Settled t.m (t.m.locals i) portid inteth))
  | .lookup _ => isTrue trivial
  | .update _ _ => inferInstanceAs (Decidable (_ ≤ _))

structure Following (i : Worker) (t : Tracked) : Prop where
  alone : ∀ j, j ≠ i → (t.m.locals j).bbq = []
  idle : ∀ j, (t.m.locals j).referring = 0
  drained : t.m.Switched (t.m.locals i) → (t.m.locals i).bbq = []
  cached : ∀ a p q, t.last a = some p → (t.m.locals i).cachePort a = some q → q = p
  queued : ∀ a, (t.m.locals i).cachePort a = none → lastFor (t.m.locals i).bbq a = none
  pending : ∀ a p, t.last a = some p → t.agedOut a = false →
    pendingPort t.m (t.m.locals i) a = some p
  stale : ∀ a p q, t.last a = some p → pendingPort t.m (t.m.locals i) a = some q → q = p

section Steps

variable {i : Worker} {t : Tracked} (h : Following i t)

include h

variable {a : Inteth}

theorem Following.lastFor_eq_none
    (hmiss : t.m.freshPort (t.m.locals i) a = none) : lastFor (t.m.locals i).bbq a = none := by
  by_cases hsw : t.m.Switched (t.m.locals i)
  · rw [h.drained hsw]
    rfl
  · rw [Mactable.freshPort, if_neg hsw] at hmiss
    exact h.queued a hmiss

variable {p q : Port}

theorem Following.fresh (hlast : t.last a = some p)
    (hfresh : t.m.freshPort (t.m.locals i) a = some q) : q = p := by
  unfold Mactable.freshPort at hfresh
  split_ifs at hfresh
  exact h.cached a p q hlast hfresh

theorem Following.found (hlast : t.last a = some p)
    (hfound : (t.m.freshPort (t.m.locals i) a).or (t.m.readPort a) = some q) : q = p := by
  cases hfresh : t.m.freshPort (t.m.locals i) a with
  | some r =>
    rw [hfresh, some_or, Option.some.injEq] at hfound
    exact hfound ▸ h.fresh hlast hfresh
  | none =>
    rw [hfresh, none_or] at hfound
    refine h.stale a p q hlast ?_
    rw [pendingPort_eq, h.lastFor_eq_none hfresh, map_none, none_or, hfound]

theorem Following.lookup_eq (hlast : t.last a = some p) (haged : t.agedOut a = false) :
    (lookupPort t.m (t.m.locals i) a).2 = p := by
  rw [(lookupPort_spec t.m (t.m.locals i) a).1]
  cases hfresh : t.m.freshPort (t.m.locals i) a with
  | some q => exact h.fresh hlast hfresh
  | none =>
    have hpending := h.pending a p hlast haged
    rw [pendingPort_eq, h.lastFor_eq_none hfresh, map_none, none_or] at hpending
    rw [none_or, hpending, getD_some]

theorem not_busy : t.m.busy = false := by
  simp [Mactable.busy, h.idle]

omit h in
theorem readPort_mactableUpdate {m : Mactable} (hbusy : m.busy = false) (order : HashOrder)
    (clock : Nat → Int) (a : Inteth) : (mactableUpdate m order clock).readPort a =
      ((m.aged order clock).table.get a).map Macentry.portid := by
  simp [Mactable.readPort, Mactable.reading, mactableUpdate, hbusy]

omit h in
theorem aged_get_eq_some {m : Mactable} {order : HashOrder} {clock : Nat → Int}
    {e : Macentry} (h : (m.aged order clock).table.get a = some e) :
    (m.written order clock).table.get a = some e := by
  have hsub : ∀ (list : List Macentry) (table : MacHash) (n : Nat),
      (ageOutWriteTable m.ageingTime (m.ageingNow clock) table n list).table.get a = some e →
        table.get a = some e := by
    intro list
    induction list with
    | nil => exact fun _ _ h => h
    | cons d list ih =>
      intro table n h
      unfold ageOutWriteTable at h
      split_ifs at h
      · have herased := ih _ _ h
        rw [KeyedStore.get_eq_some_iff, KeyedStore.mem_erase] at herased
        exact table.get_eq_some_iff.2 ⟨herased.1.1, herased.2⟩
      · exact h
  exact hsub _ _ _ h

theorem Following.update_eq (hfits : t.m.Fits i) (order : HashOrder)
    (clock : Nat → Int) (hlast : t.last a = some p) (haged : t.agedOut a = false) :
    (mactableUpdate t.m order clock).readPort a = some p ∨ t.m.agesOut order clock a = true := by
  have hwritten := written_port h.alone hfits order clock a
  rw [h.pending a p hlast haged] at hwritten
  rw [readPort_mactableUpdate (not_busy h)]
  cases hget : (t.m.aged order clock).table.get a with
  | none =>
    obtain ⟨e, he, -⟩ := map_eq_some_iff.1 hwritten
    exact .inr (by simp [Mactable.agesOut, he, hget])
  | some e =>
    rw [aged_get_eq_some hget] at hwritten
    exact .inl hwritten

omit h in
theorem following_init (maxentries ageingTime : Nat) :
    Following i (Tracked.init maxentries ageingTime) := by
  refine ⟨fun _ _ => rfl, fun _ => rfl, fun _ => rfl, ?_, fun _ _ => rfl, ?_, ?_⟩ <;>
    simp [Tracked.init]

/-- Only the worker's own data change when it works, and it refers to the table switched to. -/
theorem Following.work {l : LocalData} (href : l.referredTable = t.m.readTable)
    (hring : l.referring = (t.m.locals i).referring) {last : Inteth → Option Port} {agedOut : Inteth → Bool}
    (hcached : ∀ a p q, last a = some p → l.cachePort a = some q → q = p)
    (hqueued : ∀ a, l.cachePort a = none → lastFor l.bbq a = none)
    (hpending : ∀ a p, last a = some p → agedOut a = false → pendingPort t.m l a = some p)
    (hstale : ∀ a p q, last a = some p → pendingPort t.m l a = some q → q = p) :
    Following i ⟨t.m.setLocal i l, last, agedOut⟩ := by
  have hself : (t.m.setLocal i l).locals i = l := by simp [Mactable.setLocal]
  have hothers : ∀ j, j ≠ i → (t.m.setLocal i l).locals j = t.m.locals j := by
    intro j hj
    simp [Mactable.setLocal, Function.update_of_ne hj]
  refine ⟨fun j hj => (congrArg bbq (hothers j hj)).trans (h.alone j hj), fun j => ?_,
    fun hsw => absurd ((congrArg referredTable hself).trans href) hsw, ?_, ?_, ?_, ?_⟩
  · by_cases hj : j = i
    · subst hj
      exact (congrArg referring hself).trans (hring.trans (h.idle j))
    · exact (congrArg referring (hothers j hj)).trans (h.idle j)
  · rwa [hself]
  · rwa [hself]
  · rwa [hself]
  · rwa [hself]

theorem following_learn {portid : Port} {inteth : Inteth}
    (hsettled : Settled t.m (t.m.locals i) portid inteth) :
    Following i (t.step i (.learn portid inteth)) := by
  obtain ⟨href, hring, hcache, hbbq⟩ := learnPort_spec t.m (t.m.locals i) portid inteth .dynamic
  have hpend := pendingPort_learn t.m (t.m.locals i) portid inteth
  have hnew : pendingPort t.m (learnPort t.m (t.m.locals i) portid inteth .dynamic) inteth =
      some portid := by
    rw [hpend]
    split_ifs with hwanted
    · rfl
    · exact hsettled.2.resolve_left fun hw => hwanted ⟨hw, rfl⟩
  have hold : ∀ a, a ≠ inteth → pendingPort t.m (learnPort t.m (t.m.locals i) portid inteth .dynamic) a =
        pendingPort t.m (t.m.locals i) a := by
    intro a ha
    rw [hpend, if_neg fun hw => ha hw.2]
  refine h.work href hring ?_ ?_ ?_ ?_
  · intro a p q hlast hq
    rw [hcache] at hq
    by_cases ha : a = inteth
    · subst ha
      rw [if_pos rfl, Option.some.injEq] at hq
      have hp : p = portid := by simpa using hlast.symm
      subst hp
      cases hfresh : t.m.freshPort (t.m.locals i) a with
      | none => rw [hfresh, getD_none] at hq; exact hq.symm
      | some r =>
        rw [hfresh, getD_some] at hq
        exact hq ▸ hsettled.1 r hfresh
    · rw [if_neg ha] at hq
      exact h.fresh (by simpa [ha] using hlast) hq
  · intro a hmiss
    rw [hcache] at hmiss
    split_ifs at hmiss with ha
    have hnone := h.lastFor_eq_none hmiss
    rw [hbbq]
    split_ifs
    · rw [lastFor_concat, if_neg (fun heq => ha heq.symm)]
      exact hnone
    · exact hnone
  · intro a p hlast haged
    by_cases ha : a = inteth
    · subst ha
      rw [hnew]
      simpa using hlast
    · rw [hold a ha]
      exact h.pending a p (by simpa [ha] using hlast) (by simpa [ha] using haged)
  · intro a p q hlast hq
    by_cases ha : a = inteth
    · subst ha
      rw [hnew] at hq
      have hp : some portid = some p := by simpa using hlast
      exact (Option.some.inj hq).symm.trans (Option.some.inj hp)
    · rw [hold a ha] at hq
      exact h.stale a p q (by simpa [ha] using hlast) hq

theorem following_lookup (inteth : Inteth) : Following i (t.step i (.lookup inteth)) := by
  obtain ⟨-, href, hring, hcache, hbbq⟩ := lookupPort_spec t.m (t.m.locals i) inteth
  -- what is pending for an address stays, but for the address looked up
  have hpend : ∀ a, pendingPort t.m (lookupPort t.m (t.m.locals i) inteth).1 a =
        pendingPort t.m (t.m.locals i) a ∨
      a = inteth ∧ pendingPort t.m (lookupPort t.m (t.m.locals i) inteth).1 a =
        (t.m.freshPort (t.m.locals i) inteth).or (t.m.readPort inteth) := by
    intro a
    rcases hbbq with hsame | ⟨e, hkey, hfound, hmore⟩
    · exact .inl (by simp [pendingPort, hsame])
    · by_cases ha : e.inteth = a
      · refine .inr ⟨ha.symm.trans hkey, ?_⟩
        rw [pendingPort_concat hmore, if_pos ha, hfound]
      · exact .inl (by rw [pendingPort_concat hmore, if_neg ha])
  refine h.work href hring ?_ ?_ ?_ ?_
  · intro a p q hlast hq
    rw [hcache] at hq
    split_ifs at hq with ha
    · subst ha
      exact h.found hlast hq
    · exact h.fresh hlast hq
  · intro a hmiss
    rw [hcache] at hmiss
    have hfresh : t.m.freshPort (t.m.locals i) a = none := by
      split_ifs at hmiss with ha
      · subst ha
        exact (or_eq_none_iff.1 hmiss).1
      · exact hmiss
    have hnone := h.lastFor_eq_none hfresh
    rcases hbbq with hsame | ⟨e, hkey, hfound, hmore⟩
    · rw [hsame, hnone]
    · rw [hmore, lastFor_concat, if_neg, hnone]
      intro ha
      rw [if_pos (ha.symm.trans hkey), hfound] at hmiss
      exact absurd hmiss (by simp)
  · intro a p hlast haged
    have hbefore := h.pending a p hlast haged
    rcases hpend a with hsame | ⟨rfl, hfound⟩
    · rw [hsame, hbefore]
    · cases hsome : (t.m.freshPort (t.m.locals i) a).or (t.m.readPort a) with
      | some q => rw [hfound, hsome, h.found hlast hsome]
      | none =>
        obtain ⟨hfresh, hread⟩ := or_eq_none_iff.1 hsome
        rw [pendingPort_eq, h.lastFor_eq_none hfresh, hread] at hbefore
        exact absurd hbefore (by simp)
  · intro a p q hlast hq
    rcases hpend a with hsame | ⟨rfl, hfound⟩
    · exact h.stale a p q hlast (hsame ▸ hq)
    · exact h.found hlast (hfound ▸ hq)

theorem following_update (hfits : t.m.Fits i) (order : HashOrder)
    (clock : Nat → Int) : Following i (t.step i (.update order clock)) := by
  have hbusy := not_busy h
  have hlocals : ∀ j, (mactableUpdate t.m order clock).locals j =
      { t.m.locals j with bbq := [] } := by
    simp [mactableUpdate, hbusy]
  have hpend : ∀ a, pendingPort (mactableUpdate t.m order clock)
      ((mactableUpdate t.m order clock).locals i) a =
        (mactableUpdate t.m order clock).readPort a := by
    intro a
    rw [pendingPort_eq, hlocals]
    rfl
  constructor
  · intro j _
    exact congrArg bbq (hlocals j)
  · intro j
    exact (congrArg referring (hlocals j)).trans (h.idle j)
  · intro _
    exact congrArg bbq (hlocals i)
  · intro a p q hlast hq
    change ((mactableUpdate t.m order clock).locals i).cachePort a = some q at hq
    rw [hlocals] at hq
    exact h.cached a p q hlast hq
  · intro a _
    change lastFor ((mactableUpdate t.m order clock).locals i).bbq a = none
    rw [hlocals]
    rfl
  · intro a p hlast haged
    simp only [Tracked.step, Bool.or_eq_false_iff] at haged
    refine (hpend a).trans ((h.update_eq hfits order clock hlast haged.1).resolve_right ?_)
    simp [haged.2]
  · intro a p q hlast hq
    have hq : (mactableUpdate t.m order clock).readPort a = some q := (hpend a).symm.trans hq
    rw [readPort_mactableUpdate hbusy] at hq
    obtain ⟨e, he, rfl⟩ := map_eq_some_iff.1 hq
    have hwritten := written_port h.alone hfits order clock a
    rw [aged_get_eq_some he] at hwritten
    exact h.stale a p e.portid hlast hwritten.symm

omit h in
theorem following_run (h : Following i t) (steps : List Step)
    (hrun : EveryStep (Tracked.step i) (Tracked.Orderly i) t steps) :
    Following i (steps.foldl (Tracked.step i) t) := by
  refine EveryStep.foldl_invariant (fun t step h horderly => ?_) h hrun
  cases step with
  | learn portid inteth => exact following_learn h horderly
  | lookup inteth => exact following_lookup h inteth
  | update order clock => exact following_update h horderly order clock

end Steps

/-- Over every orderly run of one worker, a lookup answers the port last learned and a
fitting update leaves it in the table, unless the address aged out; and being settled is
just what a learning needs for that. -/
theorem learning_follows (i : Worker) (maxentries ageingTime : Nat) (steps : List Step)
    (hrun : EveryStep (Tracked.step i) (Tracked.Orderly i) (Tracked.init maxentries ageingTime) steps) :
    let t := steps.foldl (Tracked.step i) (Tracked.init maxentries ageingTime)
    (∀ a p, t.last a = some p → t.agedOut a = false → (lookupPort t.m (t.m.locals i) a).2 = p ∧
        (t.m.Fits i → ∀ order clock, (mactableUpdate t.m order clock).readPort a = some p ∨
          t.m.agesOut order clock a = true)) ∧
    ∀ a p, let l := learnPort t.m (t.m.locals i) p a .dynamic
      ((lookupPort t.m l a).2 = p ∧ pendingPort t.m l a = some p) ↔
        Settled t.m (t.m.locals i) p a := by
  intro t
  have h := following_run (following_init maxentries ageingTime) steps hrun
  refine ⟨fun a p hlast haged => ⟨h.lookup_eq hlast haged, fun hfits order clock => ?_⟩, ?_⟩
  · exact h.update_eq hfits order clock hlast haged
  · exact fun a p => learn_settled_iff t.m (t.m.locals i) p a

/-- A station seen behind port 7, and behind port 8 after the tables were switched. -/
def movedAfterSwitch : List Step :=
  [.learn 7 0x0200000000aa, .lookup 0x0200000000aa, .update .asKept fun _ => 30,
    .learn 8 0x0200000000aa]

theorem learning_follows_movedAfterSwitch :
    let t := movedAfterSwitch.foldl (Tracked.step 2) (Tracked.init 8192 300)
    (lookupPort t.m (t.m.locals 2) 0x0200000000aa).2 = 8 ∧
      (mactableUpdate t.m .asKept fun _ => 60).readPort 0x0200000000aa = some 8 := by
  have hlearned := ((learning_follows 2 8192 300 movedAfterSwitch (by decide)).1
    0x0200000000aa 8 (by decide) (by decide +kernel))
  refine ⟨hlearned.1, (hlearned.2 ?_ .asKept fun _ => 60).resolve_right ?_⟩
  · unfold Mactable.Fits
    decide
  · decide

/-- A station that moves from port 7 to port 8 between two updates is still looked up, and
written to the table, behind port 7. -/
theorem station_not_followed :
    let m := Mactable.init.run [.learn 2 7 0x0200000000aa, .learn 2 8 0x0200000000aa]
    (lookupPort m (m.locals 2) 0x0200000000aa).2 = 7 ∧
      (mactableUpdate m .asKept fun _ => 30).readPort 0x0200000000aa = some 7 := by
  decide

end Lagopus.L2
