import Lagopus.Mactable.Learning

/-!
# Where a port comes from

Whatever the workers and the updater do, and in whatever order, a port that the table read, a cache or a
queue has for an address was learned or set for that address.

* `Mactable.Sourced`: that, of a state, with one lemma for each step;
* `lookup_sourced`: no lookup answers with the port of another address.
-/

namespace Lagopus.L2

open List Function

/-- The event says that the address is behind the port. -/
def Event.Tells (inteth : Inteth) (portid : Port) : Event → Prop
  | .learn _ p a | .entryUpdate _ a p => a = inteth ∧ p = portid
  | _ => False

variable {T : Inteth → Port → Prop} {m : Mactable}

/-- The ports a worker has are as `T` says. -/
structure LocalData.Sourced (T : Inteth → Port → Prop) (l : LocalData) : Prop where
  cached : ∀ a, ∀ p ∈ l.cachePort a, T a p
  queued : ∀ e ∈ l.bbq, T e.inteth e.portid

structure Mactable.Sourced (T : Inteth → Port → Prop) (m : Mactable) : Prop where
  read : ∀ a, ∀ p ∈ m.readPort a, T a p
  locals : ∀ i, (m.locals i).Sourced T

theorem sourced_init : Mactable.init.Sourced T where
  read := by rintro _ _ ⟨⟩
  locals _ := ⟨by rintro _ _ ⟨⟩, by rintro _ ⟨⟩⟩

theorem mem_takeQueues {maxentries : Nat} {e : Macentry} (bbqs : List (List Macentry)) :
    ∀ entryNum, e ∈ takeQueues maxentries entryNum bbqs → ∃ bbq ∈ bbqs, e ∈ bbq := by
  induction bbqs with
  | nil => intro _ he; cases he
  | cons bbq bbqs ih =>
    intro entryNum he
    rcases mem_append.mp he with he | he
    · exact ⟨bbq, mem_cons_self, mem_of_mem_take he⟩
    · obtain ⟨bbq', hmem, he⟩ := ih _ he
      exact ⟨bbq', mem_cons_of_mem _ hmem, he⟩

namespace Mactable.Sourced

variable (h : m.Sourced T)

include h

theorem setLocal (i : Worker) {l : LocalData} (hl : l.Sourced T) : (m.setLocal i l).Sourced T :=
  ⟨h.read, (forall_update_iff m.locals fun _ l => l.Sourced T).mpr ⟨hl, fun j _ => h.locals j⟩⟩

theorem fresh (i : Worker) (a : Inteth) : ∀ p ∈ m.freshPort (m.locals i) a, T a p := by
  intro p hp
  unfold Mactable.freshPort at hp
  split at hp
  · cases hp
  · exact (h.locals i).cached a p hp

theorem found (i : Worker) (a : Inteth) : ∀ p ∈ (m.freshPort (m.locals i) a).or (m.readPort a), T a p := by
  intro p hp
  rcases Option.or_eq_some_iff.mp hp with hp | ⟨-, hp⟩
  · exact h.fresh i a p hp
  · exact h.read a p hp

theorem learn (i : Worker) {portid : Port} {inteth : Inteth} (ht : T inteth portid) :
    (m.step (.learn i portid inteth)).Sourced T := by
  obtain ⟨-, -, hcache, hbbq⟩ := learnPort_spec m (m.locals i) portid inteth .dynamic
  refine h.setLocal i ⟨fun a p hp => ?_, ?_⟩
  · rw [hcache] at hp
    split at hp
    · next ha =>
      -- the cache keeps the port it has
      subst ha
      obtain rfl := Option.some.inj hp
      cases hfresh : m.freshPort (m.locals i) a with
      | none => exact ht
      | some q => exact h.fresh i a q hfresh
    · exact h.fresh i a p hp
  · rw [hbbq]
    split
    · exact forall_mem_append.mpr ⟨(h.locals i).queued, forall_mem_singleton.mpr ht⟩
    · exact (h.locals i).queued

theorem lookup (i : Worker) (inteth : Inteth) : (m.step (.lookup i inteth)).Sourced T := by
  obtain ⟨-, -, -, hcache, hbbq⟩ := lookupPort_spec m (m.locals i) inteth
  refine h.setLocal i ⟨fun a p hp => ?_, ?_⟩
  · rw [hcache] at hp
    split at hp
    · next ha => subst ha; exact h.found i a p hp
    · exact h.fresh i a p hp
  · rcases hbbq with hbbq | ⟨e, rfl, hfound, hbbq⟩
    · rw [hbbq]
      exact (h.locals i).queued
    · rw [hbbq]
      exact forall_mem_append.mpr
        ⟨(h.locals i).queued, forall_mem_singleton.mpr (h.found i _ _ hfound)⟩

theorem entryUpdate (i : Worker) {portid : Port} {inteth : Inteth} (ht : T inteth portid) :
    (m.step (.entryUpdate i inteth portid)).Sourced T := by
  apply h.setLocal i
  unfold mactableEntryUpdate addEntryBbq
  split
  · exact ⟨(h.locals i).cached,
      forall_mem_append.mpr ⟨(h.locals i).queued, forall_mem_singleton.mpr ht⟩⟩
  · exact h.locals i

theorem writes (order : HashOrder) (clock : Nat → Int) :
    ∀ e ∈ m.writes order clock, T e.inteth e.portid := by
  intro e he
  rcases mem_append.mp he with he | he
  · have hmem : e ∈ m.reading.entries := (order.property _).mem_iff.mp (mem_of_mem_take he)
    apply h.read
    show Option.map _ (m.reading.get e.inteth) = _
    rw [m.reading.get_eq_some_iff.mpr ⟨hmem, rfl⟩]
    rfl
  · obtain ⟨j, hj, rfl⟩ := mem_mapIdx.mp he
    obtain ⟨bbq, hbbq, he⟩ := mem_takeQueues _ _ (getElem_mem hj)
    obtain ⟨i, rfl⟩ := mem_ofFn.mp hbbq
    exact (h.locals i).queued (takeQueues _ _ _)[j] he

theorem update (order : HashOrder) (clock : Nat → Int) : (mactableUpdate m order clock).Sourced T := by
  cases hbusy : m.busy with
  | true =>
    unfold mactableUpdate
    rwa [if_pos hbusy]
  | false =>
    refine ⟨fun a p hp => ?_, ?_⟩
    · rw [readPort_mactableUpdate hbusy] at hp
      obtain ⟨e, he, rfl⟩ := Option.map_eq_some_iff.mp hp
      -- what is left after the ageing was written, and the last write of an address gives its port
      have hport : ((m.written order clock).table.get a).map Macentry.portid =
          ((lastFor (m.writes order clock) a).map Macentry.portid).or none := port_foldl _ _ a
      rw [aged_get_eq_some he, Option.or_none] at hport
      obtain ⟨d, hd, hdp⟩ := Option.map_eq_some_iff.mp hport.symm
      have hkey : d.inteth = a := by simpa using find?_some hd
      rw [← hkey, ← hdp]
      exact h.writes order clock d (mem_reverse.mp (mem_of_find?_eq_some hd))
    · unfold mactableUpdate
      rw [hbusy]
      exact fun i => ⟨(h.locals i).cached, fun _ he => absurd he not_mem_nil⟩

theorem step {e : Event} (he : ∀ a p, e.Tells a p → T a p) : (m.step e).Sourced T := by
  cases e with
  | learn i portid inteth => exact h.learn i (he _ _ ⟨rfl, rfl⟩)
  | lookup i inteth => exact h.lookup i inteth
  | entryUpdate i inteth portid => exact h.entryUpdate i (he _ _ ⟨rfl, rfl⟩)
  | maxEntriesSet _ | ageingTimeSet _ => exact ⟨h.read, h.locals⟩
  | update order clock => exact h.update order clock

theorem lookup_eq (i : Worker) (a : Inteth) :
    (lookupPort m (m.locals i) a).2 = OFPP_ALL ∨ T a (lookupPort m (m.locals i) a).2 := by
  rw [(lookupPort_spec m (m.locals i) a).1]
  cases hfound : (m.freshPort (m.locals i) a).or (m.readPort a) with
  | none => exact .inl rfl
  | some p => exact .inr (h.found i a p hfound)

omit h in
theorem run (events : List Event) (h : m.Sourced T)
    (htells : ∀ e ∈ events, ∀ a p, e.Tells a p → T a p) : (m.run events).Sourced T := by
  induction events generalizing m with
  | nil => exact h
  | cons e events ih =>
    obtain ⟨he, hrest⟩ := forall_mem_cons.mp htells
    exact ih (h.step he) hrest

end Mactable.Sourced

/-- **No address gets the port of another one**: a lookup floods, or answers a port that some worker
learned or set for that very address. -/
theorem lookup_sourced (events : List Event) (i : Worker) (inteth : Inteth) :
    let m := Mactable.init.run events
    (lookupPort m (m.locals i) inteth).2 = OFPP_ALL ∨
      ∃ e ∈ events, e.Tells inteth (lookupPort m (m.locals i) inteth).2 := by
  have h : (Mactable.init.run events).Sourced fun a p => ∃ e ∈ events, e.Tells a p :=
    sourced_init.run events fun e he a p htells => ⟨e, he, htells⟩
  exact h.lookup_eq i inteth

end Lagopus.L2
