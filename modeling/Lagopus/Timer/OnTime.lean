import Lagopus.Lib.Trace
import Lagopus.Timer.DpTimer

/-!
# Which timers expire on time

The deltas of the list say when each entry expires only as long as the thread
counts down the node at the head.  The thread takes that node once and then keeps
to it: a node inserted in front of it later takes its delta off the thread's node
and is itself not counted down.  And the sleep the thread takes beside an empty
list counts for nobody.

* `timeline` reads the list: each entry with the sum of the deltas up to its node.
  `timeline_addDpTimer` says an insertion adds one line to it and leaves the others.
* `OnTime` is what the timers are for: the remaining times are right, what has
  expired did so at its tick, and every entry ever armed is pending, expired or
  cancelled, in one of the three once.
* `BehindCurrent` is the condition on a call of `add_dp_timer`: the thread is counting
  down a node, and the new timeout is no shorter than what that node has left.
* `Firm` is the invariant that carries the proof.  `firm_step` keeps it through
  every event, an expiry with its re-armed timers being the run of `Firing` from
  slot to slot.
-/

namespace Lagopus.Timer

open List Timers Trace

open Timers (run pending)

/-! ## Reading the list -/

section Timeline

variable {α : Type}

/-- Every entry of the list with the time left until its node expires. -/
def timeline : Nat → List (DpTimer α) → List (Nat × α)
  | _, [] => []
  | base, n :: list =>
    (n.timerEntry.filterMap id).map (base + n.timeout, ·) ++ timeline (base + n.timeout) list

theorem filterMap_storeFirstFree (arg : α) (slots : List (Option α)) :
    ((storeFirstFree arg slots).filterMap id).Perm (arg :: slots.filterMap id) := by
  induction slots with
  | nil => simp [storeFirstFree]
  | cons slot slots ih =>
    cases slot with
    | none => simp [storeFirstFree]
    | some e => simpa [storeFirstFree] using (ih.cons e).trans (Perm.swap _ _ _)

theorem length_storeFirstFree_le (arg : α) (slots : List (Option α)) :
    (storeFirstFree arg slots).length ≤ slots.length + 1 := by
  induction slots with
  | nil => simp [storeFirstFree]
  | cons slot slots ih =>
    cases slot with
    | none => simp [storeFirstFree]
    | some e => simpa [storeFirstFree] using ih

variable (type : TimerType)

theorem timeline_addDpTimer (timeout base : Nat) (arg : α) (list : List (DpTimer α)) :
    (timeline base (addDpTimer type timeout arg list).1).Perm
      ((base + timeout, arg) :: timeline base list) := by
  induction list generalizing base timeout with
  | nil => simp [addDpTimer_nil, timeline]
  | cons n list ih =>
    rw [addDpTimer_cons]
    split_ifs with hstop hjoin
    · have hsum : base + timeout + (n.timeout - timeout) = base + n.timeout := by omega
      simp [timeline, hsum]
    · have hslots := (filterMap_storeFirstFree arg n.timerEntry).map (base + n.timeout, ·)
      simpa [timeline, DpTimer.store, hjoin.1] using hslots.append_right (timeline (base + n.timeout) list)
    · have hsum : base + n.timeout + (timeout - n.timeout) = base + timeout := by omega
      have hrest := ih (timeout - n.timeout) (base + n.timeout)
      rw [hsum] at hrest
      exact (hrest.append_left _).trans perm_middle

theorem timeline_add_base (base d : Nat) (list : List (DpTimer α)) :
    timeline (base + d) list = (timeline base list).map fun p => (p.1 + d, p.2) := by
  induction list generalizing base with
  | nil => rfl
  | cons n list ih =>
    have hsum : base + d + n.timeout = base + n.timeout + d := by omega
    simp [timeline, hsum, ih, Function.comp_def]

variable {list : List (DpTimer α)}

theorem le_of_mem_timeline {base : Nat} {p : Nat × α} (hp : p ∈ timeline base list) : base ≤ p.1 := by
  induction list generalizing base with
  | nil => simp [timeline] at hp
  | cons n list ih =>
    rw [timeline, mem_append] at hp
    rcases hp with hhead | hrest
    · obtain ⟨e, -, rfl⟩ := mem_map.1 hhead
      exact Nat.le_add_right _ _
    · exact (Nat.le_add_right _ _).trans (ih hrest)

theorem nentries_addDpTimer (timeout : Nat) (arg : α)
    (hroom : ∀ n ∈ list, n.nentries ≤ MAX_TIMEOUT_ENTRIES) :
    ∀ n ∈ (addDpTimer type timeout arg list).1, n.nentries ≤ MAX_TIMEOUT_ENTRIES := by
  induction list generalizing timeout with
  | nil => simp [addDpTimer_nil, DpTimer.nentries, MAX_TIMEOUT_ENTRIES]
  | cons n list ih =>
    obtain ⟨hn, hlist⟩ := forall_mem_cons.1 hroom
    rw [addDpTimer_cons]
    split_ifs with hstop hjoin
    · refine forall_mem_cons.2 ⟨?_, forall_mem_cons.2 ⟨hn, hlist⟩⟩
      simp [DpTimer.nentries, MAX_TIMEOUT_ENTRIES]
    · refine forall_mem_cons.2 ⟨?_, hlist⟩
      exact (length_storeFirstFree_le arg n.timerEntry).trans hjoin.2.2
    · exact forall_mem_cons.2 ⟨hn, ih _ hlist⟩

/-- The nodes at the head that expire together. -/
def leadingZeros : List (DpTimer α) → Nat
  | [] => 0
  | n :: list => if n.timeout = 0 then leadingZeros list + 1 else 0

theorem leadingZeros_le_length (list : List (DpTimer α)) : leadingZeros list ≤ list.length := by
  induction list with
  | nil => exact Nat.le_refl _
  | cons n list ih =>
    simp only [leadingZeros, length_cons]
    split_ifs <;> omega

theorem leadingZeros_addDpTimer {timeout : Nat} (hpos : 0 < timeout) (arg : α) (list : List (DpTimer α)) :
    leadingZeros (addDpTimer type timeout arg list).1 = leadingZeros list := by
  induction list with
  | nil => simp [addDpTimer_nil, leadingZeros, hpos.ne']
  | cons n list ih =>
    rw [addDpTimer_cons]
    split_ifs with hstop hjoin
    · have hn : n.timeout ≠ 0 := by omega
      simp [leadingZeros, hpos.ne', hn]
    · rfl
    · by_cases hzero : n.timeout = 0
      · simp [leadingZeros, hzero, ih]
      · simp [leadingZeros, hzero]

end Timeline

theorem pending_eq (base : Nat) (list : List (DpTimer Entry)) :
    list.flatMap DpTimer.live = (timeline base list).map Prod.snd := by
  induction list generalizing base with
  | nil => rfl
  | cons n list ih =>
    rw [flatMap_cons, ih (base + n.timeout)]
    simp [timeline, DpTimer.live, Function.comp_def]

/-! ## What the timers are for -/

/-- Every pending entry has the sum of the deltas up to its node left. -/
def Timers.Remaining (s : Timers) : Prop :=
  ∀ p ∈ timeline 0 s.list, p.2.due = s.now + p.1

/-- The entries are kept account of: each armed one is pending, expired or
cancelled, and what expired did so when it was due. -/
structure Timers.Kept (s : Timers) (pending : List Entry) : Prop where
  punctual : ∀ x ∈ s.expired, x.2 = x.1.due
  account : (pending ++ (s.expired.map Prod.fst ++ s.cancelled)).Perm s.added
  serials : s.added.map Entry.serial = range s.added.length

structure Timers.OnTime (s : Timers) : Prop where
  remaining : s.Remaining
  punctual : ∀ x ∈ s.expired, x.2 = x.1.due
  once : (s.pending ++ (s.expired.map Prod.fst ++ s.cancelled)).Nodup
  every : ∀ e, e ∈ s.added ↔ e ∈ s.pending ∨ (∃ n, (e, n) ∈ s.expired) ∨ e ∈ s.cancelled
  notOverdue : s.thread ≠ .notStarted → ∀ e ∈ s.pending, s.now < e.due

/-- The time left on the node the thread counts down, were the deltas in front of
it counted down too. -/
def Timers.headStart (s : Timers) (cur : Nat) : Nat :=
  ((s.list.take (cur + 1)).map DpTimer.timeout).sum

/-- A new timer comes behind the node that the thread counts down: no shorter than what that has left. -/
def Timers.BehindCurrent (s : Timers) (timeout : Nat) : Prop :=
  match s.thread with
  | .notStarted => True
  | .idle => False
  | .waiting cur => s.headStart cur ≤ timeout

instance (s : Timers) (timeout : Nat) : Decidable (s.BehindCurrent timeout) := by
  unfold BehindCurrent
  split <;> infer_instance

/-! ## The invariant -/

/-- The thread is where the list says: asleep beside an empty list, or at the head
of the list. -/
def Timers.AtHead (s : Timers) : Prop :=
  match s.thread with
  | .notStarted => True
  | .idle => s.list = []
  | .waiting cur => cur = 0 ∧ s.list ≠ []

structure Timers.Loose (s : Timers) : Prop where
  atHead : s.AtHead
  remaining : s.Remaining
  kept : s.Kept s.pending
  room : ∀ n ∈ s.list, n.nentries ≤ MAX_TIMEOUT_ENTRIES

/-- Between two sleeps nothing is due any more. -/
structure Timers.Firm (s : Timers) : Prop extends s.Loose where
  positive : s.thread ≠ .notStarted → leadingZeros s.list = 0

variable {s : Timers} {pending : List Entry}

theorem Timers.Kept.nodup (h : s.Kept pending) :
    (pending ++ (s.expired.map Prod.fst ++ s.cancelled)).Nodup := by
  have hserials : (s.added.map Entry.serial).Nodup := h.serials ▸ nodup_range
  exact h.account.nodup_iff.2 hserials.of_map

theorem Timers.Firm.onTime (h : s.Firm) : s.OnTime where
  remaining := h.remaining
  punctual := h.kept.punctual
  once := h.kept.nodup
  every := by
    intro e
    rw [← h.kept.account.mem_iff]
    simp
  notOverdue := by
    intro hstarted e he
    rw [pending, pending_eq 0, mem_map] at he
    obtain ⟨⟨left, e⟩, hp, rfl⟩ := he
    have hdue := h.remaining _ hp
    have hpositive := h.positive hstarted
    cases hlist : s.list with
    | nil => simp [hlist, timeline] at hp
    | cons n list =>
      have hn : 0 < n.timeout := by
        rw [hlist, leadingZeros] at hpositive
        by_contra hzero
        simp [show n.timeout = 0 by omega] at hpositive
      have hleft : n.timeout ≤ left := by
        rw [hlist, timeline, mem_append] at hp
        rcases hp with hhead | hrest
        · obtain ⟨_, -, heq⟩ := mem_map.1 hhead
          simp only [Prod.mk.injEq] at heq
          omega
        · have := le_of_mem_timeline hrest
          simp only at this
          omega
      simp only at hdue ⊢
      omega

theorem Timers.Kept.add (h : s.Kept pending) (type : TimerType) (timeout : Nat) {pending' : List Entry}
    (hp : pending'.Perm (⟨s.added.length, s.now + timeout⟩ :: pending)) :
    (s.add type timeout).Kept pending' where
  punctual := h.punctual
  account := by
    refine (hp.append_right _).trans ?_
    exact ((h.account.cons _).trans (perm_append_singleton _ _).symm)
  serials := by
    simp [Timers.add, map_append, h.serials, length_append, range_succ, map_cons, map_nil]

theorem Timers.Remaining.add (h : s.Remaining) (type : TimerType) (timeout : Nat) :
    (s.add type timeout).Remaining := by
  intro p hp
  have hline := (timeline_addDpTimer type timeout 0 _ s.list).mem_iff.1 hp
  rcases mem_cons.1 hline with rfl | hold
  · simp [Timers.add]
  · exact h p hold

theorem pending_add (s : Timers) (type : TimerType) (timeout : Nat) :
    (s.add type timeout).pending.Perm (⟨s.added.length, s.now + timeout⟩ :: s.pending) := by
  simp only [pending, pending_eq 0]
  exact (timeline_addDpTimer type timeout 0 _ s.list).map Prod.snd

/-! ## An expiry, slot by slot -/

/-- The expire function of the head node `n` has handled the slots before `i`. -/
structure Timers.Firing (s : Timers) (n : DpTimer Entry) (i zeros : Nat) : Prop where
  thread : s.thread = .waiting 0
  list : s.list.head? = some n
  zeros : leadingZeros s.list.tail = zeros
  remaining : ∀ p ∈ timeline 0 s.list.tail, p.2.due = s.now + p.1
  slots : ∀ e, some e ∈ n.timerEntry → e.due = s.now
  kept : s.Kept ((n.timerEntry.drop i).filterMap id ++ s.list.tail.flatMap DpTimer.live)
  room : ∀ n ∈ s.list.tail, n.nentries ≤ MAX_TIMEOUT_ENTRIES

variable {timeout : Nat} {n : DpTimer Entry}

theorem addDpTimer_behind (type : TimerType) (hpos : 0 < timeout) (arg : Entry) (hn : n.timeout = 0)
    (list : List (DpTimer Entry)) : addDpTimer type timeout arg (n :: list) =
      (n :: (addDpTimer type timeout arg list).1,
        (addDpTimer type timeout arg list).2.map (· + 1)) := by
  have hjoin : ¬ (n.timeout = timeout ∧ n.type = type ∧ n.nentries < MAX_TIMEOUT_ENTRIES) := by
    rintro ⟨heq, -⟩
    omega
  rw [addDpTimer_cons, if_neg (by omega), if_neg hjoin]
  simp [hn]

theorem Thread.shift_behind (k : Option Nat) : (Thread.waiting 0).shift (k.map (· + 1)) = .waiting 0 := by
  cases k <;> simp [Thread.shift]

variable {i zeros : Nat} (h : s.Firing n i zeros)

include h

theorem Timers.Firing.add (hn : n.timeout = 0) (type : TimerType)
    (hpos : 0 < timeout) : (s.add type timeout).Firing n i zeros := by
  obtain ⟨list, hlist⟩ : ∃ list, s.list = n :: list := by
    cases hs : s.list with
    | nil => exact absurd h.list (by simp [hs])
    | cons m list => exact ⟨list, by simpa [hs] using h.list⟩
  have hadd : (s.add type timeout).list =
      n :: (addDpTimer type timeout ⟨s.added.length, s.now + timeout⟩ list).1 := by
    simp [Timers.add, hlist, addDpTimer_behind type hpos _ hn]
  have hline := timeline_addDpTimer type timeout 0 ⟨s.added.length, s.now + timeout⟩ list
  refine ⟨?_, by simp [hadd], ?_, ?_, h.slots, ?_, ?_⟩
  · simp [Timers.add, hlist, addDpTimer_behind type hpos _ hn, h.thread, Thread.shift_behind]
  · simp only [hadd, tail_cons, leadingZeros_addDpTimer type hpos]
    simpa [hlist] using h.zeros
  · rw [hadd, tail_cons]
    intro p hp
    rcases mem_cons.1 (hline.mem_iff.1 hp) with rfl | hold
    · simp [Timers.add]
    · exact h.remaining p (by simpa [hlist] using hold)
  · refine h.kept.add type timeout ?_
    simp only [hadd, hlist, tail_cons, pending_eq 0]
    exact ((hline.map Prod.snd).append_left _).trans perm_middle
  · rw [hadd, tail_cons]
    exact nentries_addDpTimer type timeout _ (by simpa [hlist] using h.room)

theorem Timers.Firing.handle {e : Entry} (hslot : n.timerEntry[i]? = some (some e)) :
    (s.handle e).Firing n (i + 1) zeros := by
  obtain ⟨hi, hget⟩ := List.getElem?_eq_some_iff.1 hslot
  refine { h with kept := ⟨?_, ?_, h.kept.serials⟩ }
  · exact List.forall_mem_append.2 ⟨h.kept.punctual,
      List.forall_mem_singleton.2 (h.slots e (hget ▸ getElem_mem hi)).symm⟩
  · have haccount := h.kept.account
    rw [drop_eq_getElem_cons hi, hget, filterMap_cons_some (by rfl)] at haccount
    refine Perm.trans ?_ haccount
    simp only [Timers.handle, map_append, map_cons, map_nil, append_assoc,
      cons_append, nil_append]
    rw [← append_assoc, ← append_assoc, ← append_assoc, ← append_assoc]
    exact perm_middle

theorem Timers.Firing.skip (hslot : n.timerEntry[i]? = some none) : s.Firing n (i + 1) zeros := by
  obtain ⟨hi, hget⟩ := List.getElem?_eq_some_iff.1 hslot
  have hkept := h.kept
  rw [drop_eq_getElem_cons hi, hget, filterMap_cons_none (by rfl)] at hkept
  exact { h with kept := hkept }

theorem Timers.Firing.done (hi : n.nentries ≤ i) : s.Firing n n.nentries zeros := by
  have hdone : n.timerEntry.drop i = n.timerEntry.drop n.nentries :=
    (drop_eq_nil_of_le hi).trans (drop_length).symm
  exact { h with kept := hdone ▸ h.kept }

omit h

variable {rearm : Entry → Option Nat} (hrearm : ∀ e t, rearm e = some t → 0 < t)

include hrearm

theorem firing_expireLoop (hn : n.timeout = 0)
    (fuel i : Nat) (h : s.Firing n i zeros) (hfuel : n.nentries ≤ i + fuel) :
    (s.expireLoop rearm fuel i).Firing n n.nentries zeros := by
  induction fuel generalizing i s with
  | zero => exact h.done hfuel
  | succ fuel ih =>
    have hcur : s.list[0]? = some n := by
      rw [← head?_eq_getElem?]
      exact h.list
    unfold expireLoop
    simp only [h.thread, hcur]
    cases hslot : n.timerEntry[i]? with
    | none => exact h.done (getElem?_eq_none_iff.1 hslot)
    | some slot =>
      cases slot with
      | none => exact ih _ (h.skip hslot) (by omega)
      | some e =>
        have hhandled := h.handle hslot
        cases hre : rearm e with
        | none => simpa [hre] using ih _ hhandled (by omega)
        | some timeout =>
          simpa [hre] using ih _ (hhandled.add hn n.type (hrearm e timeout hre)) (by omega)

/-! ## The events keep the invariant -/

omit hrearm in
theorem Timers.Loose.cons (h : s.Loose) (hstarted : s.thread ≠ .notStarted) (hlist : s.list ≠ []) :
    s.thread = .waiting 0 := by
  have hat := h.atHead
  unfold AtHead at hat
  cases hthread : s.thread with
  | notStarted => exact absurd hthread hstarted
  | idle => simp only [hthread] at hat; exact absurd hat hlist
  | waiting cur => simp only [hthread] at hat; rw [hat.1]

variable {list : List (DpTimer Entry)}

/-- Expiring a head node with nothing left takes it off the list and leaves the rest
in order. -/
theorem loose_expire (h : s.Loose)
    (hlist : s.list = n :: list) (hthread : s.thread = .waiting 0) (hn : n.timeout = 0) :
    (s.expire rearm).Loose ∧ (s.expire rearm).thread ≠ .notStarted ∧
      leadingZeros (s.expire rearm).list = leadingZeros list := by
  have hfiring : s.Firing n 0 (leadingZeros list) := by
    refine ⟨hthread, by simp [hlist], by simp [hlist], ?_, ?_, ?_, ?_⟩
    · intro p hp
      refine h.remaining p ?_
      simp only [hlist, timeline, hn, mem_append]
      exact .inr (by simpa [hlist] using hp)
    · intro e he
      have hdue := h.remaining (0, e) (by
        simp only [hlist, timeline, hn, mem_append, mem_map]
        exact .inl ⟨e, mem_filterMap.2 ⟨some e, he, rfl⟩, rfl⟩)
      simpa using hdue
    · simpa [pending, hlist, DpTimer.live] using h.kept
    · intro m hm
      exact h.room m (by rw [hlist] at hm ⊢; exact mem_cons_of_mem _ hm)
  have hroom : n.nentries ≤ 0 + MAX_TIMEOUT_ENTRIES := by
    simpa using h.room n (by simp [hlist])
  have hdone := firing_expireLoop hrearm hn MAX_TIMEOUT_ENTRIES 0 hfiring hroom
  obtain ⟨hwait, hhead, hzeros, hremaining, -, hkept, hrooms⟩ := hdone
  have hpending : n.timerEntry.drop n.nentries = [] := drop_length
  rw [hpending, filterMap_nil, nil_append] at hkept
  unfold expire
  simp only [hwait, eraseIdx_zero]
  refine ⟨⟨?_, hremaining, ⟨hkept.punctual, hkept.account, hkept.serials⟩, hrooms⟩, ?_, hzeros⟩
  · unfold AtHead
    split_ifs with hnil
    · exact hnil
    · exact ⟨rfl, hnil⟩
  · split_ifs <;> simp

theorem firm_settle (fuel : Nat) (h : s.Loose)
    (hstarted : s.thread ≠ .notStarted) (hfuel : leadingZeros s.list ≤ fuel) :
    (s.settle rearm fuel).Firm ∧ (s.settle rearm fuel).thread ≠ .notStarted := by
  induction fuel generalizing s with
  | zero => exact ⟨⟨h, fun _ => Nat.le_zero.1 hfuel⟩, hstarted⟩
  | succ fuel ih =>
    cases hlist : s.list with
    | nil =>
      have hidle : s.settle rearm (fuel + 1) = s := by
        unfold settle
        cases s.thread <;> simp [hlist]
      rw [hidle]
      exact ⟨⟨h, fun _ => by simp [hlist, leadingZeros]⟩, hstarted⟩
    | cons n list =>
      have hwait := h.cons hstarted (by simp [hlist])
      have hcur : s.list[0]? = some n := by simp [hlist]
      unfold settle
      simp only [hwait, hcur]
      split_ifs with hpos
      · exact ⟨⟨h, fun _ => by simp [hlist, leadingZeros, Nat.pos_iff_ne_zero.1 hpos]⟩, hstarted⟩
      · have hn : n.timeout = 0 := by omega
        obtain ⟨hloose, hstarted', hzeros⟩ := loose_expire hrearm h hlist hwait hn
        refine ih hloose hstarted' ?_
        rw [hzeros]
        simpa [hlist, leadingZeros, hn] using hfuel

theorem firm_look (hremaining : s.Remaining)
    (hkept : s.Kept s.pending) (hroom : ∀ n ∈ s.list, n.nentries ≤ MAX_TIMEOUT_ENTRIES) :
    (s.look rearm).Firm ∧ (s.look rearm).thread ≠ .notStarted := by
  have hcopy : ∀ thread, ({ s with thread := thread } : Timers).Kept s.pending :=
    fun _ => ⟨hkept.punctual, hkept.account, hkept.serials⟩
  unfold look
  split_ifs with hnil
  · refine ⟨⟨⟨hnil, hremaining, hcopy _, hroom⟩, fun _ => ?_⟩, by simp⟩
    simp [hnil, leadingZeros]
  · exact firm_settle hrearm _ ⟨⟨rfl, hnil⟩, hremaining, hcopy _, hroom⟩ (by simp)
      (leadingZeros_le_length _)

omit hrearm in
theorem timeline_countdown (hn : 0 < n.timeout) (list : List (DpTimer Entry)) : timeline 0 (n :: list) =
      (timeline 0 ({ n with timeout := n.timeout - 1 } :: list)).map fun p => (p.1 + 1, p.2) := by
  have hone : n.timeout = n.timeout - 1 + 1 := by omega
  have hshift := timeline_add_base (n.timeout - 1) 1 list
  rw [← hone] at hshift
  simp [timeline, hshift, Function.comp_def, ← hone]

omit hrearm in
theorem Timers.Firm.cases (h : s.Firm) : s.thread = .notStarted ∨ (s.thread = .idle ∧ s.list = []) ∨
      (s.thread = .waiting 0 ∧ ∃ n list, s.list = n :: list ∧ 0 < n.timeout) := by
  have hat := h.atHead
  unfold AtHead at hat
  cases hthread : s.thread with
  | notStarted => exact .inl rfl
  | idle =>
    simp only [hthread] at hat
    exact .inr (.inl ⟨rfl, hat⟩)
  | waiting cur =>
    simp only [hthread] at hat
    obtain ⟨rfl, hne⟩ := hat
    obtain ⟨n, list, hlist⟩ := exists_cons_of_ne_nil hne
    have hpositive := h.positive (by simp [hthread])
    refine .inr (.inr ⟨rfl, n, list, hlist, ?_⟩)
    rw [hlist, leadingZeros] at hpositive
    by_contra hzero
    simp [show n.timeout = 0 by omega] at hpositive

omit hrearm in
theorem loose_sleep (h : s.Firm) (hthread : s.thread = .waiting 0) (hlist : s.list = n :: list)
    (hn : 0 < n.timeout) : s.sleep.Loose ∧ s.sleep.thread = .waiting 0 := by
  have hslept : s.sleep = { s with
      now := s.now + 1, list := { n with timeout := n.timeout - 1 } :: list } := by
    simp [sleep, hthread, hlist]
  have hpending : s.sleep.pending = s.pending := by
    simp [hslept, pending, hlist, DpTimer.live]
  refine ⟨⟨?_, ?_, ?_, ?_⟩, by simp [hslept, hthread]⟩
  · simp [AtHead, hslept, hthread]
  · intro p hp
    rw [hslept] at hp
    have hdue := h.remaining (p.1 + 1, p.2) (by
      rw [hlist, timeline_countdown hn]
      exact mem_map.2 ⟨p, hp, rfl⟩)
    simp only [hslept] at hdue ⊢
    omega
  · rw [hpending, hslept]
    exact ⟨h.kept.punctual, h.kept.account, h.kept.serials⟩
  · rw [hslept]
    refine forall_mem_cons.2 ⟨h.room n (by simp [hlist]), fun m hm => h.room m ?_⟩
    rw [hlist]
    exact mem_cons_of_mem _ hm

theorem firm_tick (h : s.Firm) : (s.tick rearm).Firm := by
  unfold tick
  rcases h.cases with hthread | ⟨hthread, hnil⟩ | ⟨hthread, n, list, hlist, hn⟩
  · simpa [sleep, wake, hthread] using h
  · simp only [sleep, wake, hthread]
    refine (firm_look hrearm ?_ ?_ ?_).1
    · intro p hp
      simp [hnil, timeline] at hp
    · exact ⟨h.kept.punctual, h.kept.account, h.kept.serials⟩
    · exact h.room
  · obtain ⟨hloose, hwait⟩ := loose_sleep h hthread hlist hn
    simp only [wake, hwait]
    exact (firm_settle hrearm _ hloose (by simp [hwait]) (leadingZeros_le_length _)).1

theorem firm_start (h : s.Firm) : (s.start rearm).Firm := by
  unfold start
  cases s.thread with
  | notStarted => exact (firm_look hrearm h.remaining h.kept h.room).1
  | idle => exact h
  | waiting cur => exact h

omit hrearm

theorem headStart_zero (hlist : s.list = n :: list) : s.headStart 0 = n.timeout := by
  simp [headStart, hlist]

theorem firm_add (h : s.Firm) (type : TimerType) (hbehind : s.BehindCurrent timeout) :
    (s.add type timeout).Firm := by
  have hkept := h.kept.add type timeout (pending_add s type timeout)
  have hroom := nentries_addDpTimer type timeout ⟨s.added.length, s.now + timeout⟩ h.room
  unfold BehindCurrent at hbehind
  rcases h.cases with hthread | ⟨hthread, -⟩ | ⟨hthread, n, list, hlist, hn⟩
  · have hstays : (s.add type timeout).thread = .notStarted := by
      simp [add, hthread, Thread.shift]
    refine ⟨⟨?_, h.remaining.add type timeout, hkept, hroom⟩, fun hne => absurd hstays hne⟩
    simp [AtHead, hstays]
  · simp [hthread] at hbehind
  · -- the new entry joins the head node or goes behind it, so the thread stays at the head
    simp only [hthread, headStart_zero hlist] at hbehind
    have hstep := addDpTimer_cons type timeout (⟨s.added.length, s.now + timeout⟩ : Entry) n list
    rw [if_neg (by omega)] at hstep
    have hboth : (s.add type timeout).thread = .waiting 0 ∧
        ∃ m rest, (s.add type timeout).list = m :: rest ∧ m.timeout = n.timeout := by
      simp only [add, hlist, hthread]
      split_ifs at hstep with hjoin
      · rw [hstep]
        exact ⟨rfl, _, _, rfl, rfl⟩
      · rw [hstep]
        exact ⟨Thread.shift_behind _, _, _, rfl, rfl⟩
    obtain ⟨hwait, m, rest, hcons, hm⟩ := hboth
    refine ⟨⟨?_, h.remaining.add type timeout, hkept, hroom⟩, fun _ => ?_⟩
    · simp [AtHead, hwait, hcons]
    · simp [hcons, leadingZeros, hm, hn.ne']

/-! Cancelling empties a slot; the node stays, and so do the times of the others. -/

theorem filterMap_cancelSlot (e : Entry) (slots : List (Option Entry)) :
    (slots.map (cancelSlot e)).filterMap id = (slots.filterMap id).filter (· ≠ e) := by
  induction slots with
  | nil => rfl
  | cons slot slots ih =>
    cases slot with
    | none => simpa [cancelSlot] using ih
    | some d =>
      by_cases hd : d = e
      · simpa [cancelSlot, hd] using ih
      · simpa [cancelSlot, hd] using ih

theorem timeline_cancel (e : Entry) (base : Nat) (list : List (DpTimer Entry)) :
    timeline base (list.map fun n => { n with timerEntry := n.timerEntry.map (cancelSlot e) }) =
      (timeline base list).filter (·.2 ≠ e) := by
  induction list generalizing base with
  | nil => rfl
  | cons n list ih =>
    simp only [map_cons, timeline, filterMap_cancelSlot, filter_append, ih, filter_map]
    rfl

theorem leadingZeros_cancel (e : Entry) (list : List (DpTimer Entry)) :
    leadingZeros (list.map fun n => { n with timerEntry := n.timerEntry.map (cancelSlot e) }) =
      leadingZeros list := by
  induction list with
  | nil => rfl
  | cons n list ih => simp [leadingZeros, ih]

theorem firm_cancel (h : s.Firm) (e : Entry) : (s.cancel e).Firm := by
  have hpending : (s.cancel e).pending = s.pending.filter (· ≠ e) := by
    simp only [pending, pending_eq 0, cancel, timeline_cancel, filter_map]
    rfl
  refine ⟨⟨?_, ?_, ⟨h.kept.punctual, ?_, h.kept.serials⟩, ?_⟩, ?_⟩
  · have hat := h.atHead
    unfold AtHead at hat ⊢
    simpa [cancel] using hat
  · intro p hp
    simp only [cancel, timeline_cancel] at hp
    exact h.remaining p (mem_of_mem_filter hp)
  · rw [hpending]
    refine Perm.trans ?_ h.kept.account
    have hsplit : (s.pending.filter (· = e) ++ s.pending.filter (· ≠ e)).Perm s.pending := by
      simpa using filter_append_perm (fun x => decide (x = e)) s.pending
    have hmove : (s.pending.filter (· ≠ e) ++
          (s.expired.map Prod.fst ++ (s.cancelled ++ s.pending.filter (· = e)))).Perm
        (s.pending.filter (· = e) ++ s.pending.filter (· ≠ e) ++
          (s.expired.map Prod.fst ++ s.cancelled)) := by
      have hswap : (s.pending.filter (· ≠ e) ++ (s.expired.map Prod.fst ++ s.cancelled) ++
          s.pending.filter (· = e)).Perm _ := perm_append_comm
      simpa only [append_assoc] using hswap
    exact hmove.trans (hsplit.append_right _)
  · intro m hm
    obtain ⟨n, hn, rfl⟩ := mem_map.1 hm
    simpa [DpTimer.nentries] using h.room n hn
  · intro hstarted
    simpa [cancel, leadingZeros_cancel] using h.positive hstarted

/-! ## Whole runs -/

/-- A timer that the event adds comes behind the node that is counted down. -/
def Timers.Timely (s : Timers) : Event → Prop
  | .add _ timeout => s.BehindCurrent timeout
  | _ => True

instance (s : Timers) (event : Event) : Decidable (s.Timely event) := by
  unfold Timely
  split <;> infer_instance

theorem firm_init : init.Firm := by
  refine ⟨⟨trivial, ?_, ⟨?_, ?_, rfl⟩, ?_⟩, ?_⟩ <;>
    simp [init, Remaining, pending, timeline]

theorem firm_step (hrearm : ∀ e t, rearm e = some t → 0 < t) (h : s.Firm) {event : Event}
    (htimely : s.Timely event) : (s.step rearm event).Firm := by
  cases event with
  | start => exact firm_start hrearm h
  | tick => exact firm_tick hrearm h
  | add type timeout => exact firm_add h type htimely
  | cancel e => exact firm_cancel h e

theorem firm_run (hrearm : ∀ e t, rearm e = some t → 0 < t) (events : List Event) (h : s.Firm)
    (hrun : EveryStep (step rearm) Timely s events) : (events.foldl (step rearm) s).Firm := by
  have hkeep : ∀ s event, Firm s → s.Timely event → (s.step rearm event).Firm :=
    fun _ _ h htimely => firm_step hrearm h htimely
  exact EveryStep.foldl_invariant hkeep h hrun

/-- An untimely call leaves a wrong remaining time after the very next second: the
thread counts down the node behind the new one, or nothing at all. -/
theorem remaining_sleep_add_iff (h : s.Firm) (hstarted : s.thread ≠ .notStarted) (type : TimerType)
    (timeout : Nat) : (s.add type timeout).sleep.Remaining ↔ s.BehindCurrent timeout := by
  constructor
  · intro hremaining
    rcases h.cases with hthread | ⟨hthread, hnil⟩ | ⟨hthread, n, list, hlist, hn⟩
    · exact absurd hthread hstarted
    · have hbad := hremaining (timeout, ⟨s.added.length, s.now + timeout⟩) (by
        simp [add, sleep, hthread, hnil, Thread.shift, addDpTimer_nil, timeline])
      simp [add, sleep, hthread, Thread.shift] at hbad
    · simp only [BehindCurrent, hthread, headStart_zero hlist]
      by_contra hearly
      have hstop : n.timeout > timeout := by omega
      have hbad := hremaining (timeout, ⟨s.added.length, s.now + timeout⟩) (by
        simp [add, sleep, hthread, hlist, addDpTimer_cons, hstop, Thread.shift, timeline])
      simp [add, sleep, hthread, hlist, addDpTimer_cons, hstop, Thread.shift] at hbad
  · intro hbehind
    have hfirm := firm_add h type hbehind
    have hstill : (s.add type timeout).thread ≠ .notStarted := by
      simp only [add]
      cases hthread : s.thread with
      | notStarted => exact absurd hthread hstarted
      | idle => simp [Thread.shift]
      | waiting cur => cases (addDpTimer type timeout _ s.list).2 <;> simp [Thread.shift]
    rcases hfirm.cases with hthread | ⟨hthread, hnil⟩ | ⟨hthread, n, list, hlist, hn⟩
    · exact absurd hthread hstill
    · intro p hp
      simp [sleep, hthread, hnil, timeline] at hp
    · exact (loose_sleep hfirm hthread hlist hn).1.remaining

/-- Over every run of timely calls each timer expires once and at its tick, as long
as it is not cancelled; and that is just what keeps the remaining times right. -/
theorem timers_onTime (rearm : Entry → Option Nat) (hrearm : ∀ e t, rearm e = some t → 0 < t)
    (events : List Event) (hrun : EveryStep (step rearm) Timely init events) :
    (Timers.run rearm events).OnTime ∧
      ((Timers.run rearm events).thread ≠ .notStarted → ∀ type timeout,
        (((Timers.run rearm events).add type timeout).sleep.Remaining ↔
          (Timers.run rearm events).BehindCurrent timeout)) := by
  have hfirm := firm_run hrearm events firm_init hrun
  exact ⟨hfirm.onTime, fun hstarted => remaining_sleep_add_iff hfirm hstarted⟩

/-- A link timer armed before the start and re-armed every two seconds, a flow timer
added behind it, and one that is cancelled. -/
def everyTwoSeconds (e : Entry) : Option Nat := if e.serial = 0 ∨ 2 < e.serial then some 2 else none

def linkAndFlow : List Event :=
  [.add .link 2, .add .flow 2, .add .flow 3, .start, .tick, .cancel ⟨2, 3⟩, .tick, .tick, .tick]

theorem timers_onTime_linkAndFlow :
    (Timers.run everyTwoSeconds linkAndFlow).expired = [(⟨0, 2⟩, 2), (⟨1, 2⟩, 2), (⟨3, 4⟩, 4)] ∧
      (Timers.run everyTwoSeconds linkAndFlow).OnTime := by
  refine ⟨by decide, (timers_onTime everyTwoSeconds ?_ linkAndFlow (by decide +kernel)).1⟩
  intro e t ht
  simp only [everyTwoSeconds] at ht
  split_ifs at ht
  simp only [Option.some.injEq] at ht
  omega

/-- A timer of three seconds added two seconds into a timer of ten: the thread keeps
to the old node, whose count the new one shortened. -/
theorem timer_early_and_late :
    (Timers.run (fun _ => none) ([.add .flow 10, .start, .tick, .tick, .add .flow 3] ++
        List.replicate 8 .tick)).expired = [(⟨0, 10⟩, 7), (⟨1, 5⟩, 10)] := by
  decide

end Lagopus.Timer
