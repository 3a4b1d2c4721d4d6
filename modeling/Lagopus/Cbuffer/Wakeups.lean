import Lagopus.Cbuffer.Fifo

/-!
# Waking the waiting threads up

`lagopus_cbuffer_wakeup` sets `m_is_awakened`, notifies everybody and, if it is given time, waits until
the last waiting thread has cleared the flag.  The flag is the only thing that tells a thread that it
was woken up, and a wake-up that finds it set does nothing.

* `Queue.WakesRight`: wake-ups are neither lost nor invented;
* `Queue.LetsWakeupEnd`: no wait begins and no timed wake-up is called while the flag is set, and the last
  waiting thread does not time out then;
* `Queue.Handshake`: the invariant;
* `wakeups_right`: every run of such steps is right.
-/

namespace Lagopus.Cbuffer

variable {ι α : Type*} {maxElements : Nat} [DecidableEq ι] [Fintype ι]

namespace Queue

open Function Finset

/-! ## What is asked -/

/-- Wake-ups are neither lost nor invented. -/
structure WakesRight [Inhabited α] (s : Queue ι α maxElements) (e : Event ι α) : Prop where
  quiet : (step s e).waiting = ∅ → (step s e).isAwakened = false
  /-- A wait that ends with a wake-up was woken up. -/
  called : ∀ t r elapsed, e = .wake t r elapsed → s.Enabled e → (s.thread t).Waits →
    (s.waitEnds t r).1 = .wakeupRequested → s.woken t = true
  /-- Every waiting thread is notified. -/
  heard : ∀ t nsec, e = .call t (.wakeup nsec) → s.Enabled e → s.isOperational = true →
    ∀ u ∈ s.waiting, (step s e).notified u = true
  /-- A wake-up that is given time and returns at once finds nobody waiting. -/
  immediate : ∀ t nsec, e = .call t (.wakeup nsec) → s.Enabled e → nsec ≠ 0 →
    (outcome s e).exit = .returns .ok → s.waiting = ∅
  /-- A wake-up that has waited returns when all threads have left. -/
  waited : ∀ t r elapsed nsec targets, e = .wake t r elapsed → s.Enabled e →
    s.thread t = .waking nsec targets → (outcome s e).exit = .returns .ok → targets = ∅

/-- Nothing comes between a wake-up and its end. -/
def LetsWakeupEnd [Inhabited α] (s : Queue ι α maxElements) : Event ι α → Prop
  | .call t c =>
    (((step s (.call t c)).thread t).Waits → s.isAwakened = false) ∧
      ∀ nsec, c = .wakeup nsec → nsec ≠ 0 → s.isAwakened = false
  | .wake t r _ => r ≠ .ok → s.isAwakened = true → s.waiting ≠ {t}

/-! ## The invariant -/

variable (s : Queue ι α maxElements)

/-- While the flag is set somebody waits, and everybody who waits was notified. -/
structure Handshake : Prop where
  counted : s.nWaiters = s.waiting.card
  pending : s.isAwakened = true → s.waiting.Nonempty
  heard : s.isAwakened = true → ∀ u ∈ s.waiting, s.notified u = true ∧ s.woken u = true
  targets : ∀ t nsec targets, s.thread t = .waking nsec targets → targets ⊆ s.waiting ∧
    (s.isAwakened = false → s.isOperational = true → targets = ∅)

variable {s : Queue ι α maxElements} {t : ι} {ret : Result}

omit [DecidableEq ι] in
@[simp] theorem mem_waiting {u : ι} : u ∈ s.waiting ↔ (s.thread u).Waits := by simp [waiting]

variable {th : Thread ι α}

theorem waiting_update {s' : Queue ι α maxElements} (hthread : s'.thread = Function.update s.thread t th) :
    s'.waiting = if th.Waits then insert t s.waiting else s.waiting.erase t := by
  ext u
  rw [mem_waiting, hthread]
  rcases eq_or_ne u t with rfl | hu
  · rw [update_self]
    split <;> simp_all
  · rw [update_of_ne hu]
    split <;> simp [hu]

namespace Handshake

variable (h : s.Handshake)

include h

omit [DecidableEq ι] in
theorem quiet (hnone : s.waiting = ∅) : s.isAwakened = false := by
  by_contra hset
  have := h.pending (Bool.not_eq_false _ ▸ hset)
  rw [hnone] at this
  exact not_nonempty_empty this

theorem returns (hidle : ¬ (s.thread t).Waits) : (s.returns t).Handshake := by
  have hwaiting : (s.returns t).waiting = s.waiting := by
    rw [waiting_update rfl, if_neg (by exact id)]
    exact erase_eq_of_notMem (by rwa [mem_waiting])
  refine ⟨?_, ?_, ?_, fun u nsec targets hu => ?_⟩
  · rw [hwaiting]
    exact h.counted
  · rw [hwaiting]
    exact h.pending
  · rw [hwaiting]
    exact h.heard
  · rw [hwaiting]
    rcases eq_or_ne u t with rfl | hne
    · rw [show (s.returns u).thread u = .idle from update_self ..] at hu
      cases hu
    · rw [show (s.returns t).thread u = s.thread u from update_of_ne hne ..] at hu
      exact h.targets u nsec targets hu

theorem waits (hidle : s.thread t = .idle) (hth : th.Waits)
    (hflag : s.isAwakened = false) : (s.waits t th).Handshake := by
  have hnot : t ∉ s.waiting := by
    rw [mem_waiting, hidle]
    exact id
  have hwaiting : (s.waits t th).waiting = insert t s.waiting := by
    rw [waiting_update rfl, if_pos hth]
  refine ⟨?_, fun hset => ?_, fun hset => ?_, fun u nsec targets hu => ?_⟩
  · rw [hwaiting, card_insert_of_notMem hnot, ← h.counted]
    rfl
  · cases hflag.symm.trans hset
  · cases hflag.symm.trans hset
  · rcases eq_or_ne u t with rfl | hne
    · rw [show (s.waits u th).thread u = th from update_self ..] at hu
      rw [hu] at hth
      exact hth.elim
    · rw [show (s.waits t th).thread u = s.thread u from update_of_ne hne ..] at hu
      obtain ⟨hsub, hempty⟩ := h.targets u nsec targets hu
      rw [hwaiting]
      exact ⟨hsub.trans (subset_insert _ _), hempty⟩

theorem waits_of_flag (hidle : s.thread t = .idle) (hth : th.Waits)
    (hflag : ((s.waits t th).thread t).Waits → s.isAwakened = false) : (s.waits t th).Handshake := by
  refine h.waits hidle hth (hflag ?_)
  simp only [Queue.waits, update_self]
  exact hth

theorem leave (hidle : s.thread t = .idle) (hth : th.Waits) {exit : Exit}
    (hflag : ((s.leave t th exit).thread t).Waits → s.isAwakened = false) : (s.leave t th exit).Handshake := by
  cases exit with
  | waits => exact h.waits_of_flag hidle hth hflag
  | returns _ | fatal _ =>
    exact h.returns (by rw [hidle]; exact id)

/-! ### The end of a wait -/

end Handshake

omit [Fintype ι] in
theorem Thread.waits_without (t : ι) : (th.without t).Waits ↔ th.Waits := by
  cases th <;> exact Iff.rfl

variable {nsec : Int} {targets : Finset ι}

omit [Fintype ι] in
theorem Thread.without_eq_waking (h : th.without t = .waking nsec targets) :
    ∃ targets', th = .waking nsec targets' ∧ targets = targets'.erase t := by
  cases th with
  | waking nsec' targets' =>
    cases h
    exact ⟨targets', rfl, rfl⟩
  | idle | putting _ | getting _ | gettable _ | puttable _ => cases h

theorem waiting_waitEnds (t : ι) (r : CondResult) :
    (s.waitEnds t r).2.waiting = s.waiting.erase t := by
  obtain ⟨-, -, -, -, -, -, hthread⟩ := s.waitEnds_frame t r
  ext u
  rw [mem_waiting, hthread, Thread.waits_without, Finset.mem_erase, mem_waiting]
  rcases eq_or_ne u t with rfl | hu
  · rw [update_self]
    exact ⟨False.elim, fun h => absurd rfl h.1⟩
  · rw [update_of_ne hu]
    exact ⟨fun h => ⟨hu, h⟩, And.right⟩

omit [Fintype ι] in
theorem waitEnds_counts (t : ι) (r : CondResult) :
    (s.waitEnds t r).2.nWaiters = s.nWaiters - 1 ∧ (s.waitEnds t r).2.woken = s.woken ∧
      (s.waitEnds t r).2.notified = s.notified := by
  simp only [waitEnds]
  split
  · split
    · split <;> exact ⟨rfl, rfl, rfl⟩
    · exact ⟨rfl, rfl, rfl⟩
  · exact ⟨rfl, rfl, rfl⟩

omit [Fintype ι] in
theorem waitEnds_isAwakened (t : ι) (r : CondResult) :
    (s.waitEnds t r).2.isAwakened =
      (s.isAwakened && (decide (r ≠ .ok) || (s.isOperational && decide (s.nWaiters - 1 ≠ 0)))) := by
  have hleft : (s.left t).isAwakened = s.isAwakened := rfl
  simp only [waitEnds]
  split
  · next hwoken =>
    split
    · next hopen =>
      split
      · next hzero => simp [hwoken.1, hzero]
      · next hzero => simp [hwoken.1, hwoken.2, hopen, hzero, hleft]
    · next hopen => simp [hwoken.1, hopen]
  · next hwoken =>
    cases hflag : s.isAwakened with
    | false => exact hleft.trans hflag
    | true =>
      have hr : r ≠ .ok := fun hr => hwoken ⟨hr, hflag⟩
      simp [hr, hleft, hflag]

variable {r : CondResult}

omit [Fintype ι] in
theorem waitEnds_ok (h : (s.waitEnds t r).1 = .ok) : s.isAwakened = false := by
  simp only [waitEnds] at h
  split at h
  · split at h <;> cases h
  · next hwoken =>
    cases r with
    | ok =>
      cases hflag : s.isAwakened with
      | false => rfl
      | true => exact absurd ⟨rfl, hflag⟩ hwoken
    | timedout | posixApiError => cases h

omit [Fintype ι] in
theorem waitEnds_wakeupRequested (h : (s.waitEnds t r).1 = .wakeupRequested) : s.isAwakened = true := by
  simp only [waitEnds] at h
  split at h
  · next hwoken => exact hwoken.2
  · cases r <;> cases h

namespace Handshake

variable (h : s.Handshake)

include h

theorem waitEnds (hwaits : (s.thread t).Waits) (hlast : r ≠ .ok → s.isAwakened = true → s.waiting ≠ {t}) :
    (s.waitEnds t r).2.Handshake := by
  have hmem : t ∈ s.waiting := mem_waiting.2 hwaits
  have hcard := card_erase_of_mem hmem
  obtain ⟨hcount, hwoken, hnotified⟩ := s.waitEnds_counts t r
  obtain ⟨-, -, -, -, -, hopen, hthread⟩ := s.waitEnds_frame t r
  have hflag := s.waitEnds_isAwakened t r
  have hset (hset' : (s.waitEnds t r).2.isAwakened = true) : s.isAwakened = true := by
    rw [hflag, Bool.and_eq_true] at hset'
    exact hset'.1
  refine ⟨?_, fun hset' => ?_, fun hset' u hu => ?_, fun u nsec targets hu => ?_⟩
  · rw [hcount, waiting_waitEnds, hcard, h.counted]
  · rw [waiting_waitEnds]
    by_cases hr : r = .ok
    · -- the flag was left to the threads that still wait
      have hmore : s.nWaiters - 1 ≠ 0 := by
        rw [hflag] at hset'
        simp only [hr, ne_eq, not_true_eq_false, decide_false, Bool.false_or, Bool.and_eq_true,
          decide_eq_true_eq] at hset'
        exact hset'.2.2
      rw [h.counted, ← hcard] at hmore
      exact card_ne_zero.1 hmore
    · rw [nonempty_iff_ne_empty, ne_eq, erase_eq_empty_iff, not_or]
      exact ⟨(h.pending (hset hset')).ne_empty, hlast hr (hset hset')⟩
  · rw [waiting_waitEnds] at hu
    rw [hnotified, hwoken]
    exact h.heard (hset hset') u (mem_of_mem_erase hu)
  · rw [hthread] at hu
    obtain ⟨targets', hu', rfl⟩ := Thread.without_eq_waking hu
    have hne : u ≠ t := by
      rintro rfl
      rw [update_self] at hu'
      cases hu'
    rw [update_of_ne hne] at hu'
    obtain ⟨hsub, hempty⟩ := h.targets u nsec targets' hu'
    rw [waiting_waitEnds, hopen]
    refine ⟨erase_subset_erase t hsub, fun hclear hoper => ?_⟩
    cases hwas : s.isAwakened with
    | false => rw [hempty hwas hoper, erase_empty]
    | true =>
      -- the last waiting thread has cleared the flag
      have hlastone : s.nWaiters - 1 = 0 := by
        rw [hflag, hwas, hoper] at hclear
        simp only [Bool.true_and, Bool.or_eq_false_iff, decide_eq_false_iff_not, not_not] at hclear
        exact hclear.2
      rw [h.counted, ← hcard, card_eq_zero] at hlastone
      exact subset_empty.1 (hlastone ▸ erase_subset_erase t hsub)

/-! ### Critical sections -/

omit [DecidableEq ι] in
theorem congr {s' : Queue ι α maxElements} (hthread : s'.thread = s.thread)
    (hcount : s'.nWaiters = s.nWaiters) (hflag : s'.isAwakened = s.isAwakened)
    (hnotified : s'.notified = s.notified) (hwoken : ∀ u, s.woken u = true → s'.woken u = true)
    (hopen : s'.isOperational = true → s.isOperational = true) : s'.Handshake := by
  have hwaiting : s'.waiting = s.waiting := by
    ext u
    rw [mem_waiting, mem_waiting, hthread]
  refine ⟨?_, ?_, fun hset u hu => ?_, fun u nsec targets hu => ?_⟩
  · rw [hcount, hwaiting]
    exact h.counted
  · rw [hflag, hwaiting]
    exact h.pending
  · rw [hflag] at hset
    rw [hwaiting] at hu
    rw [hnotified]
    exact ⟨(h.heard hset u hu).1, hwoken u (h.heard hset u hu).2⟩
  · rw [hthread] at hu
    rw [hwaiting, hflag]
    obtain ⟨hsub, hempty⟩ := h.targets u nsec targets hu
    exact ⟨hsub, fun hclear hoper => hempty hclear (hopen hoper)⟩

variable (hidle : s.thread t = .idle)

include hidle

theorem putRound {c : PutN α} (hflag : ((s.putRound t c ret).1.thread t).Waits → s.isAwakened = false) :
    (s.putRound t c ret).1.Handshake := by
  rcases Bool.eq_false_or_eq_true s.isOperational with hopen | hshut
  · rw [putRound_eq hopen] at hflag ⊢
    have hmoved : (s.pushed t (c.vals.drop c.nCopyin)).Handshake := h.congr rfl rfl rfl rfl (fun _ => id) id
    refine hmoved.leave hidle ?_ hflag
    trivial
  · rw [Queue.putRound, if_neg (by rw [hshut]; exact Bool.false_ne_true)]
    exact h.returns (by rw [hidle]; exact id)

theorem getRound {c : GetN α} (hflag : ((s.getRound t c ret).1.thread t).Waits → s.isAwakened = false) :
    (s.getRound t c ret).1.Handshake := by
  rcases Bool.eq_false_or_eq_true s.isOperational with hopen | hshut
  · rw [getRound_eq hopen] at hflag ⊢
    have hmoved : (s.popped t (c.nValsMax - c.out.length) c.doIncr).Handshake :=
      h.congr rfl rfl rfl rfl (fun _ => id) id
    refine hmoved.leave hidle ?_ hflag
    trivial
  · rw [Queue.getRound, if_neg (by rw [hshut]; exact Bool.false_ne_true)]
    exact h.returns (by rw [hidle]; exact id)

theorem waitGettable (hflag : ((s.waitGettable t nsec).1.thread t).Waits → s.isAwakened = false) :
    (s.waitGettable t nsec).1.Handshake := by
  unfold Queue.waitGettable at hflag ⊢
  split_ifs at hflag ⊢
  · exact h
  · exact h.waits_of_flag hidle trivial hflag
  · exact h

theorem waitPuttable (hflag : ((s.waitPuttable t nsec).1.thread t).Waits → s.isAwakened = false) :
    (s.waitPuttable t nsec).1.Handshake := by
  simp only [Queue.waitPuttable] at hflag ⊢
  split_ifs at hflag ⊢
  · exact h
  · exact h.waits_of_flag hidle trivial hflag
  · exact h

theorem waking (hset : s.isAwakened = true) (nsec : Int) :
    Handshake { s with thread := Function.update s.thread t (.waking nsec s.waiting) } := by
  have hwaiting : ({ s with thread := Function.update s.thread t (.waking nsec s.waiting) } :
      Queue ι α maxElements).waiting = s.waiting := by
    rw [waiting_update rfl, if_neg (by exact id)]
    exact erase_eq_of_notMem (by rw [mem_waiting, hidle]; exact id)
  refine ⟨?_, ?_, ?_, fun u nsec' targets hu => ?_⟩
  · rw [hwaiting]
    exact h.counted
  · rw [hwaiting]
    exact h.pending
  · rw [hwaiting]
    exact h.heard
  · rw [hwaiting]
    refine ⟨?_, fun hclear => absurd (hset.symm.trans hclear) nofun⟩
    rcases eq_or_ne u t with rfl | hne
    · simp only [update_self] at hu
      cases hu
      exact Finset.Subset.rfl
    · simp only [update_of_ne hne] at hu
      exact (h.targets u nsec' targets hu).1

theorem wakeup : (s.wakeup t nsec).1.Handshake := by
  have hwoken (u : ι) (hu : s.woken u = true) : (s.woken u || decide (s.thread u).Waits) = true := by
    rw [hu, Bool.true_or]
  have hsame : Handshake { s with woken := fun u => s.woken u || decide (s.thread u).Waits } :=
    h.congr rfl rfl rfl rfl hwoken id
  simp only [Queue.wakeup]
  split
  · next hcount =>
    split
    · split
      · -- the flag is set, and everybody who waits is notified
        have hsome : s.waiting.Nonempty := by
          rw [← card_pos, ← h.counted]
          exact hcount
        have hset : Handshake { s with
            woken := fun u => s.woken u || decide (s.thread u).Waits
            isAwakened := true
            notified := fun u => s.notified u || decide (s.thread u).Waits } := by
          refine ⟨h.counted, fun _ => hsome, fun _ u hu => ?_, fun u nsec' targets hu => ?_⟩
          · simp only [decide_eq_true (mem_waiting.1 hu : (s.thread u).Waits), Bool.or_true]
            exact ⟨trivial, trivial⟩
          · exact ⟨(h.targets u nsec' targets hu).1, fun hclear => absurd hclear Bool.true_eq_false.mp⟩
        split
        · exact hset.waking hidle rfl nsec
        · exact hset
      · exact hsame
    · exact hsame
  · exact hsame

omit hidle

theorem recheck (hthread : s.thread t = .waking nsec targets) : (s.recheck t nsec r).1.Handshake := by
  have hreturns : (s.returns t).Handshake := h.returns (by rw [hthread]; exact id)
  unfold Queue.recheck
  split
  · split
    · split
      · exact h
      · exact hreturns
    · exact hreturns
  · exact hreturns

omit [DecidableEq ι] in
theorem clean [Inhabited α] : s.clean.Handshake :=
  h.congr rfl rfl rfl rfl (fun _ => id) id

omit [DecidableEq ι] in
theorem shutdown [Inhabited α] (freeValues : Bool) : (s.shutdown freeValues).1.Handshake := by
  unfold Queue.shutdown
  split
  · exact h.clean.congr rfl rfl rfl rfl (fun _ => id) nofun
  · exact h

theorem wakeup_heard (hopen : s.isOperational = true) {u : ι} (hu : u ∈ s.waiting)
    : (s.wakeup t nsec).1.notified u = true := by
  have hcount : 0 < s.nWaiters := by
    rw [h.counted]
    exact card_pos.2 ⟨u, hu⟩
  have hwaits : (s.thread u).Waits := mem_waiting.1 hu
  simp only [Queue.wakeup, if_pos hcount, if_pos hopen]
  split
  · split
    · simp [decide_eq_true hwaits]
    · simp [decide_eq_true hwaits]
  · next hset => exact (h.heard (Bool.not_eq_false _ ▸ hset) u hu).1

theorem wakeup_immediate (hclear : s.isAwakened = false) (hnsec : nsec ≠ 0)
    (hok : (s.wakeup t nsec).2.exit = .returns .ok) : s.waiting = ∅ := by
  by_contra hne
  have hcount : 0 < s.nWaiters := by
    rw [h.counted]
    exact card_pos.2 (nonempty_iff_ne_empty.2 hne)
  simp only [Queue.wakeup, if_pos hcount, if_pos hclear, if_pos hnsec] at hok
  split at hok <;> cases hok

theorem recheck_waited (hthread : s.thread t = .waking nsec targets)
    (hok : (s.recheck t nsec r).2.exit = .returns .ok) : targets = ∅ := by
  unfold Queue.recheck at hok
  split at hok
  · split at hok
    · next hopen =>
      split at hok
      · cases hok
      · next hclear =>
        exact (h.targets t nsec targets hthread).2 (Bool.not_eq_true _ ▸ hclear) hopen
    · cases hok
  · next hr =>
    cases r with
    | ok => exact absurd rfl hr
    | timedout | posixApiError => cases hok

/-! ### Steps -/

variable [Inhabited α]

theorem call {c : Call α} (hidle : s.thread t = .idle)
    (hflag : ((s.call t c).1.thread t).Waits → s.isAwakened = false) : (s.call t c).1.Handshake := by
  have hfresh : (s.fresh t).Handshake := h.congr rfl rfl rfl rfl (fun _ => id) id
  cases c with
  | put val nsec => exact hfresh.putRound hidle hflag
  | putN vals nsec =>
    simp only [Queue.call] at hflag ⊢
    split_ifs at hflag ⊢
    · exact hfresh.putRound hidle hflag
    · exact hfresh
  | get nsec | peek nsec => exact hfresh.getRound hidle hflag
  | getN nValsMax nAtLeast nsec | peekN nValsMax nAtLeast nsec =>
    simp only [Queue.call] at hflag ⊢
    split_ifs at hflag ⊢
    · exact hfresh.getRound hidle hflag
    · exact hfresh
  | clear freeValues => exact hfresh.clean
  | shutdown freeValues => exact hfresh.shutdown freeValues
  | wakeup nsec => exact hfresh.wakeup hidle
  | waitGettable nsec => exact hfresh.waitGettable hidle hflag
  | waitPuttable nsec => exact hfresh.waitPuttable hidle hflag

omit [Inhabited α] in
theorem wake {elapsed : Int} (hbusy : ¬ (s.thread t).Idle)
    (hlast : r ≠ .ok → s.isAwakened = true → s.waiting ≠ {t}) : (s.wake t r elapsed).1.Handshake := by
  have hidle := s.waitEnds_thread_self t r
  have hends (hwaits : (s.thread t).Waits) := h.waitEnds hwaits hlast
  -- a call that waits again was not woken up
  have hclear (hok : (s.waitEnds t r).1 = .ok) : (s.waitEnds t r).2.isAwakened = false := by
    rw [waitEnds_isAwakened, waitEnds_ok hok, Bool.false_and]
  cases hthread : s.thread t with
  | idle =>
    rw [hthread] at hbusy
    exact absurd trivial hbusy
  | putting c =>
    rw [hthread] at hends
    simp only [Queue.wake, hthread]
    split
    · next nsec hnext =>
      exact (hends trivial).putRound hidle fun _ => hclear (next_again hnext).1
    · exact hends trivial
  | getting c =>
    rw [hthread] at hends
    simp only [Queue.wake, hthread]
    split
    · next nsec hnext =>
      exact (hends trivial).getRound hidle fun _ => hclear (next_again hnext).1
    · exact hends trivial
  | gettable nsec | puttable nsec =>
    rw [hthread] at hends
    simp only [Queue.wake, hthread]
    exact hends trivial
  | waking nsec targets =>
    simp only [Queue.wake, hthread]
    exact h.recheck hthread

theorem step {e : Event ι α} (hlets : s.LetsWakeupEnd e) : (Cbuffer.step s e).Handshake := by
  by_cases henabled : s.Enabled e
  · cases e with
    | call t c =>
      obtain ⟨hflag, -⟩ := hlets
      simp only [Cbuffer.step, exec, if_pos henabled] at hflag ⊢
      exact h.call (Thread.Idle.eq_idle henabled) hflag
    | wake t r elapsed =>
      simp only [Cbuffer.step, exec, if_pos henabled]
      exact h.wake henabled.1 hlets
  · simp only [Cbuffer.step, exec, if_neg henabled]
    exact h

/-- **A step that lets wake-ups end is right.** -/
theorem wakesRight {e : Event ι α} (hlets : s.LetsWakeupEnd e) : s.WakesRight e := by
  refine ⟨(h.step hlets).quiet, ?_, ?_, ?_, ?_⟩
  · rintro t r elapsed rfl - hwaits hret
    exact (h.heard (waitEnds_wakeupRequested hret) t (mem_waiting.2 hwaits)).2
  · rintro t nsec rfl henabled hopen u hu
    have hfresh : (s.fresh t).Handshake := h.congr rfl rfl rfl rfl (fun _ => id) id
    simp only [Cbuffer.step, exec, if_pos henabled]
    exact hfresh.wakeup_heard hopen hu
  · rintro t nsec rfl henabled hnsec hok
    have hfresh : (s.fresh t).Handshake := h.congr rfl rfl rfl rfl (fun _ => id) id
    simp only [outcome, exec, if_pos henabled] at hok
    exact hfresh.wakeup_immediate (hlets.2 nsec rfl hnsec) hnsec hok
  · rintro t r elapsed nsec targets rfl henabled hthread hok
    simp only [outcome, exec, if_pos henabled, Queue.wake, hthread] at hok
    exact h.recheck_waited hthread hok

end Handshake

/-! ## Runs -/

variable [Inhabited α]

/-- **Wake-ups are neither lost nor invented**, for every number of threads and every interleaving of
such steps. -/
theorem wakeups_right (data : Nat → α) (delProc : Bool) {es : List (Event ι α)}
    (h : Trace.EveryStep step (LetsWakeupEnd : Queue ι α maxElements → Event ι α → Prop)
      { buffer := { data }, delProc } es) :
    Trace.EveryStep step (WakesRight : Queue ι α maxElements → Event ι α → Prop)
      { buffer := { data }, delProc } es := by
  have hstep (s : Queue ι α maxElements) (e : Event ι α) (hs : s.Handshake) (he : s.LetsWakeupEnd e) :
      s.WakesRight e ∧ (step s e).Handshake := ⟨hs.wakesRight he, hs.step he⟩
  refine Trace.EveryStep.of_invariant hstep ?_ h
  have hnone : ({ buffer := { data }, delProc } : Queue ι α maxElements).waiting = ∅ :=
    Finset.filter_false_of_mem fun _ _ => id
  exact ⟨by rw [hnone]; rfl, nofun, nofun, nofun⟩

/-- A queue of two numbers and two threads. -/
def pair : Queue Bool Nat 2 := { buffer := { data := fun _ => 0 }, delProc := true }

/-- One thread waits, the other wakes it up and waits for it. -/
theorem wakeups_right_of_handshake :
    Trace.EveryStep step (WakesRight : Queue Bool Nat 2 → Event Bool Nat → Prop) pair
      [.call false (.get (-1)), .call true (.wakeup (-1)), .wake false .ok 0, .wake true .ok 0] := by
  refine wakeups_right _ _ ⟨⟨fun _ => rfl, nofun⟩, ⟨fun _ => rfl, fun _ _ _ => rfl⟩, ?_, ?_, trivial⟩
  · exact fun hr => absurd rfl hr
  · exact fun hr => absurd rfl hr

/-- A thread that is woken up times out.  The flag is left set, and when the thread waits again the
next wake-up returns and does not notify it. -/
theorem wakeup_lost :
    ¬ Trace.EveryStep step (WakesRight : Queue Bool Nat 2 → Event Bool Nat → Prop) pair
      [.call false (.get 5), .call true (.wakeup 0), .wake false .timedout 5,
        .call false (.get (-1)), .call true (.wakeup 0)] := by
  rintro ⟨-, -, -, -, h, -⟩
  have hnotified := h.heard true 0 rfl (by decide) (by decide) false (by decide)
  exact absurd hnotified (by decide)

end Queue

end Lagopus.Cbuffer
