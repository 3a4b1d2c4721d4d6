import Lagopus.Cbuffer.Calls
import Lagopus.Lib.Trace

/-!
# The queue is a FIFO

Whatever the threads do, the elements in the ring are those that were put and have neither been got
nor cleared, in order.  What a call reports about the elements it has moved is right too, except that
zero, the number of elements that an attempt without waiting has moved, is also `OK`; and a call that
asks for more elements than it can have ends in the branch that must not happen.

* `Queue.Right`: what is asked of a critical section;
* `Queue.Sound`: a single put or get that does not wait finds room or an element, a `get_n` does not
  wait for more elements than it takes, and a `peek_n` waits for one element only;
* `Queue.Fifo`: the invariant;
* `fifo_right`: every run of sound calls is right.
-/

namespace Lagopus.Cbuffer

open List Function Buffer Queue GetN

variable {ι α : Type*} {maxElements : Nat}

/-! ## What is asked -/

/-- The critical section `p` of the thread `t` was right. -/
structure Queue.Right (s : Queue ι α maxElements) (t : ι)
    (p : Queue ι α maxElements × Outcome α) : Prop where
  /-- Elements are put behind those that were put before, and go once. -/
  puts : s.puts <+: p.1.puts
  gone : s.gone <+: p.1.gone
  ordered : p.1.puts = p.1.gone.map Prod.fst ++ p.1.buffer.stored
  bounded : p.1.buffer.stored.length ≤ maxElements
  indices : p.1.buffer.wIdx = p.1.buffer.rIdx + p.1.buffer.nElements
  /-- A put or get that ends tells what it has moved. -/
  reports : ∀ single, p.2.kind = .put single ∨ p.2.kind = .get single → p.2.exit ≠ .waits →
    p.2.values = p.1.moved t ∧ p.2.nActual = (p.1.moved t).length ∧
      (single = true → (p.2.exit = .returns .ok ↔ (p.1.moved t).length = 1))
  freed : ∀ freeValues, p.2.kind = .clear freeValues → p.1.buffer.stored = [] ∧
    p.2.freed = if freeValues ∧ s.delProc then s.buffer.stored else []
  possible : ∀ ret, p.2.exit ≠ .fatal ret

/-- A call that asks for what it can have. -/
def Call.Sound (s : Queue ι α maxElements) : Call α → Prop
  | .put _ nsec => nsec = 0 → s.isOperational = true → s.buffer.nElements < maxElements
  | .get nsec => nsec = 0 → s.isOperational = true → 0 < s.buffer.nElements
  | .getN nValsMax nAtLeast nsec => 0 < nsec → nAtLeast ≤ nValsMax
  | .peekN nValsMax nAtLeast nsec => (nsec < 0 → nValsMax ≤ 1) ∧ (0 < nsec → nAtLeast ≤ 1)
  | _ => True

def Queue.Sound (s : Queue ι α maxElements) : Event ι α → Prop
  | .call _ c => c.Sound s
  | .wake _ _ _ => True

/-! ## Rounds -/

/-- A call of `s_put_n` that has put `moved`, before its next round. -/
structure PutN.Ready (c : PutN α) (moved : List α) : Prop where
  more : c.nCopyin < c.vals.length
  moved_eq : moved = c.vals.take c.nCopyin
  fresh : c.nsec = 0 → c.nCopyin = 0
  single : c.single = true → c.vals.length = 1

/-- A call of `s_get_n` that has got `moved`, before its next round. -/
structure GetN.Ready (c : GetN α) (moved : List α) : Prop where
  more : c.out.length < c.nValsMax
  moved_eq : c.doIncr = true → moved = c.out
  fresh : c.nsec = 0 ∨ c.doIncr = false → c.out = []
  needed : c.nsec ≠ 0 → c.needed ≤ c.nValsMax ∧ (c.doIncr = false → c.needed ≤ 1)
  single : c.single = true → c.nValsMax = 1 ∧ c.nAtLeast = 1

/-- The end of a round of a put or get that has moved `n` elements. -/
def Exit.Right (single : Bool) (n : Nat) : Exit → Prop
  | .waits => True
  | .returns ret => single = true → (ret = .ok ↔ n = 1)
  | .fatal _ => False

namespace Exit.Right

variable {single : Bool} {n : Nat} {exit : Exit}

theorem ok_iff (h : exit.Right single n) (hwaits : exit ≠ .waits) (hsingle : single = true) :
    exit = .returns .ok ↔ n = 1 := by
  cases exit with
  | waits => exact absurd rfl hwaits
  | returns ret =>
    rw [← h hsingle]
    exact Exit.returns.injEq _ _ ▸ Iff.rfl
  | fatal _ => exact h.elim

theorem ne_fatal (h : exit.Right single n) (ret : Result) : exit ≠ .fatal ret := by
  rintro rfl
  exact h

end Exit.Right

namespace PutN

variable {c : PutN α} {b : Buffer α maxElements} {m : List α} {ret : Result}

theorem Ready.length_moved (h : c.Ready m) : m.length = c.nCopyin := by
  rw [h.moved_eq, length_take, min_eq_left h.more.le]

theorem Ready.length_ne_one (h : c.Ready m) (hsingle : c.single = true) : m.length ≠ 1 := by
  have := h.single hsingle
  have := h.more
  rw [h.length_moved]
  omega

theorem round_eq (c : PutN α) (b : Buffer α maxElements) (ret : Result) :
    (c.round b ret).1 = { c with nCopyin := c.nCopyin + (b.copyin (c.vals.drop c.nCopyin)).1 } ∧
      (c.round b ret).2.1 = (b.copyin (c.vals.drop c.nCopyin)).2 := by
  simp only [round]
  repeat' split
  all_goals exact ⟨rfl, rfl⟩

theorem Ready.exit_right (h : c.Ready m) (hroom : c.nsec = 0 → c.single = true → b.nElements < maxElements)
    (hcopy : (b.copyin (c.vals.drop c.nCopyin)).2.nElements =
      b.nElements + (b.copyin (c.vals.drop c.nCopyin)).1) :
    ((c.round b ret).2.2.single c.single).Right c.single (c.round b ret).1.nCopyin := by
  have hmore := h.more
  have hall := Buffer.Valid.full_or_all b (c.vals.drop c.nCopyin)
  have hk := Buffer.Valid.copyin_fst b (c.vals.drop c.nCopyin)
  rw [length_drop] at hall hk
  simp only [round, hcopy]
  generalize (b.copyin (c.vals.drop c.nCopyin)).1 = k at hall hk ⊢
  split
  · next hnsec =>
    have hfresh := h.fresh hnsec
    cases hs : c.single with
    | false => exact nofun
    | true =>
      -- there is room, and one element to put
      have hone : k = 1 := by
        have := hroom hnsec hs
        have := h.single hs
        omega
      subst hone
      simp [Exit.single, Exit.Right, hfresh]
  · split
    · split
      · cases c.single <;> trivial
      · omega
    · cases hs : c.single with
      | false => exact nofun
      | true =>
        have hone : c.nCopyin + k = 1 := by
          have := h.single hs
          omega
        rw [hone]
        simp [Exit.single, Exit.Right]

theorem Ready.round (h : c.Ready m) (hexit : (c.round b ret).2.2 = .waits) : (c.round b ret).1.nsec ≠ 0 ∧
      (c.round b ret).1.Ready ((c.round b ret).1.vals.take (c.round b ret).1.nCopyin) := by
  have hwaits : c.nsec ≠ 0 ∧
      c.nCopyin + (b.copyin (c.vals.drop c.nCopyin)).1 < c.vals.length := by
    simp only [PutN.round] at hexit
    split at hexit
    · cases hexit
    · split at hexit
      · next hnsec hmore => exact ⟨hnsec, hmore⟩
      · cases hexit
  rw [(round_eq c b ret).1]
  exact ⟨hwaits.1, hwaits.2, rfl, fun hnsec => absurd hnsec hwaits.1, h.single⟩

end PutN

namespace GetN

variable {c : GetN α} {b : Buffer α maxElements} {m : List α} {ret : Result}

theorem Ready.out_of_single (h : c.Ready m) (hsingle : c.single = true) : c.out = [] := by
  have := (h.single hsingle).1
  have := h.more
  exact length_eq_zero_iff.1 (by omega)

theorem round_eq (c : GetN α) (b : Buffer α maxElements) (ret : Result) : (c.round b ret).1 =
        { c with out := c.out ++ (b.copyout (c.nValsMax - c.out.length) c.doIncr).1 } ∧
      (c.round b ret).2.1 = (b.copyout (c.nValsMax - c.out.length) c.doIncr).2 := by
  simp only [round]
  repeat' split
  all_goals exact ⟨rfl, rfl⟩

theorem length_copyout (hb : b.Valid) (c : GetN α) :
    (b.copyout (c.nValsMax - c.out.length) c.doIncr).1.length =
      min (c.nValsMax - c.out.length) b.nElements := by
  rw [hb.copyout_fst, length_take, length_stored]

theorem Ready.empty_of_less (h : c.Ready m) (hb : b.Valid) (hnsec : c.nsec ≠ 0)
    (hless : c.out.length + min (c.nValsMax - c.out.length) b.nElements < c.needed) :
    (b.copyout (c.nValsMax - c.out.length) c.doIncr).2.nElements = 0 := by
  obtain ⟨hneeded, hpeek⟩ := h.needed hnsec
  have hmore := h.more
  cases hd : c.doIncr with
  | false =>
    have := hpeek hd
    rw [hb.copyout_snd_of_peek]
    omega
  | true =>
    rw [hb.copyout_snd_of_get]
    change b.nElements - _ = 0
    omega

theorem Ready.exit_right (h : c.Ready m) (hb : b.Valid)
    (hfound : c.nsec = 0 → c.single = true → c.doIncr = true → 0 < b.nElements) :
    (∀ r, ((c.round b ret).2.2.single c.single) ≠ .fatal r) ∧
      (c.doIncr = true →
        ((c.round b ret).2.2.single c.single).Right c.single (c.round b ret).1.out.length) := by
  have hmore := h.more
  have hlength := length_copyout hb c
  have hempty := h.empty_of_less hb
  have hout : (c.round b ret).1.out.length =
      c.out.length + min (c.nValsMax - c.out.length) b.nElements := by
    rw [(round_eq c b ret).1, length_append, hlength]
  rw [hout]
  simp only [GetN.round, length_append, hlength]
  generalize hk : min (c.nValsMax - c.out.length) b.nElements = k at hempty ⊢
  split
  · next hnsec =>
    have hfresh := h.fresh (Or.inl hnsec)
    cases hs : c.single with
    | false => exact ⟨nofun, fun _ => nofun⟩
    | true =>
      refine ⟨fun r => ?_, fun hd => ?_⟩
      · unfold Exit.single
        split <;> exact nofun
      · have hone : k = 1 := by
          have := hfound hnsec hs hd
          have := h.single hs
          omega
        subst hone
        simp [Exit.single, Exit.Right, hfresh]
  · next hnsec =>
    split
    · next hless =>
      rw [if_pos (by rw [hempty hnsec hless]; exact Nat.one_pos)]
      cases c.single <;> exact ⟨nofun, fun _ => trivial⟩
    · next hless =>
      cases hs : c.single with
      | false => exact ⟨nofun, fun _ => nofun⟩
      | true =>
        have hneeded : ({ c with out := c.out ++ (b.copyout (c.nValsMax - c.out.length)
            c.doIncr).1 } : GetN α).needed = 1 := by
          obtain ⟨hmax, hleast⟩ := h.single hs
          simp [GetN.needed, hmax, hleast]
        have hone : c.out.length + k = 1 := by
          have := (h.single hs).1
          omega
        rw [hone]
        exact ⟨nofun, fun _ => by simp [Exit.single, Exit.Right]⟩

theorem Ready.round (h : c.Ready m) (hexit : (c.round b ret).2.2 = .waits) {m' : List α}
    (hm' : c.doIncr = true → m' = (c.round b ret).1.out) :
    (c.round b ret).1.nsec ≠ 0 ∧ (c.round b ret).1.Ready m' := by
  have hwaits : c.nsec ≠ 0 ∧
      (c.out ++ (b.copyout (c.nValsMax - c.out.length) c.doIncr).1).length < c.needed := by
    simp only [GetN.round] at hexit
    split at hexit
    · cases hexit
    · split at hexit
      · next hnsec hless => exact ⟨hnsec, hless⟩
      · cases hexit
  obtain ⟨hnsec, hless⟩ := hwaits
  obtain ⟨hneeded, hpeek⟩ := h.needed hnsec
  rw [(round_eq c b ret).1] at hm' ⊢
  refine ⟨hnsec, hless.trans_le hneeded, hm', fun hfresh => ?_, fun _ => h.needed hnsec, h.single⟩
  · have hd := hfresh.resolve_left hnsec
    have := hpeek hd
    exact length_eq_zero_iff.1 (Nat.lt_one_iff.1 (hless.trans_le this))

end GetN

/-! ## The invariant -/

/-- What a waiting call of `s_put_n` or `s_get_n` has moved. -/
def Thread.Ready (moved : List α) : Thread ι α → Prop
  | .putting c => c.nsec ≠ 0 ∧ c.Ready moved
  | .getting c => c.nsec ≠ 0 ∧ c.Ready moved
  | _ => True

namespace Queue

variable (s : Queue ι α maxElements)

/-- The ring holds what was put and has not gone. -/
structure Fifo : Prop where
  valid : s.buffer.Valid
  counted : s.buffer.wIdx ≤ s.puts.length
  ordered : s.puts = s.gone.map Prod.fst ++ s.buffer.stored
  closed : s.isOperational = false → s.buffer.stored = []
  threads : ∀ t, (s.thread t).Ready (s.moved t)

variable [DecidableEq ι] {s : Queue ι α maxElements} {t : ι} {ret : Result}

section Leave

variable (s t) (th : Thread ι α) (exit : Exit)

@[simp] theorem leave_puts : (s.leave t th exit).puts = s.puts := by cases exit <;> rfl

@[simp] theorem leave_gone : (s.leave t th exit).gone = s.gone := by cases exit <;> rfl

@[simp] theorem leave_moved : (s.leave t th exit).moved = s.moved := by cases exit <;> rfl

end Leave

namespace Fifo

variable {th : Thread ι α}

theorem update (h : s.Fifo) (hready : th.Ready (s.moved t)) (u : ι) :
    (Function.update s.thread t th u).Ready (s.moved u) := by
  rcases eq_or_ne u t with rfl | hu
  · rwa [update_self]
  · rw [update_of_ne hu]
    exact h.threads u

theorem returns (h : s.Fifo) (t : ι) : (s.returns t).Fifo :=
  ⟨h.valid, h.counted, h.ordered, h.closed, h.update trivial⟩

theorem waits (h : s.Fifo) (hready : th.Ready (s.moved t)) : (s.waits t th).Fifo :=
  ⟨h.valid, h.counted, h.ordered, h.closed, h.update hready⟩

theorem leave (h : s.Fifo) {exit : Exit} (hready : exit = .waits → th.Ready (s.moved t)) :
    (s.leave t th exit).Fifo := by
  cases exit with
  | waits => exact h.waits (hready rfl)
  | returns _ | fatal _ => exact h.returns t

omit [DecidableEq ι] in
theorem right_of_same {p : Queue ι α maxElements × Outcome α} (h : p.1.Fifo)
    (hputs : p.1.puts = s.puts) (hgone : p.1.gone = s.gone)
    (hreports : ∀ single, p.2.kind = .put single ∨ p.2.kind = .get single → p.2.exit ≠ .waits →
      p.2.values = p.1.moved t ∧ p.2.nActual = (p.1.moved t).length ∧
        (single = true → (p.2.exit = .returns .ok ↔ (p.1.moved t).length = 1)))
    (hkind : ∀ freeValues, p.2.kind ≠ .clear freeValues)
    (hpossible : ∀ r, p.2.exit ≠ .fatal r) : s.Right t p :=
  ⟨hputs ▸ prefix_rfl, hgone ▸ prefix_rfl, h.ordered,
    by rw [length_stored]; exact h.valid.bounded, h.valid.wIdx_eq, hreports,
    fun _ hclear => absurd hclear (hkind _), hpossible⟩

omit [DecidableEq ι] in
theorem congr (h : s.Fifo) {s' : Queue ι α maxElements} (hbuffer : s'.buffer = s.buffer)
    (hputs : s'.puts = s.puts) (hgone : s'.gone = s.gone)
    (hopen : s'.isOperational = s.isOperational) (hthreads : ∀ u, (s'.thread u).Ready (s'.moved u)) :
    s'.Fifo := by
  refine ⟨?_, ?_, ?_, ?_, hthreads⟩
  · rw [hbuffer]
    exact h.valid
  · rw [hbuffer, hputs]
    exact h.counted
  · rw [hbuffer, hputs, hgone]
    exact h.ordered
  · rw [hbuffer, hopen]
    exact h.closed

/-! ### Putting -/

end Fifo

/-- Elements are put at the end of the queue, as many as there is room for. -/
def pushed (t : ι) (vals : List α) : Queue ι α maxElements :=
  { s with
    buffer := (s.buffer.copyin vals).2
    puts := s.puts ++ vals.take (s.buffer.copyin vals).1
    moved := Function.update s.moved t (s.moved t ++ vals.take (s.buffer.copyin vals).1) }

theorem putRound_eq (hopen : s.isOperational = true) (t : ι) (c : PutN α) (ret : Result) :
    s.putRound t c ret =
      ((s.pushed t (c.vals.drop c.nCopyin)).leave t (.putting (c.round s.buffer ret).1)
          (c.round s.buffer ret).2.2,
      { kind := .put c.single
        exit := (c.round s.buffer ret).2.2.single c.single
        nActual := (c.round s.buffer ret).1.nCopyin
        values := c.vals.take (c.round s.buffer ret).1.nCopyin }) := by
  obtain ⟨hc, hb⟩ := PutN.round_eq c s.buffer ret
  simp [putRound, pushed, hopen, hc, hb, drop_take]

theorem length_take_copyin (b : Buffer α maxElements) (vals : List α) :
    (vals.take (b.copyin vals).1).length = (b.copyin vals).1 := by
  rw [length_take, min_eq_left]
  rw [Buffer.Valid.copyin_fst]
  exact min_le_right _ _

namespace Fifo

theorem small (h : s.Fifo) {vals : List α} (hcount : (s.pushed t vals).puts.length < 2 ^ 63) :
    s.buffer.wIdx + (s.buffer.copyin vals).1 < 2 ^ 63 := by
  have := h.counted
  simp only [pushed, length_append, length_take_copyin] at hcount
  omega

/-- **Putting keeps the order.** -/
theorem pushed (h : s.Fifo) (hidle : s.thread t = .idle) (hopen : s.isOperational = true)
    {vals : List α} (hcount : (s.pushed t vals).puts.length < 2 ^ 63) : (s.pushed t vals).Fifo := by
  have hsmall := h.small hcount
  refine ⟨h.valid.copyin hsmall, ?_, ?_, fun hshut => ?_, fun u => ?_⟩
  · simp only [Queue.pushed, h.valid.copyin_snd hsmall, length_append, length_take_copyin]
    exact Nat.add_le_add_right h.counted _
  · simp only [Queue.pushed, h.valid.stored_copyin hsmall]
    rw [h.ordered, append_assoc]
  · cases hopen.symm.trans hshut
  · rcases eq_or_ne u t with rfl | hu
    · simp only [pushed, hidle]
      trivial
    · simp only [Queue.pushed, update_of_ne hu]
      exact h.threads u

theorem putRound {c : PutN α} (h : s.Fifo) (hidle : s.thread t = .idle) (hc : c.Ready (s.moved t))
    (hroom : c.nsec = 0 → c.single = true → s.isOperational = true →
      s.buffer.nElements < maxElements)
    (hcount : (s.putRound t c ret).1.puts.length < 2 ^ 63) :
    (s.putRound t c ret).1.Fifo ∧ s.Right t (s.putRound t c ret) := by
  rcases Bool.eq_false_or_eq_true s.isOperational with hopen | hshut
  · rw [putRound_eq hopen] at hcount ⊢
    rw [leave_puts] at hcount
    have hpushed := h.pushed hidle hopen hcount
    obtain ⟨hc', -⟩ := PutN.round_eq c s.buffer ret
    have hmoved : (s.pushed t (c.vals.drop c.nCopyin)).moved t =
        c.vals.take (c.round s.buffer ret).1.nCopyin := by
      simp only [Queue.pushed, update_self, hc', take_add]
      rw [hc.moved_eq]
    have hlength : (c.vals.take (c.round s.buffer ret).1.nCopyin).length =
        (c.round s.buffer ret).1.nCopyin := by
      have hle := length_take_copyin s.buffer (c.vals.drop c.nCopyin)
      have hmore := hc.more
      rw [length_take, length_drop] at hle
      rw [length_take, hc']
      change min (c.nCopyin + _) _ = c.nCopyin + _
      omega
    have hexit : ((c.round s.buffer ret).2.2.single c.single).Right c.single
        (c.round s.buffer ret).1.nCopyin :=
      hc.exit_right (fun hz hs => hroom hz hs hopen) (by rw [h.valid.copyin_snd (h.small hcount)])
    have hready (hwaits : (c.round s.buffer ret).2.2 = .waits) :
        (Thread.putting (c.round s.buffer ret).1 : Thread ι α).Ready
          ((s.pushed t (c.vals.drop c.nCopyin)).moved t) := by
      have := hc.round hwaits
      rw [hmoved]
      rwa [hc'] at this ⊢
    have hleft := hpushed.leave hready
    refine ⟨hleft, ⟨?_, ?_, hleft.ordered, ?_, hleft.valid.wIdx_eq, fun single hkind hwaits => ?_,
      nofun, hexit.ne_fatal⟩⟩
    · rw [leave_puts]
      exact prefix_append _ _
    · rw [leave_gone]
      exact prefix_rfl
    · rw [length_stored]
      exact hleft.valid.bounded
    · rcases hkind with hkind | hkind
      · cases hkind
        simp only [leave_moved, hmoved, hlength]
        exact ⟨trivial, trivial, hexit.ok_iff hwaits⟩
      · cases hkind
  · rw [Queue.putRound, hshut]
    refine ⟨h.returns t, right_of_same (h.returns t) rfl rfl (fun single hkind _ => ?_) nofun nofun⟩
    rcases hkind with hkind | hkind
    · cases hkind
      refine ⟨hc.moved_eq.symm, hc.length_moved.symm, fun hs => ?_⟩
      exact ⟨nofun, fun hone => absurd hone (hc.length_ne_one hs)⟩
    · cases hkind

/-! ### Getting -/

end Fifo

/-- Elements are copied from the start of the queue, and gone if `doIncr` is set. -/
def popped (t : ι) (n : Nat) (doIncr : Bool) : Queue ι α maxElements :=
  let xs := if doIncr then (s.buffer.copyout n doIncr).1 else []
  { s with
    buffer := (s.buffer.copyout n doIncr).2
    gone := s.gone ++ xs.map fun x => (x, Fate.got t)
    moved := Function.update s.moved t (s.moved t ++ xs) }

theorem getRound_eq (hopen : s.isOperational = true) (t : ι) (c : GetN α) (ret : Result) :
    s.getRound t c ret =
      ((s.popped t (c.nValsMax - c.out.length) c.doIncr).leave t
          (.getting (c.round s.buffer ret).1) (c.round s.buffer ret).2.2,
      { kind := kind c
        exit := (c.round s.buffer ret).2.2.single c.single
        nActual := (c.round s.buffer ret).1.out.length
        values := (c.round s.buffer ret).1.out }) := by
  obtain ⟨hc, hb⟩ := round_eq c s.buffer ret
  simp [getRound, popped, hopen, hc, hb]

variable {c : GetN α}

theorem GetN.kind_eq_get {single : Bool} (h : kind c = .get single) :
    c.doIncr = true ∧ c.single = single := by
  unfold kind at h
  split at h
  · next hd =>
    cases h
    exact ⟨hd, rfl⟩
  · cases h

theorem GetN.kind_ne_put (single : Bool) : kind c ≠ .put single := by
  unfold kind
  split <;> exact nofun

theorem GetN.kind_ne_clear (freeValues : Bool) : kind c ≠ .clear freeValues := by
  unfold kind
  split <;> exact nofun

namespace Fifo

variable (h : s.Fifo)

include h

/-- **Getting keeps the order.** -/
theorem popped (hidle : s.thread t = .idle) (hopen : s.isOperational = true) (n : Nat)
    (doIncr : Bool) : (s.popped t n doIncr).Fifo := by
  refine ⟨h.valid.copyout n doIncr, ?_, ?_, fun hshut => ?_, fun u => ?_⟩
  · cases doIncr with
    | false =>
      simp only [Queue.popped, h.valid.copyout_snd_of_peek]
      exact h.counted
    | true =>
      simp only [Queue.popped, h.valid.copyout_snd_of_get]
      exact h.counted
  · cases doIncr with
    | false =>
      simp only [Queue.popped, h.valid.copyout_snd_of_peek, Bool.false_eq_true, if_false,
        map_nil, append_nil]
      exact h.ordered
    | true =>
      simp only [Queue.popped, h.valid.copyout_fst, h.valid.stored_copyout, if_true,
        map_append, map_map, append_assoc]
      rw [show (Prod.fst ∘ fun x : α => (x, Fate.got t)) = id from rfl, map_id, take_append_drop]
      exact h.ordered
  · cases hopen.symm.trans hshut
  · rcases eq_or_ne u t with rfl | hu
    · simp only [popped, hidle]
      trivial
    · simp only [Queue.popped, update_of_ne hu]
      exact h.threads u

theorem getRound (hidle : s.thread t = .idle) (hc : c.Ready (s.moved t))
    (hfound : c.nsec = 0 → c.single = true → c.doIncr = true → s.isOperational = true → 0 < s.buffer.nElements) :
    (s.getRound t c ret).1.Fifo ∧ s.Right t (s.getRound t c ret) := by
  rcases Bool.eq_false_or_eq_true s.isOperational with hopen | hshut
  · rw [getRound_eq hopen]
    have hpopped := h.popped hidle hopen (c.nValsMax - c.out.length) c.doIncr
    obtain ⟨hc', -⟩ := round_eq c s.buffer ret
    have hmoved (hd : c.doIncr = true) : (s.popped t (c.nValsMax - c.out.length) c.doIncr).moved t =
          (c.round s.buffer ret).1.out := by
      simp [Queue.popped, hd, hc', hc.moved_eq hd]
    obtain ⟨hpossible, hexit⟩ : (∀ r, ((c.round s.buffer ret).2.2.single c.single) ≠ .fatal r) ∧
        (c.doIncr = true → ((c.round s.buffer ret).2.2.single c.single).Right c.single
          (c.round s.buffer ret).1.out.length) :=
      hc.exit_right h.valid fun hz hs hd => hfound hz hs hd hopen
    have hready (hwaits : (c.round s.buffer ret).2.2 = .waits) :
        (Thread.getting (c.round s.buffer ret).1 : Thread ι α).Ready
          ((s.popped t (c.nValsMax - c.out.length) c.doIncr).moved t) := hc.round hwaits hmoved
    have hleft := hpopped.leave hready
    refine ⟨hleft, ⟨?_, ?_, hleft.ordered, ?_, hleft.valid.wIdx_eq, fun single hkind hwaits => ?_,
      fun _ hkind => absurd hkind (kind_ne_clear _), hpossible⟩⟩
    · rw [leave_puts]
      exact prefix_rfl
    · rw [leave_gone]
      exact prefix_append _ _
    · rw [length_stored]
      exact hleft.valid.bounded
    · obtain ⟨hd, rfl⟩ := kind_eq_get (hkind.resolve_left (kind_ne_put _))
      simp only [leave_moved, hmoved hd]
      exact ⟨trivial, trivial, (hexit hd).ok_iff hwaits⟩
  · rw [Queue.getRound, if_neg (by rw [hshut]; exact Bool.false_ne_true)]
    refine ⟨h.returns t, right_of_same (h.returns t) rfl rfl (fun single hkind _ => ?_)
      kind_ne_clear nofun⟩
    obtain ⟨hd, rfl⟩ := kind_eq_get (hkind.resolve_left (kind_ne_put _))
    have hout := hc.moved_eq hd
    refine ⟨hout.symm, congrArg List.length hout.symm, fun hs => ⟨nofun, fun hone => ?_⟩⟩
    have hnil : s.moved t = [] := hout.trans (hc.out_of_single hs)
    rw [show (s.returns t).moved t = s.moved t from rfl, hnil] at hone
    cases hone

/-! ### The other calls -/

omit [DecidableEq ι] in
theorem clean [Inhabited α] : s.clean.Fifo := by
  refine ⟨valid_clean s.buffer, Nat.zero_le _, ?_, fun _ => rfl, h.threads⟩
  simp only [Queue.clean, map_append, map_map, stored_clean, append_nil]
  rw [show (Prod.fst ∘ fun x : α => (x, (Fate.cleared : Fate ι))) = id from rfl, map_id]
  exact h.ordered

omit [DecidableEq ι] in
theorem freed_eq (freeValues : Bool) :
    s.freed freeValues = if freeValues ∧ s.delProc then s.buffer.stored else [] := by
  rw [freed, h.valid.freeupAllValues_eq]

omit [DecidableEq ι] in
theorem cleared [Inhabited α] (t : ι) (freeValues isOperational : Bool) {o : Outcome α}
    (ho : o = { kind := .clear freeValues, exit := .returns .ok, freed := s.freed freeValues }) :
    Fifo { s.clean with isOperational } ∧ s.Right t ({ s.clean with isOperational }, o) := by
  subst ho
  have hclean := h.clean
  refine ⟨⟨hclean.valid, hclean.counted, hclean.ordered, fun _ => rfl, hclean.threads⟩,
    ⟨prefix_rfl, prefix_append _ _, hclean.ordered, Nat.zero_le _, rfl,
      fun _ hkind => ?_, fun _ hkind => ?_, nofun⟩⟩
  · rcases hkind with hkind | hkind <;> cases hkind
  · cases hkind
    exact ⟨rfl, h.freed_eq freeValues⟩

omit [DecidableEq ι] in
theorem clear [Inhabited α] (t : ι) (freeValues : Bool) :
    (s.clear freeValues).1.Fifo ∧ s.Right t (s.clear freeValues) :=
  h.cleared t freeValues s.isOperational rfl

omit [DecidableEq ι] in
theorem shutdown [Inhabited α] (t : ι) (freeValues : Bool) :
    (s.shutdown freeValues).1.Fifo ∧ s.Right t (s.shutdown freeValues) := by
  unfold Queue.shutdown
  split
  · exact h.cleared t freeValues false rfl
  · next hopen =>
    have hnil := h.closed (Bool.not_eq_true _ ▸ hopen)
    refine ⟨h, ⟨prefix_rfl, prefix_rfl, h.ordered, ?_, h.valid.wIdx_eq,
      fun _ hkind => ?_, fun _ hkind => ?_, nofun⟩⟩
    · rw [hnil]
      exact Nat.zero_le _
    · rcases hkind with hkind | hkind <;> cases hkind
    · cases hkind
      exact ⟨hnil, by rw [hnil, ite_self]⟩

omit h in
omit [DecidableEq ι] in
theorem right_of_other {p : Queue ι α maxElements × Outcome α} (h : p.1.Fifo)
    (hputs : p.1.puts = s.puts) (hgone : p.1.gone = s.gone)
    (hkind : p.2.kind = .other ∨ ∃ nsec, p.2.kind = .wakeup nsec)
    (hpossible : ∀ r, p.2.exit ≠ .fatal r) : p.1.Fifo ∧ s.Right t p := by
  refine ⟨h, right_of_same h hputs hgone (fun single h => ?_) (fun _ h => ?_) hpossible⟩
  · rcases hkind with hkind | ⟨_, hkind⟩ <;> rw [hkind] at h <;> rcases h with h | h <;> cases h
  · rcases hkind with hkind | ⟨_, hkind⟩ <;> cases hkind.symm.trans h

theorem waitGettable (t : ι) (nsec : Int) :
    (s.waitGettable t nsec).1.Fifo ∧ s.Right t (s.waitGettable t nsec) := by
  unfold Queue.waitGettable
  split
  · exact right_of_other h rfl rfl (.inl rfl) nofun
  · split
    · exact right_of_other (h.waits trivial) rfl rfl (.inl rfl) nofun
    · exact right_of_other h rfl rfl (.inl rfl) nofun

theorem waitPuttable (t : ι) (nsec : Int) :
    (s.waitPuttable t nsec).1.Fifo ∧ s.Right t (s.waitPuttable t nsec) := by
  simp only [Queue.waitPuttable]
  split
  · exact right_of_other h rfl rfl (.inl rfl) nofun
  · split
    · exact right_of_other (h.waits trivial) rfl rfl (.inl rfl) nofun
    · exact right_of_other h rfl rfl (.inl rfl) nofun

theorem wakeup [Fintype ι] (t : ι) (nsec : Int) :
    (s.wakeup t nsec).1.Fifo ∧ s.Right t (s.wakeup t nsec) := by
  simp only [Queue.wakeup]
  split_ifs
  · exact right_of_other (h.congr rfl rfl rfl rfl (h.update trivial)) rfl rfl (.inr ⟨_, rfl⟩) nofun
  all_goals exact right_of_other (h.congr rfl rfl rfl rfl h.threads) rfl rfl (.inr ⟨_, rfl⟩) nofun

theorem recheck [Fintype ι] (t : ι) (nsec : Int) (r : CondResult) :
    (s.recheck t nsec r).1.Fifo ∧ s.Right t (s.recheck t nsec r) := by
  unfold Queue.recheck
  split
  · split
    · split
      · exact right_of_other h rfl rfl (.inr ⟨_, rfl⟩) nofun
      · exact right_of_other (h.returns t) rfl rfl (.inr ⟨_, rfl⟩) nofun
    · exact right_of_other (h.returns t) rfl rfl (.inr ⟨_, rfl⟩) nofun
  · exact right_of_other (h.returns t) rfl rfl (.inr ⟨_, rfl⟩) nofun

end Fifo

/-! ### The end of a wait -/

section WaitEnds

variable (s t) (r : CondResult)

theorem waitEnds_frame : (s.waitEnds t r).2.buffer = s.buffer ∧
    (s.waitEnds t r).2.puts = s.puts ∧ (s.waitEnds t r).2.gone = s.gone ∧
    (s.waitEnds t r).2.moved = s.moved ∧ (s.waitEnds t r).2.delProc = s.delProc ∧
    (s.waitEnds t r).2.isOperational = s.isOperational ∧
    (s.waitEnds t r).2.thread = fun u => (Function.update s.thread t .idle u).without t := by
  simp only [waitEnds]
  split
  · split
    · split <;> exact ⟨rfl, rfl, rfl, rfl, rfl, rfl, rfl⟩
    · exact ⟨rfl, rfl, rfl, rfl, rfl, rfl, rfl⟩
  · exact ⟨rfl, rfl, rfl, rfl, rfl, rfl, rfl⟩

theorem waitEnds_thread_self : (s.waitEnds t r).2.thread t = .idle := by
  obtain ⟨-, -, -, -, -, -, hthread⟩ := s.waitEnds_frame t r
  simp only [hthread, update_self]
  rfl

end WaitEnds

theorem Thread.ready_without {th : Thread ι α} {m : List α} (h : th.Ready m) (t : ι) :
    (th.without t).Ready m := by
  cases th <;> exact h

theorem Fifo.waitEnds (h : s.Fifo) (t : ι) (r : CondResult) : (s.waitEnds t r).2.Fifo := by
  obtain ⟨hbuffer, hputs, hgone, hmoved, -, hopen, hthread⟩ := s.waitEnds_frame t r
  refine h.congr hbuffer hputs hgone hopen fun u => ?_
  have hready : (Function.update s.thread t .idle u).Ready (s.moved u) :=
    h.update (show Thread.Ready (s.moved t) (.idle : Thread ι α) from trivial) u
  rw [hthread, hmoved]
  exact Thread.ready_without hready t

variable {r : CondResult}

theorem Right.of_waitEnds {p : Queue ι α maxElements × Outcome α} (h : (s.waitEnds t r).2.Right t p)
    : s.Right t p := by
  obtain ⟨hbuffer, hputs, hgone, -, hdel, -, -⟩ := s.waitEnds_frame t r
  exact ⟨hputs ▸ h.puts, hgone ▸ h.gone, h.ordered, h.bounded, h.indices, h.reports,
    hbuffer ▸ hdel ▸ h.freed, h.possible⟩

theorem waitEnds_timedout (h : (s.waitEnds t r).1 = .timedout) : r = .timedout := by
  simp only [waitEnds] at h
  split at h
  · split at h <;> cases h
  · cases r with
    | timedout => rfl
    | ok | posixApiError => cases h

variable {nsec elapsed : Int}

theorem next_again {nsec' : Int} (h : next nsec elapsed ret = .again nsec') :
    ret = .ok ∧ (nsec < 0 ↔ nsec' < 0) ∧ nsec' ≠ 0 := by
  unfold next at h
  split at h
  · next hok =>
    split at h
    · next hneg =>
      cases h
      exact ⟨hok, Iff.rfl, hneg.ne⟩
    · split at h
      · next hneg hpos =>
        cases h
        exact ⟨hok, iff_of_false hneg (by omega), hpos.ne'⟩
      · cases h
  · split at h <;> cases h

/-- A call that does not go on has an error, and the message is about a wait without a limit. -/
theorem next_ends {exit : Exit} (h : next nsec elapsed ret = .ends exit) :
    exit ≠ .waits ∧ exit ≠ .returns .ok ∧
      ((∃ r, exit = .fatal r) → nsec < 0 ∧ ret = .timedout) := by
  unfold next at h
  split at h
  · split at h
    · cases h
    · split at h
      · cases h
      · cases h
        exact ⟨nofun, nofun, nofun⟩
  · next hok =>
    split at h
    · next hfatal =>
      cases h
      exact ⟨nofun, nofun, fun _ => hfatal⟩
    · cases h
      exact ⟨nofun, fun hreturns => hok (Exit.returns.inj hreturns), nofun⟩

namespace Fifo

/-! ### Steps -/

theorem wake_putting {c : PutN α} (h : s.Fifo) (hthread : s.thread t = .putting c)
    (hlimit : r = .timedout → 0 ≤ c.nsec) (hcount : (s.wake t r elapsed).1.puts.length < 2 ^ 63) :
    (s.wake t r elapsed).1.Fifo ∧ s.Right t (s.wake t r elapsed) := by
  obtain ⟨hnsec, hc⟩ : c.nsec ≠ 0 ∧ c.Ready (s.moved t) := by
    have := h.threads t
    rwa [hthread] at this
  have hends := h.waitEnds t r
  have hidle := s.waitEnds_thread_self t r
  obtain ⟨-, -, -, hmoved, -, -, -⟩ := s.waitEnds_frame t r
  rw [← hmoved] at hc
  simp only [wake, hthread] at hcount ⊢
  cases hnext : next c.nsec elapsed (s.waitEnds t r).1 with
  | again nsec =>
    simp only [hnext] at hcount ⊢
    obtain ⟨-, -, hnsec'⟩ := next_again hnext
    have hc' : PutN.Ready { c with nsec := nsec } ((s.waitEnds t r).2.moved t) :=
      ⟨hc.more, hc.moved_eq, fun hz => absurd hz hnsec', hc.single⟩
    obtain ⟨hfifo, hright⟩ := hends.putRound hidle hc' (fun hz => absurd hz hnsec') hcount
    exact ⟨hfifo, hright.of_waitEnds⟩
  | ends exit =>
    obtain ⟨-, hok, hfatal⟩ := next_ends hnext
    refine ⟨hends, Right.of_waitEnds (right_of_same hends rfl rfl (fun single hkind _ => ?_) nofun
      fun ret hret => ?_)⟩
    · rcases hkind with hkind | hkind
      · cases hkind
        refine ⟨hc.moved_eq.symm, hc.length_moved.symm, fun hs => ?_⟩
        exact iff_of_false hok (hc.length_ne_one hs)
      · cases hkind
    · obtain ⟨hneg, htimed⟩ := hfatal ⟨ret, hret⟩
      exact absurd (hlimit (waitEnds_timedout htimed)) (by omega)

theorem wake_getting (h : s.Fifo) (hthread : s.thread t = .getting c)
    (hlimit : r = .timedout → 0 ≤ c.nsec) :
    (s.wake t r elapsed).1.Fifo ∧ s.Right t (s.wake t r elapsed) := by
  obtain ⟨hnsec, hc⟩ : c.nsec ≠ 0 ∧ c.Ready (s.moved t) := by
    have := h.threads t
    rwa [hthread] at this
  have hends := h.waitEnds t r
  have hidle := s.waitEnds_thread_self t r
  obtain ⟨-, -, -, hmoved, -, -, -⟩ := s.waitEnds_frame t r
  rw [← hmoved] at hc
  simp only [wake, hthread]
  cases hnext : next c.nsec elapsed (s.waitEnds t r).1 with
  | again nsec =>
    obtain ⟨-, hmode, hnsec'⟩ := next_again hnext
    have hneeded : needed { c with nsec := nsec } = c.needed := by
      simp [needed, hmode]
    have hc' : Ready { c with nsec := nsec } ((s.waitEnds t r).2.moved t) := by
      refine ⟨hc.more, hc.moved_eq, fun hfresh => hc.fresh (Or.inr (hfresh.resolve_left hnsec')),
        fun _ => ?_, hc.single⟩
      rw [hneeded]
      exact hc.needed hnsec
    obtain ⟨hfifo, hright⟩ := hends.getRound hidle hc' fun hz => absurd hz hnsec'
    exact ⟨hfifo, hright.of_waitEnds⟩
  | ends exit =>
    obtain ⟨-, hok, hfatal⟩ := next_ends hnext
    refine ⟨hends, Right.of_waitEnds (right_of_same hends rfl rfl (fun single hkind _ => ?_)
      kind_ne_clear fun ret hret => ?_)⟩
    · obtain ⟨hd, rfl⟩ := kind_eq_get (hkind.resolve_left (kind_ne_put _))
      have hout := hc.moved_eq hd
      refine ⟨hout.symm, congrArg List.length hout.symm, fun hs => iff_of_false hok ?_⟩
      rw [hout, hc.out_of_single hs]
      exact nofun
    · obtain ⟨hneg, htimed⟩ := hfatal ⟨ret, hret⟩
      exact absurd (hlimit (waitEnds_timedout htimed)) (by omega)

variable [Fintype ι] [Inhabited α]

omit [Inhabited α] in
theorem wake (h : s.Fifo) (henabled : s.Enabled (.wake t r elapsed : Event ι α))
    (hcount : (s.wake t r elapsed).1.puts.length < 2 ^ 63) :
    (s.wake t r elapsed).1.Fifo ∧ s.Right t (s.wake t r elapsed) := by
  obtain ⟨hbusy, hlimit⟩ := henabled
  cases hthread : s.thread t with
  | idle =>
    rw [hthread] at hbusy
    exact absurd trivial hbusy
  | putting c =>
    rw [hthread] at hlimit
    exact h.wake_putting hthread hlimit hcount
  | getting c =>
    rw [hthread] at hlimit
    exact h.wake_getting hthread hlimit
  | gettable nsec | puttable nsec =>
    obtain ⟨ret, hwake⟩ : ∃ ret, s.wake t r elapsed =
        ((s.waitEnds t r).2, { exit := .returns ret }) := by
      simp only [Queue.wake, hthread]
      exact ⟨_, rfl⟩
    obtain ⟨-, hputs, hgone, -⟩ := s.waitEnds_frame t r
    rw [hwake]
    exact right_of_other (h.waitEnds t r) hputs hgone (.inl rfl) nofun
  | waking nsec targets =>
    simp only [Queue.wake, hthread]
    exact h.recheck t nsec r

end Fifo

/-! ### Calls -/

/-- A call has moved nothing when it starts. -/
def fresh (t : ι) : Queue ι α maxElements :=
  { s with moved := Function.update s.moved t [] }

theorem fresh_moved (t : ι) : (s.fresh t).moved t = [] := by
  simp [fresh]

theorem Right.of_fresh {p : Queue ι α maxElements × Outcome α} (h : (s.fresh t).Right t p) : s.Right t p :=
  ⟨h.puts, h.gone, h.ordered, h.bounded, h.indices, h.reports, h.freed, h.possible⟩

theorem Fifo.fresh (h : s.Fifo) (hidle : s.thread t = .idle) : (s.fresh t).Fifo := by
  refine h.congr rfl rfl rfl rfl fun u => ?_
  rcases eq_or_ne u t with rfl | hu
  · simp only [fresh, hidle]
    trivial
  · simp only [Queue.fresh, update_of_ne hu]
    exact h.threads u

theorem GetN.ready_of_needs {nValsMax nAtLeast : Nat} {doIncr single : Bool} (hmore : 0 < nValsMax)
    (hget : 0 < nsec → nAtLeast ≤ nValsMax)
    (hpeek : doIncr = false → (nsec < 0 → nValsMax ≤ 1) ∧ (0 < nsec → nAtLeast ≤ 1))
    (hsingle : single = true → nValsMax = 1 ∧ nAtLeast = 1) :
    Ready ({ nValsMax, nAtLeast, nsec, doIncr, single } : GetN α) [] := by
  refine ⟨hmore, fun _ => rfl, fun _ => rfl, fun hnsec => ?_, hsingle⟩
  simp only [needed]
  split
  · next hneg => exact ⟨le_rfl, fun hd => (hpeek hd).1 hneg⟩
  · next hneg =>
    have hpos : 0 < nsec := by
      have : nsec ≠ 0 := hnsec
      omega
    exact ⟨hget hpos, fun hd => (hpeek hd).2 hpos⟩

namespace Fifo

omit [DecidableEq ι] in
theorem right_of_nothing (h : s.Fifo) (hnil : s.moved t = []) {o : Outcome α}
    (hexit : o.exit = .returns .ok) (hvalues : o.values = []) (hactual : o.nActual = 0)
    (hsingle : ∀ single, o.kind = .put single ∨ o.kind = .get single → single = false)
    (hclear : ∀ freeValues, o.kind ≠ .clear freeValues) : s.Fifo ∧ s.Right t (s, o) := by
  refine ⟨h, right_of_same h rfl rfl (fun single hkind _ => ?_) hclear fun r hr => ?_⟩
  · rw [hvalues, hactual, hnil, hsingle single hkind]
    exact ⟨rfl, rfl, nofun⟩
  · cases hexit.symm.trans hr

variable [Fintype ι] [Inhabited α]

theorem call {c : Call α} (h : s.Fifo) (hidle : (s.thread t).Idle) (hsound : c.Sound s)
    (hcount : (s.call t c).1.puts.length < 2 ^ 63) : (s.call t c).1.Fifo ∧ s.Right t (s.call t c) := by
  have hidle := hidle.eq_idle
  have hfresh := h.fresh hidle
  have hnil := s.fresh_moved t
  suffices hcall : (s.call t c).1.Fifo ∧ (s.fresh t).Right t (s.call t c) from ⟨hcall.1, hcall.2.of_fresh⟩
  cases c with
  | put val nsec =>
    refine hfresh.putRound hidle ?_ (fun hz _ hopen => hsound hz hopen) hcount
    rw [hnil]
    exact ⟨Nat.one_pos, rfl, fun _ => rfl, fun _ => rfl⟩
  | putN vals nsec =>
    simp only [Queue.call] at hcount ⊢
    split
    · next hpos =>
      rw [if_pos hpos] at hcount
      refine hfresh.putRound hidle ?_ (fun _ hs => by cases hs) hcount
      rw [hnil]
      exact ⟨hpos, rfl, fun _ => rfl, nofun⟩
    · exact right_of_nothing hfresh hnil rfl rfl rfl (by rintro _ (h | h) <;> cases h; rfl) nofun
  | get nsec =>
    refine hfresh.getRound hidle ?_ (fun hz _ _ hopen => hsound hz hopen)
    rw [hnil]
    exact ready_of_needs Nat.one_pos (fun _ => le_rfl) nofun fun _ => ⟨rfl, rfl⟩
  | getN nValsMax nAtLeast nsec =>
    simp only [Queue.call]
    split
    · next hpos =>
      refine hfresh.getRound hidle ?_ (fun _ hs => by cases hs)
      rw [hnil]
      exact ready_of_needs hpos hsound nofun nofun
    · exact right_of_nothing hfresh hnil rfl rfl rfl (by rintro _ (h | h) <;> cases h; rfl) nofun
  | peek nsec =>
    refine hfresh.getRound hidle ?_ (fun _ _ hd => by cases hd)
    rw [hnil]
    exact ready_of_needs Nat.one_pos (fun _ => le_rfl) (fun _ => ⟨fun _ => le_rfl, fun _ => le_rfl⟩)
      fun _ => ⟨rfl, rfl⟩
  | peekN nValsMax nAtLeast nsec =>
    simp only [Queue.call]
    split
    · next hpos =>
      refine hfresh.getRound hidle ?_ (fun _ hs => by cases hs)
      rw [hnil]
      exact ready_of_needs hpos (fun hn => (hsound.2 hn).trans hpos) (fun _ => hsound) nofun
    · exact right_of_nothing hfresh hnil rfl rfl rfl (by rintro _ (h | h) <;> cases h) nofun
  | clear freeValues => exact hfresh.clear t freeValues
  | shutdown freeValues => exact hfresh.shutdown t freeValues
  | wakeup nsec => exact hfresh.wakeup t nsec
  | waitGettable nsec => exact hfresh.waitGettable t nsec
  | waitPuttable nsec => exact hfresh.waitPuttable t nsec

/-- **Every critical section of a sound call is right.** -/
theorem exec {e : Event ι α} (h : s.Fifo) (hsound : s.Sound e)
    (hcount : (step s e).puts.length < 2 ^ 63) : (step s e).Fifo ∧ s.Right e.thread (exec s e) := by
  unfold step at hcount ⊢
  unfold Cbuffer.exec at hcount ⊢
  split
  · next henabled =>
    rw [if_pos henabled] at hcount
    cases e with
    | call t c => exact h.call henabled hsound hcount
    | wake t r elapsed => exact h.wake henabled hcount
  · exact right_of_other h rfl rfl (.inl rfl) nofun

end Fifo

end Queue

/-! ## Runs -/

variable [DecidableEq ι] [Fintype ι] [Inhabited α]

/-- **The queue is a FIFO**: for every capacity, every number of threads and every interleaving, as
long as fewer than `2 ^ 63` elements are put and the calls are sound. -/
theorem Queue.fifo_right (data : Nat → α) (delProc : Bool) {es : List (Event ι α)}
    (h : Trace.EveryStep step
      (fun (s : Queue ι α maxElements) e => s.Sound e ∧ (step s e).puts.length < 2 ^ 63)
      { buffer := { data }, delProc } es) :
    Trace.EveryStep step (fun (s : Queue ι α maxElements) e => s.Right e.thread (exec s e))
      { buffer := { data }, delProc } es := by
  have hstep (s : Queue ι α maxElements) (e : Event ι α) (hs : s.Fifo)
      (he : s.Sound e ∧ (step s e).puts.length < 2 ^ 63) :
      s.Right e.thread (exec s e) ∧ (step s e).Fifo := (hs.exec he.1 he.2).symm
  refine Trace.EveryStep.of_invariant hstep ?_ h
  exact ⟨⟨rfl, Nat.zero_le _, by norm_num⟩, le_rfl, rfl, fun _ => rfl, fun _ => trivial⟩

/-- A queue of two numbers and one thread. -/
def Queue.small : Queue Unit Nat 2 := { buffer := { data := fun _ => 0 }, delProc := true }

theorem Queue.fifo_right_of_put_get :
    Trace.EveryStep step (fun (s : Queue Unit Nat 2) e => s.Right e.thread (exec s e)) Queue.small
      [.call () (.put 7 (-1)), .call () (.get (-1))] := by
  refine fifo_right _ _ ⟨⟨?_, ?_⟩, ⟨?_, ?_⟩, trivial⟩
  · exact fun hz => absurd hz (by decide)
  · decide
  · exact fun hz => absurd hz (by decide)
  · decide

/-- A get from an empty queue is `OK`, and a look at two elements of a queue that has one ends in the
branch that must not happen. -/
theorem Queue.not_fifo_right :
    ¬ Trace.EveryStep step (fun (s : Queue Unit Nat 2) e => s.Right e.thread (exec s e)) Queue.small
        [.call () (.get 0)] ∧
      ¬ Trace.EveryStep step (fun (s : Queue Unit Nat 2) e => s.Right e.thread (exec s e))
        Queue.small [.call () (.put 7 0), .call () (.peekN 2 2 (-1))] := by
  constructor
  · rintro ⟨h, -⟩
    have hok := (h.reports true (Or.inr rfl) nofun).2.2 rfl
    exact absurd (hok.1 rfl) (by decide)
  · rintro ⟨-, h, -⟩
    exact h.possible .anyFailures rfl

end Lagopus.Cbuffer
