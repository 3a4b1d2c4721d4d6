import Lagopus.Lib.Octets

/-!
# Reading from a buffer

A reader takes bytes off the front of a buffer.  It ends with a value and the rest of the buffer, or it
stops: with an error that it reports, because it reads a byte that is not there, or because its loops
have used up the rounds they were given.

* `Scan`: readers, a monad;
* `Scan.loop`: the loop, for a given number of rounds;
* `loop_eq_ok_iff`, `loop_eq_stop_iff`: with more rounds than bytes, a loop that consumes something
  in every round ends where its rounds lead it (`Rounds`, `Reaches`);
* `Scan.StopsWith`, `stopsWith_loop`: where a reader stops for given reasons;
* `Scan.collect`: the loop that appends what it reads to a list, and how that list relates to the bytes
  (`Collected.images`, `Collected.of_images`).
-/

/-- Why a reader stops. -/
inductive Scan.Stop (ε : Type)
  | error (e : ε)
  /-- It reads beyond the buffer. -/
  | overrun
  /-- Its rounds are used up. -/
  | unfinished
deriving DecidableEq

/-- What reading comes to. -/
inductive Scan.Outcome (ε α : Type)
  | ok (a : α) (rest : List Octet)
  | stop (s : Scan.Stop ε)
deriving DecidableEq

/-- A reader. -/
def Scan (ε α : Type) : Type := List Octet → Scan.Outcome ε α

namespace Scan

open Octets

variable {ε α β σ : Type}

/-- The value at once. -/
protected def pure (a : α) : Scan ε α := fun b => .ok a b

/-- One reader after the other. -/
protected def bind (x : Scan ε α) (f : α → Scan ε β) : Scan ε β := fun b =>
  match x b with
  | .ok a rest => f a rest
  | .stop s => .stop s

instance : Monad (Scan ε) where
  pure := Scan.pure
  bind := Scan.bind

@[simp]
theorem pure_apply (a : α) (b : List Octet) : (pure a : Scan ε α) b = .ok a b := rfl

variable {x : Scan ε α} {f : α → Scan ε β} {b rest : List Octet} {a : α} {c : β} {s : Stop ε}

theorem bind_of_ok (h : x b = .ok a rest) : (x >>= f) b = f a rest := by
  change Scan.bind x f b = _
  rw [Scan.bind, h]

theorem bind_of_stop (h : x b = .stop s) : (x >>= f) b = .stop s := by
  change Scan.bind x f b = _
  rw [Scan.bind, h]

theorem bind_eq_ok_iff : (x >>= f) b = .ok c rest ↔ ∃ a m, x b = .ok a m ∧ f a m = .ok c rest := by
  cases hx : x b with
  | ok a m => simp [bind_of_ok hx]
  | stop s => simp [bind_of_stop hx]

theorem bind_eq_stop_iff :
    (x >>= f) b = .stop s ↔ x b = .stop s ∨ ∃ a m, x b = .ok a m ∧ f a m = .stop s := by
  cases hx : x b with
  | ok a m => simp [bind_of_ok hx]
  | stop s => simp [bind_of_stop hx]

/-! ## Single steps -/

/-- Stops with an error. -/
def fail (e : ε) : Scan ε α := fun _ => .stop (.error e)

/-- Stops with an error unless the condition holds. -/
def require (p : Prop) [Decidable p] (e : ε) : Scan ε Unit := if p then pure () else fail e

/-- How many bytes are left. -/
def left : Scan ε Nat := fun b => .ok b.length b

/-- Stops with an error unless `n` bytes are left. -/
def need (n : Nat) (e : ε) : Scan ε Unit := fun b =>
  if n ≤ b.length then .ok () b else .stop (.error e)

/-- The first `n` bytes, which stay in the buffer. -/
def sneak (n : Nat) (e : ε) : Scan ε (Block n) := fun b =>
  if h : n ≤ b.length then .ok ⟨b.take n, by simp [h]⟩ b else .stop (.error e)

/-- Takes the first `n` bytes, and stops if they are not there. -/
def takeOr (n : Nat) (s : Stop ε) : Scan ε (Block n) := fun b =>
  if h : n ≤ b.length then .ok ⟨b.take n, by simp [h]⟩ (b.drop n) else .stop s

/-- Takes the first `n` bytes. -/
def take (n : Nat) (e : ε) : Scan ε (Block n) := takeOr n (.error e)

/-- Takes `n + k` bytes, in two parts. -/
def takePair (n k : Nat) (e : ε) : Scan ε (Block n × Block k) := do
  need (n + k) e
  let v ← take n e
  let w ← take k e
  pure (v, w)

/-- Takes the first `n` bytes without asking whether they are there. -/
def takeUnchecked (n : Nat) : Scan ε (Block n) := takeOr n .overrun

/-- Reads on after the first `n` bytes, and gives the buffer back with how much was left. -/
def ahead (n : Nat) (x : Scan ε α) : Scan ε (α × Nat) := fun b =>
  match x (b.drop n) with
  | .ok a rest => .ok (a, rest.length) b
  | .stop s => .stop s

section Steps

variable {p : Prop} [Decidable p] {e : ε} {n : Nat} {v : Block n} {u : Unit} {s' : Stop ε}

@[simp]
theorem fail_apply : (fail e : Scan ε α) b = .stop (.error e) := rfl

@[simp]
theorem left_apply : (left : Scan ε Nat) b = .ok b.length b := rfl

theorem require_eq_ok_iff : require p e b = .ok u rest ↔ p ∧ b = rest := by
  by_cases hp : p <;> simp [require, hp]

theorem require_eq_stop_iff : require p e b = .stop s ↔ ¬ p ∧ s = .error e := by
  by_cases hp : p <;> simp [require, hp, eq_comm]

theorem require_of (h : p) : require p e b = .ok () b := require_eq_ok_iff.2 ⟨h, rfl⟩

theorem need_eq_ok_iff : need n e b = .ok u rest ↔ n ≤ b.length ∧ b = rest := by
  by_cases hn : n ≤ b.length <;> simp [need, hn]

theorem need_of (h : n ≤ b.length) : need n e b = .ok () b := need_eq_ok_iff.2 ⟨h, rfl⟩

theorem need_eq_stop_iff : need n e b = .stop s ↔ b.length < n ∧ s = .error e := by
  rw [← Nat.not_le]
  by_cases hn : n ≤ b.length <;> simp [need, hn, eq_comm]

theorem sneak_eq_stop_iff : sneak n e b = .stop s ↔ b.length < n ∧ s = .error e := by
  rw [← Nat.not_le]
  by_cases hn : n ≤ b.length <;> simp [sneak, hn, eq_comm]

theorem takeOr_eq_ok_iff : takeOr n s b = .ok v rest ↔ b = v.bytes ++ rest := by
  obtain ⟨v, rfl⟩ := v
  by_cases hn : v.length ≤ b.length
  · simp only [takeOr, hn, dif_pos, Outcome.ok.injEq, Block.mk.injEq]
    constructor
    · rintro ⟨h, h'⟩
      nth_rewrite 1 [← List.take_append_drop v.length b]
      rw [h, h']
    · rintro rfl
      rw [List.take_left, List.drop_left]
      exact ⟨rfl, rfl⟩
  · simp only [takeOr, hn, dif_neg, not_false_eq_true, reduceCtorEq, false_iff]
    rintro rfl
    exact absurd (by simp) hn

theorem takeOr_eq_stop_iff : takeOr n s b = .stop s' ↔ b.length < n ∧ s' = s := by
  rw [← Nat.not_le]
  by_cases hn : n ≤ b.length <;> simp [takeOr, hn, eq_comm]

theorem sneak_eq_ok_iff : sneak n e b = .ok v rest ↔ (∃ m, b = v.bytes ++ m) ∧ b = rest := by
  have htake : sneak n e b = .ok v rest ↔ (∃ m, takeOr n (.error e) b = .ok v m) ∧ b = rest := by
    by_cases hn : n ≤ b.length <;> simp [sneak, takeOr, hn]
  simpa only [takeOr_eq_ok_iff] using htake

theorem take_eq_ok_iff : take n e b = .ok v rest ↔ b = v.bytes ++ rest := takeOr_eq_ok_iff

theorem take_eq_stop_iff : take n e b = .stop s ↔ b.length < n ∧ s = .error e := takeOr_eq_stop_iff

theorem takePair_eq_ok_iff {k : Nat} {r : Block n × Block k} :
    takePair n k e b = .ok r rest ↔ b = r.1.bytes ++ (r.2.bytes ++ rest) := by
  simp only [takePair, bind_eq_ok_iff, need_eq_ok_iff, take_eq_ok_iff, pure_apply, Outcome.ok.injEq]
  constructor
  · rintro ⟨_, _, ⟨-, rfl⟩, v, _, rfl, w, _, rfl, rfl, rfl⟩
    rfl
  · rintro rfl
    exact ⟨(), _, ⟨by simp, rfl⟩, r.1, _, rfl, r.2, _, rfl, rfl, rfl⟩

theorem takePair_append {k : Nat} (w : Block k) :
    takePair n k e (v.bytes ++ (w.bytes ++ rest)) = .ok (v, w) rest := takePair_eq_ok_iff.2 rfl

theorem takePair_eq_stop_iff {k : Nat} : takePair n k e b = .stop s ↔ b.length < n + k ∧ s = .error e := by
  simp only [takePair, bind_eq_stop_iff, need_eq_stop_iff, need_eq_ok_iff, take_eq_stop_iff,
    take_eq_ok_iff, pure_apply, reduceCtorEq, and_false, exists_false, or_false]
  constructor
  · rintro (h | ⟨_, _, ⟨hlen, rfl⟩, ⟨h, rfl⟩ | ⟨v, _, rfl, h, rfl⟩⟩)
    · exact h
    · exact ⟨by omega, rfl⟩
    · simp only [List.length_append, v.length_eq] at hlen
      omega
  · exact Or.inl

theorem takeUnchecked_eq_ok_iff : (takeUnchecked n : Scan ε _) b = .ok v rest ↔ b = v.bytes ++ rest :=
  takeOr_eq_ok_iff

theorem takeUnchecked_eq_stop_iff :
    (takeUnchecked n : Scan ε _) b = .stop s ↔ b.length < n ∧ s = .overrun := takeOr_eq_stop_iff

theorem ahead_eq_ok_iff {r : α × Nat} :
    ahead n x b = .ok r rest ↔ ∃ m, x (b.drop n) = .ok r.1 m ∧ r.2 = m.length ∧ b = rest := by
  obtain ⟨a, k⟩ := r
  cases hx : x (b.drop n) with
  | ok a' m => simp [ahead, hx, eq_comm, and_assoc]
  | stop s => simp [ahead, hx]

theorem ahead_eq_stop_iff : ahead n x b = .stop s ↔ x (b.drop n) = .stop s := by
  cases hx : x (b.drop n) with
  | ok a' m => simp [ahead, hx]
  | stop s => simp [ahead, hx]

end Steps

/-! ## Loops -/

/-- `while (more) body`, for at most so many rounds. -/
def loop (more : σ → List Octet → Bool) (body : σ → Scan ε σ) : Nat → σ → Scan ε σ
  | 0, _ => fun _ => .stop .unfinished
  | fuel + 1, t => fun b =>
    if more t b then (body t >>= Scan.loop more body fuel) b else .ok t b

/-- Some rounds lead the loop from `t` and `b` to `t'` and `b'`, where it ends. -/
inductive Rounds (more : σ → List Octet → Bool) (body : σ → Scan ε σ) :
    σ → List Octet → σ → List Octet → Prop
  | done {t : σ} {b : List Octet} : more t b = false → Rounds more body t b t b
  | round {t t' t'' : σ} {b b' b'' : List Octet} : more t b = true → body t b = .ok t' b' →
      Rounds more body t' b' t'' b'' → Rounds more body t b t'' b''

/-- Some rounds lead the loop to a round at which `Q` holds. -/
inductive Reaches (more : σ → List Octet → Bool) (body : σ → Scan ε σ)
    (Q : σ → List Octet → Prop) : σ → List Octet → Prop
  | here {t : σ} {b : List Octet} : more t b = true → Q t b → Reaches more body Q t b
  | later {t t' : σ} {b b' : List Octet} : more t b = true → body t b = .ok t' b' →
      Reaches more body Q t' b' → Reaches more body Q t b

section Loops

variable {more : σ → List Octet → Bool} {body : σ → Scan ε σ} {fuel : Nat} {t t' : σ}

theorem loop_of_more (h : more t b = true) :
    loop more body (fuel + 1) t b = (body t >>= loop more body fuel) b := by
  change (if more t b then (body t >>= loop more body fuel) b else .ok t b) = _
  rw [if_pos h]

theorem loop_of_done (h : more t b = false) : loop more body (fuel + 1) t b = .ok t b := by
  change (if more t b then (body t >>= loop more body fuel) b else .ok t b) = _
  rw [h, if_neg Bool.false_ne_true]

/-- Every round that goes well takes a byte at least. -/
def Consumes (more : σ → List Octet → Bool) (body : σ → Scan ε σ) : Prop :=
  ∀ ⦃t t' : σ⦄ ⦃b b' : List Octet⦄, more t b = true → body t b = .ok t' b' → b'.length < b.length

theorem rounds_of_loop_eq_ok (h : loop more body fuel t b = .ok t' rest) :
    Rounds more body t b t' rest := by
  induction fuel generalizing t b with
  | zero => exact absurd h (by simp [loop])
  | succ fuel ih =>
    cases hmore : more t b with
    | false =>
      rw [loop_of_done hmore] at h
      cases h
      exact .done hmore
    | true =>
      rw [loop_of_more hmore, bind_eq_ok_iff] at h
      obtain ⟨t₁, m, hbody, h⟩ := h
      exact .round hmore hbody (ih h)

theorem loop_eq_ok_iff (hc : Consumes more body) (hfuel : b.length < fuel) :
    loop more body fuel t b = .ok t' rest ↔ Rounds more body t b t' rest := by
  refine ⟨rounds_of_loop_eq_ok, fun h => ?_⟩
  induction h generalizing fuel with
  | done hmore =>
    obtain ⟨fuel, rfl⟩ : ∃ k, fuel = k + 1 := ⟨fuel - 1, by omega⟩
    exact loop_of_done hmore
  | round hmore hbody _ ih =>
    obtain ⟨fuel, rfl⟩ : ∃ k, fuel = k + 1 := ⟨fuel - 1, by omega⟩
    rw [loop_of_more hmore, bind_of_ok hbody]
    apply ih
    have := hc hmore hbody
    omega

theorem loop_eq_stop_iff (hc : Consumes more body) (hfuel : b.length < fuel) :
    loop more body fuel t b = .stop s ↔ Reaches more body (fun t b => body t b = .stop s) t b := by
  constructor
  · intro h
    induction fuel generalizing t b with
    | zero => exact absurd hfuel (Nat.not_lt_zero _)
    | succ fuel ih =>
      cases hmore : more t b with
      | false =>
        rw [loop_of_done hmore] at h
        cases h
      | true =>
        rw [loop_of_more hmore, bind_eq_stop_iff] at h
        obtain hbody | ⟨t₁, m, hbody, h⟩ := h
        · exact .here hmore hbody
        · have := hc hmore hbody
          exact .later hmore hbody (ih (by omega) h)
  · intro h
    induction h generalizing fuel with
    | here hmore hbody =>
      obtain ⟨fuel, rfl⟩ : ∃ k, fuel = k + 1 := ⟨fuel - 1, by omega⟩
      rw [loop_of_more hmore, bind_of_stop hbody]
    | later hmore hbody _ ih =>
      obtain ⟨fuel, rfl⟩ : ∃ k, fuel = k + 1 := ⟨fuel - 1, by omega⟩
      rw [loop_of_more hmore, bind_of_ok hbody]
      apply ih
      have := hc hmore hbody
      omega

theorem Reaches.mono {Q Q' : σ → List Octet → Prop} (h : Reaches more body Q t b)
    (hQ : ∀ t b, Q t b → Q' t b) : Reaches more body Q' t b := by
  induction h with
  | here hmore h => exact .here hmore (hQ _ _ h)
  | later hmore hbody _ ih => exact .later hmore hbody ih

theorem Reaches.elim {Q : σ → List Octet → Prop} (h : Reaches more body Q t b) :
    ∃ t b, more t b = true ∧ Q t b := by
  induction h with
  | here hmore h => exact ⟨_, _, hmore, h⟩
  | later _ _ _ ih => exact ih

end Loops

/-! ## Lists -/

/-- A round that appends to a list. -/
def append (x : Scan ε α) (l : List α) : Scan ε (List α) := do
  let a ← x
  pure (l ++ [a])

/-- Reads as long as there is more, and appends to a list. -/
def collect (more : List Octet → Bool) (x : Scan ε α) (fuel : Nat) (l : List α) : Scan ε (List α) :=
  loop (fun _ b => more b) (append x) fuel l

/-- The values are read one after the other until there is no more. -/
inductive Collected (more : List Octet → Bool) (x : Scan ε α) :
    List Octet → List α → List Octet → Prop
  | done {b : List Octet} : more b = false → Collected more x b [] b
  | item {b b' b'' : List Octet} {a : α} {as : List α} : more b = true → x b = .ok a b' →
      Collected more x b' as b'' → Collected more x b (a :: as) b''

section Lists

variable {more : List Octet → Bool} {fuel : Nat} {as l l' : List α}

theorem append_eq_ok_iff : append x l b = .ok l' rest ↔ ∃ a, l' = l ++ [a] ∧ x b = .ok a rest := by
  simp only [append, bind_eq_ok_iff, pure_apply, Outcome.ok.injEq]
  constructor
  · rintro ⟨a, _, h, rfl, rfl⟩
    exact ⟨a, rfl, h⟩
  · rintro ⟨a, rfl, h⟩
    exact ⟨a, _, h, rfl, rfl⟩

theorem append_eq_stop_iff : append x l b = .stop s ↔ x b = .stop s := by
  simp [append, bind_eq_stop_iff]

theorem rounds_append_iff : Rounds (fun _ b => more b) (append x) l b l' rest ↔
      ∃ as, l' = l ++ as ∧ Collected more x b as rest := by
  constructor
  · intro h
    induction h with
    | done hmore => exact ⟨[], (List.append_nil _).symm, .done hmore⟩
    | round hmore hbody _ ih =>
      obtain ⟨a, rfl, ha⟩ := append_eq_ok_iff.1 hbody
      obtain ⟨as, rfl, has⟩ := ih
      exact ⟨a :: as, by simp, .item hmore ha has⟩
  · rintro ⟨as, rfl, h⟩
    induction h generalizing l with
    | done hmore => rw [List.append_nil]; exact .done hmore
    | @item b b' b'' a as hmore ha _ ih =>
      have hnext := @ih (l ++ [a])
      rw [← List.append_cons] at hnext
      exact .round hmore (append_eq_ok_iff.2 ⟨_, rfl, ha⟩) hnext

/-- The reader takes a byte at least. -/
def Takes (x : Scan ε α) : Prop := ∀ ⦃b a rest⦄, x b = .ok a rest → rest.length < b.length

/-- The reader puts nothing back. -/
def Shrinks (x : Scan ε α) : Prop := ∀ ⦃b a rest⦄, x b = .ok a rest → rest.length ≤ b.length

theorem Takes.shrinks (h : Takes x) : Shrinks x := fun _ _ _ hx => (h hx).le

theorem Shrinks.bind (hx : Shrinks x) (hf : ∀ a, Shrinks (f a)) : Shrinks (x >>= f) := by
  intro b c rest h
  obtain ⟨a, m, h, h'⟩ := bind_eq_ok_iff.1 h
  exact (hf a h').trans (hx h)

theorem Takes.bind (hx : Takes x) (hf : ∀ a, Shrinks (f a)) : Takes (x >>= f) := by
  intro b c rest h
  obtain ⟨a, m, h, h'⟩ := bind_eq_ok_iff.1 h
  exact (hf a h').trans_lt (hx h)

theorem Shrinks.bind_takes (hx : Shrinks x) (hf : ∀ a, Takes (f a)) : Takes (x >>= f) := by
  intro b c rest h
  obtain ⟨a, m, h, h'⟩ := bind_eq_ok_iff.1 h
  exact (hf a h').trans_le (hx h)

theorem shrinks_pure : Shrinks (pure a : Scan ε α) := by
  intro b c rest h
  cases h
  exact le_rfl

variable {e : ε}

theorem takes_fail : Takes (fail e : Scan ε α) := fun _ _ _ h => by cases h

theorem shrinks_left : Shrinks (left : Scan ε Nat) := by
  intro b c rest h
  cases h
  exact le_rfl

theorem shrinks_require {p : Prop} [Decidable p] : Shrinks (require p e) := by
  intro b u rest h
  rw [(require_eq_ok_iff.1 h).2]

theorem shrinks_need {n : Nat} : Shrinks (need n e) := by
  intro b u rest h
  rw [(need_eq_ok_iff.1 h).2]

theorem shrinks_take {n : Nat} : Shrinks (take n e) := by
  intro b v rest h
  rw [take_eq_ok_iff.1 h, List.length_append]
  exact Nat.le_add_left _ _

theorem takes_take {n : Nat} (hn : 0 < n) : Takes (take n e) := by
  intro b v rest h
  rw [take_eq_ok_iff.1 h, List.length_append, v.length_eq]
  exact Nat.lt_add_of_pos_left hn

theorem takes_append (h : Takes x) : Takes (append x l) := h.bind fun _ => shrinks_pure

variable {body : σ → Scan ε σ}

theorem Rounds.length_le {more : σ → List Octet → Bool} {t t' : σ}
    (hr : Rounds more body t b t' rest) (h : ∀ t, Shrinks (body t)) : rest.length ≤ b.length := by
  induction hr with
  | done _ => exact le_rfl
  | round _ hbody _ ih => exact ih.trans (h _ hbody)

theorem shrinks_loop {more : σ → List Octet → Bool} {t : σ}
    (h : ∀ t, Shrinks (body t)) : Shrinks (loop more body fuel t) := by
  intro b t' rest hloop
  exact (rounds_of_loop_eq_ok hloop).length_le h

theorem length_lt_of_loop {more : σ → List Octet → Bool} {t t' : σ}
    (h : ∀ t, Takes (body t)) (hmore : more t b = true)
    (hloop : loop more body fuel t b = .ok t' rest) : rest.length < b.length := by
  cases rounds_of_loop_eq_ok hloop with
  | done hdone =>
    rw [hmore] at hdone
    cases hdone
  | round _ hbody hr => exact (hr.length_le fun t => (h t).shrinks).trans_lt (h _ hbody)

theorem Takes.consumes (h : Takes x) : Consumes (fun _ b => more b) (append x) := by
  intro l l' b b' _ hbody
  obtain ⟨a, -, ha⟩ := append_eq_ok_iff.1 hbody
  exact h ha

theorem collect_eq_ok_iff (hx : Takes x) (hfuel : b.length < fuel) :
    collect more x fuel l b = .ok l' rest ↔ ∃ as, l' = l ++ as ∧ Collected more x b as rest := by
  rw [collect, loop_eq_ok_iff hx.consumes hfuel, rounds_append_iff]

theorem collected_of_collect (h : collect more x fuel l b = .ok l' rest) :
    ∃ as, l' = l ++ as ∧ Collected more x b as rest :=
  rounds_append_iff.1 (rounds_of_loop_eq_ok h)

theorem Collected.of_images {R : α → List Octet → Prop} {cs : List (List Octet)}
    (hx : ∀ {a c m}, R a c → (c ++ m).length ≤ (cs.flatten ++ rest).length → x (c ++ m) = .ok a m)
    (hmore : ∀ {a c}, R a c → ∀ m, more (c ++ (m ++ rest)) = true) (hdone : more rest = false)
    (h : List.Forall₂ R as cs) : Collected more x (cs.flatten ++ rest) as rest := by
  induction h with
  | nil => exact .done hdone
  | @cons a c as cs ha _ ih =>
    rw [List.flatten_cons, List.append_assoc] at hx ⊢
    exact .item (hmore ha _) (hx ha le_rfl) (ih fun hR hle => hx hR (hle.trans (by simp)))

end Lists

/-! ## Where readers stop -/

/-- The reader stops, for one of the reasons in `S`. -/
def StopsWith (S : Stop ε → Prop) (x : Scan ε α) (b : List Octet) : Prop := ∃ r, S r ∧ x b = .stop r

section StopsWith

variable {S : Stop ε → Prop} {e : ε} {n : Nat}

theorem stopsWith_bind : StopsWith S (x >>= f) b ↔
    StopsWith S x b ∨ ∃ a m, x b = .ok a m ∧ StopsWith S (f a) m := by
  simp only [StopsWith, bind_eq_stop_iff]
  constructor
  · rintro ⟨r, hr, h | ⟨a, m, hx, hf⟩⟩
    · exact .inl ⟨r, hr, h⟩
    · exact .inr ⟨a, m, hx, r, hr, hf⟩
  · rintro (⟨r, hr, h⟩ | ⟨a, m, hx, r, hr, hf⟩)
    · exact ⟨r, hr, .inl h⟩
    · exact ⟨r, hr, .inr ⟨a, m, hx, hf⟩⟩

@[simp]
theorem stopsWith_pure : StopsWith S (pure a : Scan ε α) b ↔ False := by simp [StopsWith]

@[simp]
theorem stopsWith_left : StopsWith S (left : Scan ε Nat) b ↔ False := by simp [StopsWith]

@[simp]
theorem stopsWith_fail : StopsWith S (fail e : Scan ε α) b ↔ S (.error e) := by
  simp [StopsWith, eq_comm]

@[simp]
theorem stopsWith_require {p : Prop} [Decidable p] : StopsWith S (require p e) b ↔ ¬ p ∧ S (.error e) := by
  simp [StopsWith, require_eq_stop_iff, and_comm]

@[simp]
theorem stopsWith_need : StopsWith S (need n e) b ↔ b.length < n ∧ S (.error e) := by
  simp [StopsWith, need_eq_stop_iff, and_comm]

@[simp]
theorem stopsWith_sneak : StopsWith S (sneak n e) b ↔ b.length < n ∧ S (.error e) := by
  simp [StopsWith, sneak_eq_stop_iff, and_comm]

@[simp]
theorem stopsWith_take : StopsWith S (take n e) b ↔ b.length < n ∧ S (.error e) := by
  simp [StopsWith, take_eq_stop_iff, and_comm]

@[simp]
theorem stopsWith_takePair {k : Nat} :
    StopsWith S (takePair n k e) b ↔ b.length < n + k ∧ S (.error e) := by
  simp [StopsWith, takePair_eq_stop_iff, and_comm]

@[simp]
theorem stopsWith_takeUnchecked :
    StopsWith S (takeUnchecked n : Scan ε _) b ↔ b.length < n ∧ S .overrun := by
  simp [StopsWith, takeUnchecked_eq_stop_iff, and_comm]

@[simp]
theorem stopsWith_ahead : StopsWith S (ahead n x) b ↔ StopsWith S x (b.drop n) := by
  simp [StopsWith, ahead_eq_stop_iff]

@[simp]
theorem stopsWith_append {l : List α} : StopsWith S (append x l) b ↔ StopsWith S x b := by
  simp [StopsWith, append_eq_stop_iff]

variable {more : σ → List Octet → Bool} {body : σ → Scan ε σ} {fuel : Nat} {t : σ}

theorem stopsWith_loop (hc : Consumes more body) (hfuel : b.length < fuel) :
    StopsWith S (loop more body fuel t) b ↔
      Reaches more body (fun t b => StopsWith S (body t) b) t b := by
  simp only [StopsWith, loop_eq_stop_iff hc hfuel]
  constructor
  · rintro ⟨r, hr, h⟩
    exact h.mono fun t b hbody => ⟨r, hr, hbody⟩
  · intro h
    clear hfuel
    induction h with
    | here hmore hbody =>
      obtain ⟨r, hr, hbody⟩ := hbody
      exact ⟨r, hr, .here hmore hbody⟩
    | later hmore hbody _ ih =>
      obtain ⟨r, hr, h⟩ := ih
      exact ⟨r, hr, .later hmore hbody h⟩

/-- What holds at the rounds of a loop matters only for the bytes that may be left there. -/
theorem reaches_congr {Q Q' : σ → List Octet → Prop} (hc : Consumes more body)
    (h : ∀ t m, m.length ≤ b.length → (Q t m ↔ Q' t m)) :
    Reaches more body Q t b ↔ Reaches more body Q' t b := by
  constructor
  · intro hr
    induction hr with
    | here hmore hQ => exact .here hmore ((h _ _ le_rfl).1 hQ)
    | later hmore hbody _ ih =>
      have := hc hmore hbody
      exact .later hmore hbody (ih fun t m hm => h t m (by omega))
  · intro hr
    induction hr with
    | here hmore hQ => exact .here hmore ((h _ _ le_rfl).2 hQ)
    | later hmore hbody _ ih =>
      have := hc hmore hbody
      exact .later hmore hbody (ih fun t m hm => h t m (by omega))

theorem loop_of_idle (hmore : more t b = true) (hbody : body t b = .ok t b) :
    loop more body fuel t b = .stop .unfinished := by
  induction fuel with
  | zero => rfl
  | succ fuel ih => rw [loop_of_more hmore, bind_of_ok hbody, ih]

theorem not_stopsWith_loop (hc : Consumes more body) (hfuel : b.length < fuel)
    (h : ∀ t m, m.length ≤ b.length → ¬ StopsWith S (body t) m) :
    ¬ StopsWith S (loop more body fuel t) b := by
  rw [stopsWith_loop hc hfuel, reaches_congr hc fun t m hm => iff_false_intro (h t m hm)]
  intro hr
  obtain ⟨_, _, -, hbody⟩ := hr.elim
  exact hbody

end StopsWith

end Scan
