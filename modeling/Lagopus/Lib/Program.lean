import Mathlib.Logic.Function.Basic
import Mathlib.Tactic

/-!
# Programs that may fail half-way

A program changes a state and says whether it succeeded.  Failing does not undo anything: what was done
before stays done, as in code that returns an error code.

* `andThen`, `regardless`, `forEach`: the ways such code is put together;
* `Frames f m`: the program leaves the view `f` of the state alone, whether it succeeds or not, with one
  lemma for each way of putting programs together.
-/

/-- What was answered (`true` for success) and the state that is left. -/
abbrev Prog (σ : Type*) := σ → Bool × σ

namespace Prog

variable {σ α β : Type*}

def ok : Prog σ := fun s => (true, s)

def fail : Prog σ := fun s => (false, s)

def modify (f : σ → σ) : Prog σ := fun s => (true, f s)

/-- A program that depends on the state it starts in. -/
def read (f : σ → Prog σ) : Prog σ := fun s => f s s

/-- What is done next depends on the answer. -/
def bind (a : Prog σ) (f : Bool → Prog σ) : Prog σ := fun s => f (a s).1 (a s).2

/-- The second only if the first succeeds. -/
def andThen (a b : Prog σ) : Prog σ := fun s => if (a s).1 then b (a s).2 else (false, (a s).2)

/-- The second whatever the first answers. -/
def regardless (a b : Prog σ) : Prog σ := fun s => b (a s).2

/-- The second only if the first fails, whose answer stays. -/
def orElse (a : Prog σ) (onFail : σ → σ) : Prog σ :=
  fun s => if (a s).1 then a s else (false, onFail (a s).2)

/-- The state is changed in the end, whatever the answer, which stays. -/
def finally_ (a : Prog σ) (g : σ → σ) : Prog σ := fun s => ((a s).1, g (a s).2)

/-- One after the other, until one fails. -/
def forEach (f : α → Prog σ) : List α → Prog σ
  | [] => ok
  | a :: as => andThen (f a) (forEach f as)

/-- One after the other, whatever they answer; the last one's answer, and success if there is none. -/
def forEachRegardless (f : α → Prog σ) : List α → Prog σ
  | [] => ok
  | [a] => f a
  | a :: as => regardless (f a) (forEachRegardless f as)

/-! ## Where a program goes on -/

section Answers

variable {a b : Prog σ} {s : σ}

theorem andThen_of_ok (h : (a s).1 = true) : andThen a b s = b (a s).2 := if_pos h

theorem andThen_of_fail (h : (a s).1 = false) : andThen a b s = (false, (a s).2) :=
  if_neg (by simp [h])

variable {m : α → Prog σ}

theorem forEach_cons_of_ok {x : α} {xs : List α} (h : (forEach m (x :: xs) s).1 = true) :
    (m x s).1 = true ∧ forEach m (x :: xs) s = forEach m xs (m x s).2 := by
  cases hx : (m x s).1 with
  | true => exact ⟨rfl, andThen_of_ok hx⟩
  | false =>
    rw [forEach, andThen_of_fail hx] at h
    exact absurd h Bool.false_ne_true

theorem forEach_invariant {I : σ → Prop} (hI : ∀ x s, I s → (m x s).1 = true → I (m x s).2) :
    ∀ {xs : List α} {s : σ}, I s → (forEach m xs s).1 = true → I (forEach m xs s).2 := by
  intro xs
  induction xs with
  | nil => exact fun h _ => h
  | cons x xs ih =>
    intro s h hok
    obtain ⟨hx, hrest⟩ := forEach_cons_of_ok hok
    rw [hrest] at hok ⊢
    exact ih (hI x s h hx) hok

theorem forEach_establishes {I : σ → Prop} {Q : α → σ → Prop}
    (hI : ∀ x s, I s → (m x s).1 = true → I (m x s).2)
    (hnew : ∀ x s, I s → (m x s).1 = true → Q x (m x s).2)
    (hold : ∀ x y s, I s → (m x s).1 = true → Q y s → Q y (m x s).2) :
    ∀ {xs : List α} {s : σ}, I s → (forEach m xs s).1 = true →
      ∀ x ∈ xs, Q x (forEach m xs s).2 := by
  intro xs
  induction xs with
  | nil => exact fun _ _ x hx => absurd hx List.not_mem_nil
  | cons x xs ih =>
    intro s h hok
    obtain ⟨hx, hrest⟩ := forEach_cons_of_ok hok
    rw [hrest] at hok ⊢
    have h₁ := hI x s h hx
    intro y hy
    rcases List.mem_cons.mp hy with rfl | hy
    · exact (forEach_invariant (I := fun s => I s ∧ Q y s)
        (fun z t ht hz => ⟨hI z t ht.1 hz, hold z y t ht.1 hz ht.2⟩) ⟨h₁, hnew y s h hx⟩ hok).2
    · exact ih h₁ hok y hy

end Answers

/-! ## What a program leaves alone -/

def Frames (f : σ → β) (m : Prog σ) : Prop := ∀ s, f (m s).2 = f s

variable {f : σ → β} {a b : Prog σ}

theorem frames_ok : Frames f (ok : Prog σ) := fun _ => rfl

theorem frames_fail : Frames f (fail : Prog σ) := fun _ => rfl

variable {g : σ → σ}

theorem frames_modify (h : ∀ s, f (g s) = f s) : Frames f (modify g) := h

theorem frames_read {m : σ → Prog σ} (h : ∀ s, Frames f (m s)) : Frames f (read m) :=
  fun s => h s s

variable (ha : Frames f a)

include ha

theorem Frames.bind {c : Bool → Prog σ} (hc : ∀ ok, Frames f (c ok)) : Frames f (bind a c) :=
  fun s => (hc _ _).trans (ha s)

theorem Frames.andThen (hb : Frames f b) : Frames f (andThen a b) := by
  intro s
  unfold Prog.andThen
  split
  · exact (hb _).trans (ha s)
  · exact ha s

theorem Frames.andThen_ok {s : σ} (h : (Prog.andThen a b s).1 = true) :
    ∃ t, f t = f s ∧ Prog.andThen a b s = b t := by
  cases hok : (a s).1 with
  | true => exact ⟨(a s).2, ha s, andThen_of_ok hok⟩
  | false =>
    rw [andThen_of_fail hok] at h
    exact absurd h Bool.false_ne_true

theorem Frames.regardless (hb : Frames f b) : Frames f (regardless a b) :=
  fun s => (hb _).trans (ha s)

theorem Frames.orElse (hg : ∀ s, f (g s) = f s) : Frames f (orElse a g) := by
  intro s
  unfold Prog.orElse
  split
  · exact ha s
  · exact (hg _).trans (ha s)

theorem Frames.finally_ (hg : ∀ s, f (g s) = f s) : Frames f (finally_ a g) :=
  fun s => (hg _).trans (ha s)

theorem frames_ite {p : Prop} [Decidable p] (hb : Frames f b) : Frames f (if p then a else b) := by
  split
  · exact ha
  · exact hb

omit ha

theorem frames_forEach {m : α → Prog σ} (h : ∀ x, Frames f (m x)) (as : List α) :
    Frames f (forEach m as) := by
  induction as with
  | nil => exact frames_ok
  | cons x xs ih => exact (h x).andThen ih

theorem frames_forEachRegardless {m : α → Prog σ} (h : ∀ x, Frames f (m x)) (as : List α) :
    Frames f (forEachRegardless m as) := by
  induction as with
  | nil => exact frames_ok
  | cons x xs ih =>
    cases xs with
    | nil => exact h x
    | cons y ys => exact (h x).regardless ih

end Prog
