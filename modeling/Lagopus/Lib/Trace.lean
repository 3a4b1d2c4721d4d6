import Mathlib.Logic.Basic

/-!
# Properties of every step of a run

A run takes one event after the other.  A property of single steps is asked of all of them, each in
the state in which it is taken.

* `EveryStep`: the property along a run;
* `EveryStep.of_invariant`: a property of steps, from one that keeps an invariant;
* `EveryStep.foldl_invariant`: the invariant at the end of such a run;
* `EveryStep.iff_of_invariant`: two properties agree along whole runs when they agree in the states of
  an invariant and one of them keeps it.
-/

namespace Trace

variable {σ ε : Type*} {step : σ → ε → σ} {P Q : σ → ε → Prop}

/-- `P` holds of every event of a run and the state in which it is taken. -/
def EveryStep (step : σ → ε → σ) (P : σ → ε → Prop) : σ → List ε → Prop
  | _, [] => True
  | s, e :: es => P s e ∧ EveryStep step P (step s e) es

instance decidableEveryStep [∀ s e, Decidable (P s e)] :
    ∀ s es, Decidable (EveryStep step P s es)
  | _, [] => .isTrue trivial
  | s, e :: es =>
    have := decidableEveryStep (step s e) es
    inferInstanceAs (Decidable (P s e ∧ EveryStep step P (step s e) es))

namespace EveryStep

variable {Inv : σ → Prop}

theorem of_invariant (hstep : ∀ s e, Inv s → Q s e → P s e ∧ Inv (step s e)) :
    ∀ {s : σ}, Inv s → ∀ {es}, EveryStep step Q s es → EveryStep step P s es := by
  intro s hs es h
  induction es generalizing s with
  | nil => trivial
  | cons e es ih =>
    obtain ⟨hp, hs'⟩ := hstep s e hs h.1
    exact ⟨hp, ih hs' h.2⟩

theorem foldl_invariant (hkeep : ∀ s e, Inv s → Q s e → Inv (step s e)) :
    ∀ {s : σ}, Inv s → ∀ {es}, EveryStep step Q s es → Inv (es.foldl step s) := by
  intro s hs es h
  induction es generalizing s with
  | nil => exact hs
  | cons e es ih => exact ih (hkeep s e hs h.1) h.2

theorem iff_of_invariant (hagree : ∀ s e, Inv s → (P s e ↔ Q s e))
    (hkeep : ∀ s e, Inv s → Q s e → Inv (step s e)) :
    ∀ {s : σ}, Inv s → ∀ es, EveryStep step P s es ↔ EveryStep step Q s es := by
  intro s hs es
  induction es generalizing s with
  | nil => exact Iff.rfl
  | cons e es ih =>
    apply (and_congr_left' (hagree s e hs)).trans
    exact and_congr_right fun hq => ih (hkeep s e hs hq)

end EveryStep

end Trace
