import Mathlib.Logic.Relation
import Mathlib.Data.Finset.Card

/-!
# Acyclic relations on finite sets

* `Acyclic`: no node is on a cycle;
* `acyclic_iff_of_change`: after a change at one node, the cycles are those through that node;
* `Acyclic.exists_rank`: an acyclic relation on a finite set decreases a rank, which bounds the depth
  of every walk.
-/

namespace FiniteGraph

open Relation

variable {α : Type*} {R R' : α → α → Prop}

/-- No node is on a cycle. -/
def Acyclic (R : α → α → Prop) : Prop := ∀ a, ¬ TransGen R a a

theorem Acyclic.mono (h : Acyclic R) (hsub : ∀ a b, R' a b → R a b) : Acyclic R' :=
  fun a ha => h a (TransGen.mono hsub _ _ ha)

theorem walk_through {x a b : α} (hother : ∀ a b, R' a b → a ≠ x → b ≠ x → R a b)
    (h : TransGen R' a b) : TransGen R a b ∨ ReflTransGen R' a x ∧ ReflTransGen R' x b := by
  induction h with
  | single h =>
    rename_i b
    by_cases ha : a = x
    · exact .inr ⟨ha ▸ .refl, ha ▸ .single h⟩
    · by_cases hb : b = x
      · exact .inr ⟨hb ▸ .single h, hb ▸ .refl⟩
      · exact .inl (.single (hother a b h ha hb))
  | tail h hbc ih =>
    rename_i b c
    rcases ih with ih | ⟨hax, hxb⟩
    · by_cases hb : b = x
      · exact .inr ⟨hb ▸ h.to_reflTransGen, hb ▸ .single hbc⟩
      · by_cases hc : c = x
        · exact .inr ⟨hc ▸ h.to_reflTransGen.tail hbc, hc ▸ .refl⟩
        · exact .inl (ih.tail (hother b c hbc hb hc))
    · exact .inr ⟨hax, hxb.tail hbc⟩

/-- **After a change at one node**, a relation that was acyclic is so still exactly when no cycle goes
through that node. -/
theorem acyclic_iff_of_change {x : α} (h : Acyclic R)
    (hother : ∀ a b, R' a b → a ≠ x → b ≠ x → R a b) : Acyclic R' ↔ ¬ TransGen R' x x := by
  refine ⟨fun h' => h' x, fun hx a ha => ?_⟩
  rcases walk_through hother ha with hR | ⟨hax, hxa⟩
  · exact h a hR
  · rcases reflTransGen_iff_eq_or_transGen.mp hxa with rfl | hxa'
    · exact hx ha
    · exact hx (hxa'.trans_left hax)

/-- **A rank for an acyclic relation on a finite set**: the number of nodes that can be reached. -/
theorem Acyclic.exists_rank [DecidableEq α] (h : Acyclic R) (S : Finset α) (hS : ∀ a b, R a b → b ∈ S) :
    ∃ rank : α → Nat, (∀ a, rank a ≤ S.card) ∧ ∀ a b, R a b → rank b < rank a := by
  classical
  refine ⟨fun a => (S.filter fun b => TransGen R a b).card, fun a => S.card_filter_le _,
    fun a b hab => Finset.card_lt_card ?_⟩
  refine Finset.ssubset_iff_subset_ne.mpr ⟨fun c hc => ?_, fun heq => ?_⟩
  · obtain ⟨hcS, hbc⟩ := Finset.mem_filter.mp hc
    exact Finset.mem_filter.mpr ⟨hcS, hbc.head hab⟩
  · -- `b` is reached from `a`, but not from itself
    have hb : b ∈ S.filter fun c => TransGen R a c := Finset.mem_filter.mpr ⟨hS a b hab, .single hab⟩
    rw [← heq] at hb
    exact h b (Finset.mem_filter.mp hb).2

end FiniteGraph
