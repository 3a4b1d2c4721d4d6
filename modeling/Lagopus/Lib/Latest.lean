import Mathlib.Tactic

/-!
# The last element of each kind

Elements come one after the other, and an element takes the place of an earlier one of its kind.

* `latest`: what is there in the end, the latest element last;
* `IsLast`: an element with none of its kind behind it;
* `mem_latest_iff`, `pairwise_latest`: `latest` has these, and one of each kind;
* `eraseP_eq_filter`: taking one element of a kind out of a list with one of each kind.
-/

namespace Latest

open List

variable {α κ : Type*} [DecidableEq κ] (kind : α → κ)

/-- The last element of each kind, in the order in which they came. -/
def latest (l : List α) : List α :=
  l.foldl (fun acc a => acc.filter (fun b => kind b ≠ kind a) ++ [a]) []

/-- An element with none of its kind behind it. -/
def IsLast (l : List α) (a : α) : Prop :=
  ∃ before after, l = before ++ a :: after ∧ ∀ b ∈ after, kind b ≠ kind a

theorem latest_nil : latest kind [] = [] := rfl

theorem latest_concat (l : List α) (a : α) :
    latest kind (l ++ [a]) = (latest kind l).filter (fun b => kind b ≠ kind a) ++ [a] := by
  rw [latest, foldl_append]
  rfl

theorem pairwise_latest (l : List α) : (latest kind l).Pairwise fun a b => kind a ≠ kind b := by
  induction l using List.reverseRecOn with
  | nil => exact List.Pairwise.nil
  | append_singleton l a ih =>
    rw [latest_concat, pairwise_append]
    refine ⟨ih.filter _, pairwise_singleton .., ?_⟩
    intro b hb c hc
    rw [mem_singleton.1 hc]
    exact of_decide_eq_true (mem_filter.1 hb).2

variable {kind} {l : List α}

omit [DecidableEq κ] in
theorem isLast_concat {a b : α} :
    IsLast kind (l ++ [a]) b ↔ b = a ∨ (IsLast kind l b ∧ kind b ≠ kind a) := by
  constructor
  · rintro ⟨before, after, heq, hafter⟩
    rcases eq_nil_or_concat after with rfl | ⟨after, c, rfl⟩
    · left
      exact ((append_inj' heq rfl).2 |> singleton_inj.1).symm
    · right
      rw [concat_eq_append] at heq hafter
      rw [← cons_append, ← append_assoc] at heq
      obtain ⟨hl, hc⟩ := append_inj' heq rfl
      rw [singleton_inj] at hc
      refine ⟨⟨before, after, hl, fun d hd => hafter d (mem_append_left _ hd)⟩, ?_⟩
      rw [hc]
      exact (hafter c (mem_append_right _ mem_cons_self)).symm
  · rintro (rfl | ⟨⟨before, after, rfl, hafter⟩, hne⟩)
    · exact ⟨l, [], rfl, by simp⟩
    · exact ⟨before, after ++ [a], by simp,
        forall_mem_append.2 ⟨hafter, forall_mem_singleton.2 hne.symm⟩⟩

theorem mem_latest_iff {b : α} : b ∈ latest kind l ↔ IsLast kind l b := by
  induction l using List.reverseRecOn with
  | nil =>
    rw [latest_nil]
    constructor
    · exact fun h => absurd h not_mem_nil
    · rintro ⟨before, after, heq, -⟩
      exact absurd heq.symm (by simp)
  | append_singleton l a ih =>
    rw [latest_concat, isLast_concat, mem_append, mem_filter, mem_singleton, decide_eq_true_eq, ih]
    exact or_comm

theorem eraseP_eq_filter (h : l.Pairwise fun a b => kind a ≠ kind b) (k : κ) :
    l.eraseP (fun b => kind b = k) = l.filter fun b => kind b ≠ k := by
  induction l with
  | nil => rfl
  | cons a l ih =>
    rw [pairwise_cons] at h
    by_cases ha : kind a = k
    · rw [eraseP_cons_of_pos (by simp [ha]), filter_cons_of_neg (by simp [ha]), eq_comm, filter_eq_self]
      intro b hb
      exact decide_eq_true (ha ▸ (h.1 b hb).symm)
    · rw [eraseP_cons_of_neg (by simp [ha]), filter_cons_of_pos (by simp [ha]), ih h.2]

end Latest
