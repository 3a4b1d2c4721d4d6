import Mathlib.Data.List.Perm.Basic
import Mathlib.Tactic

/-!
# Insertion by binary search

The place for a new element in a list is found by halving an interval `[st, ed)`, going right
while a test holds, and the element is put there.

* `search_spec`: on a test that holds on an initial part of the list, the search returns the length
  of that part;
* `insertWith_eq`: the insertion puts the element between the part where the test holds and the
  rest;
* `insertWith_pairwise`: inserting by a key keeps the list ordered by it, and puts the new element
  after the ones of equal key.
-/

namespace SortedInsert

open List

/-- The search loop. The interval shrinks in every round, so its length is enough fuel. -/
def search (test : Nat → Bool) : Nat → Nat → Nat → Nat
  | 0, _, ed => ed
  | fuel + 1, st, ed =>
    if st < ed then
      let off := st + (ed - st) / 2
      if test off then search test fuel (off + 1) ed else search test fuel st off
    else ed

theorem search_spec {test : Nat → Bool} {n : Nat}
    (hmono : ∀ i j, i ≤ j → j < n → test j = true → test i = true) :
    ∀ fuel st ed, ed - st ≤ fuel → st ≤ ed → ed ≤ n → (∀ i < st, test i = true) →
      (∀ i, ed ≤ i → i < n → test i = false) →
      search test fuel st ed ≤ n ∧ (∀ i < search test fuel st ed, test i = true) ∧
        ∀ i, search test fuel st ed ≤ i → i < n → test i = false
  | 0, st, ed, hfuel, hle, hn, hlo, hhi => by
    have : st = ed := by omega
    subst this
    exact ⟨hn, hlo, hhi⟩
  | fuel + 1, st, ed, hfuel, hle, hn, hlo, hhi => by
    rw [search]
    by_cases hlt : st < ed
    · rw [if_pos hlt]
      set off := st + (ed - st) / 2 with hoff
      by_cases htest : test off = true
      · rw [if_pos htest]
        refine search_spec hmono fuel (off + 1) ed (by omega) (by omega) hn ?_ hhi
        intro i hi
        exact hmono i off (by omega) (by omega) htest
      · rw [if_neg htest]
        refine search_spec hmono fuel st off (by omega) (by omega) (by omega) hlo ?_
        intro i hi hin
        by_contra hcon
        exact htest (hmono off i hi hin (by simpa using hcon))
    · rw [if_neg hlt]
      have : st = ed := by omega
      subst this
      exact ⟨hn, hlo, hhi⟩

variable {α : Type}

/-- Put `a` behind the elements on which the test holds, found by binary search. -/
def insertWith (test : α → Bool) (a : α) (l : List α) : List α :=
  let i := search (fun i => (l[i]?).any test) l.length 0 l.length
  l.take i ++ a :: l.drop i

theorem insertWith_perm (test : α → Bool) (a : α) (l : List α) : (insertWith test a l).Perm (a :: l) := by
  unfold insertWith
  refine perm_middle.trans ?_
  rw [take_append_drop]

/-- **The insertion point**: the elements before it satisfy the test, those after it do not. -/
theorem insertWith_eq {test : α → Bool} {l : List α}
    (hmono : l.Pairwise fun x y => test y = true → test x = true) (a : α) :
    ∃ l₁ l₂, l = l₁ ++ l₂ ∧ insertWith test a l = l₁ ++ a :: l₂ ∧
      (∀ x ∈ l₁, test x = true) ∧ ∀ x ∈ l₂, test x = false := by
  set tst : Nat → Bool := fun i => (l[i]?).any test with htst
  have hget : ∀ i (hi : i < l.length), tst i = test l[i] := by
    intro i hi
    simp [htst, hi]
  have hm : ∀ i j, i ≤ j → j < l.length → tst j = true → tst i = true := by
    intro i j hij hj h
    rcases Nat.eq_or_lt_of_le hij with rfl | hlt
    · exact h
    · rw [hget i (by omega)]
      rw [hget j hj] at h
      exact pairwise_iff_getElem.mp hmono i j (by omega) hj hlt h
  obtain ⟨hle, hlo, hhi⟩ := search_spec hm l.length 0 l.length (by omega) (by omega) le_rfl
    (by omega) (by omega)
  refine ⟨l.take (search tst l.length 0 l.length), l.drop (search tst l.length 0 l.length),
    (take_append_drop _ _).symm, rfl, ?_, ?_⟩
  · intro x hx
    obtain ⟨i, hi, rfl⟩ := mem_iff_getElem.mp hx
    rw [length_take] at hi
    rw [getElem_take, ← hget i (by omega)]
    exact hlo i (by omega)
  · intro x hx
    obtain ⟨i, hi, rfl⟩ := mem_iff_getElem.mp hx
    rw [length_drop] at hi
    rw [getElem_drop, ← hget _ (by omega)]
    exact hhi _ (by omega) (by omega)

/-- **Insertion by key keeps the order**, with the new element behind its equals. -/
theorem insertWith_pairwise (key : α → Int) {a : α} {l : List α} (h : l.Pairwise fun x y => key y ≤ key x) :
    (insertWith (fun x => decide (key a ≤ key x)) a l).Pairwise fun x y => key y ≤ key x := by
  have hmono : l.Pairwise fun x y => decide (key a ≤ key y) = true → decide (key a ≤ key x) = true :=
    h.imp fun hxy => by simp only [decide_eq_true_eq]; omega
  obtain ⟨l₁, l₂, rfl, heq, h1, h2⟩ := insertWith_eq hmono a
  rw [heq]
  obtain ⟨hp1, hp2, hcross⟩ := pairwise_append.mp h
  simp only [decide_eq_true_eq, decide_eq_false_iff_not, not_le] at h1 h2
  refine pairwise_append.mpr ⟨hp1, pairwise_cons.mpr ⟨fun y hy => (h2 y hy).le, hp2⟩, ?_⟩
  intro x hx y hy
  rcases mem_cons.mp hy with rfl | hy
  · exact h1 x hx
  · exact hcross x hx y hy

end SortedInsert
