import Mathlib

/-!
# Shares of a total

The elements of a list have weights, and lie one after the other on the line: the first takes up the
numbers from 1 to its weight, the next the numbers behind it.  A number below the total is in the share of
exactly one of them.

* `upTo`: where the share of an element starts;
* `position`: the element in whose share a number is, found by adding the weights up;
* `position_eq_some_iff`: the shares are intervals;
* `card_position`: every element has as many numbers as its weight says.
-/

namespace Shares

open List

variable {α : Type*} (w : α → Nat)

/-- The weight of the elements before the `i`-th. -/
def upTo (l : List α) (i : Nat) : Nat := ((l.take i).map w).sum

@[simp] theorem upTo_zero (l : List α) : upTo w l 0 = 0 := rfl

@[simp] theorem upTo_cons_succ (a : α) (l : List α) (i : Nat) :
    upTo w (a :: l) (i + 1) = w a + upTo w l i := by
  simp [upTo]

variable {l : List α} {i sel sum : Nat}

theorem upTo_succ (h : i < l.length) : upTo w l (i + 1) = upTo w l i + w l[i] := by
  rw [upTo, take_succ_eq_append_getElem h, map_append, sum_append]
  simp [upTo]

theorem upTo_le (i : Nat) : upTo w l i ≤ (l.map w).sum := by
  conv_rhs => rw [← take_append_drop i l, map_append, sum_append]
  exact Nat.le_add_right _ _

/-- The first element at which the running sum reaches `sel`. -/
def position (sel : Nat) : Nat → List α → Option Nat
  | _, [] => none
  | sum, a :: l =>
    if sel ≤ sum + w a then some 0 else (position sel (sum + w a) l).map (· + 1)

variable {w}

theorem position_eq_some_iff (hsum : sum < sel) : position w sel sum l = some i ↔
      i < l.length ∧ sum + upTo w l i < sel ∧ sel ≤ sum + upTo w l (i + 1) := by
  induction l generalizing sum i with
  | nil => simp [position]
  | cons a l ih =>
    rw [position]
    split
    · next hsel =>
      -- later shares start behind the first one
      cases i with
      | zero => simpa using ⟨hsum, hsel⟩
      | succ i =>
        simp only [Option.some.injEq, Nat.zero_ne_add_one, upTo_cons_succ, false_iff, not_and]
        intro _ hstart
        omega
    · next hsel =>
      cases i with
      | zero =>
        have : upTo w (a :: l) 1 = w a := by simp
        simp only [Option.map_eq_some_iff, Nat.add_one_ne_zero, and_false, exists_false, Nat.zero_add,
          this, false_iff, not_and]
        intro _ _
        exact hsel
      | succ i =>
        simp [ih (Nat.lt_of_not_le hsel), upTo_cons_succ, Nat.add_assoc]

theorem exists_position (hsum : sum < sel)
    (hsel : sel ≤ sum + (l.map w).sum) : ∃ i < l.length, position w sel sum l = some i := by
  induction l generalizing sum with
  | nil =>
    rw [map_nil, sum_nil] at hsel
    omega
  | cons a l ih =>
    rw [position]
    split
    · exact ⟨0, Nat.succ_pos _, rfl⟩
    · next hnot =>
      rw [map_cons, sum_cons] at hsel
      obtain ⟨i, hi, hpos⟩ := ih (Nat.lt_of_not_le hnot) (by omega)
      exact ⟨i + 1, Nat.succ_lt_succ hi, by rw [hpos, Option.map_some]⟩

/-- **Every element gets its weight.** -/
theorem card_position (h : i < l.length) :
    ((Finset.range (l.map w).sum).filter fun k => position w (k + 1) 0 l = some i).card =
      w l[i] := by
  have hshare : ((Finset.range (l.map w).sum).filter fun k => position w (k + 1) 0 l = some i) =
      Finset.Ico (upTo w l i) (upTo w l (i + 1)) := by
    ext k
    have := upTo_le w (l := l) (i + 1)
    rw [Finset.mem_filter, Finset.mem_range, position_eq_some_iff (Nat.succ_pos k), Finset.mem_Ico]
    omega
  rw [hshare, Nat.card_Ico, upTo_succ w h, Nat.add_sub_cancel_left]

end Shares
