import Mathlib.Data.List.Basic
import Mathlib.Data.Nat.ModEq

/-!
# Lists in a ring of cells

A list is kept in an array, from some index on, and goes on at the start of the array where it reaches
its end.  It is written and read with one or two block copies.

* `slice`, `copyAt`: reading and writing a block;
* `window`: the list that starts at an index;
* `copyIn`, `copyOut`: writing and reading across the end of the array;
* `copyOut_eq_window`: what is read is the list;
* `window_copyIn`: what is written is appended to the list.
-/

namespace Ring

open List Nat

variable {α : Type*} {c : Nat} {cells : Nat → α}

/-- A block of cells. -/
def slice (cells : Nat → α) (start n : Nat) : List α := (List.range n).map fun i => cells (start + i)

/-- A block of cells is overwritten. -/
def copyAt (cells : Nat → α) (start : Nat) (vals : List α) : Nat → α := fun i =>
  if i < start then cells i else vals[i - start]?.getD (cells i)

/-- The list of `n` elements that starts at an index. -/
def window (c : Nat) (cells : Nat → α) (start n : Nat) : List α :=
  (List.range n).map fun i => cells ((start + i) % c)

/-- Reading from an index on, at most once round the array. -/
def copyOut (c : Nat) (cells : Nat → α) (start n : Nat) : List α :=
  let idx := start % c
  if idx + n ≤ c then slice cells idx n
  else slice cells idx (c - idx) ++ slice cells 0 (n - (c - idx))

/-- Writing from an index on. -/
def copyIn (c : Nat) (cells : Nat → α) (start : Nat) (vals : List α) : Nat → α :=
  let idx := start % c
  if idx + vals.length ≤ c then copyAt cells idx vals
  else copyAt (copyAt cells idx (vals.take (c - idx))) 0 (vals.drop (c - idx))

@[simp] theorem length_window (start n : Nat) : (window c cells start n).length = n := by
  simp [window]

@[simp] theorem window_zero (start : Nat) : window c cells start 0 = [] := rfl

theorem window_add (start m n : Nat) :
    window c cells start (m + n) = window c cells start m ++ window c cells (start + m) n := by
  rw [window, range_add, map_append, map_map]
  refine congrArg _ (map_congr_left fun i _ => ?_)
  simp only [Function.comp, add_assoc]

variable {start n k i : Nat}

theorem window_take (h : k ≤ n) : (window c cells start n).take k = window c cells start k := by
  obtain ⟨m, rfl⟩ := Nat.exists_eq_add_of_le h
  rw [window_add, take_left' (length_window _ _)]

theorem window_drop (h : k ≤ n) : (window c cells start n).drop k = window c cells (start + k) (n - k) := by
  obtain ⟨m, rfl⟩ := Nat.exists_eq_add_of_le h
  rw [window_add, drop_left' (length_window _ _), Nat.add_sub_cancel_left]

/-! ## Reading -/

theorem add_mod_of_lt (h : start % c + i < c) : (start + i) % c = start % c + i := by
  rw [← mod_add_mod, mod_eq_of_lt h]

theorem add_mod_of_le (hle : c ≤ start % c + i) (hlt : start % c + i < 2 * c) :
    (start + i) % c = start % c + i - c := by
  rw [← mod_add_mod, mod_eq_sub_mod hle, mod_eq_of_lt (by omega)]

theorem slice_eq_window (h : start % c + n ≤ c) : slice cells (start % c) n = window c cells start n := by
  refine map_congr_left fun i hi => ?_
  have hcell : start % c + i < c := by
    have := mem_range.1 hi
    omega
  rw [add_mod_of_lt hcell]

theorem copyOut_eq_window (hc : 0 < c) (h : n ≤ c) : copyOut c cells start n = window c cells start n := by
  simp only [copyOut]
  split
  · next hfits => exact slice_eq_window hfits
  · next hfits =>
    have hidx := mod_lt start hc
    -- the second piece starts where the first one has reached the end
    have hzero : (start + (c - start % c)) % c = 0 := by
      rw [add_mod_of_le (by omega) (by omega)]
      omega
    have hsecond : slice cells ((start + (c - start % c)) % c) (n - (c - start % c)) =
        window c cells (start + (c - start % c)) (n - (c - start % c)) :=
      slice_eq_window (by omega)
    rw [hzero] at hsecond
    rw [slice_eq_window (by omega), hsecond, ← window_add]
    congr 1
    omega

/-! ## Writing -/

variable {vals : List α}

theorem copyAt_of_mem (h : i < vals.length) : copyAt cells start vals (start + i) = vals[i] := by
  simp [copyAt, h]

theorem copyAt_of_not_mem
    (h : i < start ∨ start + vals.length ≤ i) : copyAt cells start vals i = cells i := by
  unfold copyAt
  split
  · rfl
  · rw [getElem?_eq_none (by omega)]
    rfl

theorem copyIn_of_mem (hlen : vals.length ≤ c)
    (h : i < vals.length) : copyIn c cells start vals ((start + i) % c) = vals[i] := by
  have hidx := mod_lt start (by omega : 0 < c)
  simp only [copyIn]
  split
  · next hfits => rw [add_mod_of_lt (by omega), copyAt_of_mem h]
  · next hfits =>
    by_cases hi : start % c + i < c
    · have hpiece : i < (vals.take (c - start % c)).length := by
        rw [length_take]
        omega
      rw [add_mod_of_lt hi, copyAt, if_neg (not_lt_zero _),
        getElem?_eq_none (by rw [length_drop]; omega), Option.getD_none,
        copyAt_of_mem hpiece, getElem_take]
    · have hpiece : i - (c - start % c) < (vals.drop (c - start % c)).length := by
        rw [length_drop]
        omega
      have hcell : (start + i) % c = 0 + (i - (c - start % c)) := by
        rw [add_mod_of_le (by omega) (by omega)]
        omega
      rw [hcell, copyAt_of_mem hpiece, getElem_drop]
      congr 1
      omega

theorem copyIn_of_not_mem {j : Nat} (hlen : vals.length ≤ j) (hj : j < c) :
    copyIn c cells start vals ((start + j) % c) = cells ((start + j) % c) := by
  have hidx := mod_lt start (by omega : 0 < c)
  simp only [copyIn]
  by_cases hi : start % c + j < c
  · rw [add_mod_of_lt hi]
    split
    · exact copyAt_of_not_mem (by omega)
    · rw [copyAt_of_not_mem (by rw [length_drop]; omega), copyAt_of_not_mem (by rw [length_take]; omega)]
  · rw [add_mod_of_le (by omega) (by omega)]
    split
    · exact copyAt_of_not_mem (by omega)
    · rw [copyAt_of_not_mem (by rw [length_drop]; omega), copyAt_of_not_mem (by rw [length_take]; omega)]

/-- **What is written behind a list is appended to it**, as long as both fit into the array. -/
theorem window_copyIn (h : n + vals.length ≤ c) :
    window c (copyIn c cells (start + n) vals) start (n + vals.length) =
      window c cells start n ++ vals := by
  rw [window_add]
  congr 1
  · -- the cells of the list come `c - n` cells behind the ones that are written
    refine map_congr_left fun i hi => ?_
    have hi := mem_range.1 hi
    have hcell : (start + i) % c = (start + n + (c - n + i)) % c := by
      rw [show start + n + (c - n + i) = start + i + c by omega, add_mod_right]
    rw [hcell]
    exact copyIn_of_not_mem (by omega) (by omega)
  · refine ext_getElem (length_window _ _) fun i hi hi' => ?_
    simp only [window, getElem_map, getElem_range]
    exact copyIn_of_mem (by omega) hi'

end Ring
