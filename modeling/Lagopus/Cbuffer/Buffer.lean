import Lagopus.Lib.Ring
import Mathlib.Tactic

/-!
# The ring of a circular buffer

The elements of a queue are in an array that has room for one more element than the queue may have.
Two indices grow with every put and every get; the cell of an element is its index modulo the size of
the array.

* `Buffer`, `copyin`, `copyout`, `freeupAllValues`, `clean`: the ring as `s_copyin` and the others
  keep it;
* `Buffer.stored`: the elements of the queue, in order;
* `Buffer.Valid`: the indices agree with the number of elements;
* `Valid.stored_copyin`, `Valid.copyout_fst`, `Valid.stored_copyout`, `Valid.freeupAllValues_eq`: the
  ring is a list.
-/

namespace Lagopus.Cbuffer

variable {α : Type*} {maxElements : Nat}

/-- A ring for at most `maxElements` elements. The index of the next put is an `int64_t` and is kept
modulo `2 ^ 64`: it is negative from `2 ^ 63` on. -/
structure Buffer (α : Type*) (maxElements : Nat) where
  data : Nat → α
  rIdx : Nat := 0
  wIdx : Nat := 0
  nElements : Nat := 0

namespace Buffer

/-- `m_n_max_allocd_elements`. -/
abbrev allocd (_ : Buffer α maxElements) : Nat := maxElements + 1

variable (b : Buffer α maxElements)

/-- `s_adjust_indices`. -/
def adjustIndices : Buffer α maxElements :=
  if b.wIdx < 2 ^ 63 then b
  else { b with wIdx := b.allocd, rIdx := b.rIdx % b.allocd }

/-- `s_copyin`: the number of elements that were put. -/
def copyin (vals : List α) : Nat × Buffer α maxElements :=
  let maxN := min (maxElements - b.nElements) vals.length
  let b := b.adjustIndices
  if 0 < maxN then
    (maxN, { b with
      data := Ring.copyIn b.allocd b.data b.wIdx (vals.take maxN)
      nElements := b.nElements + maxN
      wIdx := (b.wIdx + maxN) % 2 ^ 64 })
  else (maxN, b)

/-- `s_copyout`: the elements that were copied. They stay in the ring unless `doIncr` is set. -/
def copyout (n : Nat) (doIncr : Bool) :
    List α × Buffer α maxElements :=
  let maxN := min n b.nElements
  let b := b.adjustIndices
  if 0 < maxN then
    (Ring.copyOut b.allocd b.data b.rIdx maxN,
      if doIncr then { b with nElements := b.nElements - maxN, rIdx := b.rIdx + maxN } else b)
  else ([], b)

/-- `s_freeup_all_values`: the elements that the free function is called for. -/
def freeupAllValues : List α :=
  let b := b.adjustIndices
  (List.range (b.wIdx - b.rIdx)).map fun i => b.data ((b.rIdx + i) % b.allocd)

/-- The part of `s_clean` that is about the ring. -/
def clean [Inhabited α] (_ : Buffer α maxElements) : Buffer α maxElements :=
  { data := fun _ => default }

/-! ## The ring as a list -/

/-- The elements of the queue, in order. -/
def stored : List α := Ring.window b.allocd b.data b.rIdx b.nElements

@[simp] theorem length_stored : b.stored.length = b.nElements :=
  Ring.length_window _ _

/-- The indices agree with the number of elements, which is bounded. -/
structure Valid : Prop where
  wIdx_eq : b.wIdx = b.rIdx + b.nElements
  bounded : b.nElements ≤ maxElements
  small : b.wIdx < 2 ^ 63

variable {b : Buffer α maxElements}

theorem valid_clean [Inhabited α] (b : Buffer α maxElements) : b.clean.Valid :=
  ⟨rfl, Nat.zero_le _, by simp [clean]⟩

@[simp] theorem stored_clean [Inhabited α] (b : Buffer α maxElements) : b.clean.stored = [] := rfl

namespace Valid

variable (h : b.Valid)

include h

theorem adjustIndices_eq : b.adjustIndices = b := if_pos h.small

omit h in
theorem copyin_fst (b : Buffer α maxElements) (vals : List α) :
    (b.copyin vals).1 = min (maxElements - b.nElements) vals.length := by
  simp only [copyin]
  split <;> rfl

variable {vals : List α} (hsmall : b.wIdx + (b.copyin vals).1 < 2 ^ 63)

include hsmall

theorem copyin_snd : (b.copyin vals).2 =
      { b with
        data := if 0 < (b.copyin vals).1 then
          Ring.copyIn b.allocd b.data b.wIdx (vals.take (b.copyin vals).1) else b.data
        nElements := b.nElements + (b.copyin vals).1
        wIdx := b.wIdx + (b.copyin vals).1 } := by
  rw [copyin_fst] at hsmall ⊢
  simp only [copyin, h.adjustIndices_eq]
  split
  · rw [Nat.mod_eq_of_lt (by omega)]
  · next hzero => rw [Nat.eq_zero_of_not_pos hzero, Nat.add_zero, Nat.add_zero]

theorem copyin : (b.copyin vals).2.Valid := by
  have hbounded := h.bounded
  have hwIdx := h.wIdx_eq
  have hle : (b.copyin vals).1 ≤ maxElements - b.nElements := by
    rw [copyin_fst]
    exact min_le_left _ _
  rw [h.copyin_snd hsmall]
  refine ⟨?_, ?_, hsmall⟩ <;> simp only <;> omega

/-- **A put appends.** -/
theorem stored_copyin : (b.copyin vals).2.stored = b.stored ++ vals.take (b.copyin vals).1 := by
  have hbounded := h.bounded
  rw [h.copyin_snd hsmall]
  have hmin := copyin_fst b vals
  generalize (b.copyin vals).1 = k at hmin ⊢
  simp only [stored]
  split
  · have hlength : (vals.take k).length = k := by
      rw [List.length_take]
      omega
    have happend : Ring.window b.allocd (Ring.copyIn b.allocd b.data (b.rIdx + b.nElements)
        (vals.take k)) b.rIdx (b.nElements + (vals.take k).length) =
        Ring.window b.allocd b.data b.rIdx b.nElements ++ vals.take k :=
      Ring.window_copyIn (by rw [hlength]; change _ ≤ maxElements + 1; omega)
    rw [hlength] at happend
    rw [h.wIdx_eq]
    exact happend
  · next hzero =>
    rw [Nat.eq_zero_of_not_pos hzero, List.take_zero, List.append_nil]
    rfl

omit hsmall

omit h in
theorem full_or_all (b : Buffer α maxElements) (vals : List α) :
    maxElements ≤ b.nElements + (b.copyin vals).1 ∨ (b.copyin vals).1 = vals.length := by
  rw [copyin_fst]
  omega

variable (n : Nat)

/-- **A get copies the first elements.** -/
theorem copyout_fst (doIncr : Bool) : (b.copyout n doIncr).1 = b.stored.take n := by
  have hbounded := h.bounded
  simp only [Buffer.copyout, h.adjustIndices_eq]
  split
  · rw [Ring.copyOut_eq_window (Nat.succ_pos _) (by omega)]
    rcases Nat.le_total n b.nElements with hn | hn
    · rw [min_eq_left hn, stored, Ring.window_take hn]
    · rw [min_eq_right hn, List.take_of_length_le (by rw [length_stored]; exact hn)]
      rfl
  · have : n = 0 ∨ b.stored = [] := by
      rw [← List.length_eq_zero_iff, length_stored]
      omega
    rcases this with rfl | hnil
    · rfl
    · rw [hnil, List.take_nil]

theorem copyout_snd_of_peek : (b.copyout n false).2 = b := by
  simp only [Buffer.copyout, h.adjustIndices_eq, Bool.false_eq_true, if_false]
  split <;> rfl

theorem copyout_snd_of_get : (b.copyout n true).2 =
      { b with nElements := b.nElements - n, rIdx := b.rIdx + min n b.nElements } := by
  simp only [Buffer.copyout, h.adjustIndices_eq, if_true]
  split
  · have htaken : b.nElements - min n b.nElements = b.nElements - n := by omega
    rw [htaken]
  · next hzero =>
    have hkept : b.nElements - n = b.nElements := by omega
    rw [Nat.eq_zero_of_not_pos hzero, Nat.add_zero, hkept]

theorem copyout (doIncr : Bool) : (b.copyout n doIncr).2.Valid := by
  cases doIncr with
  | false => rwa [h.copyout_snd_of_peek]
  | true =>
    have hbounded := h.bounded
    have hwIdx := h.wIdx_eq
    rw [h.copyout_snd_of_get]
    refine ⟨?_, ?_, h.small⟩ <;> simp only <;> omega

/-- **A get takes what it copies off the queue.** -/
theorem stored_copyout : (b.copyout n true).2.stored = b.stored.drop n := by
  rw [h.copyout_snd_of_get]
  rcases Nat.le_total n b.nElements with hn | hn
  · simp only [stored, min_eq_left hn, Ring.window_drop hn]
  · rw [List.drop_of_length_le (by rw [length_stored]; exact hn)]
    simp only [stored, Nat.sub_eq_zero_of_le hn, Ring.window_zero]

/-- **All elements are freed, once.** -/
theorem freeupAllValues_eq : b.freeupAllValues = b.stored := by
  simp only [freeupAllValues, h.adjustIndices_eq]
  rw [h.wIdx_eq, Nat.add_sub_cancel_left]
  rfl

end Valid

end Buffer

end Lagopus.Cbuffer
