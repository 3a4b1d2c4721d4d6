import Lagopus.Cbuffer.Buffer

/-!
# Indices that have wrapped

When the index of the next put has wrapped, the next call takes both indices back to the start of the array.

* `Buffer.adjusted`: `s_adjust_indices` on an `int64_t` that is negative;
* `adjustRight_iff`: when the queue stays what it is.
-/

namespace Lagopus.Cbuffer

variable {α : Type*} {maxElements : Nat}

/-- An index, which is kept modulo `2 ^ 64`, as an `int64_t`. -/
def int64 (n : Nat) : Int := if n < 2 ^ 63 then n else n - 2 ^ 64

namespace Buffer

variable (b : Buffer α maxElements)

/-- The index of the next get and that of the next put.  A remainder has the sign of the index. -/
def adjusted : Int × Int := ((int64 b.rIdx).tmod b.allocd, b.allocd)

/-- A put has taken its index past `2 ^ 63 - 1`. -/
structure Wrapped : Prop where
  wIdx_eq : b.wIdx = b.rIdx + b.nElements
  bounded : b.nElements ≤ maxElements
  negative : 2 ^ 63 ≤ b.wIdx ∧ b.wIdx < 2 ^ 64

/-- **The queue stays what it is**: its elements, the cells of the first one and behind the last one, and
their number. -/
structure AdjustRight : Prop where
  stored : 0 ≤ b.adjusted.1 ∧ Ring.window b.allocd b.data b.adjusted.1.toNat b.nElements = b.stored
  first : b.adjusted.1 % b.allocd = (b.rIdx : Int) % b.allocd
  next : b.adjusted.2 % b.allocd = (b.wIdx : Int) % b.allocd
  count : b.adjusted.2 - b.adjusted.1 = b.nElements

variable {b}

/-- While the index of the next get has not wrapped, the model of the ring does the same. -/
theorem Wrapped.adjustIndices (h : b.Wrapped) (hr : b.rIdx < 2 ^ 63) :
    ((b.adjustIndices.rIdx : Int), (b.adjustIndices.wIdx : Int)) = b.adjusted := by
  rw [Buffer.adjustIndices, if_neg (not_lt.2 h.negative.1), adjusted, int64, if_pos hr]
  rfl

/-- The index of the next put is the size of the array: the last element has to be in the last cell. -/
theorem adjustRight_iff (h : b.Wrapped) :
    b.AdjustRight ↔ b.rIdx < 2 ^ 63 ∧ b.rIdx % b.allocd + b.nElements = b.allocd := by
  have hbounded := h.bounded
  by_cases hr : b.rIdx < 2 ^ 63
  · have hread : b.adjusted.1 = ((b.rIdx % b.allocd : Nat) : Int) := by
      rw [adjusted, int64, if_pos hr]
      rfl
    refine ⟨fun hright => ⟨hr, ?_⟩, fun ⟨_, hlast⟩ => ⟨⟨by omega, ?_⟩, ?_, ?_, ?_⟩⟩
    · have hcount := hright.count
      rw [hread, adjusted] at hcount
      omega
    · rw [hread, Int.toNat_natCast]
      exact List.map_congr_left fun i _ => congrArg b.data (Nat.mod_add_mod _ _ _)
    · rw [hread, Int.natCast_mod, Int.emod_emod]
    · have hnext : b.wIdx % b.allocd = 0 := by
        rw [h.wIdx_eq, ← Nat.mod_add_mod, hlast, Nat.mod_self]
      rw [adjusted, Int.emod_self, ← Int.natCast_mod, hnext]
      rfl
    · rw [hread, adjusted]
      omega
  · refine ⟨fun hright => ?_, fun hlast => absurd hlast.1 hr⟩
    have hneg : 0 ≤ -int64 b.rIdx := by
      have hlt := h.negative.2
      have hw := h.wIdx_eq
      rw [int64, if_neg hr]
      omega
    have hread := Int.tmod_nonneg (b.allocd : Int) hneg
    rw [Int.neg_tmod] at hread
    have hcount : (maxElements + 1 : Int) - (int64 b.rIdx).tmod b.allocd = b.nElements := hright.count
    omega

/-- The element is in the last of two cells. -/
theorem adjustRight_of_last : Wrapped (⟨fun _ => (), 2 ^ 63 - 1, 2 ^ 63, 1⟩ : Buffer Unit 1) ∧
    AdjustRight (⟨fun _ => (), 2 ^ 63 - 1, 2 ^ 63, 1⟩ : Buffer Unit 1) := by
  have h : Wrapped (⟨fun _ => (), 2 ^ 63 - 1, 2 ^ 63, 1⟩ : Buffer Unit 1) := ⟨rfl, le_rfl, by decide⟩
  exact ⟨h, (adjustRight_iff h).2 (by decide)⟩

/-- The element is in the second of three cells, and two are counted. -/
theorem adjust_miscounts : Wrapped (⟨fun _ => (), 2 ^ 63 - 1, 2 ^ 63, 1⟩ : Buffer Unit 2) ∧
    adjusted (⟨fun _ => (), 2 ^ 63 - 1, 2 ^ 63, 1⟩ : Buffer Unit 2) = (1, 3) ∧
      ¬ AdjustRight (⟨fun _ => (), 2 ^ 63 - 1, 2 ^ 63, 1⟩ : Buffer Unit 2) := by
  refine ⟨⟨rfl, by decide, by decide⟩, by decide, fun h => ?_⟩
  have hcount := h.count
  revert hcount
  decide

end Buffer

end Lagopus.Cbuffer
