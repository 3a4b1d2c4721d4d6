import Mathlib.Data.List.AList
import Mathlib.Logic.Function.Basic
import Mathlib.Tactic

/-!
# Objects in memory and tables of references to them

* `Heap`: objects under the addresses they were allocated at.  Addresses are given out in order and
  never again, so a reference to a freed object can be told from one to a live object: it reads `none`.
* `Hashmap`: a finite map from keys, with what an insertion and an erasure do to a lookup.
* `Heap.modifyAll`: the same change made to every object of a list of references.
* `Hashmap.Named`: a table that names live objects, each by one key.
-/

/-! ## Objects -/

/-- Allocated objects.  Nothing is found at an address not yet given out. -/
structure Heap (α : Type*) where
  cells : Nat → Option α
  next : Nat
  unused : ∀ r, next ≤ r → cells r = none

namespace Heap

variable {α : Type*}

def empty : Heap α := ⟨fun _ => none, 0, fun _ _ => rfl⟩

variable (h : Heap α)

/-- The object at an address, unless it was never allocated or has been freed. -/
def get (r : Nat) : Option α := h.cells r

/-- A new object, at the address `h.next`. -/
def alloc (a : α) : Heap α where
  cells := Function.update h.cells h.next (some a)
  next := h.next + 1
  unused r hr := by
    rw [Function.update_of_ne (by omega)]
    exact h.unused r (by omega)

/-- A write through a reference to a freed object changes no object. -/
def modify (r : Nat) (f : α → α) : Heap α where
  cells := Function.update h.cells r ((h.cells r).map f)
  next := h.next
  unused s hs := by
    by_cases hsr : s = r
    · subst hsr
      simp [h.unused s hs]
    · simp [Function.update_of_ne hsr, h.unused s hs]

def free (r : Nat) : Heap α where
  cells := Function.update h.cells r none
  next := h.next
  unused s hs := by
    by_cases hsr : s = r
    · simp [hsr]
    · simp [Function.update_of_ne hsr, h.unused s hs]

@[simp] theorem get_empty (r : Nat) : (empty : Heap α).get r = none := rfl

theorem get_next : h.get h.next = none := h.unused _ le_rfl

theorem get_alloc (a : α) (r : Nat) :
    (h.alloc a).get r = if r = h.next then some a else h.get r := by
  simp [get, alloc, Function.update_apply]

theorem get_modify (r : Nat) (f : α → α) (s : Nat) :
    (h.modify r f).get s = if s = r then (h.get s).map f else h.get s := by
  by_cases hsr : s = r
  · subst hsr
    simp [get, modify]
  · simp [get, modify, hsr]

theorem get_modify_of_get {h : Heap α} {r : Nat} {a : α} (hr : h.get r = some a) (f : α → α) (s : Nat) :
    (h.modify r f).get s = if s = r then some (f a) else h.get s := by
  rw [get_modify]
  split
  · next hsr => rw [hsr, hr, Option.map_some]
  · rfl

theorem get_free (r s : Nat) : (h.free r).get s = if s = r then none else h.get s := by
  simp [get, free, Function.update_apply]

@[simp]
theorem isSome_get_modify (r : Nat) (f : α → α) (s : Nat) :
    ((h.modify r f).get s).isSome = (h.get s).isSome := by
  rw [get_modify]
  split <;> simp

theorem get_alloc_of_isSome {h : Heap α} {s : Nat} (hs : (h.get s).isSome) (a : α) :
    (h.alloc a).get s = h.get s := by
  rw [get_alloc, if_neg]
  rintro rfl
  simp [get_next] at hs

section Views

variable {β : Type*} (h : Heap α) (r s : Nat) {v : α → Option β}

theorem bind_get_modify {f : α → α} (hv : ∀ a, v (f a) = v a) :
    ((h.modify r f).get s).bind v = (h.get s).bind v := by
  rw [get_modify]
  split
  · cases h.get s with
    | none => rfl
    | some a => exact hv a
  · rfl

theorem map_get_modify {f : α → α} {v : α → β} (hv : ∀ a, v (f a) = v a) :
    ((h.modify r f).get s).map v = (h.get s).map v := by
  simp only [Option.map_eq_bind]
  exact h.bind_get_modify r s fun a => congrArg some (hv a)

theorem bind_get_alloc {a : α} (hv : v a = none) : ((h.alloc a).get s).bind v = (h.get s).bind v := by
  rw [get_alloc]
  split
  · next hs => rw [hs, get_next, Option.bind_some, hv, Option.bind_none]
  · rfl

end Views

/-- The same change to each object of a list of references, one after the other. -/
def modifyAll (rs : List Nat) (f : α → α) : Heap α :=
  rs.foldl (fun h r => h.modify r f) h

theorem get_modifyAll {f : α → α} (hf : ∀ a, f (f a) = f a) (rs : List Nat) (s : Nat) :
    (h.modifyAll rs f).get s = if s ∈ rs then (h.get s).map f else h.get s := by
  induction rs generalizing h with
  | nil => simp [modifyAll]
  | cons r rs ih =>
    have hstep : h.modifyAll (r :: rs) f = (h.modify r f).modifyAll rs f := rfl
    rw [hstep, ih, get_modify]
    by_cases hsr : s = r
    · -- the object is changed now and perhaps once more by a later reference
      subst hsr
      by_cases hmem : s ∈ rs <;> simp [hmem, Function.comp_def, hf]
    · simp [hsr]

end Heap

/-! ## Tables -/

/-- A finite map from keys to values. -/
abbrev Hashmap (κ ν : Type*) := AList (fun _ : κ => ν)

namespace Hashmap

variable {κ ν : Type*} [DecidableEq κ]

theorem lookup_insert_ite (m : Hashmap κ ν) (k k' : κ) (v : ν) :
    (m.insert k v).lookup k' = if k' = k then some v else m.lookup k' := by
  by_cases h : k' = k
  · subst h
    simp
  · simp [h, AList.lookup_insert_ne h]

theorem lookup_erase_ite (m : Hashmap κ ν) (k k' : κ) :
    (m.erase k).lookup k' = if k' = k then none else m.lookup k' := by
  by_cases h : k' = k
  · subst h
    simp
  · simp [h, AList.lookup_erase_ne h]

/-- The values of a table, in the order in which an iteration meets them. -/
def values (m : Hashmap κ ν) : List ν := m.entries.map (·.2)

theorem mem_values {m : Hashmap κ ν} {v : ν} : v ∈ m.values ↔ ∃ k, m.lookup k = some v := by
  simp only [values, List.mem_map]
  refine ⟨?_, ?_⟩
  · rintro ⟨⟨k, v⟩, hmem, rfl⟩
    exact ⟨k, AList.mem_lookup_iff.2 hmem⟩
  · rintro ⟨k, hk⟩
    exact ⟨⟨k, v⟩, AList.mem_lookup_iff.1 hk, rfl⟩

/-- The object a table refers to by a key. -/
def find {α : Type*} (m : Hashmap κ Nat) (h : Heap α) (k : κ) : Option (Nat × α) :=
  (m.lookup k).bind fun r => (h.get r).map fun a => (r, a)

theorem find_eq_some_iff {α : Type*} {m : Hashmap κ Nat} {h : Heap α} {k : κ} {r : Nat} {a : α} :
    find m h k = some (r, a) ↔ m.lookup k = some r ∧ h.get r = some a := by
  simp only [find, Option.bind_eq_some_iff, Option.map_eq_some_iff]
  refine ⟨?_, ?_⟩
  · rintro ⟨r', hr, a', ha, heq⟩
    cases heq
    exact ⟨hr, ha⟩
  · rintro ⟨hr, ha⟩
    exact ⟨r, hr, a, ha, rfl⟩

/-- The objects a table refers to are live, and it has one key for each. -/
structure Named {α : Type*} (m : Hashmap κ Nat) (h : Heap α) : Prop where
  live : ∀ k r, m.lookup k = some r → (h.get r).isSome
  inj : ∀ k l r, m.lookup k = some r → m.lookup l = some r → k = l

section Named

variable {α : Type*} {m : Hashmap κ Nat} {h : Heap α} {k : κ} {r : Nat} (hm : Named m h)

include hm

theorem Named.insert (hr : (h.get r).isSome) (hnew : ∀ l, m.lookup l ≠ some r)
    (k : κ) : Named (m.insert k r) h where
  live l s hl := by
    have := hm.live l s
    rw [lookup_insert_ite] at hl
    grind
  inj l l' s hl hl' := by
    have := hm.inj l l' s
    rw [lookup_insert_ite] at hl hl'
    grind

theorem Named.ne_next (k : κ) : m.lookup k ≠ some h.next := by
  intro hk
  simpa [Heap.get_next] using hm.live k _ hk

theorem Named.alloc (k : κ) (a : α) : Named (m.insert k h.next) (h.alloc a) := by
  refine Named.insert ⟨fun l r hl => ?_, hm.inj⟩ (by simp [Heap.get_alloc]) hm.ne_next k
  rw [Heap.get_alloc_of_isSome (hm.live l r hl)]
  exact hm.live l r hl

theorem Named.erase (hk : m.lookup k = some r) {h' : Heap α}
    (hfree : ∀ s, s ≠ r → (h'.get s).isSome = (h.get s).isSome) : Named (m.erase k) h' where
  live l s hl := by
    have := hm.inj l k s
    have := hm.live l s
    rw [lookup_erase_ite] at hl
    grind
  inj l l' s hl hl' := by
    have := hm.inj l l' s
    rw [lookup_erase_ite] at hl hl'
    grind

end Named

end Hashmap
