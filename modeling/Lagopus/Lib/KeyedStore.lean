import Mathlib.Data.List.Nodup
import Mathlib.Logic.Function.Basic
import Mathlib.Tactic

/-!
# Stores with one element for each key

A store is a list of elements whose keys are distinct, in whatever order the
container behind it keeps them.  The distinctness is a field, so no operation can
break it.

* `KeyedStore.get` reads the store as a partial map from keys, and `get_insert`,
  `get_put` and `get_erase` say that the operations are updates of that map at one
  point.
* `length_put` and `length_erase` count the elements.
-/

/-- At most one element for each key. -/
structure KeyedStore {κ α : Type} (key : α → κ) where
  entries : List α
  distinct : (entries.map key).Nodup

namespace KeyedStore

variable {κ α : Type} [DecidableEq κ] {key : α → κ}

instance [DecidableEq α] : DecidableEq (KeyedStore key) := fun s t =>
  decidable_of_iff (s.entries = t.entries) (by cases s; cases t; simp)

def empty : KeyedStore key := ⟨[], by simp⟩

variable (s : KeyedStore key)

/-- The element of a key. -/
def get (k : κ) : Option α := s.entries.find? (key · = k)

def erase (k : κ) : KeyedStore key :=
  ⟨s.entries.filter (key · ≠ k), s.distinct.sublist (List.filter_sublist.map key)⟩

/-- A key already present is refused. -/
def insert (e : α) : Option (KeyedStore key) :=
  if h : key e ∈ s.entries.map key then none
  else some ⟨e :: s.entries, List.nodup_cons.2 ⟨h, s.distinct⟩⟩

theorem key_notMem_erase (k : κ) : k ∉ (s.erase k).entries.map key := by
  intro h
  obtain ⟨e, he, heq⟩ := List.mem_map.1 h
  simpa [heq] using (List.mem_filter.1 he).2

/-- A key already present is overwritten. -/
def put (e : α) : KeyedStore key :=
  ⟨e :: (s.erase (key e)).entries,
    List.nodup_cons.2 ⟨s.key_notMem_erase (key e), (s.erase (key e)).distinct⟩⟩

/-! ## The store as a map -/

omit [DecidableEq κ] in
theorem eq_of_key_eq {e d : α} (he : e ∈ s.entries) (hd : d ∈ s.entries)
    (h : key e = key d) : e = d :=
  List.inj_on_of_nodup_map s.distinct he hd h

theorem get_eq_some_iff {k : κ} {e : α} :
    s.get k = some e ↔ e ∈ s.entries ∧ key e = k := by
  constructor
  · intro h
    exact ⟨List.mem_of_find?_eq_some h, by simpa using List.find?_some h⟩
  · rintro ⟨he, rfl⟩
    cases hfind : s.get (key e) with
    | none =>
      have hne := List.find?_eq_none.1 hfind e he
      simp at hne
    | some d =>
      have hd : key d = key e := by simpa using List.find?_some hfind
      rw [s.eq_of_key_eq (List.mem_of_find?_eq_some hfind) he hd]

theorem get_eq_none_iff {k : κ} : s.get k = none ↔ ∀ e ∈ s.entries, key e ≠ k := by
  simp [get, List.find?_eq_none]

variable {s t : KeyedStore key} {k : κ} {e d : α}

theorem get_congr (h : ∀ e, e ∈ s.entries ↔ e ∈ t.entries) : s.get = t.get := by
  funext k
  ext e
  simp only [get_eq_some_iff, h]

theorem mem_erase : e ∈ (s.erase k).entries ↔ e ∈ s.entries ∧ key e ≠ k := by
  simp [erase]

theorem mem_put : d ∈ (s.put e).entries ↔ d = e ∨ d ∈ s.entries ∧ key d ≠ key e := by
  simp only [put, List.mem_cons, mem_erase]

theorem get_erase (k : κ) : (s.erase k).get = Function.update s.get k none := by
  funext j
  by_cases hj : j = k
  · subst hj
    rw [Function.update_self, get_eq_none_iff]
    exact fun d hd => (mem_erase.1 hd).2
  · rw [Function.update_of_ne hj]
    ext d
    simp only [get_eq_some_iff, mem_erase]
    constructor
    · rintro ⟨⟨hd, -⟩, rfl⟩
      exact ⟨hd, rfl⟩
    · rintro ⟨hd, rfl⟩
      exact ⟨⟨hd, hj⟩, rfl⟩

theorem get_put (e : α) : (s.put e).get = Function.update s.get (key e) (some e) := by
  funext j
  by_cases hj : j = key e
  · subst hj
    simp [get, put]
  · have hne : key e ≠ j := Ne.symm hj
    have herase := congrFun (s.get_erase (key e)) j
    rw [Function.update_of_ne hj] at herase ⊢
    rw [← herase]
    simp [get, put, hne]

theorem get_insert (h : s.insert e = some t) : t.get = Function.update s.get (key e) (some e) := by
  unfold insert at h
  split_ifs at h
  obtain rfl := Option.some.inj h
  funext j
  by_cases hj : key e = j
  · subst hj
    simp [get]
  · rw [Function.update_of_ne (Ne.symm hj)]
    simp [get, hj]

theorem insert_eq_none_iff (e : α) : s.insert e = none ↔ s.get (key e) ≠ none := by
  unfold insert
  split_ifs with h
  · obtain ⟨d, hd, hkey⟩ := List.mem_map.1 h
    have hget : s.get (key e) = some d := s.get_eq_some_iff.2 ⟨hd, hkey⟩
    simp [hget]
  · simp only [false_iff, not_not, get_eq_none_iff]
    exact fun d hd heq => h (List.mem_map.2 ⟨d, hd, heq⟩)

/-! ## Counting -/

theorem length_erase (he : e ∈ s.entries) : (s.erase (key e)).entries.length + 1 = s.entries.length := by
  have hsplit := List.length_eq_length_filter_add (l := s.entries) (fun d => decide (key d = key e))
  have hone : s.entries.filter (fun d => key d = key e) = [e] := by
    have hnodup : (s.entries.filter fun d => key d = key e).Nodup := (s.distinct.of_map).filter _
    refine List.perm_singleton.1 ((List.perm_ext_iff_of_nodup hnodup (List.nodup_singleton e)).2 ?_)
    intro d
    simp only [List.mem_filter, decide_eq_true_eq, List.mem_singleton]
    constructor
    · rintro ⟨hd, hkey⟩
      exact s.eq_of_key_eq hd he hkey
    · rintro rfl
      exact ⟨he, rfl⟩
  rw [hone] at hsplit
  simp only [erase, ne_eq, decide_not]
  simp only [List.length_singleton] at hsplit
  omega

theorem erase_of_get_eq_none (h : s.get k = none) : (s.erase k).entries = s.entries := by
  rw [get_eq_none_iff] at h
  exact List.filter_eq_self.2 (by simpa using h)

theorem length_put_of_get_eq_none (h : s.get (key e) = none) :
    (s.put e).entries.length = s.entries.length + 1 := by
  simp [put, erase_of_get_eq_none h]

theorem length_put_of_get_eq_some (h : s.get (key e) = some d) :
    (s.put e).entries.length = s.entries.length := by
  obtain ⟨hd, hkey⟩ := s.get_eq_some_iff.1 h
  simpa [put, hkey] using length_erase hd

end KeyedStore
