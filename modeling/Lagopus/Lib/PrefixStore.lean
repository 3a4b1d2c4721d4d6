import Lagopus.Lib.KeyedStore
import Mathlib.Data.List.MinMax

/-!
# Stores of prefixes

A network of `w`-bit addresses is a base address and the number of leading bits
that count.  A store with one element for each network is searched for the element
of the longest network that contains an address.

* `longest_eq_some_iff` is the longest match among the elements accepted;
* `longest_exact` says that a search restricted to one length is the map itself.
-/

/-- A network: the leading `len` bits of `base` count, the others are zero. -/
structure Net (w : Nat) where
  base : BitVec w
  len : Fin (w + 1)
  deriving DecidableEq, Repr

namespace Net

variable {w : Nat}

/-- The network of a given length around an address. -/
def of (addr : BitVec w) (len : Fin (w + 1)) : Net w :=
  ⟨(addr >>> (w - len.val)) <<< (w - len.val), len⟩

def Contains (n : Net w) (addr : BitVec w) : Prop := Net.of addr n.len = n

instance (n : Net w) (addr : BitVec w) : Decidable (n.Contains addr) :=
  inferInstanceAs (Decidable (Net.of addr n.len = n))

theorem Contains.eq_of_len {n m : Net w} {addr : BitVec w} (hn : n.Contains addr)
    (hm : m.Contains addr) (hlen : n.len = m.len) : n = m := by
  rw [← hn, hlen]
  exact hm

theorem contains_of_iff {n : Net w} {addr : BitVec w} {len : Fin (w + 1)} (hlen : n.len = len) :
    n.Contains addr ↔ n = Net.of addr len := by
  subst hlen
  exact eq_comm

end Net

namespace KeyedStore

variable {w : Nat} {α : Type} {net : α → Net w}

/-- The longest network that contains the address, among the elements accepted. -/
def longest (s : KeyedStore net) (accept : α → Bool) (addr : BitVec w) : Option α :=
  (s.entries.filter fun e => (net e).Contains addr ∧ accept e = true).argmax fun e => (net e).len

variable {accept : α → Bool} (s : KeyedStore net)

theorem longest_eq_some_iff {addr : BitVec w} {e : α} : s.longest accept addr = some e ↔
      (e ∈ s.entries ∧ (net e).Contains addr ∧ accept e = true) ∧
        ∀ d ∈ s.entries, (net d).Contains addr → accept d = true → (net d).len ≤ (net e).len := by
  constructor
  · intro h
    have hmem := List.argmax_mem (Option.mem_def.2 h)
    refine ⟨by simpa using hmem, fun d hd hcontains haccept => ?_⟩
    exact List.le_of_mem_argmax (f := fun e => (net e).len) (List.mem_filter.2 ⟨hd, by simp [hcontains, haccept]⟩)
      (Option.mem_def.2 h)
  · rintro ⟨⟨he, hcontains, haccept⟩, hmax⟩
    cases hfind : s.longest accept addr with
    | none =>
      have hnil := List.argmax_eq_none.1 hfind
      have hmem : e ∈ s.entries.filter fun e => (net e).Contains addr ∧ accept e = true :=
        List.mem_filter.2 ⟨he, by simp [hcontains, haccept]⟩
      rw [hnil] at hmem
      exact absurd hmem List.not_mem_nil
    | some d =>
      have hd := List.argmax_mem (Option.mem_def.2 hfind)
      obtain ⟨hin, hd⟩ := List.mem_filter.1 hd
      simp only [decide_eq_true_eq] at hd
      have hle : (net e).len ≤ (net d).len :=
        List.le_of_mem_argmax (f := fun e => (net e).len) (List.mem_filter.2 ⟨he, by simp [hcontains, haccept]⟩)
          (Option.mem_def.2 hfind)
      have hlen := le_antisymm (hmax d hin hd.1 hd.2) hle
      rw [s.eq_of_key_eq hin he (hd.1.eq_of_len hcontains hlen)]

theorem longest_eq_none_iff {addr : BitVec w} : s.longest accept addr = none ↔
      ∀ e ∈ s.entries, (net e).Contains addr → accept e = false := by
  unfold longest
  rw [List.argmax_eq_none, List.filter_eq_nil_iff]
  simp

theorem longest_exact (addr : BitVec w) (len : Fin (w + 1)) :
    s.longest (fun e => (net e).len = len) addr = s.get (Net.of addr len) := by
  ext e
  rw [longest_eq_some_iff, get_eq_some_iff]
  constructor
  · rintro ⟨⟨he, hcontains, hlen⟩, -⟩
    exact ⟨he, (Net.contains_of_iff (by simpa using hlen)).1 hcontains⟩
  · rintro ⟨he, hnet⟩
    have hlen : (net e).len = len := by rw [hnet]; rfl
    refine ⟨⟨he, (Net.contains_of_iff hlen).2 hnet, by simpa using hlen⟩, ?_⟩
    intro d hd hcontains haccept
    rw [hlen]
    exact (by simpa using haccept : (net d).len = len).le

end KeyedStore
