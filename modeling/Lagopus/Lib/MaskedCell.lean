import Mathlib.Tactic

/-!
# Masked cells

A *masked cell* is a pair of words, a mask and a value, that admits a word `x` when
`x &&& mask = value`. Cells are built by writes, each of which keeps some of the bits already
there and adds its own: this is how a set of field constraints is compiled into one word.

* `Cell.admits_of_run`: a write that no later write disturbs is enforced by the finished cell;
* `Cell.run_admits_iff`: when no write disturbs an earlier one, the finished cell admits exactly
  the words that every write admits;
* `Cell.admits_xor`: a cell does not see a change outside its mask;
* `Cell.not_mask_run`: a bit that some write erases and no later write sets is not in the
  finished mask;
* `Cell.exists_admits`, `Cell.not_admits_of_stuck`: a finished cell admits a word as long as no value
  bit is left behind outside the mask, and none once one is.
-/

namespace MaskedCell

open BitVec

variable {w : Nat}

/-- `a` has only bits that `b` has. -/
def Within (a b : BitVec w) : Prop := ∀ i, a.getLsbD i = true → b.getLsbD i = true

theorem within_iff_and_eq {a b : BitVec w} : Within a b ↔ a &&& b = a := by
  constructor
  · intro h
    apply eq_of_getLsbD_eq
    intro i _
    have hi := h i
    rw [getLsbD_and]
    cases ha : a.getLsbD i <;> simp_all
  · intro h i hi
    rw [← h, getLsbD_and] at hi
    simp_all

instance (a b : BitVec w) : Decidable (Within a b) :=
  decidable_of_iff _ within_iff_and_eq.symm

theorem and_eq_iff {x m v : BitVec w} : x &&& m = v ↔
      Within v m ∧ ∀ i, m.getLsbD i = true → x.getLsbD i = v.getLsbD i := by
  constructor
  · rintro rfl
    refine ⟨fun i hi => ?_, fun i hi => ?_⟩
    · rw [getLsbD_and, Bool.and_eq_true] at hi
      exact hi.2
    · rw [getLsbD_and, hi, Bool.and_true]
  · rintro ⟨hv, hx⟩
    apply eq_of_getLsbD_eq
    intro i _
    rw [getLsbD_and]
    cases hm : m.getLsbD i with
    | true => rw [Bool.and_true, hx i hm]
    | false =>
      cases hvi : v.getLsbD i with
      | false => simp
      | true => rw [hv i hvi] at hm; cases hm

/-- Equality of bytes, bit by bit: turns masks and shifts by constants into Boolean facts. -/
theorem byte_eq_iff (x y : BitVec 8) : x = y ↔
      x.getLsbD 0 = y.getLsbD 0 ∧ x.getLsbD 1 = y.getLsbD 1 ∧ x.getLsbD 2 = y.getLsbD 2 ∧
        x.getLsbD 3 = y.getLsbD 3 ∧ x.getLsbD 4 = y.getLsbD 4 ∧ x.getLsbD 5 = y.getLsbD 5 ∧
        x.getLsbD 6 = y.getLsbD 6 ∧ x.getLsbD 7 = y.getLsbD 7 := by
  constructor
  · rintro rfl
    simp
  · rintro ⟨h0, h1, h2, h3, h4, h5, h6, h7⟩
    apply eq_of_getLsbD_eq
    intro i hi
    interval_cases i <;> assumption

@[simp] theorem and_ff (x : BitVec 8) : x &&& 255#8 = x := and_allOnes

/-! ## Writes -/

/-- One write: the bits it keeps and the bits it adds, for the mask and for the value. -/
structure Write (w : Nat) where
  /-- Bits of the old mask that stay. -/
  keepMask : BitVec w
  /-- Bits added to the mask. -/
  mask : BitVec w
  /-- Bits of the old value that stay. -/
  keepValue : BitVec w
  /-- Bits added to the value. -/
  value : BitVec w

/-- The comparison a write asks for on its own. -/
def Write.Admits (u : Write w) (x : BitVec w) : Prop := x &&& u.mask = u.value

instance (u : Write w) (x : BitVec w) : Decidable (u.Admits x) :=
  inferInstanceAs (Decidable (_ = _))

/-- A write replaces the value bits under its own mask and sets no others. -/
structure Write.Sound (u : Write w) : Prop where
  value_within : Within u.value u.mask
  clears : ∀ i, u.mask.getLsbD i = true → u.keepValue.getLsbD i = false

/-- The later write `u'` leaves alone what `u` wrote. -/
structure Write.Spares (u' u : Write w) : Prop where
  mask : Within u.mask u'.keepMask
  keep : Within u.mask u'.keepValue
  value : ∀ i, u.mask.getLsbD i = true → u'.value.getLsbD i = false
  apart : ∀ i, u.mask.getLsbD i = true → u'.mask.getLsbD i = false

/-- The later write `u'` keeps no value bit of `u` whose mask bit it drops. -/
def Write.Carries (u' u : Write w) : Prop :=
  ∀ i, u.value.getLsbD i = true → u'.keepValue.getLsbD i = true → u'.keepMask.getLsbD i = true

/-- A mask and a value. -/
structure Cell (w : Nat) where
  mask : BitVec w
  value : BitVec w

namespace Cell

/-- The empty cell, which admits every word. -/
def empty : Cell w := ⟨0, 0⟩

/-- One write. -/
def write (c : Cell w) (u : Write w) : Cell w :=
  ⟨(c.mask &&& u.keepMask) ||| u.mask, (c.value &&& u.keepValue) ||| u.value⟩

/-- A run of writes. -/
def run (c : Cell w) (us : List (Write w)) : Cell w := us.foldl write c

/-- The words the cell admits. -/
def Admits (c : Cell w) (x : BitVec w) : Prop := x &&& c.mask = c.value

instance (c : Cell w) (x : BitVec w) : Decidable (c.Admits x) :=
  inferInstanceAs (Decidable (_ = _))

variable (c : Cell w)

@[simp] theorem run_nil : c.run [] = c := rfl

@[simp] theorem run_cons (u : Write w) (us : List (Write w)) : c.run (u :: us) = (c.write u).run us := rfl

theorem run_append (us vs : List (Write w)) : c.run (us ++ vs) = (c.run us).run vs := List.foldl_append

theorem write_mask_bit (u : Write w) (i : Nat) :
    (c.write u).mask.getLsbD i = (c.mask.getLsbD i && u.keepMask.getLsbD i || u.mask.getLsbD i) := by
  simp [write]

theorem write_value_bit (u : Write w) (i : Nat) : (c.write u).value.getLsbD i =
      (c.value.getLsbD i && u.keepValue.getLsbD i || u.value.getLsbD i) := by
  simp [write]

variable {u : Write w} {i : Nat}

theorem run_bit_of_spares (hi : u.mask.getLsbD i = true) :
    ∀ (post : List (Write w)) (c : Cell w), (∀ u' ∈ post, u'.Spares u) →
      c.mask.getLsbD i = true →
      (c.run post).mask.getLsbD i = true ∧ (c.run post).value.getLsbD i = c.value.getLsbD i
  | [], _, _, hc => ⟨hc, rfl⟩
  | u' :: post, c, hs, hc => by
    have hu' := hs u' List.mem_cons_self
    have hstep := run_bit_of_spares hi post (c.write u') (fun v hv => hs v (List.mem_cons_of_mem _ hv))
      (by rw [write_mask_bit, hc, hu'.mask i hi]; rfl)
    refine ⟨hstep.1, hstep.2.trans ?_⟩
    rw [write_value_bit, hu'.keep i hi, hu'.value i hi, Bool.and_true, Bool.or_false]

variable {pre post : List (Write w)} {c : Cell w}

/-- **A write that no later write disturbs is enforced by the finished cell.** -/
theorem admits_of_run {x : BitVec w} (hu : u.Sound) (hs : ∀ u' ∈ post, u'.Spares u)
    (h : (c.run (pre ++ u :: post)).Admits x) : u.Admits x := by
  rw [run_append, run_cons] at h
  set c' := (c.run pre).write u with hc'
  obtain ⟨-, hx⟩ := and_eq_iff.mp h
  refine and_eq_iff.mpr ⟨hu.value_within, fun i hi => ?_⟩
  have hmask : c'.mask.getLsbD i = true := by rw [hc', write_mask_bit, hi, Bool.or_true]
  obtain ⟨hm, hv⟩ := run_bit_of_spares hi post c' hs hmask
  rw [hx i hm, hv, hc', write_value_bit, hu.clears i hi, Bool.and_false, Bool.false_or]

theorem exists_of_run_mask : ∀ (us : List (Write w)) (c : Cell w), (c.run us).mask.getLsbD i = true →
      c.mask.getLsbD i = true ∨ ∃ u ∈ us, u.mask.getLsbD i = true
  | [], _, h => .inl h
  | u :: us, c, h => by
    rcases exists_of_run_mask us (c.write u) h with h' | ⟨v, hv, hvi⟩
    · rw [write_mask_bit, Bool.or_eq_true, Bool.and_eq_true] at h'
      rcases h' with h' | h'
      · exact .inl h'.1
      · exact .inr ⟨u, List.mem_cons_self, h'⟩
    · exact .inr ⟨v, List.mem_cons_of_mem _ hv, hvi⟩

/-- Every value bit of a finished cell was written by some write, or was there before. -/
theorem exists_of_run_value : ∀ (us : List (Write w)) (c : Cell w), (c.run us).value.getLsbD i = true →
      c.value.getLsbD i = true ∨ ∃ u ∈ us, u.value.getLsbD i = true
  | [], _, h => .inl h
  | u :: us, c, h => by
    rcases exists_of_run_value us (c.write u) h with h' | ⟨v, hv, hvi⟩
    · rw [write_value_bit, Bool.or_eq_true, Bool.and_eq_true] at h'
      rcases h' with h' | h'
      · exact .inl h'.1
      · exact .inr ⟨u, List.mem_cons_self, h'⟩
    · exact .inr ⟨v, List.mem_cons_of_mem _ hv, hvi⟩

/-- The finished cell holds, under the mask of an undisturbed write, the value of that write. -/
theorem run_value_bit (hu : u.Sound) (hs : ∀ u' ∈ post, u'.Spares u) (hi : u.mask.getLsbD i = true) :
    (c.run (pre ++ u :: post)).mask.getLsbD i = true ∧
      (c.run (pre ++ u :: post)).value.getLsbD i = u.value.getLsbD i := by
  rw [run_append, run_cons]
  obtain ⟨hm, hv⟩ := run_bit_of_spares hi post ((c.run pre).write u) hs
    (by rw [write_mask_bit, hi, Bool.or_true])
  refine ⟨hm, hv.trans ?_⟩
  rw [write_value_bit, hu.clears i hi, Bool.and_false, Bool.false_or]

/-- **Undisturbed writes combine exactly**: the finished cell admits the words that every write
admits, and no others. -/
theorem run_admits_iff {us : List (Write w)} (hsound : ∀ u ∈ us, u.Sound)
    (hsp : us.Pairwise fun u u' => u'.Spares u) (x : BitVec w) :
    (empty.run us).Admits x ↔ ∀ u ∈ us, u.Admits x := by
  have split : ∀ u ∈ us, ∃ pre post, us = pre ++ u :: post ∧ ∀ u' ∈ post, u'.Spares u := by
    intro u hu
    obtain ⟨pre, post, rfl⟩ := List.append_of_mem hu
    exact ⟨pre, post, rfl, (List.pairwise_cons.mp (List.pairwise_append.mp hsp).2.1).1⟩
  constructor
  · intro h u hu
    obtain ⟨pre, post, hus, hs⟩ := split u hu
    rw [hus] at h
    exact admits_of_run (hsound u hu) hs h
  · intro h
    refine and_eq_iff.mpr ⟨fun i hi => ?_, fun i hi => ?_⟩
    · -- a value bit comes from a write, whose mask has it too
      rcases exists_of_run_value us empty hi with h0 | ⟨u, hu, hui⟩
      · simp [empty] at h0
      · obtain ⟨pre, post, hus, hs⟩ := split u hu
        rw [hus]
        exact (run_value_bit (hsound u hu) hs ((hsound u hu).value_within i hui)).1
    · rcases exists_of_run_mask us empty hi with h0 | ⟨u, hu, hui⟩
      · simp [empty] at h0
      · obtain ⟨pre, post, hus, hs⟩ := split u hu
        rw [hus, (run_value_bit (hsound u hu) hs hui).2]
        exact (and_eq_iff.mp (h u hu)).2 i hui

theorem admits_xor {x y : BitVec w}
    (h : ∀ i, y.getLsbD i = true → c.mask.getLsbD i = false) (hx : c.Admits x) : c.Admits (x ^^^ y) := by
  unfold Admits at hx ⊢
  rw [← hx]
  apply eq_of_getLsbD_eq
  intro i _
  have hi := h i
  rw [getLsbD_and, getLsbD_and, getLsbD_xor]
  cases hy : y.getLsbD i <;> simp_all

/-- **An erased bit stays erased** unless a later write sets it again. -/
theorem not_mask_run (hkeep : u.keepMask.getLsbD i = false) (hmask : u.mask.getLsbD i = false)
    (hpost : ∀ u' ∈ post, u'.mask.getLsbD i = false) :
    (c.run (pre ++ u :: post)).mask.getLsbD i = false := by
  rw [run_append, run_cons, Bool.eq_false_iff]
  intro h
  rcases exists_of_run_mask post _ h with h' | ⟨v, hv, hvi⟩
  · rw [write_mask_bit, hkeep, hmask, Bool.and_false, Bool.or_false] at h'
    cases h'
  · rw [hpost v hv] at hvi
    cases hvi

/-! ## Values outside the mask -/

theorem value_within_mask {us : List (Write w)} (hsound : ∀ u ∈ us, u.Sound)
    (hc : us.Pairwise fun u u' => u'.Carries u) :
    Within (empty.run us).value (empty.run us).mask := by
  induction us using List.reverseRecOn with
  | nil => exact fun i hi => hi
  | append_singleton us u ih =>
    obtain ⟨hus, -, hlast⟩ := List.pairwise_append.mp hc
    have hin := ih (fun v hv => hsound v (by simp [hv])) hus
    intro i hi
    rw [run_append, run_cons, run_nil, write_value_bit, Bool.or_eq_true, Bool.and_eq_true] at hi
    rw [run_append, run_cons, run_nil, write_mask_bit, Bool.or_eq_true, Bool.and_eq_true]
    rcases hi with ⟨hval, hkeep⟩ | hval
    · -- the bit is an earlier write's, which `u` carries along
      rcases exists_of_run_value us empty hval with h0 | ⟨v, hv, hvi⟩
      · simp [empty] at h0
      · exact .inl ⟨hin i hval, hlast v hv u (by simp) i hvi hkeep⟩
    · exact .inr ((hsound u (by simp)).value_within i hval)

/-- **A cell whose writes carry the values before them admits a word.** -/
theorem exists_admits {us : List (Write w)} (hsound : ∀ u ∈ us, u.Sound)
    (hc : us.Pairwise fun u u' => u'.Carries u) : (empty.run us).Admits (empty.run us).value :=
  within_iff_and_eq.mp (value_within_mask hsound hc)

theorem run_value_of_kept : ∀ (us : List (Write w)) (c : Cell w), c.value.getLsbD i = true →
      (∀ u ∈ us, u.keepValue.getLsbD i = true) → (c.run us).value.getLsbD i = true
  | [], _, hc, _ => hc
  | u :: us, c, hc, hk => by
    refine run_value_of_kept us (c.write u) ?_ fun v hv => hk v (List.mem_cons_of_mem _ hv)
    rw [write_value_bit, hc, hk u List.mem_cons_self]
    rfl

/-- **A value bit left behind outside the mask** makes the finished cell admit no word. -/
theorem not_admits_of_stuck {mid : List (Write w)} {u' : Write w} (hu : u.value.getLsbD i = true)
    (hmid : ∀ v ∈ mid, v.keepValue.getLsbD i = true) (hu' : u'.Sound)
    (hkeep : u'.keepValue.getLsbD i = true) (hdrop : u'.keepMask.getLsbD i = false)
    (hpost : ∀ v ∈ post, v.keepValue.getLsbD i = true ∧ v.mask.getLsbD i = false) (x : BitVec w) :
    ¬ (c.run ((pre ++ u :: mid) ++ u' :: post)).Admits x := by
  intro h
  have hmask : u'.mask.getLsbD i = false := by
    by_contra hm
    rw [hu'.clears i (by simpa using hm)] at hkeep
    cases hkeep
  have hout : (c.run ((pre ++ u :: mid) ++ u' :: post)).mask.getLsbD i = false :=
    not_mask_run hdrop hmask fun v hv => (hpost v hv).2
  have hin : (c.run ((pre ++ u :: mid) ++ u' :: post)).value.getLsbD i = true := by
    rw [List.append_assoc, run_append, List.cons_append, run_cons]
    refine run_value_of_kept _ _ (by rw [write_value_bit, hu, Bool.or_true]) fun v hv => ?_
    rcases List.mem_append.mp hv with hv | hv
    · exact hmid v hv
    · rcases List.mem_cons.mp hv with rfl | hv
      · exact hkeep
      · exact (hpost v hv).1
  rw [(and_eq_iff.mp h).1 i hin] at hout
  cases hout

end Cell

end MaskedCell
