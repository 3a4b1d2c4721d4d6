import Mathlib.Tactic

/-!
# Queues whose first item is partially written

Items are written from the front of a queue, in pieces that need not end where an item ends.

* `started`: what has been written of the first item;
* `Advances`: some more has been written, which finished some items and perhaps started another;
* `Advances.trans`: pieces written one after the other;
* `not_prefix_of_interrupted`: an item that is not written to its end before something else is, is not
  in one piece anywhere.
-/

namespace PartialQueue

open List

variable {α β : Type*}

/-- An item, and how much of it has been written. -/
structure Entry (α : Type*) where
  item : α
  offset : Nat
  deriving DecidableEq, Repr

variable (content : α → List β)

/-- What is still to be written of an item. -/
def Entry.left (e : Entry α) : List β := (content e.item).drop e.offset

/-- What has been written of the first item. -/
def started : List (Entry α) → List β
  | [] => []
  | e :: _ => (content e.item).take e.offset

/-- Only the first item has been started, and not to its end. -/
def WellFormed : List (Entry α) → Prop
  | [] => True
  | e :: l => (e.offset = 0 ∨ e.offset < (content e.item).length) ∧ ∀ d ∈ l, d.offset = 0

/-- Writing `x` has finished the items `fin` and left `l'`. -/
structure Advances (l : List (Entry α)) (x : List β) (fin : List α)
    (l' : List (Entry α)) : Prop where
  items : l.map Entry.item = fin ++ l'.map Entry.item
  bytes : started content l ++ x = fin.flatMap content ++ started content l'
  wellFormed : WellFormed content l'

variable {content : α → List β} {l l' l'' : List (Entry α)} {x y : List β} {fin fin' : List α}

theorem wellFormed_of_fresh (h : ∀ e ∈ l, e.offset = 0) : WellFormed content l := by
  cases l with
  | nil => trivial
  | cons e l => exact ⟨.inl (h e mem_cons_self), fun d hd => h d (mem_cons_of_mem _ hd)⟩

theorem started_of_fresh (h : ∀ e ∈ l, e.offset = 0) : started content l = [] := by
  cases l with
  | nil => rfl
  | cons e l => rw [started, h e mem_cons_self, take_zero]

theorem WellFormed.append (h : WellFormed content l) (item : α) :
    WellFormed content (l ++ [⟨item, 0⟩]) := by
  cases l with
  | nil => exact ⟨.inl rfl, by simp⟩
  | cons e l =>
    exact ⟨h.1, forall_mem_append.2 ⟨h.2, forall_mem_singleton.2 rfl⟩⟩

theorem started_append (h : WellFormed content l) (item : α) :
    started content (l ++ [⟨item, 0⟩]) = started content l := by
  cases l with
  | nil => simp [started]
  | cons e l => rfl

theorem prefix_started (l : List (Entry α)) : started content l <+: (l.map Entry.item).flatMap content := by
  cases l with
  | nil => exact nil_prefix
  | cons e l =>
    rw [map_cons, flatMap_cons]
    exact (List.take_prefix _ _).trans (prefix_append _ _)

namespace Advances

theorem refl (h : WellFormed content l) : Advances content l [] [] l := ⟨rfl, by simp, h⟩

theorem trans (h : Advances content l x fin l') (h' : Advances content l' y fin' l'') :
    Advances content l (x ++ y) (fin ++ fin') l'' where
  items := by rw [h.items, h'.items, append_assoc]
  bytes := by
    rw [← append_assoc, h.bytes, append_assoc, h'.bytes, flatMap_append, append_assoc]
  wellFormed := h'.wellFormed

theorem write {e : Entry α} (h : WellFormed content (e :: l)) {n : Nat} (hn : n ≤ (e.left content).length) :
    if e.offset + n = (content e.item).length then
      Advances content (e :: l) ((e.left content).take n) [e.item] l
    else
      Advances content (e :: l) ((e.left content).take n) [] (⟨e.item, e.offset + n⟩ :: l) := by
  obtain ⟨hfirst, hfresh⟩ := h
  have hoff : e.offset ≤ (content e.item).length := by omega
  rw [Entry.left, length_drop] at hn
  have htake : (content e.item).take e.offset ++ (e.left content).take n =
      (content e.item).take (e.offset + n) := by
    rw [Entry.left, take_add]
  split_ifs with hend
  · refine ⟨rfl, ?_, wellFormed_of_fresh hfresh⟩
    rw [started, htake, hend, take_length, started_of_fresh hfresh]
    simp
  · refine ⟨rfl, htake, .inr ?_, hfresh⟩
    dsimp only
    omega

end Advances

/-- An item of which only a part has been written cannot be followed by something else. -/
theorem not_prefix_of_interrupted {owner : β → α} (howner : ∀ a, ∀ b ∈ content a, owner b = a)
    {items : List α} {a : α} {n : Nat} (hn : 0 < n) (hlt : n < (content a).length) {pre post : List β}
    (hpre : ∀ b ∈ pre, owner b ≠ a) {b : β} (hb : owner b ≠ a) :
    ¬ pre ++ (content a).take n ++ b :: post <+: items.flatMap content := by
  induction items generalizing pre with
  | nil => simp
  | cons i items ih =>
    rintro ⟨tail, h⟩
    rw [flatMap_cons, append_assoc, append_assoc] at h
    rcases append_eq_append_iff.1 h with ⟨q, hq, htail⟩ | ⟨pre', rfl, htail⟩
    · cases q with
      | nil =>
        refine @ih [] (by simp) ⟨tail, ?_⟩
        rw [nil_append, append_assoc]
        exact htail
      | cons c q =>
        -- the first item has the beginning of the interrupted one, so it is that one
        have hc : c ∈ content a := by
          have hpos : 0 < ((content a).take n).length := by
            rw [length_take]
            omega
          obtain ⟨c', rest, htake⟩ := exists_cons_of_length_pos hpos
          rw [htake] at htail
          obtain rfl := (List.cons.inj htail).1
          exact mem_of_mem_take (by rw [htake]; exact mem_cons_self)
        obtain rfl : i = a := by
          rw [← howner a c hc, howner i c (by rw [hq]; simp)]
        obtain rfl : pre = [] := by
          apply eq_nil_iff_forall_not_mem.2
          intro d hd
          exact hpre d hd (howner i d (by rw [hq]; exact mem_append_left _ hd))
        -- and it goes on where the other comes
        rw [nil_append] at hq
        rw [← hq] at htail
        have hrest : b :: post ++ tail = (content i).drop n ++ items.flatMap content := by
          apply @List.append_cancel_left _ ((content i).take n)
          rw [htail, ← append_assoc, take_append_drop]
        have hdrop : 0 < ((content i).drop n).length := by
          rw [length_drop]
          omega
        obtain ⟨d, ds, hd⟩ := exists_cons_of_length_pos hdrop
        rw [hd] at hrest
        obtain rfl := (List.cons.inj hrest).1
        exact hb (howner i b (mem_of_mem_drop (by rw [hd]; exact mem_cons_self)))
    · refine ih (fun c hc => hpre c (mem_append_right _ hc)) ⟨tail, ?_⟩
      rw [append_assoc, append_assoc]
      exact htail.symm

end PartialQueue
