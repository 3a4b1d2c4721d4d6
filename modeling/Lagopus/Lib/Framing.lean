import Mathlib.Tactic

/-!
# Cutting a stream into frames

A stream consists of frames, each of which announces its own length near its beginning.  How much of a
stream is there does not matter to the frames that are complete.

* `Splits`: a received prefix is a list of frames and an incomplete rest;
* `Undersized`: after some frames comes one that announces less than its own header;
* `Splits.unique`, `splits_iff_not_undersized`: a prefix has one split at most, and one unless it is
  undersized;
* `Splits.append`, `Splits.undersized_append`: more of the stream only concerns the rest.
-/

namespace Framing

variable {α : Type*}

/-- How the beginning of a stream announces the length of its first frame. -/
structure Header (α : Type*) where
  /-- The length of a header. -/
  least : Nat
  least_pos : 0 < least
  /-- The announced length, once the header is there. -/
  announced : List α → Option Nat
  isSome_iff : ∀ l, (announced l).isSome ↔ least ≤ l.length
  announced_append : ∀ {l : List α} {k : Nat} (m : List α),
    announced l = some k → announced (l ++ m) = some k

variable {H : Header α} {l m rest rest' : List α} {ms ms' : List (List α)} {k : Nat}

/-- No complete frame is there yet. -/
def Incomplete (H : Header α) (l : List α) : Prop := ∀ k, H.announced l = some k → l.length < k

/-- `l` is the frames `ms` and the incomplete `rest`. -/
inductive Splits (H : Header α) : List α → List (List α) → List α → Prop
  | rest {l : List α} : Incomplete H l → Splits H l [] l
  | frame {l rest : List α} {ms : List (List α)} {k : Nat} : H.announced l = some k →
      H.least ≤ k → k ≤ l.length → Splits H (l.drop k) ms rest → Splits H l (l.take k :: ms) rest

/-- After some frames comes one that announces less than its header. -/
inductive Undersized (H : Header α) : List α → Prop
  | here {l : List α} {k : Nat} : H.announced l = some k → k < H.least → Undersized H l
  | later {l : List α} {k : Nat} : H.announced l = some k → H.least ≤ k → k ≤ l.length →
      Undersized H (l.drop k) → Undersized H l

theorem Header.least_le (h : H.announced l = some k) : H.least ≤ l.length :=
  (H.isSome_iff l).1 (by simp [h])

namespace Splits

variable (h : Splits H l ms rest)

include h

theorem unique (h' : Splits H l ms' rest') : ms = ms' ∧ rest = rest' := by
  induction h generalizing ms' rest' with
  | rest hinc =>
    cases h' with
    | rest _ => exact ⟨rfl, rfl⟩
    | frame hk _ hlen _ => exact absurd hlen (not_le.2 (hinc _ hk))
  | frame hk _ hlen _ ih =>
    cases h' with
    | rest hinc => exact absurd hlen (not_le.2 (hinc _ hk))
    | frame hk' _ _ h' =>
      cases hk.symm.trans hk'
      obtain ⟨rfl, rfl⟩ := ih h'
      exact ⟨rfl, rfl⟩

theorem incomplete : Incomplete H rest := by
  induction h with
  | rest hinc => exact hinc
  | frame _ _ _ _ ih => exact ih

theorem append (h' : Splits H (rest ++ m) ms' rest') : Splits H (l ++ m) (ms ++ ms') rest' := by
  induction h with
  | rest _ => exact h'
  | frame hk hleast hlen _ ih =>
    have hframe := frame (H.announced_append m hk) hleast
      (hlen.trans (by rw [List.length_append]; exact Nat.le_add_right _ _))
      (by rw [List.drop_append_of_le_length hlen]; exact ih h')
    rwa [List.take_append_of_le_length hlen] at hframe

theorem not_undersized : ¬ Undersized H l := by
  induction h with
  | rest hinc =>
    intro hu
    cases hu with
    | here hk hlt => exact absurd (H.least_le hk) (not_le.2 ((hinc _ hk).trans hlt))
    | later hk _ hlen _ => exact absurd hlen (not_le.2 (hinc _ hk))
  | frame hk hleast hlen _ ih =>
    intro hu
    cases hu with
    | here hk' hlt =>
      cases hk.symm.trans hk'
      exact absurd hleast (not_le.2 hlt)
    | later hk' _ _ hu =>
      cases hk.symm.trans hk'
      exact ih hu

theorem undersized_append (m : List α) : Undersized H (l ++ m) ↔ Undersized H (rest ++ m) := by
  induction h with
  | rest _ => exact Iff.rfl
  | @frame l rest ms k hk hleast hlen _ ih =>
    have hk' := H.announced_append m hk
    have hdrop : (l ++ m).drop k = l.drop k ++ m := List.drop_append_of_le_length hlen
    have hlen' : k ≤ (l ++ m).length := by
      rw [List.length_append]
      exact hlen.trans (Nat.le_add_right _ _)
    rw [← ih, ← hdrop]
    constructor
    · intro hu
      cases hu with
      | here hk'' hlt =>
        cases hk'.symm.trans hk''
        exact absurd hleast (not_le.2 hlt)
      | later hk'' _ _ hu =>
        cases hk'.symm.trans hk''
        exact hu
    · exact Undersized.later hk' hleast hlen'

end Splits

theorem Undersized.append (h : Undersized H l) (m : List α) : Undersized H (l ++ m) := by
  induction h with
  | here hk hlt => exact here (H.announced_append m hk) hlt
  | later hk hleast hlen _ ih =>
    refine later (H.announced_append m hk) hleast ?_ ?_
    · rw [List.length_append]
      exact hlen.trans (Nat.le_add_right _ _)
    · rw [List.drop_append_of_le_length hlen]
      exact ih

theorem splits_iff_not_undersized : (∃ ms rest, Splits H l ms rest) ↔ ¬ Undersized H l := by
  refine ⟨fun ⟨ms, rest, h⟩ => h.not_undersized, ?_⟩
  -- on the length of the prefix: a frame takes at least a header of it
  induction hn : l.length using Nat.strong_induction_on generalizing l with
  | _ n ih =>
    intro hnot
    subst hn
    cases hk : H.announced l with
    | none => exact ⟨[], l, .rest (by intro k h; rw [hk] at h; cases h)⟩
    | some k =>
      by_cases hleast : H.least ≤ k
      · by_cases hlen : k ≤ l.length
        · have hpos : 0 < k := H.least_pos.trans_le hleast
          have hshort : (l.drop k).length < l.length := by
            rw [List.length_drop]
            omega
          obtain ⟨ms, rest, h⟩ := ih _ hshort rfl fun hu => hnot (.later hk hleast hlen hu)
          exact ⟨_, rest, .frame hk hleast hlen h⟩
        · refine ⟨[], l, .rest ?_⟩
          intro k' hk'
          cases hk.symm.trans hk'
          exact not_le.1 hlen
      · exact absurd (.here hk (not_le.1 hleast)) hnot

end Framing
