import Mathlib.Tactic

/-!
# Priority search

A search for a candidate of greatest priority, split over several places that are searched one
after the other with a running bound: each place reports only a candidate above the bound, and
what it reports raises the bound for the next one.

* `Best C b r`: `r` is the answer of a search among the candidates `C` above the bound `b`;
* `Best.union`: searching one place and then the next, the later answer winning, searches both;
* `Best.better`: searching two places apart and keeping the better answer searches both as well;
* `best_iff_linear`: below every priority, that is what a search through all candidates gives;
* `Best.superset_iff`: searching a part answers for the whole exactly when the part has, for every
  candidate, one of at least its priority;
* `Found`: a search that may also lose a candidate of the lowest priority `z`, because some place
  reports its answers against a sentinel of that priority (`Found.pick`). `Found.exact` says when
  nothing is lost.
-/

namespace PrioritySearch

variable {α : Type} {prio : α → Int}

/-- `r` answers a search among the candidates `C` for one of greatest priority above `b`. -/
def Best (prio : α → Int) (C : Set α) (b : Int) : Option α → Prop
  | none => ∀ x ∈ C, prio x ≤ b
  | some y => y ∈ C ∧ b < prio y ∧ ∀ x ∈ C, prio x ≤ prio y

/-- The bound after an answer. -/
def raise (prio : α → Int) (b : Int) : Option α → Int
  | none => b
  | some y => prio y

/-- The answer of higher priority, the first one on a tie. -/
def better (prio : α → Int) : Option α → Option α → Option α
  | r, none => r
  | none, some y => some y
  | some x, some y => if prio x < prio y then some y else some x

@[simp] theorem raise_none (b : Int) : raise prio b none = b := rfl

@[simp] theorem raise_some (b : Int) (y : α) : raise prio b (some y) = prio y := rfl

namespace Best

variable {C D : Set α} {b : Int} {r r' : Option α}

theorem empty (b : Int) : Best prio (∅ : Set α) b none := fun x hx => absurd hx (by simp)

theorem congr (h : ∀ x, x ∈ C ↔ x ∈ D) (hr : Best prio C b r) : Best prio D b r := by
  have : C = D := Set.ext h
  rwa [← this]

variable (h : Best prio C b r)

include h

theorem le_raise : b ≤ raise prio b r := by
  cases r with
  | none => exact le_rfl
  | some y => exact h.2.1.le

theorem le_of_mem {x : α} (hx : x ∈ C) : prio x ≤ raise prio b r := by
  cases r with
  | none => exact h x hx
  | some y => exact h.2.2 x hx

/-- **Two places, one after the other.** -/
theorem union (h' : Best prio D (raise prio b r) r') : Best prio (C ∪ D) b (r'.or r) := by
  cases r' with
  | some y =>
    obtain ⟨hy, hlt, hmax⟩ := h'
    refine ⟨.inr hy, lt_of_le_of_lt h.le_raise hlt, ?_⟩
    rintro x (hx | hx)
    · exact (h.le_of_mem hx).trans hlt.le
    · exact hmax x hx
  | none =>
    cases r with
    | none =>
      rintro x (hx | hx)
      · exact h x hx
      · exact h' x hx
    | some y =>
      obtain ⟨hy, hlt, hmax⟩ := h
      refine ⟨.inl hy, hlt, ?_⟩
      rintro x (hx | hx)
      · exact hmax x hx
      · exact h' x hx

omit h in
theorem raise_or (b : Int) (r r' : Option α) : raise prio b (r'.or r) = raise prio (raise prio b r) r' := by
  cases r' <;> rfl

/-- **Two places, searched from the same bound.** -/
theorem better (h' : Best prio D b r') : Best prio (C ∪ D) b (PrioritySearch.better prio r r') := by
  cases r' with
  | none =>
    have hD : ∀ x ∈ D, prio x ≤ raise prio b r := fun x hx => (h' x hx).trans h.le_raise
    cases r with
    | none => exact fun x hx => hx.elim (h x) (hD x)
    | some y => exact ⟨.inl h.1, h.2.1, fun x hx => hx.elim (h.2.2 x) (hD x)⟩
  | some z =>
    obtain ⟨hz, hlt, hmax⟩ := h'
    cases r with
    | none => exact ⟨.inr hz, hlt, fun x hx => hx.elim (fun hx => (h x hx).trans hlt.le) (hmax x)⟩
    | some y =>
      by_cases hyz : prio y < prio z
      · simp only [PrioritySearch.better, hyz, if_true]
        exact ⟨.inr hz, hlt, fun x hx => hx.elim (fun hx => (h.2.2 x hx).trans hyz.le) (hmax x)⟩
      · simp only [PrioritySearch.better, hyz, if_false]
        exact ⟨.inl h.1, h.2.1, fun x hx => hx.elim (h.2.2 x) fun hx => (hmax x hx).trans (not_lt.mp hyz)⟩

/-- **Searching a part of the candidates.** -/
theorem superset_iff (hsub : C ⊆ D) (hb : ∀ x ∈ D, b < prio x) :
    Best prio D b r ↔ ∀ x ∈ D, ∃ y ∈ C, prio x ≤ prio y := by
  cases r with
  | none =>
    constructor
    · intro h' x hx
      exact absurd (h' x hx) (not_le.mpr (hb x hx))
    · intro h' x hx
      obtain ⟨y, hy, -⟩ := h' x hx
      exact absurd (h y hy) (not_le.mpr (hb y (hsub hy)))
  | some w =>
    obtain ⟨hw, hlt, hmax⟩ := h
    constructor
    · exact fun h' x hx => ⟨w, hw, h'.2.2 x hx⟩
    · intro h'
      refine ⟨hsub hw, hlt, fun x hx => ?_⟩
      obtain ⟨y, hy, hle⟩ := h' x hx
      exact hle.trans (hmax y hy)

end Best

/-- **Below every priority, a search is a search through all candidates**: it fails exactly when
there is none, and otherwise answers one of greatest priority. -/
theorem best_iff_linear {C : Set α} {b : Int} {r : Option α} (hb : ∀ x ∈ C, b < prio x) : Best prio C b r ↔
      (r = none ↔ ∀ x, x ∉ C) ∧ ∀ y, r = some y → y ∈ C ∧ ∀ x ∈ C, prio x ≤ prio y := by
  cases r with
  | none =>
    simp only [true_iff, reduceCtorEq, false_implies, implies_true, and_true]
    constructor
    · exact fun h x hx => absurd (h x hx) (not_le.mpr (hb x hx))
    · exact fun h x hx => absurd hx (h x)
  | some y =>
    simp only [reduceCtorEq, false_iff, not_forall, not_not, Option.some.injEq, forall_eq']
    constructor
    · exact fun h => ⟨⟨y, h.1⟩, h.1, h.2.2⟩
    · exact fun h => ⟨h.2.1, hb y h.2.1, h.2.2⟩

/-! ## Searches with a sentinel -/

/-- The outcome of a search among `C` from the bound `b`: the answer `r` and the new bound `b'`.
Either it is right, or a candidate of priority `z` in a place marked `Lost` has been found and
dropped, and nothing in `C` is above it. -/
def Found (prio : α → Int) (z : Int) (Lost : α → Prop) (C : Set α) (b : Int) (r : Option α)
    (b' : Int) : Prop :=
  (Best prio C b r ∧ b' = raise prio b r) ∨
    (b < z ∧ r = none ∧ b' = z ∧ (∀ x ∈ C, prio x ≤ z) ∧ ∃ x ∈ C, prio x = z ∧ Lost x)

/-- The answer of highest priority so far, against a sentinel of priority `z`. -/
def pick (prio : α → Int) (z : Int) (acc r : Option α) : Option α :=
  match r with
  | none => acc
  | some y => if (acc.map prio).getD z < prio y then some y else acc

namespace Found

variable {z b b₁ b₂ : Int} {Lost : α → Prop} {C D : Set α} {r r' : Option α}

theorem of_best (h : Best prio C b r) : Found prio z Lost C b r (raise prio b r) := .inl ⟨h, rfl⟩

theorem empty (b : Int) : Found prio z Lost (∅ : Set α) b none b := of_best (Best.empty b)

theorem congr (h : ∀ x, x ∈ C ↔ x ∈ D) (hr : Found prio z Lost C b r b₁) : Found prio z Lost D b r b₁ := by
  have : C = D := Set.ext h
  rwa [← this]

/-- **Two places, one after the other.** -/
theorem union (hz : ∀ x, z ≤ prio x) (h : Found prio z Lost C b r b₁)
    (h' : Found prio z Lost D b₁ r' b₂) : Found prio z Lost (C ∪ D) b (r'.or r) b₂ := by
  rcases h with ⟨hbest, rfl⟩ | ⟨hb, rfl, rfl, hle, y, hy, hyz, hlost⟩
  · rcases h' with ⟨hbest', rfl⟩ | ⟨hb', rfl, rfl, hle', y, hy, hyz, hlost⟩
    · exact .inl ⟨hbest.union hbest', (Best.raise_or b r r').symm⟩
    · -- the first answer would have raised the bound to `z` or more
      have hall : ∀ x ∈ C ∪ D, prio x ≤ b₂ := by
        rintro x (hx | hx)
        · exact (hbest.le_of_mem hx).trans hb'.le
        · exact hle' x hx
      cases r with
      | none => exact .inr ⟨hb', rfl, rfl, hall, y, .inr hy, hyz, hlost⟩
      | some w => exact absurd hb' (not_lt.mpr (hz w))
  · rcases h' with ⟨hbest', rfl⟩ | ⟨hb', -⟩
    · cases r' with
      | none =>
        refine .inr ⟨hb, rfl, rfl, ?_, y, .inl hy, hyz, hlost⟩
        rintro x (hx | hx)
        · exact hle x hx
        · exact hbest' x hx
      | some w =>
        obtain ⟨hw, hlt, hmax⟩ := hbest'
        refine .inl ⟨⟨.inr hw, hb.trans hlt, ?_⟩, rfl⟩
        rintro x (hx | hx)
        · exact (hle x hx).trans hlt.le
        · exact hmax x hx
    · exact absurd hb' (lt_irrefl _)

/-- **A place that reports against the sentinel.** Its candidates are marked. -/
theorem pick (hz : ∀ x, z ≤ prio x) (hlost : ∀ x ∈ D, Lost x) (h : Found prio z Lost C b r b₁)
    (h' : Found prio z Lost D b₁ r' b₂) :
    Found prio z Lost (C ∪ D) b (PrioritySearch.pick prio z r r') b₂ := by
  have hunion := h.union hz h'
  cases r' with
  | none => exact hunion
  | some y =>
    obtain ⟨⟨hy, hlt, hmax⟩, rfl⟩ | ⟨-, hr', -⟩ := h'
    · by_cases hpick : (r.map prio).getD z < prio y
      · simp only [PrioritySearch.pick, hpick, if_true]
        exact hunion
      · simp only [PrioritySearch.pick, hpick, if_false]
        cases r with
        | some w =>
          -- an earlier answer is below the bound that `y` is above
          obtain ⟨-, rfl⟩ | ⟨-, hr, -⟩ := h
          · exact absurd hlt hpick
          · cases hr
        | none =>
          have hyz : prio y = z := le_antisymm (not_lt.mp hpick) (hz y)
          obtain ⟨hbest, rfl⟩ | ⟨-, -, rfl, -⟩ := h
          · refine .inr ⟨hyz ▸ hlt, rfl, hyz, ?_, y, .inr hy, hyz, hlost y hy⟩
            rintro x (hx | hx)
            · exact (hbest x hx).trans (hyz ▸ hlt.le)
            · exact hyz ▸ hmax x hx
          · exact absurd hlt hpick
    · cases hr'

/-- **Nothing is lost** unless a marked candidate of priority `z` is the best there is. -/
theorem exact (h : Found prio z Lost C b r b₁)
    (hz : ∀ x ∈ C, prio x = z → Lost x → ∃ y ∈ C, z < prio y) : Best prio C b r := by
  rcases h with ⟨hbest, -⟩ | ⟨-, -, -, hle, x, hx, hxz, hlost⟩
  · exact hbest
  · obtain ⟨y, hy, hlt⟩ := hz x hx hxz hlost
    exact absurd (hle y hy) (not_le.mpr hlt)

end Found

end PrioritySearch
