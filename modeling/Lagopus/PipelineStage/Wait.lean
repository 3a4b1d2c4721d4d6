import Mathlib.Tactic

/-!
# Waiting for the workers of a stage

`s_wait_stage` waits for one worker after the other, and gives each wait as much time as the one before
has taken, not what is left.

* `stageWait`: `lagopus_pipeline_stage_wait` on a started stage;
* `waitRight_iff`: when its result and the times it offers are right.
-/

namespace Lagopus.PipelineStage

open List

/-- A worker, by what a wait for it returns (no error is OK) and how long it takes, and whether it has
exited when the waiting is over. -/
structure Waited (ε : Type) where
  error : Option ε
  took : Nat
  exited : Bool
  canceled : Bool
  exited_of_ok : error = none → exited = true

inductive WaitStatus
  | started | canceled | shutdown
deriving DecidableEq

/-- What the call returns, unless it ends the process. -/
inductive WaitResult (ε : Type)
  | ok
  | error (e : ε)
  | exitFatal
deriving DecidableEq

variable {ε : Type}

/-- The loop for a positive time: the error, and the waits with the times they are offered. -/
def waitLoop : List (Waited ε) → Int → Option ε × List (Int × Waited ε)
  | [], _ => (none, [])
  | x :: ws, w =>
    if 0 < w then
      match x.error with
      | none => ((waitLoop ws x.took).1, (w, x) :: (waitLoop ws x.took).2)
      | some e => (some e, [(w, x)])
    else (none, [])

variable (ws : List (Waited ε))

def waitStage (nsec : Int) : Option ε × List (Int × Waited ε) :=
  if 0 < nsec then waitLoop ws nsec else (none, ws.map (-1, ·))

/-- The result, and the state afterwards. -/
def stageWait (nsec : Int) : WaitResult ε × WaitStatus :=
  match (waitStage ws nsec).1 with
  | some e => (.error e, .started)
  | none =>
    if ws.countP (·.exited) = ws.length then
      (.ok, if 0 < ws.countP (fun x => x.exited && x.canceled) then .canceled else .shutdown)
    else (.exitFatal, .started)

/-- Each wait is offered no more than what the ones before have left. -/
def Within : Int → List (Int × Waited ε) → Prop
  | _, [] => True
  | left, c :: log => c.1 ≤ left ∧ Within (left - c.2.took) log

/-- **Waiting**: OK only if all have exited, else the error of a wait, with the stage started; and no
more time is offered than the caller gives. -/
structure WaitRight (nsec : Int) : Prop where
  ok : (stageWait ws nsec).1 = .ok → ∀ x ∈ ws, x.exited = true
  failed : (stageWait ws nsec).1 ≠ .ok → (stageWait ws nsec).2 = .started ∧
    ∃ c ∈ (waitStage ws nsec).2, ∃ e, c.2.error = some e ∧ (stageWait ws nsec).1 = .error e
  within : Within nsec (waitStage ws nsec).2

/-- With `left` to go, a wait that succeeds before the last takes some time, and half of that at most; or
none at all, and everyone has exited. -/
def Paced : Int → List (Waited ε) → Prop
  | left, x :: y :: ws => x.error = none →
      x.took = 0 ∧ (∀ z ∈ y :: ws, z.exited = true) ∨
        0 < x.took ∧ 2 * x.took ≤ left ∧ Paced (left - x.took) (y :: ws)
  | _, _ => True

theorem waitLoop_error (w : Int) {e : ε} (h : (waitLoop ws w).1 = some e) :
    ∃ c ∈ (waitLoop ws w).2, c.2.error = some e := by
  induction ws generalizing w with
  | nil => cases h
  | cons x ws ih =>
    rw [waitLoop] at h ⊢
    split_ifs at h ⊢
    cases hx : x.error with
    | none =>
      simp only [hx] at h ⊢
      obtain ⟨c, hc, he⟩ := ih x.took h
      exact ⟨c, mem_cons_of_mem _ hc, he⟩
    | some e' =>
      simp only [hx] at h ⊢
      exact ⟨_, mem_cons_self, hx.trans h⟩

theorem waitLoop_iff {ws : List (Waited ε)} {w left : Int} (hw : 0 < w) (hle : w ≤ left) :
    (((waitLoop ws w).1 = none → ∀ x ∈ ws, x.exited = true) ∧ Within left (waitLoop ws w).2) ↔
      Paced left ws := by
  induction ws generalizing w left with
  | nil => simp [waitLoop, Within, Paced]
  | cons x ws ih =>
    rw [waitLoop, if_pos hw]
    cases hx : x.error with
    | some e =>
      cases ws <;> simp [Within, Paced, hx, hle]
    | none =>
      have hexited := x.exited_of_ok hx
      cases ws with
      | nil => simp [waitLoop, Within, Paced, hexited, hle]
      | cons y ws =>
        rcases Nat.eq_zero_or_pos x.took with hzero | hpos
        · simp [waitLoop, Within, Paced, hx, hexited, hle, hzero]
        · have hhead : ∃ log, (waitLoop (y :: ws) x.took).2 = (↑x.took, y) :: log := by
            rw [waitLoop, if_pos (by omega)]
            cases y.error <;> exact ⟨_, rfl⟩
          by_cases htwo : 2 * (x.took : Int) ≤ left
          · rw [Paced, ← ih (by omega) (show (x.took : Int) ≤ left - x.took by omega)]
            simp [Within, hx, hexited, hle, htwo, hpos, hpos.ne']
          · obtain ⟨log, hlog⟩ := hhead
            have hmore : ¬ (x.took : Int) ≤ left - x.took := by omega
            simp [Within, Paced, hx, hlog, htwo, hpos.ne', hmore]

/-- **Waiting is right** exactly if the waits are paced. -/
theorem waitRight_iff (ws : List (Waited ε)) {nsec : Int} (hnsec : 0 < nsec) :
    WaitRight ws nsec ↔ Paced nsec ws := by
  have hstage : waitStage ws nsec = waitLoop ws nsec := if_pos hnsec
  rw [← waitLoop_iff hnsec le_rfl, ← hstage]
  constructor
  · rintro ⟨hok, hfailed, hwithin⟩
    refine ⟨fun hnone => ?_, hwithin⟩
    by_cases hres : (stageWait ws nsec).1 = .ok
    · exact hok hres
    · obtain ⟨-, c, -, e, -, he⟩ := hfailed hres
      rw [stageWait, hnone] at he
      split_ifs at he
  · rintro ⟨hall, hwithin⟩
    cases hres : (waitStage ws nsec).1 with
    | none =>
      have hcount : ws.countP (·.exited) = ws.length := countP_eq_length.2 (hall hres)
      have hok : (stageWait ws nsec).1 = .ok := by simp [stageWait, hres, hcount]
      exact ⟨fun _ => hall hres, fun hne => absurd hok hne, hwithin⟩
    | some e =>
      have herr : stageWait ws nsec = (.error e, .started) := by rw [stageWait, hres]
      rw [hstage] at hres
      obtain ⟨c, hc, he⟩ := waitLoop_error ws nsec hres
      refine ⟨fun hok => ?_, fun _ => ⟨by rw [herr], c, hstage ▸ hc, e, he, by rw [herr]⟩, hwithin⟩
      rw [herr] at hok
      cases hok

/-- A worker that exits after `took`. -/
def exits (took : Nat) : Waited Unit := ⟨none, took, true, false, fun _ => rfl⟩

/-- The first worker takes a part of the time, and there is enough left for the second. -/
theorem waitRight_two : (0 : Int) < 100 ∧ WaitRight [exits 10, exits 5] 100 := by
  refine ⟨by decide, (waitRight_iff _ (by decide)).2 fun _ => .inr ⟨by decide, by decide, trivial⟩⟩

/-- The first worker takes most of the time, and the second wait is offered as much again. -/
theorem offered_too_much :
    (waitStage [exits 90, exits 5] 100).2.map Prod.fst = [100, 90] ∧ ¬ WaitRight [exits 90, exits 5] 100 := by
  refine ⟨by decide, fun h => ?_⟩
  have hwithin := h.within
  simp [waitStage, waitLoop, exits, Within] at hwithin

end Lagopus.PipelineStage
