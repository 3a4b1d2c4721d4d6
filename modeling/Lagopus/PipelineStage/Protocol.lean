import Mathlib.Logic.Function.Basic
import Mathlib.Data.Fintype.Basic
import Mathlib.Tactic

/-!
# Pausing the workers of a pipeline stage

The workers of a stage look at `m_pause_requested` before each round of work.  When it is set they meet
at a barrier; then one of them, the master, reports that the stage is paused, or runs the maintenance
function, and the others wait on a condition.  `lagopus_pipeline_stage_pause`, `_resume` and
`_schedule_maintenance` set the flag and wait on their side, with the stage lock held.

A state has a program counter for every worker and one for the caller that holds the stage lock.  A
step is a critical section of the pause lock up to its end or to a wait on a condition, a test of a
flag outside it, or the opening of the barrier.

* `Stage`, `Event`, `step`: the protocol, for `n` workers that stay in their loop;
* `Stage.Wedged`: a request is pending, and every worker waits for something that does not come.
-/

namespace Lagopus.PipelineStage

inductive Status
  | started
  | paused
  | maintenanceRequested
deriving DecidableEq

/-- Which of `s_worker_pause` and `s_worker_maintenance` a worker is in. -/
inductive Kind
  | pause
  | maintenance
deriving DecidableEq

instance : Fintype Kind := ⟨{.pause, .maintenance}, fun kind => by cases kind <;> decide⟩

/-- Where a worker is. -/
inductive Pc
  /-- It is going to test `m_pause_requested`. -/
  | loop
  /-- It is in its fetch, main or throw function. -/
  | working
  /-- It has seen the flag, and is going to test `m_maint_proc`. -/
  | tested
  /-- It is going to test `m_maint_proc` once more, in `s_worker_maintenance`. -/
  | entering
  | barrier (kind : Kind)
  /-- It is past the barrier, or woken up, and is going to lock. -/
  | through (kind : Kind) (master : Bool)
  /-- It runs the maintenance function, with the lock held. -/
  | running
  | waitResume
  | waitStatus
deriving DecidableEq, Fintype

/-- Where the caller that holds the stage lock is. -/
inductive Call
  | idle
  /-- `pause` has found the stage started. -/
  | requesting (timed : Bool)
  | pausing (timed woken : Bool)
  /-- `schedule_maintenance` has found the stage started. -/
  | scheduling (job : Nat)
  | maintaining (job : Nat) (woken : Bool)
  /-- `resume` has cleared the flag and woken the workers. -/
  | resuming
deriving DecidableEq

structure Stage (n : Nat) where
  pauseRequested : Bool := false
  status : Status := .started
  maintProc : Option Nat := none
  pc : Fin n → Pc := fun _ => .loop
  call : Call := .idle
  /-- The maintenance functions that were run since the last one was scheduled. -/
  ran : List Nat := []

namespace Pc

def AtBarrier : Pc → Prop
  | barrier _ => True
  | _ => False

instance : ∀ pc : Pc, Decidable pc.AtBarrier
  | barrier _ => .isTrue trivial
  | loop | working | tested | entering | through _ _ | running | waitResume | waitStatus =>
    .isFalse id

/-- The barrier opens. -/
def release (master : Bool) : Pc → Pc
  | barrier kind => through kind master
  | pc => pc

def wakeStatus : Pc → Pc
  | waitStatus => through .maintenance false
  | pc => pc

def wakeResume : Pc → Pc
  | waitResume => through .pause false
  | pc => pc

end Pc

def Call.wake : Call → Call
  | .pausing timed _ => .pausing timed true
  | .maintaining job _ => .maintaining job true
  | call => call

namespace Stage

variable {n : Nat} (s : Stage n)

def move (i : Fin n) (pc : Pc) : Stage n := { s with pc := Function.update s.pc i pc }

@[simp] theorem move_pc_self (i : Fin n) (pc : Pc) : (s.move i pc).pc i = pc := by
  simp [move]

theorem move_pc_of_ne {i j : Fin n} (h : j ≠ i) (pc : Pc) : (s.move i pc).pc j = s.pc j := by
  simp [move, Function.update_of_ne h]

/-- The pause lock is held over a step. -/
def Locked : Prop := ∃ i, s.pc i = .running

instance (s : Stage n) : Decidable s.Locked := inferInstanceAs (Decidable (∃ i, s.pc i = .running))

/-- `s_pause_notify_stage`. -/
def pauseNotify : Stage n :=
  { s with pc := fun i => (s.pc i).wakeStatus, call := s.call.wake }

/-- `s_resume_notify_stage`. -/
def resumeNotify : Stage n := { s with pc := fun i => (s.pc i).wakeResume }

/-- The critical section of `s_worker_pause`. -/
def workerPause (i : Fin n) (master : Bool) : Stage n :=
  let s := if master then ({ s with status := .paused } : Stage n).pauseNotify else s
  s.move i (if s.pauseRequested then .waitResume else .loop)

/-- The critical section of `s_worker_maintenance`, up to the maintenance function. -/
def workerMaintenance (i : Fin n) (master : Bool) : Stage n :=
  s.move i (if master then .running else if s.status ≠ .started then .waitStatus else .loop)

/-- The critical section of `s_worker_maintenance`, from the end of the maintenance function on. -/
def maintenanceDone (i : Fin n) : Stage n :=
  (({ s with
      maintProc := none, pauseRequested := false, status := .started,
      ran := s.ran ++ s.maintProc.toList } : Stage n).pauseNotify).move i .loop

/-- A request: the first critical section of `pause` and `schedule_maintenance`. -/
def request : Stage n :=
  match s.call with
  | .requesting timed =>
    { s with
      pauseRequested := true
      call := if s.status = .paused then .idle else .pausing timed false }
  | .scheduling job =>
    { s with
      status := .maintenanceRequested, maintProc := some job, pauseRequested := true
      call := .maintaining job false, ran := [] }
  | _ => s

/-- The caller is awake and tests the status again. -/
def recheck : Stage n :=
  match s.call with
  | .pausing timed true =>
    { s with call := if s.status = .paused then .idle else .pausing timed false }
  | .maintaining job true =>
    match s.status with
    | .maintenanceRequested => { s with call := .maintaining job false }
    | .started => { s with call := .idle }
    | .paused => { s with pauseRequested := false, maintProc := none, call := .idle }
  | _ => s

end Stage

inductive Event (n : Nat)
  /-- A worker tests `m_pause_requested`. -/
  | test (i : Fin n)
  /-- A worker ends its round of work. -/
  | done (i : Fin n)
  /-- A worker tests `m_maint_proc`. -/
  | choose (i : Fin n)
  | enter (i : Fin n)
  /-- The barrier opens; one worker is the master. -/
  | release (master : Fin n)
  /-- A worker locks. -/
  | lock (i : Fin n)
  /-- The maintenance function ends. -/
  | finish (i : Fin n)
  /-- A worker wakes up without being notified. -/
  | spurious (i : Fin n)
  | pause (timed : Bool)
  | scheduleMaintenance (job : Nat)
  | request
  | recheck
  /-- The time of a `pause` is over. -/
  | timeout
  | spuriousCall
  | resume
  | resumed

/-- The protocol. What is not possible in a state does not change it. -/
def step {n : Nat} (s : Stage n) : Event n → Stage n
  | .test i =>
    if s.pc i = .loop then s.move i (if s.pauseRequested then .tested else .working) else s
  | .done i => if s.pc i = .working then s.move i .loop else s
  | .choose i =>
    if s.pc i = .tested then s.move i (if s.maintProc.isSome then .entering else .barrier .pause)
    else s
  | .enter i =>
    if s.pc i = .entering then s.move i (if s.maintProc.isSome then .barrier .maintenance else .loop)
    else s
  | .release master =>
    if ∀ i, (s.pc i).AtBarrier then { s with pc := fun i => (s.pc i).release (i = master) } else s
  | .lock i =>
    if s.Locked then s
    else
      match s.pc i with
      | .through .pause master => s.workerPause i master
      | .through .maintenance master => s.workerMaintenance i master
      | _ => s
  | .finish i => if s.pc i = .running then s.maintenanceDone i else s
  | .spurious i => s.move i (s.pc i).wakeStatus.wakeResume
  | .pause timed =>
    if s.call = .idle ∧ s.status = .started then { s with call := .requesting timed } else s
  | .scheduleMaintenance job =>
    if s.call = .idle ∧ s.status = .started then { s with call := .scheduling job } else s
  | .request => if s.Locked then s else s.request
  | .recheck => if s.Locked then s else s.recheck
  | .timeout =>
    match s.call with
    | .pausing true _ => if s.Locked then s else { s with call := .idle }
    | _ => s
  | .spuriousCall => { s with call := s.call.wake }
  | .resume =>
    if s.call = .idle ∧ s.status = .paused ∧ ¬ s.Locked then
      ({ s with pauseRequested := false, call := .resuming } : Stage n).resumeNotify
    else s
  | .resumed => if s.call = .resuming then { s with status := .started, call := .idle } else s

namespace Stage

variable {n : Nat}

/-- A worker that waits: at the barrier, or on one of the conditions. -/
def Waits : Pc → Prop
  | .barrier _ | .waitResume | .waitStatus => True
  | _ => False

instance : ∀ pc : Pc, Decidable (Waits pc)
  | .barrier _ | .waitResume | .waitStatus => .isTrue trivial
  | .loop | .working | .tested | .entering | .through _ _ | .running => .isFalse id

/-- A request is pending, every worker waits, and the barrier does not open. Nobody will signal: the
status is changed by a worker that is past the barrier, and `resume` does nothing before the stage is
paused. -/
def Wedged (s : Stage n) : Prop :=
  s.pauseRequested = true ∧ s.status ≠ .paused ∧ (∀ i, Waits (s.pc i)) ∧ ¬ ∀ i, (s.pc i).AtBarrier

instance (s : Stage n) : Decidable s.Wedged := inferInstanceAs (Decidable (_ ∧ _ ∧ _ ∧ _))

/-- While the stage is paused, and while a maintenance function runs, nobody works. -/
def Exclusive (s : Stage n) : Prop :=
  s.status = .paused ∧ s.call ≠ .resuming ∨ s.Locked → ∀ i, s.pc i ≠ .working

instance (s : Stage n) : Decidable s.Exclusive := inferInstanceAs (Decidable (_ → _))

/-- The call returns that a maintenance function was run. -/
def ReportsRun (s : Stage n) (job : Nat) : Prop :=
  s.call = .maintaining job true ∧ s.status = .started ∧ ¬ s.Locked

end Stage

end Lagopus.PipelineStage
