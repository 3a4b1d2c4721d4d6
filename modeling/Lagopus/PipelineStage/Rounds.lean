import Lagopus.PipelineStage.Protocol
import Lagopus.Lib.Trace

/-!
# Rounds of pausing and maintenance

A round begins with a request and ends when the last worker has left it.  As long as a request is made
only after that, the stage goes through the phases of `Phase`, one after the other: no worker works
while the stage is paused or a maintenance function runs, the function is run once before its call
returns, and nobody waits in vain.  A request that comes too early finds a worker that has not left the
previous round; it takes the flag of the new round for that of the old one and never comes to the
barrier.

* `Phase`: the phases of a round;
* `Phase.step`: every step leads from a phase to a phase;
* `rounds_right`: along every run in which requests come after the round before;
* `early_request_wedges`: what happens otherwise, with one worker.
-/

namespace Lagopus.PipelineStage

open Stage

/-- The phases of a round. -/
inductive Phase
  | quiet
  | resuming
  | gather (kind : Kind)
  | close (kind : Kind)
  | paused
deriving DecidableEq, Fintype

/-- The caller has not asked for anything yet, or there is none. -/
def Call.Early : Call → Prop
  | .idle | .requesting _ | .scheduling _ => True
  | _ => False

/-- A worker has left the round. -/
def Pc.Outside : Pc → Prop
  | loop | working | tested | entering | barrier _ => True
  | _ => False

instance : ∀ pc : Pc, Decidable pc.Outside
  | .loop | .working | .tested | .entering | .barrier _ => .isTrue trivial
  | .through _ _ | .running | .waitResume | .waitStatus => .isFalse id

/-- A request comes when all workers have left the round before. A pause may also be asked for again
while it is pending. -/
def Stage.Timely {n : Nat} (s : Stage n) : Event n → Prop
  | .request =>
    (∀ timed, s.call = .requesting timed → s.pauseRequested = true ∨ ∀ i, (s.pc i).Outside) ∧
      ∀ job, s.call = .scheduling job → s.pauseRequested = false ∧ ∀ i, (s.pc i).Outside
  | _ => True

theorem Call.Early.wake_eq {c : Call} (h : c.Early) : c.wake = c := by
  cases c with
  | idle | requesting _ | scheduling _ | resuming => rfl
  | pausing _ _ | maintaining _ _ => exact absurd h id

namespace Phase

/-! ## The table of phases -/

/-- Where a worker is in a phase. One of them is the master while a round is closing. -/
def pcs : Phase → Bool → List Pc
  | quiet, _ => [.loop, .working, .through .pause false, .through .maintenance false]
  | resuming, _ => [.loop, .working, .through .pause false]
  | gather .pause, _ => [.loop, .working, .tested, .barrier .pause]
  | gather .maintenance, _ => [.loop, .working, .tested, .entering, .barrier .maintenance]
  | close .pause, true => [.through .pause true]
  | close .pause, false => [.through .pause false, .waitResume]
  | close .maintenance, true => [.through .maintenance true, .running]
  | close .maintenance, false => [.through .maintenance false, .waitStatus]
  | paused, _ => [.through .pause false, .waitResume]

def flag : Phase → Bool
  | quiet | resuming => false
  | gather _ | close _ | paused => true

def status : Phase → Status
  | quiet | gather .pause | close .pause => .started
  | gather .maintenance | close .maintenance => .maintenanceRequested
  | resuming | paused => .paused

/-- A maintenance function waits to be run. -/
def proc : Phase → Bool
  | gather .maintenance | close .maintenance => true
  | _ => false

/-- Where a worker goes, from where it does not wait. -/
def goes (p : Phase) : Pc → Pc
  | .loop => if p.flag then .tested else .working
  | .working => .loop
  | .tested => if p.proc then .entering else .barrier .pause
  | .entering => if p.proc then .barrier .maintenance else .loop
  | .through .pause false => if p.flag then .waitResume else .loop
  | .through .maintenance false => if p.status ≠ .started then .waitStatus else .loop
  | .through .maintenance true => .running
  | pc => pc

theorem goes_mem : ∀ (p : Phase) (b : Bool) (pc : Pc), pc ∈ p.pcs b → p.goes pc ∈ p.pcs b := by decide

theorem spurious_mem : ∀ (p : Phase) (b : Bool) (pc : Pc), pc ∈ p.pcs b →
    pc.wakeStatus.wakeResume ∈ p.pcs b := by decide

theorem paused_wake_mem : ∀ pc : Pc, pc ∈ (close .pause).pcs false →
    pc.wakeStatus ∈ paused.pcs false := by decide

theorem quiet_wake_mem : ∀ pc : Pc, pc ∈ (close .maintenance).pcs false →
    pc.wakeStatus ∈ quiet.pcs false := by decide

theorem resuming_wake_mem : ∀ pc : Pc, pc ∈ paused.pcs false →
    pc.wakeResume ∈ resuming.pcs false := by decide

theorem quiet_mem : ∀ pc : Pc, pc ∈ resuming.pcs false → pc ∈ quiet.pcs false := by decide

theorem outside_mem : ∀ (kind : Kind) (pc : Pc), pc ∈ quiet.pcs false → pc.Outside →
    pc ∈ (gather kind).pcs false := by decide

theorem master_of_through : ∀ (p : Phase) (b : Bool), .through .pause true ∈ p.pcs b →
    p = close .pause ∧ b = true := by decide

theorem master_of_running : ∀ (p : Phase) (b : Bool), .running ∈ p.pcs b →
    p = close .maintenance ∧ b = true := by decide

theorem paused_of_status : ∀ (p : Phase) (b : Bool), p.status = .paused → .working ∈ p.pcs b →
    p = resuming := by decide

theorem no_work_while_closing : ∀ (kind : Kind) (b : Bool), .working ∉ (close kind).pcs b := by decide

theorem pending_phase : ∀ p : Phase, p.flag = true → p.status ≠ .paused →
    ∃ kind, p = gather kind ∨ p = close kind := by decide

theorem barrier_of_waits : ∀ (kind : Kind) (b : Bool) (pc : Pc), pc ∈ (gather kind).pcs b →
    Waits pc → pc.AtBarrier := by decide

theorem master_not_waits : ∀ (kind : Kind) (pc : Pc), pc ∈ (close kind).pcs true →
    ¬ Waits pc := by decide

theorem gather_of_barrier : ∀ (p : Phase) (b : Bool) (pc : Pc), pc ∈ p.pcs b → pc.AtBarrier →
    ∃ kind, p = gather kind ∧ pc = .barrier kind := by decide

/-- What the caller waits for, and what has been run for it. -/
def Serves {n : Nat} (s : Stage n) : Phase → Prop
  | quiet => s.maintProc = none ∧
      (s.call.Early ∨ ∃ job, s.call = .maintaining job true ∧ s.ran = [job])
  | resuming => s.maintProc = none ∧ s.call = .resuming
  | gather .pause | close .pause => s.maintProc = none ∧
      (s.call.Early ∨ ∃ timed woken, s.call = .pausing timed woken)
  | gather .maintenance | close .maintenance =>
      ∃ job woken, s.maintProc = some job ∧ s.call = .maintaining job woken ∧ s.ran = []
  | paused => s.maintProc = none ∧ (s.call.Early ∨ ∃ timed, s.call = .pausing timed true)

variable {n : Nat}

/-- The stage is in a phase, with the given master. -/
structure Holds (p : Phase) (m : Option (Fin n)) (s : Stage n) : Prop where
  flag : s.pauseRequested = p.flag
  status : s.status = p.status
  serves : p.Serves s
  pcs : ∀ i, s.pc i ∈ p.pcs (m = some i)
  master : ∀ kind, p = close kind → m.isSome = true

namespace Holds

variable {p : Phase} {m : Option (Fin n)} {s s' : Stage n} (h : p.Holds m s)

include h

theorem proc : s.maintProc.isSome = p.proc := by
  have hserves := h.serves
  rcases p with _ | _ | ⟨_ | _⟩ | ⟨_ | _⟩ | _
  all_goals first
    | rw [hserves.1]
      rfl
    | obtain ⟨job, woken, hproc, -⟩ := hserves
      rw [hproc]
      rfl

/-! ## Workers -/

variable {i : Fin n}

theorem move {pc : Pc} (hpc : pc ∈ p.pcs (m = some i)) : p.Holds m (s.move i pc) := by
  refine ⟨h.flag, h.status, h.serves, fun j => ?_, h.master⟩
  by_cases hj : j = i
  · rw [hj, move_pc_self]
    exact hpc
  · rw [move_pc_of_ne s hj]
    exact h.pcs j

theorem at_pc {pc : Pc} (hpc : s.pc i = pc) : pc ∈ p.pcs (m = some i) := hpc ▸ h.pcs i

theorem goes {pc : Pc} (hpc : s.pc i = pc) : p.goes pc ∈ p.pcs (m = some i) := goes_mem p _ _ (h.at_pc hpc)

variable (i : Fin n)

theorem test : p.Holds m (step s (.test i)) := by
  rw [step]
  split
  · next hpc =>
    rw [h.flag]
    exact h.move (h.goes hpc)
  · exact h

theorem done : p.Holds m (step s (.done i)) := by
  rw [step]
  split
  · next hpc => exact h.move (h.goes hpc)
  · exact h

theorem choose : p.Holds m (step s (.choose i)) := by
  rw [step]
  split
  · next hpc =>
    rw [h.proc]
    exact h.move (h.goes hpc)
  · exact h

theorem enter : p.Holds m (step s (.enter i)) := by
  rw [step]
  split
  · next hpc =>
    rw [h.proc]
    exact h.move (h.goes hpc)
  · exact h

theorem spurious : p.Holds m (step s (.spurious i)) :=
  h.move (spurious_mem p _ _ (h.pcs i))

theorem release : ∃ p' m', Holds p' m' (step s (.release i)) := by
  rw [step]
  split
  · next hall =>
    obtain ⟨kind, rfl, -⟩ := gather_of_barrier p _ _ (h.pcs i) (hall i)
    have hpc : ∀ j, s.pc j = .barrier kind := fun j => by
      obtain ⟨kind', hkind, hpc⟩ := gather_of_barrier _ _ _ (h.pcs j) (hall j)
      cases hkind
      exact hpc
    refine ⟨close kind, some i, h.flag, ?_, ?_, fun j => ?_, fun _ _ => rfl⟩
    · rw [h.status]
      cases kind <;> rfl
    · have hserves := h.serves
      cases kind <;> exact hserves
    · simp only [hpc j, Pc.release, Option.some.injEq]
      by_cases hj : i = j
      · subst hj
        cases kind <;> simp [Phase.pcs]
      · cases kind <;> simp [Phase.pcs, hj, Ne.symm hj]
  · exact ⟨p, m, h⟩

omit h in
theorem workerPause_master (h : (close .pause).Holds (some i) s) :
    paused.Holds none (s.workerPause i true) := by
  have hflag : ({ s with status := .paused } : Stage n).pauseNotify.pauseRequested = true := h.flag
  rw [workerPause, if_pos rfl, hflag, if_pos rfl]
  refine ⟨h.flag, rfl, ⟨h.serves.1, ?_⟩, fun j => ?_, nofun⟩
  · rcases h.serves.2 with hearly | ⟨timed, woken, hcall⟩
    · exact .inl (show s.call.wake.Early by rw [hearly.wake_eq]; exact hearly)
    · exact .inr ⟨timed, congrArg Call.wake hcall⟩
  · by_cases hj : j = i
    · rw [hj, move_pc_self]
      exact show Pc.waitResume ∈ paused.pcs false by decide
    · rw [move_pc_of_ne _ hj]
      have hpc := h.pcs j
      rw [decide_eq_false fun hc => hj (Option.some.inj hc).symm] at hpc
      exact paused_wake_mem _ hpc

theorem lock : ∃ p' m', Holds p' m' (step s (.lock i)) := by
  rw [step]
  split
  · exact ⟨p, m, h⟩
  · split
    · next master hpc =>
      cases master with
      | true =>
        obtain ⟨rfl, hm⟩ := master_of_through p _ (h.at_pc hpc)
        rw [of_decide_eq_true hm] at h
        exact ⟨_, _, h.workerPause_master⟩
      | false =>
        refine ⟨p, m, ?_⟩
        simp only [workerPause, Bool.false_eq_true, if_false, h.flag]
        exact h.move (h.goes hpc)
    · next master hpc =>
      refine ⟨p, m, ?_⟩
      cases master with
      | true => exact h.move (h.goes hpc)
      | false =>
        simp only [workerMaintenance, Bool.false_eq_true, if_false, h.status]
        exact h.move (h.goes hpc)
    · exact ⟨p, m, h⟩

theorem finish : ∃ p' m', Holds p' m' (step s (.finish i)) := by
  rw [step]
  split
  · next hpc =>
    obtain ⟨rfl, hm⟩ := master_of_running p _ (h.at_pc hpc)
    obtain ⟨job, woken, hproc, hcall, hran⟩ := h.serves
    refine ⟨quiet, none, rfl, rfl, ⟨rfl, .inr ⟨job, ?_, ?_⟩⟩, fun j => ?_, nofun⟩
    · exact congrArg Call.wake hcall
    · show s.ran ++ s.maintProc.toList = [job]
      rw [hran, hproc]
      rfl
    · by_cases hj : j = i
      · rw [hj, maintenanceDone, move_pc_self]
        exact show Pc.loop ∈ quiet.pcs false by decide
      · rw [maintenanceDone, move_pc_of_ne _ hj]
        have hpc' := h.pcs j
        rw [decide_eq_false fun hc =>
          hj (Option.some.inj ((of_decide_eq_true hm).symm.trans hc)).symm] at hpc'
        exact quiet_wake_mem _ hpc'
  · exact ⟨p, m, h⟩

/-! ## The caller -/

theorem early (hstarted : s.status = .started) {call : Call} (hcall : call.Early) :
    p.Holds m { s with call := call } := by
  have hserves := h.serves
  have hstatus := h.status
  rw [hstarted] at hstatus
  refine ⟨h.flag, h.status, ?_, h.pcs, h.master⟩
  rcases p with _ | _ | ⟨_ | _⟩ | ⟨_ | _⟩ | _
  · exact ⟨hserves.1, .inl hcall⟩
  · cases hstatus
  · exact ⟨hserves.1, .inl hcall⟩
  · cases hstatus
  · exact ⟨hserves.1, .inl hcall⟩
  · cases hstatus
  · cases hstatus

theorem pause (timed : Bool) : p.Holds m (step s (.pause timed)) := by
  rw [step]
  split
  · next hc => exact h.early hc.2 trivial
  · exact h

theorem scheduleMaintenance (job : Nat) : p.Holds m (step s (.scheduleMaintenance job)) := by
  rw [step]
  split
  · next hc => exact h.early hc.2 trivial
  · exact h

theorem spuriousCall : p.Holds m (step s .spuriousCall) := by
  have hserves := h.serves
  refine ⟨h.flag, h.status, ?_, h.pcs, h.master⟩
  have hearly : ∀ {Q : Prop}, s.call.Early → s.call.wake.Early ∨ Q := fun hc =>
    .inl (hc.wake_eq.symm ▸ hc)
  rcases p with _ | _ | kind | kind | _
  · refine ⟨hserves.1, hserves.2.elim hearly fun ⟨job, hcall, hran⟩ => .inr ⟨job, ?_, hran⟩⟩
    exact congrArg Call.wake hcall
  · exact ⟨hserves.1, congrArg Call.wake hserves.2⟩
  iterate 2
    cases kind with
    | pause =>
      refine ⟨hserves.1, hserves.2.elim hearly fun ⟨timed, _, hcall⟩ => .inr ⟨timed, true, ?_⟩⟩
      exact congrArg Call.wake hcall
    | maintenance =>
      obtain ⟨job, _, hproc, hcall, hran⟩ := hserves
      exact ⟨job, true, hproc, congrArg Call.wake hcall, hran⟩
  · refine ⟨hserves.1, hserves.2.elim hearly fun ⟨timed, hcall⟩ => .inr ⟨timed, ?_⟩⟩
    exact congrArg Call.wake hcall

variable {timed woken : Bool}

theorem requestPause (hcall : s.call = .requesting timed)
    (htimely : s.pauseRequested = true ∨ ∀ i, (s.pc i).Outside) : ∃ p' m', Holds p' m' { s with
      pauseRequested := true
      call := if s.status = .paused then .idle else .pausing timed false } := by
  have hserves := h.serves
  have hflag := h.flag
  have hstatus := h.status
  rcases p with _ | _ | ⟨_ | _⟩ | ⟨_ | _⟩ | _
  · have hout := htimely.resolve_left (by rw [hflag]; decide)
    refine ⟨gather .pause, none, rfl, hstatus, ⟨hserves.1, .inr ⟨timed, false, ?_⟩⟩, fun i => ?_, nofun⟩
    · exact if_neg (by rw [hstatus]; decide)
    · exact outside_mem .pause _ (h.pcs i) (hout i)
  · cases hcall.symm.trans hserves.2
  · refine ⟨gather .pause, m, rfl, hstatus, ⟨hserves.1, .inr ⟨timed, false, ?_⟩⟩, h.pcs, nofun⟩
    exact if_neg (by rw [hstatus]; decide)
  · obtain ⟨job, woken, -, hcall', -⟩ := hserves
    cases hcall.symm.trans hcall'
  · refine ⟨close .pause, m, rfl, hstatus, ⟨hserves.1, .inr ⟨timed, false, ?_⟩⟩, h.pcs, h.master⟩
    exact if_neg (by rw [hstatus]; decide)
  · obtain ⟨job, woken, -, hcall', -⟩ := hserves
    cases hcall.symm.trans hcall'
  · refine ⟨paused, m, rfl, hstatus, ⟨hserves.1, .inl ?_⟩, h.pcs, nofun⟩
    rw [if_pos (show s.status = .paused from hstatus)]
    trivial

variable {job : Nat}

theorem requestMaintenance (hcall : s.call = .scheduling job)
    (htimely : s.pauseRequested = false ∧ ∀ i, (s.pc i).Outside) : ∃ p' m', Holds p' m' { s with
      status := .maintenanceRequested, maintProc := some job, pauseRequested := true
      call := .maintaining job false, ran := [] } := by
  have hserves := h.serves
  have hflag := h.flag
  rw [htimely.1] at hflag
  rcases p with _ | _ | ⟨_ | _⟩ | ⟨_ | _⟩ | _
  · refine ⟨gather .maintenance, none, rfl, rfl, ⟨job, false, rfl, rfl, rfl⟩, fun i => ?_, nofun⟩
    exact outside_mem .maintenance _ (h.pcs i) (htimely.2 i)
  · cases hcall.symm.trans hserves.2
  all_goals cases hflag

theorem request (htimely : s.Timely .request) : ∃ p' m', Holds p' m' (step s .request) := by
  rw [step]
  split
  · exact ⟨p, m, h⟩
  · unfold Stage.request
    split
    · next timed hcall => exact h.requestPause hcall (htimely.1 timed hcall)
    · next job hcall => exact h.requestMaintenance hcall (htimely.2 job hcall)
    · exact ⟨p, m, h⟩

/-- A pause that is waited for is pending, or the stage is paused and the caller awake. -/
theorem of_pausing (hcall : s.call = .pausing timed woken) :
    s.maintProc = none ∧ (p = gather .pause ∨ p = close .pause ∨ p = paused ∧ woken = true) := by
  have hserves := h.serves
  have hearly : ¬ s.call.Early := by
    rw [hcall]
    exact id
  rcases p with _ | _ | ⟨_ | _⟩ | ⟨_ | _⟩ | _
  · obtain ⟨job, hcall', -⟩ := hserves.2.resolve_left hearly
    cases hcall.symm.trans hcall'
  · cases hcall.symm.trans hserves.2
  · exact ⟨hserves.1, .inl rfl⟩
  · obtain ⟨job, _, -, hcall', -⟩ := hserves
    cases hcall.symm.trans hcall'
  · exact ⟨hserves.1, .inr (.inl rfl)⟩
  · obtain ⟨job, _, -, hcall', -⟩ := hserves
    cases hcall.symm.trans hcall'
  · obtain ⟨timed', hcall'⟩ := hserves.2.resolve_left hearly
    cases hcall.symm.trans hcall'
    exact ⟨hserves.1, .inr (.inr ⟨rfl, rfl⟩)⟩

theorem of_maintaining (hcall : s.call = .maintaining job woken) :
    p = quiet ∧ s.maintProc = none ∧ woken = true ∧ s.ran = [job] ∨
      (p = gather .maintenance ∨ p = close .maintenance) ∧ s.maintProc = some job ∧ s.ran = [] := by
  have hserves := h.serves
  have hearly : ¬ s.call.Early := by
    rw [hcall]
    exact id
  rcases p with _ | _ | ⟨_ | _⟩ | ⟨_ | _⟩ | _
  · obtain ⟨job', hcall', hran⟩ := hserves.2.resolve_left hearly
    cases hcall.symm.trans hcall'
    exact .inl ⟨rfl, hserves.1, rfl, hran⟩
  · cases hcall.symm.trans hserves.2
  · obtain ⟨_, _, hcall'⟩ := hserves.2.resolve_left hearly
    cases hcall.symm.trans hcall'
  · obtain ⟨job', _, hproc, hcall', hran⟩ := hserves
    cases hcall.symm.trans hcall'
    exact .inr ⟨.inl rfl, hproc, hran⟩
  · obtain ⟨_, _, hcall'⟩ := hserves.2.resolve_left hearly
    cases hcall.symm.trans hcall'
  · obtain ⟨job', _, hproc, hcall', hran⟩ := hserves
    cases hcall.symm.trans hcall'
    exact .inr ⟨.inr rfl, hproc, hran⟩
  · obtain ⟨_, hcall'⟩ := hserves.2.resolve_left hearly
    cases hcall.symm.trans hcall'

theorem recheck : p.Holds m (step s .recheck) := by
  have hstatus := h.status
  rw [step]
  split
  · exact h
  · unfold Stage.recheck
    split
    · next timed hcall =>
      refine ⟨h.flag, h.status, ?_, h.pcs, h.master⟩
      obtain ⟨hproc, rfl | rfl | ⟨rfl, -⟩⟩ := h.of_pausing hcall
      · exact ⟨hproc, .inr ⟨timed, false, if_neg (by rw [hstatus]; decide)⟩⟩
      · exact ⟨hproc, .inr ⟨timed, false, if_neg (by rw [hstatus]; decide)⟩⟩
      · refine ⟨hproc, .inl ?_⟩
        rw [if_pos (show s.status = .paused from hstatus)]
        trivial
    · next job hcall =>
      rcases h.of_maintaining hcall with ⟨rfl, hproc, -, -⟩ | ⟨rfl | rfl, hproc, hran⟩
      · rw [show s.status = .started from hstatus]
        exact ⟨h.flag, rfl, ⟨hproc, .inl trivial⟩, h.pcs, h.master⟩
      · rw [show s.status = .maintenanceRequested from hstatus]
        exact ⟨h.flag, rfl, ⟨job, false, hproc, rfl, hran⟩, h.pcs, h.master⟩
      · rw [show s.status = .maintenanceRequested from hstatus]
        exact ⟨h.flag, rfl, ⟨job, false, hproc, rfl, hran⟩, h.pcs, h.master⟩
    · exact h

theorem timeout : p.Holds m (step s .timeout) := by
  rw [step]
  split
  · next woken hcall =>
    split
    · exact h
    · refine ⟨h.flag, h.status, ?_, h.pcs, h.master⟩
      obtain ⟨hproc, rfl | rfl | ⟨rfl, -⟩⟩ := h.of_pausing hcall
      all_goals exact ⟨hproc, .inl trivial⟩
  · exact h

theorem resume : ∃ p' m', Holds p' m' (step s .resume) := by
  rw [step]
  split
  · next hc =>
    have hserves := h.serves
    have hstatus := h.status
    rw [hc.2.1] at hstatus
    rcases p with _ | _ | ⟨_ | _⟩ | ⟨_ | _⟩ | _
    · cases hstatus
    · cases hc.1.symm.trans hserves.2
    · cases hstatus
    · cases hstatus
    · cases hstatus
    · cases hstatus
    · exact ⟨resuming, none, rfl, h.status, ⟨hserves.1, rfl⟩, fun i => resuming_wake_mem _ (h.pcs i), nofun⟩
  · exact ⟨p, m, h⟩

theorem resumed : ∃ p' m', Holds p' m' (step s .resumed) := by
  rw [step]
  split
  · next hcall =>
    have hserves := h.serves
    have hearly : ¬ s.call.Early := by
      rw [hcall]
      exact id
    rcases p with _ | _ | ⟨_ | _⟩ | ⟨_ | _⟩ | _
    · obtain ⟨_, hcall', -⟩ := hserves.2.resolve_left hearly
      cases hcall.symm.trans hcall'
    · exact ⟨quiet, none, h.flag, rfl, ⟨hserves.1, .inl trivial⟩, fun i => quiet_mem _ (h.pcs i), nofun⟩
    iterate 2
      · obtain ⟨_, _, hcall'⟩ := hserves.2.resolve_left hearly
        cases hcall.symm.trans hcall'
      · obtain ⟨_, _, -, hcall', -⟩ := hserves
        cases hcall.symm.trans hcall'
    · obtain ⟨_, hcall'⟩ := hserves.2.resolve_left hearly
      cases hcall.symm.trans hcall'
  · exact ⟨p, m, h⟩

/-- **Every step leads from a phase to a phase**, if requests come after the round before. -/
theorem step {e : Event n} (htimely : s.Timely e) : ∃ p' m', Holds p' m' (PipelineStage.step s e) := by
  cases e with
  | test i => exact ⟨p, m, h.test i⟩
  | done i => exact ⟨p, m, h.done i⟩
  | choose i => exact ⟨p, m, h.choose i⟩
  | enter i => exact ⟨p, m, h.enter i⟩
  | release i => exact h.release i
  | lock i => exact h.lock i
  | finish i => exact h.finish i
  | spurious i => exact ⟨p, m, h.spurious i⟩
  | pause timed => exact ⟨p, m, h.pause timed⟩
  | scheduleMaintenance job => exact ⟨p, m, h.scheduleMaintenance job⟩
  | request => exact h.request htimely
  | recheck => exact ⟨p, m, h.recheck⟩
  | timeout => exact ⟨p, m, h.timeout⟩
  | spuriousCall => exact ⟨p, m, h.spuriousCall⟩
  | resume => exact h.resume
  | resumed => exact h.resumed

/-! ## What a phase guarantees -/

theorem exclusive : s.Exclusive := by
  rintro hclosed i hwork
  have hat := h.at_pc hwork
  rcases hclosed with ⟨hstatus, hcall⟩ | ⟨j, hj⟩
  · rw [h.status] at hstatus
    rcases paused_of_status p _ hstatus hat with rfl
    exact hcall h.serves.2
  · obtain ⟨rfl, -⟩ := master_of_running p _ (h.at_pc hj)
    exact absurd hat (no_work_while_closing _ _)

theorem not_wedged : ¬ s.Wedged := by
  rintro ⟨hflag, hstatus, hwaits, hopen⟩
  rw [h.flag] at hflag
  rw [h.status] at hstatus
  obtain ⟨kind, rfl | rfl⟩ := pending_phase p hflag hstatus
  · exact hopen fun i => barrier_of_waits kind _ _ (h.pcs i) (hwaits i)
  · -- the master is past the barrier and does not wait
    obtain ⟨i, rfl⟩ := Option.isSome_iff_exists.1 (h.master kind rfl)
    have hat := h.pcs i
    rw [decide_eq_true rfl] at hat
    exact master_not_waits kind _ hat (hwaits i)

theorem ran_once (hreports : s.ReportsRun job) : s.ran = [job] := by
  rcases h.of_maintaining hreports.1 with ⟨-, -, -, hran⟩ | ⟨hp, -, -⟩
  · exact hran
  · have hstatus := h.status
    rw [hreports.2.1] at hstatus
    rcases hp with rfl | rfl
    all_goals cases hstatus

end Holds

end Phase

/-! ## Runs -/

namespace Stage

variable {n : Nat}

/-- What is asked of every state. -/
structure Right (s : Stage n) : Prop where
  exclusive : s.Exclusive
  notWedged : ¬ s.Wedged
  ranOnce : ∀ job, s.ReportsRun job → s.ran = [job]

theorem right_of_holds {p : Phase} {m : Option (Fin n)} {s : Stage n} (h : p.Holds m s) : s.Right :=
  ⟨h.exclusive, h.not_wedged, fun _ => h.ran_once⟩

theorem holds_init : Phase.quiet.Holds none ({} : Stage n) :=
  ⟨rfl, rfl, ⟨rfl, .inl trivial⟩, fun _ => List.mem_cons_self, nofun⟩

/-- **Pausing and maintenance are exclusive and never wedge**, for every number of workers and every
interleaving, if every request comes after the workers have left the round before. -/
theorem rounds_right {es : List (Event n)} (h : Trace.EveryStep step Timely ({} : Stage n) es) :
    (es.foldl step ({} : Stage n)).Right := by
  have hkeep (s : Stage n) (e : Event n) (hs : ∃ p m, Phase.Holds p m s) (he : s.Timely e) :
      ∃ p m, Phase.Holds p m (step s e) := by
    obtain ⟨p, m, hp⟩ := hs
    exact hp.step he
  obtain ⟨p, m, hp⟩ := h.foldl_invariant hkeep ⟨_, _, holds_init⟩
  exact right_of_holds hp

/-- A pause of a stage with one worker, and its end. -/
def pauseAndResume : List (Event 1) :=
  [.pause false, .request, .test ⟨0, Nat.one_pos⟩, .choose ⟨0, Nat.one_pos⟩,
    .release ⟨0, Nat.one_pos⟩, .lock ⟨0, Nat.one_pos⟩, .recheck, .resume, .resumed]

theorem rounds_right_of_pauseAndResume :
    Trace.EveryStep step Timely ({} : Stage 1) pauseAndResume ∧
      (pauseAndResume.foldl step ({} : Stage 1)).Right := by
  have htimely : Trace.EveryStep step Timely ({} : Stage 1) pauseAndResume :=
    ⟨trivial, ⟨fun _ _ => Or.inr fun _ => trivial, nofun⟩, trivial, trivial, trivial, trivial,
      trivial, trivial, trivial, trivial⟩
  exact ⟨htimely, rounds_right htimely⟩

/-- The next pause follows at once, before the worker that was woken up has run. -/
def pauseAgain : List (Event 1) :=
  pauseAndResume ++ [.pause false, .request, .lock ⟨0, Nat.one_pos⟩]

/-- The worker finds the new request and goes on waiting for the end of the pause. -/
theorem early_request_wedges : (pauseAgain.foldl step ({} : Stage 1)).Wedged := by decide

end Stage

end Lagopus.PipelineStage
