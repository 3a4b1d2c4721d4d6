import Lagopus.Lib.Trace
import Mathlib.Tactic

/-!
# The timed queue of callout tasks

Tasks wait in one queue for the time at which they are due; `m_is_in_timed_q` says that a task is there.
Times are 64-bit numbers, and nothing keeps a delay or an interval from being so long that the sum that
should be the next time does not fit.

* `Timed.Ordered`: the queue is ordered by the times at which the tasks ought to be executed, then by
  arrival, and agrees with the flags;
* `Timed.Fits`: the sum that a call computes fits into 64 bits;
* `timed_right`: the queue is right after any calls whose sums fit, and what the calls that follow do.
-/

namespace Lagopus.Callout

open List Trace

/-! ## Times -/

/-- The values of a `lagopus_chrono_t`. -/
def InChrono (x : Int) : Prop := -2 ^ 63 ≤ x ∧ x < 2 ^ 63

instance (x : Int) : Decidable (InChrono x) := inferInstanceAs (Decidable (_ ∧ _))

/-- A sum as a `lagopus_chrono_t`.  An overflow, which is not defined, wraps around here. -/
def chrono (x : Int) : Int := (x + 2 ^ 63) % 2 ^ 64 - 2 ^ 63

theorem chrono_eq_self_iff {x : Int} : chrono x = x ↔ InChrono x := by
  unfold chrono InChrono
  omega

/-! ## Tasks and the queue -/

inductive TaskState
  | unknown | created | enqueued | dequeued | executing | executed | execFailed | cancelled | deleting
deriving DecidableEq

structure Task where
  status : TaskState := .created
  isInTimedQ : Bool := false
  isFirst : Bool := true
  doRepeat : Bool := false
  initialDelayTime : Int := 0
  intervalTime : Int := 0
  lastAbstime : Int := 0
  nextAbstime : Int := 0
deriving DecidableEq

/-- The tasks and the queue.  Beside them it is noted how many insertions there were, and for each task
the number of its last one and the time at which it ought to be executed then. -/
structure Timed (ι : Type) where
  task : ι → Task
  q : List ι := []
  count : Nat := 0
  stamp : ι → Nat := fun _ => 0
  due : ι → Int := fun _ => 0

/-- A call, or a change that other parts of the program make to a task. -/
inductive Event (ι : Type)
  | sched (now : Int) (t : ι)
  | unsched (t : ι)
  | get
  | getRunnables (base : Int) (n : Nat)
  | other (t : ι) (task : Task)

def CALLOUT_TASK_SCHED_JITTER : Int := 1000

namespace Timed

variable {ι : Type}

def next (s : Timed ι) (t : ι) : Int := (s.task t).nextAbstime

/-- The task is due before the other, or at the same time and has come first. -/
def Before (s : Timed ι) (a b : ι) : Prop :=
  s.due a < s.due b ∨ s.due a = s.due b ∧ s.stamp a < s.stamp b

structure Ordered (s : Timed ι) : Prop where
  sorted : s.q.Pairwise s.Before
  mem_iff : ∀ t, t ∈ s.q ↔ (s.task t).isInTimedQ = true
  stamps : ∀ t ∈ s.q, s.stamp t < s.count
  next_eq : ∀ t ∈ s.q, s.next t = s.due t

theorem lt_of_mem_dropWhile {key : ι → Int} {l : List ι} (h : l.Pairwise fun a b => key a ≤ key b) {k : Int}
    {b : ι} (hb : b ∈ l.dropWhile (key · ≤ k)) : k < key b := by
  induction l with
  | nil => cases hb
  | cons a l ih =>
    obtain ⟨hle, hl⟩ := pairwise_cons.1 h
    rw [dropWhile_cons] at hb
    split_ifs at hb with ha
    · exact ih hl hb
    · have hlt : k < key a := by simpa using ha
      rcases mem_cons.1 hb with rfl | hb
      · exact hlt
      · exact hlt.trans_le (hle b hb)

namespace Ordered

variable {s : Timed ι} (h : s.Ordered)

include h

theorem nodup : s.q.Nodup := by
  refine h.sorted.imp ?_
  rintro a _ (hlt | ⟨-, hlt⟩) rfl
  · exact lt_irrefl _ hlt
  · exact lt_irrefl _ hlt

theorem sorted_next : s.q.Pairwise fun a b => s.next a ≤ s.next b := by
  refine h.sorted.imp_of_mem fun {a b} ha hb hab => ?_
  rw [h.next_eq a ha, h.next_eq b hb]
  exact hab.elim le_of_lt fun hab => hab.1.le

end Ordered

variable [DecidableEq ι] (s : Timed ι)

/-- The time of the next execution of a task, computed when it is put into the queue. -/
def timed (now : Int) (t : Task) : Task :=
  if t.isFirst = false ∧ t.doRepeat = true then
    { t with nextAbstime := chrono (t.lastAbstime + t.intervalTime) }
  else { t with lastAbstime := now, nextAbstime := chrono (now + t.initialDelayTime) }

/-- What that time ought to be. -/
def dueTime (now : Int) (t : Task) : Int :=
  if t.isFirst = false ∧ t.doRepeat = true then t.lastAbstime + t.intervalTime
  else now + t.initialDelayTime

omit [DecidableEq ι] in
theorem nextAbstime_timed (now : Int) (t : Task) : (timed now t).nextAbstime = chrono (dueTime now t) := by
  unfold timed dueTime
  split_ifs <;> rfl

/-- A task goes in front of the first one with a later time. -/
def enqueue (t : ι) (task : Task) (due : Int) : Timed ι where
  task := Function.update s.task t { task with status := .enqueued, isInTimedQ := true }
  q := s.q.takeWhile (s.next · ≤ task.nextAbstime) ++ t :: s.q.dropWhile (s.next · ≤ task.nextAbstime)
  count := s.count + 1
  stamp := Function.update s.stamp t s.count
  due := Function.update s.due t due

/-- `s_do_sched` -/
def doSched (now : Int) (t : ι) : Int × Timed ι :=
  if (s.task t).isInTimedQ then (-1, s)
  else
    ((timed now (s.task t)).nextAbstime,
      s.enqueue t (timed now (s.task t)) (dueTime now (s.task t)))

/-- A task is taken out of the queue. -/
def dequeue (t : ι) (status : TaskState) : Timed ι :=
  { s with
    task := Function.update s.task t { s.task t with status := status, isInTimedQ := false }
    q := s.q.erase t }

def doUnsched (t : ι) : Timed ι :=
  if (s.task t).isInTimedQ then
    s.dequeue t (if (s.task t).status = .enqueued then .dequeued else (s.task t).status)
  else s

def get : Option ι × Timed ι :=
  match s.q with
  | [] => (none, s)
  | t :: _ => (some t, s.dequeue t .dequeued)

/-- The loop of `s_get_runnables`. -/
def getLoop (abstime : Int) : Nat → Timed ι → List ι × Timed ι
  | 0, s => ([], s)
  | n + 1, s =>
    match s.q with
    | [] => ([], s)
    | e :: _ =>
      if s.next e ≤ abstime then
        let r := getLoop abstime n (s.dequeue e .dequeued)
        (e :: r.1, r.2)
      else ([], s)

/-- The time of the next wake-up. -/
def wakeup : Int := s.q.head?.elim (-1) s.next

/-- `s_get_runnables`: the tasks, the next wake-up and the queue. -/
def getRunnables (base : Int) (n : Nat) : List ι × Int × Timed ι :=
  let r := getLoop (chrono (base + CALLOUT_TASK_SCHED_JITTER)) n s
  (r.1, r.2.wakeup, r.2)

def step : Event ι → Timed ι
  | .sched now t => (s.doSched now t).2
  | .unsched t => s.doUnsched t
  | .get => s.get.2
  | .getRunnables base n => (s.getRunnables base n).2.2
  | .other t task =>
    let task := { task with isInTimedQ := (s.task t).isInTimedQ, nextAbstime := s.next t }
    { s with task := Function.update s.task t task }

/-- The sum that a call computes fits. -/
def Fits : Event ι → Prop
  | .sched now t => (s.task t).isInTimedQ = false → InChrono (dueTime now (s.task t))
  | .getRunnables base _ => InChrono (base + CALLOUT_TASK_SCHED_JITTER)
  | _ => True

/-- What ought to hold of the queue, and of the next calls.  A repeated task gets the time it ought to
get exactly if that fits. -/
structure Right : Prop extends Ordered s where
  nodup : s.q.Nodup
  runnables : ∀ base n, InChrono (base + CALLOUT_TASK_SCHED_JITTER) →
    let k := min n (s.q.countP (s.due · ≤ base + CALLOUT_TASK_SCHED_JITTER))
    (s.getRunnables base n).1 = s.q.take k ∧ (s.getRunnables base n).2.2.q = s.q.drop k ∧
      (s.getRunnables base n).2.1 = (s.q.drop k).head?.elim (-1) s.due
  resched : ∀ now t, (s.task t).isInTimedQ = false → (s.task t).isFirst = false →
    (s.task t).doRepeat = true →
      (t ∈ (s.doSched now t).2.q ∧
        (s.doSched now t).2.next t = (s.task t).lastAbstime + (s.task t).intervalTime ↔
          InChrono ((s.task t).lastAbstime + (s.task t).intervalTime))

namespace Ordered

variable {s : Timed ι} (h : s.Ordered)

@[simp] theorem next_dequeue (t : ι) (status : TaskState) : (s.dequeue t status).next = s.next := by
  funext a
  simp only [next, dequeue, Function.update_apply]
  split_ifs with ha
  · rw [ha]
  · rfl

include h

theorem dequeue (t : ι) (status : TaskState) : (s.dequeue t status).Ordered where
  sorted := h.sorted.sublist erase_sublist
  mem_iff a := by
    simp only [Timed.dequeue, h.nodup.mem_erase_iff, Function.update_apply, h.mem_iff]
    split_ifs with ha <;> simp [ha]
  stamps a ha := h.stamps a (mem_of_mem_erase ha)
  next_eq a ha := by
    rw [next_dequeue]
    exact h.next_eq a (mem_of_mem_erase ha)

theorem enqueue {t : ι} (ht : t ∉ s.q) {task : Task} {due : Int} (hdue : task.nextAbstime = due) :
    (s.enqueue t task due).Ordered := by
  have hmem : ∀ a, a ∈ (s.enqueue t task due).q ↔ a = t ∨ a ∈ s.q := by
    intro a
    rw [Timed.enqueue, mem_append, mem_cons, or_left_comm, ← mem_append, takeWhile_append_dropWhile]
  have hself : (s.enqueue t task due).due t = due ∧ (s.enqueue t task due).next t = due := by
    simp [next, Timed.enqueue, hdue]
  have hold : ∀ a ∈ s.q, (s.enqueue t task due).due a = s.due a ∧
      (s.enqueue t task due).stamp a = s.stamp a ∧ (s.enqueue t task due).next a = s.next a := by
    intro a ha
    have hne : a ≠ t := fun heq => ht (heq ▸ ha)
    simp [next, Timed.enqueue, hne]
  have hsame : ∀ {a b}, a ∈ s.q → b ∈ s.q → s.Before a b → (s.enqueue t task due).Before a b := by
    intro a b ha hb hab
    rwa [Before, (hold a ha).1, (hold b hb).1, (hold a ha).2.1, (hold b hb).2.1]
  constructor
  · have hq := h.sorted.imp_of_mem hsame
    rw [← takeWhile_append_dropWhile (p := (s.next · ≤ task.nextAbstime)) (l := s.q), pairwise_append] at hq
    obtain ⟨hfront, hback, hcross⟩ := hq
    refine pairwise_append.2 ⟨hfront, pairwise_cons.2 ⟨fun b hb => .inl ?_, hback⟩, fun a ha b hb => ?_⟩
    · have hbq := (dropWhile_sublist _).subset hb
      rw [hself.1, (hold b hbq).1, ← h.next_eq b hbq, ← hdue]
      exact lt_of_mem_dropWhile h.sorted_next hb
    · rcases mem_cons.1 hb with rfl | hb
      · have haq := (takeWhile_sublist _).subset ha
        have hle : s.next a ≤ task.nextAbstime := by simpa using all_eq_true.1 all_takeWhile a ha
        rw [h.next_eq a haq, hdue] at hle
        rw [Before, hself.1, (hold a haq).1, (hold a haq).2.1]
        refine hle.lt_or_eq.imp_right fun heq => ⟨heq, ?_⟩
        simpa [Timed.enqueue] using h.stamps a haq
      · exact hcross a ha b hb
  · intro a
    rw [hmem, h.mem_iff]
    by_cases ha : a = t <;> simp [Timed.enqueue, ha]
  · intro a ha
    rcases (hmem a).1 ha with rfl | ha
    · simp [Timed.enqueue]
    · rw [(hold a ha).2.1]
      exact (h.stamps a ha).trans (Nat.lt_succ_self _)
  · intro a ha
    rcases (hmem a).1 ha with rfl | ha
    · rw [hself.1, hself.2]
    · rw [(hold a ha).1, (hold a ha).2.2, h.next_eq a ha]

theorem getLoop (abstime : Int) (n : Nat) :
    let k := min n (s.q.countP (s.next · ≤ abstime))
    (getLoop abstime n s).1 = s.q.take k ∧ (getLoop abstime n s).2.q = s.q.drop k ∧
      (getLoop abstime n s).2.next = s.next ∧ (getLoop abstime n s).2.Ordered := by
  induction n generalizing s with
  | zero => simpa [Timed.getLoop] using h
  | succ n ih =>
    cases hq : s.q with
    | nil => simpa [Timed.getLoop, hq] using h
    | cons e q =>
      by_cases hdue : s.next e ≤ abstime
      · have hrest := ih (h.dequeue e .dequeued)
        have hq' : (s.dequeue e .dequeued).q = q := by simp [Timed.dequeue, hq]
        rw [next_dequeue, hq'] at hrest
        simpa [Timed.getLoop, hq, hdue] using hrest
      · have hlate : ∀ a ∈ q, abstime < s.next a := by
          have hsorted := h.sorted_next
          rw [hq] at hsorted
          exact fun a ha => (not_le.1 hdue).trans_le ((pairwise_cons.1 hsorted).1 a ha)
        have hnone : q.countP (s.next · ≤ abstime) = 0 := by simpa using hlate
        simpa [Timed.getLoop, hq, hdue, hnone] using h

theorem step {e : Event ι} (hfits : s.Fits e) : (s.step e).Ordered := by
  cases e with
  | sched now t =>
    rw [Timed.step, doSched]
    split_ifs with hin
    · exact h
    · refine h.enqueue (fun hq => hin ((h.mem_iff t).1 hq)) ?_
      rw [nextAbstime_timed]
      exact chrono_eq_self_iff.2 (hfits (by simpa using hin))
  | unsched t =>
    rw [Timed.step, doUnsched]
    split
    · exact h.dequeue t _
    · exact h
  | get =>
    unfold Timed.step Timed.get
    cases s.q with
    | nil => exact h
    | cons t q => exact h.dequeue t _
  | getRunnables base n => exact (h.getLoop _ n).2.2.2
  | other t task =>
    have hnext : (s.step (.other t task)).next = s.next := by
      funext a
      by_cases ha : a = t <;> simp [Timed.step, next, ha]
    refine ⟨h.sorted, fun a => ?_, h.stamps, fun a ha => ?_⟩
    · refine (h.mem_iff a).trans ?_
      by_cases ha : a = t <;> simp [Timed.step, ha]
    · rw [hnext]
      exact h.next_eq a ha

theorem right : s.Right where
  toOrdered := h
  nodup := h.nodup
  runnables base n hbase := by
    obtain ⟨htasks, hq, hnext, -⟩ := h.getLoop (chrono (base + CALLOUT_TASK_SCHED_JITTER)) n
    have hcount : s.q.countP (s.next · ≤ base + CALLOUT_TASK_SCHED_JITTER) =
        s.q.countP (s.due · ≤ base + CALLOUT_TASK_SCHED_JITTER) := by
      refine countP_congr fun t ht => ?_
      rw [h.next_eq t ht]
    have hhead : ∀ l : List ι, l ⊆ s.q → l.head?.elim (-1) s.next = l.head?.elim (-1) s.due := by
      intro l hl
      cases l with
      | nil => rfl
      | cons t l => exact h.next_eq t (hl mem_cons_self)
    rw [chrono_eq_self_iff.2 hbase, hcount] at htasks hq
    refine ⟨?_, ?_, ?_⟩
    · rw [getRunnables, chrono_eq_self_iff.2 hbase, htasks]
    · rw [getRunnables, chrono_eq_self_iff.2 hbase, hq]
    · rw [← hhead _ (drop_subset _ _), ← hq, ← hnext, getRunnables, chrono_eq_self_iff.2 hbase, wakeup]
  resched now t hout hfirst hrepeat := by
    have hnext : (s.doSched now t).2.next t =
        chrono ((s.task t).lastAbstime + (s.task t).intervalTime) := by
      simp [doSched, hout, Timed.enqueue, timed, hfirst, hrepeat, next]
    have hmem : t ∈ (s.doSched now t).2.q := by simp [doSched, hout, Timed.enqueue]
    rw [hnext, chrono_eq_self_iff]
    exact and_iff_right hmem

end Ordered

/-- **The timed queue**: after any calls whose sums fit, from tasks that have not been put into the
queue. -/
theorem timed_right {tasks : ι → Task} (hnew : ∀ t, (tasks t).isInTimedQ = false) (events : List (Event ι))
    (hfits : EveryStep step Fits { task := tasks } events) :
    (events.foldl step { task := tasks }).Right := by
  have hinit : Ordered { task := tasks } :=
    ⟨.nil, fun t => by simp [hnew t], fun _ ht => absurd ht not_mem_nil, fun _ ht => absurd ht not_mem_nil⟩
  have hkeep : ∀ (s : Timed ι) e, s.Ordered → s.Fits e → (s.step e).Ordered := fun _ _ h hfits => h.step hfits
  exact (EveryStep.foldl_invariant hkeep hinit hfits).right

/-- Of two tasks the one that is put in later goes in front, being due first; the other is to be repeated
every second. -/
def twoTasks : List (Event Bool) :=
  [.other true { isFirst := false, doRepeat := true, lastAbstime := 5, intervalTime := 1000000000 },
    .sched 7 true, .sched 7 false]

theorem timed_right_two : ({} : Task).isInTimedQ = false ∧
    (twoTasks.foldl step { task := fun _ => {} }).q = [false, true] ∧
      (twoTasks.foldl step { task := fun _ => {} }).Right := by
  refine ⟨rfl, by decide, timed_right (fun _ => rfl) twoTasks ⟨trivial, ?_, ?_, trivial⟩⟩
  · exact fun _ => by decide
  · exact fun _ => by decide

/-- A task that is to be repeated after 285 years, and one that is due in a second. -/
def farOff : List (Event Bool) :=
  [.other true { isFirst := false, doRepeat := true, lastAbstime := 1700000000000000000
                 intervalTime := 9000000000000000000 },
    .other false { initialDelayTime := 1000000000 },
    .sched 1700000000000000000 true, .sched 1700000000000000000 false]

/-- The first one goes in front of the other, and is executed at once. -/
theorem resched_overflows :
    let s := farOff.foldl step { task := fun _ => {} }
    s.q = [true, false] ∧ s.due false < s.due true ∧ s.next true ≠ s.due true ∧
      (s.getRunnables 1700000000000000000 2).1 = [true] := by
  decide

end Timed

end Lagopus.Callout
