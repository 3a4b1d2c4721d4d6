import Mathlib.Data.List.Perm.Basic
import Mathlib.Data.List.Nodup
import Mathlib.Tactic

/-!
# The timer list and the thread that counts it down

`dp_timer.c` keeps one list of timer nodes for the whole dataplane.  A node
holds up to 256 entries of one type, and its `timeout` is a *delta*: the seconds
between the expiry of the node before it and its own.  `add_dp_timer` walks the
list to the place of a timeout, joins a node that is due at that very second or
inserts a new one and takes its delta off the node behind it.  The thread sleeps
one second at a time and counts down the node it took from the head of the list.

* `findDpTimer`, `addDpTimer` are the two functions of the source, and
  `addDpTimer_cons` is the walk as a recursion.
* `Timers` is the whole component: the list, where the thread is, the number of
  ticks so far, and what has been expired.  Each entry carries the tick at which
  it is due, which nothing in the model reads.
* `Timers.tick` is one `sleep(1)` of `dp_timer_thread_loop` (`Timers.sleep`) and
  all that the thread does before it sleeps again (`Timers.wake`), the expire
  functions included: they may arm a timer anew while the node they are called
  for is still in the list.
-/

namespace Lagopus.Timer

/-- The kinds of timer; entries of different kinds never share a node. -/
inductive TimerType where
  | flow | mbtree | updater | link | thtable
  deriving DecidableEq, Repr

def MAX_TIMEOUT_ENTRIES : Nat := 256

/-- `struct dp_timer`.  `timerEntry` holds the first `nentries` slots; the others
are `NULL`, as is the slot of a timer that was cancelled. -/
structure DpTimer (α : Type) where
  type : TimerType
  timeout : Nat
  timerEntry : List (Option α)
  deriving DecidableEq, Repr

variable {α : Type}

def DpTimer.nentries (n : DpTimer α) : Nat := n.timerEntry.length

/-- The first `NULL` slot takes the argument; when that is the slot after the last
one in use, `nentries` grows. -/
def storeFirstFree (arg : α) : List (Option α) → List (Option α)
  | [] => [some arg]
  | none :: slots => some arg :: slots
  | some e :: slots => some e :: storeFirstFree arg slots

def DpTimer.store (n : DpTimer α) (arg : α) : DpTimer α :=
  { n with timerEntry := storeFirstFree arg n.timerEntry }

/-- What `find_dp_timer` reports: how many nodes it passed, the sum of their
deltas, and whether it stopped at a node that takes the entry. -/
structure Place where
  passed : Nat
  prevTime : Nat
  found : Bool
  deriving DecidableEq, Repr

def findDpTimer (type : TimerType) (timeout : Nat) : Nat → List (DpTimer α) → Place
  | prevTime, [] => ⟨0, prevTime, false⟩
  | prevTime, n :: list =>
    if prevTime + n.timeout > timeout then ⟨0, prevTime, false⟩
    else if prevTime + n.timeout = timeout ∧ n.type = type ∧ n.nentries < MAX_TIMEOUT_ENTRIES then
      ⟨0, prevTime, true⟩
    else
      let place := findDpTimer type timeout (prevTime + n.timeout) list
      { place with passed := place.passed + 1 }

/-- `add_dp_timer`.  A new node takes its delta off the node behind it; its
position is reported for the sake of whoever holds a node further down. -/
def addDpTimer (type : TimerType) (timeout : Nat) (arg : α) (list : List (DpTimer α)) :
    List (DpTimer α) × Option Nat :=
  let place := findDpTimer type timeout 0 list
  if place.found then (list.modify place.passed (·.store arg), none)
  else
    let delta := timeout - place.prevTime
    let inserted := list.insertIdx place.passed ⟨type, delta, [some arg]⟩
    (inserted.modify (place.passed + 1) fun n => { n with timeout := n.timeout - delta },
      some place.passed)

/-! ## The walk as a recursion -/

variable (type : TimerType)

theorem findDpTimer_shift (timeout base prevTime : Nat)
    (list : List (DpTimer α)) (hle : base + prevTime ≤ timeout) :
    findDpTimer type timeout (base + prevTime) list =
      { findDpTimer type (timeout - base) prevTime list with
        prevTime := base + (findDpTimer type (timeout - base) prevTime list).prevTime } := by
  induction list generalizing prevTime with
  | nil => rfl
  | cons n list ih =>
    have hgt : base + prevTime + n.timeout > timeout ↔
        prevTime + n.timeout > timeout - base := by omega
    have heq : base + prevTime + n.timeout = timeout ↔
        prevTime + n.timeout = timeout - base := by omega
    simp only [findDpTimer, hgt, heq]
    split_ifs with hstop hjoin
    · rfl
    · rfl
    · have hnext : base + (prevTime + n.timeout) ≤ timeout := by omega
      simp only [Nat.add_assoc, ih _ hnext]

theorem addDpTimer_nil (timeout : Nat) (arg : α) :
    addDpTimer type timeout arg [] = ([⟨type, timeout, [some arg]⟩], some 0) := rfl

theorem addDpTimer_cons (timeout : Nat) (arg : α) (n : DpTimer α) (list : List (DpTimer α)) :
    addDpTimer type timeout arg (n :: list) =
      if n.timeout > timeout then
        (⟨type, timeout, [some arg]⟩ :: { n with timeout := n.timeout - timeout } :: list, some 0)
      else if n.timeout = timeout ∧ n.type = type ∧ n.nentries < MAX_TIMEOUT_ENTRIES then
        (n.store arg :: list, none)
      else
        let rest := addDpTimer type (timeout - n.timeout) arg list
        (n :: rest.1, rest.2.map (· + 1)) := by
  by_cases hstop : n.timeout > timeout
  · simp [addDpTimer, findDpTimer, hstop]
  · rw [if_neg hstop]
    by_cases hjoin : n.timeout = timeout ∧ n.type = type ∧ n.nentries < MAX_TIMEOUT_ENTRIES
    · simp [addDpTimer, findDpTimer, hjoin]
    · rw [if_neg hjoin]
      have hshift := findDpTimer_shift type timeout n.timeout 0 list (by omega)
      simp only [Nat.add_zero] at hshift
      simp only [addDpTimer, findDpTimer, Nat.zero_add, if_neg hstop, if_neg hjoin, hshift]
      by_cases hfound : (findDpTimer type (timeout - n.timeout) 0 list).found = true
      · simp [hfound]
      · simp [hfound, Nat.sub_add_eq]

/-! ## The component -/

/-- One armed timer: its number, and the tick at which it ought to expire. -/
structure Entry where
  serial : Nat
  due : Nat
  deriving DecidableEq, Repr

/-- Where `dp_timer_thread_loop` is while it sleeps: not yet past the wait for the
start, in the sleep it takes when the list is empty, or counting down the node at
position `cur` of the list. -/
inductive Thread where
  | notStarted
  | idle
  | waiting (cur : Nat)
  deriving DecidableEq, Repr

structure Timers where
  list : List (DpTimer Entry)
  thread : Thread
  now : Nat
  added : List Entry
  expired : List (Entry × Nat)
  cancelled : List Entry
  deriving DecidableEq, Repr

/-- `init_dp_timer`. -/
def Timers.init : Timers := ⟨[], .notStarted, 0, [], [], []⟩

/-- The thread holds a pointer to its node, so a node inserted at or before that
position moves the position and not the thread. -/
def Thread.shift : Thread → Option Nat → Thread
  | .waiting cur, some k => .waiting (if k ≤ cur then cur + 1 else cur)
  | thread, _ => thread

/-- A call of `add_dp_timer` for a fresh entry. -/
def Timers.add (s : Timers) (type : TimerType) (timeout : Nat) : Timers :=
  let entry : Entry := ⟨s.added.length, s.now + timeout⟩
  let r := addDpTimer type timeout entry s.list
  { s with list := r.1, thread := s.thread.shift r.2, added := s.added ++ [entry] }

/-- Setting the slot of an armed entry to `NULL`. -/
def cancelSlot (e : Entry) (slot : Option Entry) : Option Entry :=
  if slot = some e then none else slot

def DpTimer.live (n : DpTimer Entry) : List Entry := n.timerEntry.filterMap id

def Timers.pending (s : Timers) : List Entry := s.list.flatMap DpTimer.live

def Timers.cancel (s : Timers) (e : Entry) : Timers :=
  { s with
    list := s.list.map fun n => { n with timerEntry := n.timerEntry.map (cancelSlot e) }
    cancelled := s.cancelled ++ s.pending.filter (· = e) }

/-- The entry is handed to the expire function. -/
def Timers.handle (s : Timers) (e : Entry) : Timers :=
  { s with expired := s.expired ++ [(e, s.now)] }

/-- The loop every expire function runs over the slots of the node it is called
for.  An entry is handled and, when `rearm` says so, armed anew; the node is still
in the list then, and the loop reads `nentries` afresh each time. -/
def Timers.expireLoop (rearm : Entry → Option Nat) : Nat → Nat → Timers → Timers
  | 0, _, s => s
  | fuel + 1, i, s =>
    match s.thread with
    | .waiting cur =>
      match s.list[cur]? with
      | none => s
      | some n =>
        match n.timerEntry[i]? with
        | none => s
        | some none => expireLoop rearm fuel (i + 1) s
        | some (some e) =>
          match rearm e with
          | none => expireLoop rearm fuel (i + 1) (s.handle e)
          | some timeout => expireLoop rearm fuel (i + 1) ((s.handle e).add n.type timeout)
    | _ => s

variable (rearm : Entry → Option Nat)

/-- `dp_timer_expire` and the removal of the node; the thread then takes the head of
the list, or falls asleep beside an empty one. -/
def Timers.expire (s : Timers) : Timers :=
  let s := s.expireLoop rearm MAX_TIMEOUT_ENTRIES 0
  match s.thread with
  | .waiting cur =>
    let list := s.list.eraseIdx cur
    { s with list := list, thread := if list = [] then .idle else .waiting 0 }
  | _ => s

/-- What the thread does between two sleeps: expire its node while nothing is left
to wait for.  Each round takes a node off the list. -/
def Timers.settle (rearm : Entry → Option Nat) : Nat → Timers → Timers
  | 0, s => s
  | fuel + 1, s =>
    match s.thread with
    | .waiting cur =>
      match s.list[cur]? with
      | none => s
      | some n => if n.timeout > 0 then s else (s.expire rearm).settle rearm fuel
    | _ => s

/-- The thread looks at the list and takes its head. -/
def Timers.look (s : Timers) : Timers :=
  if s.list = [] then { s with thread := .idle }
  else { s with thread := .waiting 0 }.settle rearm s.list.length

/-- One `sleep(1)` of the thread, and the count it keeps of it. -/
def Timers.sleep (s : Timers) : Timers :=
  match s.thread with
  | .notStarted => s
  | .idle => { s with now := s.now + 1 }
  | .waiting cur =>
    { s with
      now := s.now + 1
      list := s.list.modify cur fun n => { n with timeout := n.timeout - 1 } }

/-- What the thread does from one sleep to the next. -/
def Timers.wake (s : Timers) : Timers :=
  match s.thread with
  | .notStarted => s
  | .idle => s.look rearm
  | .waiting _ => s.settle rearm s.list.length

def Timers.tick (s : Timers) : Timers := s.sleep.wake rearm

/-- `global_state_wait_for` returns. -/
def Timers.start (s : Timers) : Timers :=
  match s.thread with
  | .notStarted => s.look rearm
  | _ => s

inductive Event where
  | start
  | tick
  | add (type : TimerType) (timeout : Nat)
  | cancel (e : Entry)
  deriving DecidableEq, Repr

def Timers.step (s : Timers) : Event → Timers
  | .start => s.start rearm
  | .tick => s.tick rearm
  | .add type timeout => s.add type timeout
  | .cancel e => s.cancel e

def Timers.run (events : List Event) : Timers :=
  events.foldl (Timers.step rearm) Timers.init

end Lagopus.Timer
