import Lagopus.Cbuffer.Buffer
import Mathlib.Data.Fintype.Basic

/-!
# The calls of a bounded queue

Threads put, get, peek, wait, wake each other up, clear the queue and shut it down.  A call locks the
queue and does its work up to a wait on a condition or to its end; when the wait is over it locks
again and goes on.  A step is such a critical section.  A waiting thread may wake up at any time,
notified or not, so an ordinary notification leaves no trace in the state.

Beside the fields of the queue the state has the history that the statements are about: what was put
and what has gone, what the call of each thread has moved, and what wake-ups came during each wait.

* `Queue`, `Call`, `Event`, `exec`: the queue, and what a critical section does;
* `PutN.round`, `GetN.round`: one round of the loops of `s_put_n` and `s_get_n`;
* `Queue.waitEnds`: the second half of `s_wait_io_ready`;
* `Queue.wakeup`: `lagopus_cbuffer_wakeup`.
-/

namespace Lagopus.Cbuffer

/-- A `lagopus_result_t`: a number of elements, or an error. -/
inductive Result
  | count (n : Nat)
  | anyFailures
  | notOperational
  | timedout
  | wakeupRequested
  | posixApiError
deriving DecidableEq

/-- `LAGOPUS_RESULT_OK` is zero. -/
abbrev Result.ok : Result := .count 0

/-- The result of `lagopus_cond_wait`. -/
inductive CondResult
  | ok
  | timedout
  | posixApiError
deriving DecidableEq

def CondResult.result : CondResult → Result
  | ok => .ok
  | timedout => .timedout
  | posixApiError => .posixApiError

/-- How a critical section ends. -/
inductive Exit
  | waits
  | returns (ret : Result)
  /-- The call returns after a message that this must not happen. -/
  | fatal (ret : Result)
deriving DecidableEq

/-- `lagopus_cbuffer_put` and `_get` take the number of elements for `OK`. -/
def Exit.single : Bool → Exit → Exit
  | true, .returns (.count 1) => .returns .ok
  | _, exit => exit

variable {ι α : Type*} {maxElements : Nat}

/-- A call of `s_put_n`. -/
structure PutN (α : Type*) where
  vals : List α
  /-- The time that is left; negative for ever. -/
  nsec : Int
  single : Bool := false
  nCopyin : Nat := 0

/-- A call of `s_get_n`. -/
structure GetN (α : Type*) where
  nValsMax : Nat
  nAtLeast : Nat
  nsec : Int
  doIncr : Bool
  single : Bool := false
  /-- What was copied; its length is `n_copyout`. -/
  out : List α := []

namespace PutN

/-- One round of the loop of `s_put_n`, with the result that an earlier round has left. -/
def round (c : PutN α) (b : Buffer α maxElements) (ret : Result) :
    PutN α × Buffer α maxElements × Exit :=
  let (k, b) := b.copyin (c.vals.drop c.nCopyin)
  let c := { c with nCopyin := c.nCopyin + k }
  if c.nsec = 0 then (c, b, .returns (.count k))
  else if c.nCopyin < c.vals.length then
    if maxElements ≤ b.nElements then (c, b, .waits)
    else (c, b, .fatal ret)
  else (c, b, .returns (.count c.nCopyin))

end PutN

namespace GetN

/-- How many elements a call that waits wants to have. -/
def needed (c : GetN α) : Nat := if c.nsec < 0 then c.nValsMax else c.nAtLeast

/-- One round of the loop of `s_get_n`. -/
def round (c : GetN α) (b : Buffer α maxElements) (ret : Result) :
    GetN α × Buffer α maxElements × Exit :=
  let (vals, b) := b.copyout (c.nValsMax - c.out.length) c.doIncr
  let c := { c with out := c.out ++ vals }
  if c.nsec = 0 then (c, b, .returns (.count vals.length))
  else if c.out.length < c.needed then
    if b.nElements < 1 then (c, b, .waits)
    else (c, b, .fatal ret)
  else (c, b, .returns (.count c.out.length))

end GetN

/-- What a thread is doing. -/
inductive Thread (ι α : Type*)
  | idle
  /-- It waits on `m_cond_put`. -/
  | putting (c : PutN α)
  /-- It waits on `m_cond_get`. -/
  | getting (c : GetN α)
  | gettable (nsec : Int)
  | puttable (nsec : Int)
  /-- It waits on `m_cond_awakened`. The targets are the threads that it has found waiting and that
  have not left their wait. -/
  | waking (nsec : Int) (targets : Finset ι)

namespace Thread

/-- The thread is counted in `m_n_waiters`. -/
def Waits : Thread ι α → Prop
  | putting _ | getting _ | gettable _ | puttable _ => True
  | idle | waking _ _ => False

instance : ∀ th : Thread ι α, Decidable th.Waits
  | putting _ | getting _ | gettable _ | puttable _ => .isTrue trivial
  | idle | waking _ _ => .isFalse id

def Idle : Thread ι α → Prop
  | idle => True
  | _ => False

instance : ∀ th : Thread ι α, Decidable th.Idle
  | idle => .isTrue trivial
  | putting _ | getting _ | gettable _ | puttable _ | waking _ _ => .isFalse id

theorem Idle.eq_idle {th : Thread ι α} (h : th.Idle) : th = idle := by
  cases th with
  | idle => rfl
  | putting _ | getting _ | gettable _ | puttable _ | waking _ _ => exact h.elim

/-- The time a waiting thread waits. -/
def nsec : Thread ι α → Int
  | putting c => c.nsec
  | getting c => c.nsec
  | gettable nsec | puttable nsec | waking nsec _ => nsec
  | idle => 0

/-- A thread has left its wait. -/
def without [DecidableEq ι] (t : ι) : Thread ι α → Thread ι α
  | waking nsec targets => waking nsec (targets.erase t)
  | th => th

end Thread

/-- How an element has gone. -/
inductive Fate (ι : Type*)
  | got (t : ι)
  | cleared

/-- A queue of at most `maxElements` elements. -/
structure Queue (ι α : Type*) (maxElements : Nat) where
  buffer : Buffer α maxElements
  /-- Whether there is a free function. -/
  delProc : Bool
  isOperational : Bool := true
  isAwakened : Bool := false
  nWaiters : Nat := 0
  thread : ι → Thread ι α := fun _ => .idle
  /-- All elements that were ever put. -/
  puts : List α := []
  /-- The elements that have left the queue. -/
  gone : List (α × Fate ι) := []
  /-- What the call of a thread has moved. -/
  moved : ι → List α := fun _ => []
  /-- A wake-up was called for during the wait of a thread. -/
  woken : ι → Bool := fun _ => false
  /-- A wake-up has notified a waiting thread. -/
  notified : ι → Bool := fun _ => false

inductive Call (α : Type*)
  | put (val : α) (nsec : Int)
  | putN (vals : List α) (nsec : Int)
  | get (nsec : Int)
  | getN (nValsMax nAtLeast : Nat) (nsec : Int)
  | peek (nsec : Int)
  | peekN (nValsMax nAtLeast : Nat) (nsec : Int)
  | clear (freeValues : Bool)
  | shutdown (freeValues : Bool)
  | wakeup (nsec : Int)
  | waitGettable (nsec : Int)
  | waitPuttable (nsec : Int)

/-- What a critical section was about. -/
inductive Kind
  | put (single : Bool)
  | get (single : Bool)
  | peek
  | clear (freeValues : Bool)
  | wakeup (nsec : Int)
  | other
deriving DecidableEq

/-- What a critical section shows to the caller. -/
structure Outcome (α : Type*) where
  kind : Kind := .other
  exit : Exit
  /-- `n_actual_put` or `n_actual_get`. -/
  nActual : Nat := 0
  /-- The elements that were put, or handed to the caller. -/
  values : List α := []
  /-- The elements that the free function was called for. -/
  freed : List α := []

namespace Queue

variable [DecidableEq ι]

/-! ## Waiting -/

variable (s : Queue ι α maxElements) (t : ι)

/-- The first half of `s_wait_io_ready`. -/
def waits (th : Thread ι α) : Queue ι α maxElements :=
  { s with
    nWaiters := s.nWaiters + 1
    thread := Function.update s.thread t th
    woken := Function.update s.woken t false
    notified := Function.update s.notified t false }

def returns : Queue ι α maxElements :=
  { s with thread := Function.update s.thread t .idle }

def leave (th : Thread ι α) : Exit → Queue ι α maxElements
  | .waits => s.waits t th
  | .returns _ | .fatal _ => s.returns t

/-- A thread is not counted any more. -/
def left : Queue ι α maxElements :=
  { s with
    nWaiters := s.nWaiters - 1
    thread := fun u => (Function.update s.thread t .idle u).without t }

/-- The second half of `s_wait_io_ready`. -/
def waitEnds (r : CondResult) :
    Result × Queue ι α maxElements :=
  if r = .ok ∧ s.isAwakened = true then
    if s.isOperational then
      (.wakeupRequested,
        if s.nWaiters - 1 = 0 then { s.left t with isAwakened := false } else s.left t)
    else (.notOperational, { s.left t with isAwakened := false })
  else (r.result, s.left t)

/-- What follows a wait. -/
inductive Next
  | again (nsec : Int)
  | ends (exit : Exit)

/-- A call goes on after a wait that was not in vain, if there is time left. -/
def next (nsec elapsed : Int) (ret : Result) : Next :=
  if ret = .ok then
    if nsec < 0 then .again nsec
    else if 0 < nsec - elapsed then .again (nsec - elapsed)
    else .ends (.returns .timedout)
  else if nsec < 0 ∧ ret = .timedout then .ends (.fatal ret)
  else .ends (.returns ret)

/-! ## Putting and getting -/

/-- `s_put_n` with the lock held. -/
def putRound (c : PutN α) (ret : Result) :
    Queue ι α maxElements × Outcome α :=
  if s.isOperational then
    let (c', b, exit) := c.round s.buffer ret
    let xs := (c'.vals.take c'.nCopyin).drop c.nCopyin
    ({ s with
        buffer := b
        puts := s.puts ++ xs
        moved := Function.update s.moved t (s.moved t ++ xs) }.leave t (.putting c') exit,
      { kind := .put c.single
        exit := exit.single c.single
        nActual := c'.nCopyin
        values := c'.vals.take c'.nCopyin })
  else
    (s.returns t,
      { kind := .put c.single
        exit := .returns .notOperational
        nActual := c.nCopyin
        values := c.vals.take c.nCopyin })

def GetN.kind (c : GetN α) : Kind := if c.doIncr then .get c.single else .peek

/-- `s_get_n` with the lock held. -/
def getRound (c : GetN α) (ret : Result) :
    Queue ι α maxElements × Outcome α :=
  if s.isOperational then
    let (c', b, exit) := c.round s.buffer ret
    let xs := if c.doIncr then c'.out.drop c.out.length else []
    ({ s with
        buffer := b
        gone := s.gone ++ xs.map fun x => (x, Fate.got t)
        moved := Function.update s.moved t (s.moved t ++ xs) }.leave t (.getting c') exit,
      { kind := GetN.kind c
        exit := exit.single c.single
        nActual := c'.out.length
        values := c'.out })
  else
    (s.returns t,
      { kind := GetN.kind c, exit := .returns .notOperational, nActual := c.out.length,
        values := c.out })

/-! ## The other calls -/

/-- `s_clean`. -/
def clean [Inhabited α] (s : Queue ι α maxElements) : Queue ι α maxElements :=
  { s with
    buffer := s.buffer.clean
    gone := s.gone ++ s.buffer.stored.map fun x => (x, Fate.cleared) }

/-- The elements that `s_clean` calls the free function for. -/
def freed (freeValues : Bool) : List α :=
  if freeValues ∧ s.delProc then s.buffer.freeupAllValues else []

def clear [Inhabited α] (s : Queue ι α maxElements) (freeValues : Bool) :
    Queue ι α maxElements × Outcome α :=
  (s.clean, { kind := .clear freeValues, exit := .returns .ok, freed := s.freed freeValues })

def shutdown [Inhabited α] (s : Queue ι α maxElements) (freeValues : Bool) :
    Queue ι α maxElements × Outcome α :=
  if s.isOperational then
    ({ s.clean with isOperational := false },
      { kind := .clear freeValues, exit := .returns .ok, freed := s.freed freeValues })
  else (s, { kind := .clear freeValues, exit := .returns .ok })

/-- `lagopus_cbuffer_wait_gettable`. -/
def waitGettable (nsec : Int) :
    Queue ι α maxElements × Outcome α :=
  if 0 < s.buffer.nElements then (s, { exit := .returns (.count s.buffer.nElements) })
  else if nsec ≠ 0 then (s.waits t (.gettable nsec), { exit := .waits })
  else (s, { exit := .returns (.count s.buffer.nElements) })

/-- `lagopus_cbuffer_wait_puttable`. -/
def waitPuttable (nsec : Int) :
    Queue ι α maxElements × Outcome α :=
  let remains := maxElements - s.buffer.nElements
  if 0 < remains then (s, { exit := .returns (.count remains) })
  else if nsec ≠ 0 then (s.waits t (.puttable nsec), { exit := .waits })
  else (s, { exit := .returns (.count remains) })

variable [Fintype ι]

/-- The threads that are counted in `m_n_waiters`. -/
def waiting (s : Queue ι α maxElements) : Finset ι := Finset.univ.filter fun t => (s.thread t).Waits

/-- `lagopus_cbuffer_wakeup`. -/
def wakeup (s : Queue ι α maxElements) (t : ι) (nsec : Int) :
    Queue ι α maxElements × Outcome α :=
  let s := { s with woken := fun u => s.woken u || decide (s.thread u).Waits }
  if 0 < s.nWaiters then
    if s.isOperational then
      if s.isAwakened = false then
        let s := { s with
          isAwakened := true
          notified := fun u => s.notified u || decide (s.thread u).Waits }
        if nsec ≠ 0 then
          ({ s with thread := Function.update s.thread t (.waking nsec s.waiting) },
            { kind := .wakeup nsec, exit := .waits })
        else (s, { kind := .wakeup nsec, exit := .returns .ok })
      else (s, { kind := .wakeup nsec, exit := .returns .ok })
    else (s, { kind := .wakeup nsec, exit := .returns .notOperational })
  else (s, { kind := .wakeup nsec, exit := .returns .ok })

/-- The wait of `lagopus_cbuffer_wakeup` is over. -/
def recheck (nsec : Int) (r : CondResult) :
    Queue ι α maxElements × Outcome α :=
  if r = .ok then
    if s.isOperational then
      if s.isAwakened = true then (s, { kind := .wakeup nsec, exit := .waits })
      else (s.returns t, { kind := .wakeup nsec, exit := .returns .ok })
    else (s.returns t, { kind := .wakeup nsec, exit := .returns .notOperational })
  else (s.returns t, { kind := .wakeup nsec, exit := .returns r.result })

variable [Inhabited α]

/-! ## Steps -/

/-- The first critical section of a call. -/
def call (s : Queue ι α maxElements) (t : ι) (c : Call α) : Queue ι α maxElements × Outcome α :=
  let s := { s with moved := Function.update s.moved t [] }
  match c with
  | .put val nsec => s.putRound t { vals := [val], nsec, single := true } .anyFailures
  | .putN vals nsec =>
    if 0 < vals.length then s.putRound t { vals, nsec } .anyFailures
    else (s, { kind := .put false, exit := .returns .ok })
  | .get nsec =>
    s.getRound t { nValsMax := 1, nAtLeast := 1, nsec, doIncr := true, single := true } .anyFailures
  | .getN nValsMax nAtLeast nsec =>
    if 0 < nValsMax then s.getRound t { nValsMax, nAtLeast, nsec, doIncr := true } .anyFailures
    else (s, { kind := .get false, exit := .returns .ok })
  | .peek nsec =>
    s.getRound t { nValsMax := 1, nAtLeast := 1, nsec, doIncr := false, single := true }
      .anyFailures
  | .peekN nValsMax nAtLeast nsec =>
    if 0 < nValsMax then s.getRound t { nValsMax, nAtLeast, nsec, doIncr := false } .anyFailures
    else (s, { kind := .peek, exit := .returns .ok })
  | .clear freeValues => s.clear freeValues
  | .shutdown freeValues => s.shutdown freeValues
  | .wakeup nsec => s.wakeup t nsec
  | .waitGettable nsec => s.waitGettable t nsec
  | .waitPuttable nsec => s.waitPuttable t nsec

/-- The critical section that follows a wait. -/
def wake (r : CondResult) (elapsed : Int) :
    Queue ι α maxElements × Outcome α :=
  match s.thread t with
  | .idle => (s, { exit := .waits })
  | .putting c =>
    let (ret, s) := s.waitEnds t r
    match next c.nsec elapsed ret with
    | .again nsec => s.putRound t { c with nsec } ret
    | .ends exit =>
      (s, { kind := .put c.single, exit, nActual := c.nCopyin, values := c.vals.take c.nCopyin })
  | .getting c =>
    let (ret, s) := s.waitEnds t r
    match next c.nsec elapsed ret with
    | .again nsec => s.getRound t { c with nsec } ret
    | .ends exit => (s, { kind := GetN.kind c, exit, nActual := c.out.length, values := c.out })
  | .gettable _ =>
    let (ret, s) := s.waitEnds t r
    (s, { exit := .returns (if ret = .ok then .count s.buffer.nElements else ret) })
  | .puttable _ =>
    let (ret, s) := s.waitEnds t r
    let remains := maxElements - s.buffer.nElements
    (s, { exit := .returns (if ret = .ok then .count remains else ret) })
  | .waking nsec _ => s.recheck t nsec r

end Queue

inductive Event (ι α : Type*)
  /-- A thread makes a call. -/
  | call (t : ι) (c : Call α)
  /-- The wait of a thread is over, after some time. -/
  | wake (t : ι) (r : CondResult) (elapsed : Int)

def Event.thread : Event ι α → ι
  | call t _ | wake t _ _ => t

variable [DecidableEq ι] [Fintype ι] [Inhabited α] (s : Queue ι α maxElements)

/-- A thread makes one call at a time, and a wait without a limit does not time out. -/
def Queue.Enabled : Event ι α → Prop
  | .call t _ => (s.thread t).Idle
  | .wake t r _ => ¬ (s.thread t).Idle ∧ (r = .timedout → 0 ≤ (s.thread t).nsec)

instance (s : Queue ι α maxElements) : ∀ e : Event ι α, Decidable (s.Enabled e)
  | .call t _ => inferInstanceAs (Decidable (s.thread t).Idle)
  | .wake _ _ _ => inferInstanceAs (Decidable (_ ∧ _))

/-- A critical section. -/
def exec (e : Event ι α) : Queue ι α maxElements × Outcome α :=
  if s.Enabled e then
    match e with
    | .call t c => s.call t c
    | .wake t r elapsed => s.wake t r elapsed
  else (s, { exit := .waits })

def step (e : Event ι α) : Queue ι α maxElements := (exec s e).1

def outcome (e : Event ι α) : Outcome α := (exec s e).2

end Lagopus.Cbuffer
