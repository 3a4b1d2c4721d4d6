import Mathlib.Data.List.Basic
import Mathlib.Tactic

/-!
# The module manager

`module.c` keeps the modules of the process in the order in which they were registered, and drives each of
them through its life: it is initialized, started, shut down or stopped, waited for and finalized, by
calls that go over all the modules.

What a module's own functions answer is not determined by the manager: a call takes it as a function of
the index of the module.  The state of the process as a whole (`s_gstate`), which is only read at its
exit, is left out.
-/

namespace Lagopus.Modules

abbrev Name := List Char

/-- `a_module_state_t`. -/
inductive Status where
  | unknown | registered | initialized | started | shutdown | cancelling | stopped | finalized
  deriving DecidableEq, Repr

/-- `a_module`, with only whether it has a stop function and a thread. -/
structure Module where
  name : Name
  hasStop : Bool
  hasThread : Bool
  status : Status
  deriving DecidableEq, Repr

/-- What is done with the module of an index: the calls of its functions, and the moments at which its
thread is cancelled and at which it has ended. -/
inductive Happening where
  | init (i : Nat) (ok : Bool)
  | start (i : Nat) (ok : Bool)
  | shutdown (i : Nat)
  | stop (i : Nat)
  | finalize (i : Nat)
  | cancelling (i : Nat)
  | ended (i : Nat)
  deriving DecidableEq, Repr

inductive Result where
  | ok | failed | notFound | alreadyExists | invalidArgs | noMemory | invalidStateTransition
  | index (i : Nat)
  deriving DecidableEq, Repr

/-- What a call does with one module: the result, the module afterwards, and what happened, the last
thing first. -/
abbrev Action := Nat → Module → Result × Module × List Happening

/-- `s_initialize_module`.  The answer of the module's function, and whether there is a thread after it. -/
def initializeModule (answer : Nat → Bool × Bool) : Action := fun i m =>
  if m.status = .registered then
    let m := { m with hasThread := (answer i).2 }
    if (answer i).1 then (.ok, { m with status := .initialized }, [.init i true])
    else (.failed, m, [.init i false])
  else (.invalidStateTransition, m, [])

/-- `s_start_module`. -/
def startModule (answer : Nat → Bool) : Action := fun i m =>
  if m.status = .initialized then
    if answer i then (.ok, { m with status := .started }, [.start i true])
    else (.failed, m, [.start i false])
  else if m.status = .started then (.ok, m, [])
  else (.invalidStateTransition, m, [])

/-- `s_shutdown_module`.  Whatever its function answers, a module without a thread is shut down. -/
def shutdownModule (answer : Nat → Bool) : Action := fun i m =>
  if m.status = .started then
    let r : Result := if answer i then .ok else .failed
    if m.hasThread then (r, m, [.shutdown i])
    else (r, { m with status := .shutdown }, [.ended i, .shutdown i])
  else if m.status = .shutdown ∨ m.status = .stopped then (.ok, m, [])
  else (.invalidStateTransition, m, [])

/-- `s_stop_module`.  The answer is the one of the module's function, or of `lagopus_thread_cancel`. -/
def stopModule (answer : Nat → Bool) : Action := fun i m =>
  if m.status = .started then
    if ¬ m.hasStop ∧ ¬ m.hasThread then (.ok, m, [])
    else
      let called : List Happening := if m.hasStop then [.stop i] else []
      if answer i then
        if m.hasThread then (.ok, { m with status := .cancelling }, .cancelling i :: called)
        else (.ok, { m with status := .shutdown }, .ended i :: called)
      else (.failed, m, called)
  else if m.status = .cancelling ∨ m.status = .shutdown ∨ m.status = .stopped then (.ok, m, [])
  else (.invalidStateTransition, m, [])

/-- `s_wait_module`.  The answer is `none` if the thread did not end in time, and otherwise whether it
was cancelled. -/
def waitModule (answer : Nat → Option Bool) : Action := fun i m =>
  if (m.status = .cancelling ∨ m.status = .started) ∧ m.hasThread then
    match answer i with
    | none => (.failed, m, [])
    | some isCanceled =>
      (.ok, { m with status := if isCanceled then .stopped else .shutdown }, [.ended i])
  else if m.status = .shutdown ∨ m.status = .stopped then (.ok, m, [])
  else (.invalidStateTransition, m, [])

/-- `s_finalize_module`.  The status stays what it was. -/
def finalizeModule : Action := fun i m =>
  if m.status = .initialized ∨ m.status = .shutdown ∨ m.status = .stopped then
    (.ok, m, [.finalize i])
  else (.ok, m, [])

/-- From the first module on, until one fails. -/
def forward (f : Action) : Nat → List Module → Result × List Module × List Happening
  | _, [] => (.ok, [], [])
  | i, m :: ms =>
    let (r, m', hs) := f i m
    if r = .ok then
      let (r', ms', hs') := forward f (i + 1) ms
      (r', m' :: ms', hs' ++ hs)
    else (r, m' :: ms, hs)

/-- From the last module on, all of them.  The result is the first error. -/
def backward (f : Action) : Nat → List Module → Result × List Module × List Happening
  | _, [] => (.ok, [], [])
  | i, m :: ms =>
    let (r', ms', hs') := backward f (i + 1) ms
    let (r, m', hs) := f i m
    (if r' = .ok then r else r', m' :: ms', hs ++ hs')

/-- The arguments of `lagopus_module_register`. -/
structure Registration where
  name : Name
  /-- All the functions are given that must be. -/
  hasProcs : Bool
  hasStop : Bool
  deriving DecidableEq, Repr

/-- The static variables, and everything that happened so far, the last thing first. -/
structure Manager where
  modules : List Module
  nFinalized : Nat
  log : List Happening

def MAX_MODULES : Nat := 1024

/-- `MAX_MODULE_NAME`, with the terminating zero. -/
def MAX_MODULE_NAME : Nat := 64

namespace Manager

def init : Manager := ⟨[], 0, []⟩

/-- `s_find_module`.  The index is only returned to a caller that also wants the module. -/
def sFindModule (s : Manager) (name : Name) (wantsModule : Bool) : Result :=
  if name = [] then .invalidArgs
  else
    match s.modules.findIdx? (·.name = name) with
    | some i => if wantsModule then .index i else .notFound
    | none => .notFound

/-- `lagopus_module_find`. -/
def find (s : Manager) (name : Name) : Result := s.sFindModule name false

/-- `s_register_module`.  A name that is too long is cut off. -/
def register (s : Manager) (r : Registration) : Result × Manager :=
  if s.modules.length < MAX_MODULES then
    if r.name ≠ [] ∧ r.hasProcs then
      if s.sFindModule r.name false = .notFound then
        (.ok, { s with modules := s.modules ++
          [⟨r.name.take (MAX_MODULE_NAME - 1), r.hasStop, false, .registered⟩] })
      else (.alreadyExists, s)
    else (.invalidArgs, s)
  else (.noMemory, s)

/-- `lagopus_module_is_finalized_cleanly`. -/
def isFinalizedCleanly (s : Manager) : Bool := s.modules.length = s.nFinalized

end Manager

/-- The calls of the manager. -/
inductive Op where
  | register (r : Registration)
  | find (name : Name)
  | initializeAll (answer : Nat → Bool × Bool)
  | startAll (answer : Nat → Bool)
  | shutdownAll (isValidLevel : Bool) (answer : Nat → Bool)
  | stopAll (answer : Nat → Bool)
  | waitAll (answer : Nat → Option Bool)
  | finalizeAll

namespace Manager

/-- What a call that goes over all the modules does. -/
def sweep (s : Manager) : Op → Result × List Module × List Happening
  | .register _ => (.ok, s.modules, [])
  | .find _ => (.ok, s.modules, [])
  | .initializeAll answer => forward (initializeModule answer) 0 s.modules
  | .startAll answer => forward (startModule answer) 0 s.modules
  | .shutdownAll isValidLevel answer =>
    if isValidLevel then backward (shutdownModule answer) 0 s.modules
    else (.invalidArgs, s.modules, [])
  | .stopAll answer => backward (stopModule answer) 0 s.modules
  | .waitAll answer => backward (waitModule answer) 0 s.modules
  | .finalizeAll => backward finalizeModule 0 s.modules

/-- What happens in a call, the last thing first. -/
def happenings (s : Manager) (op : Op) : List Happening := (s.sweep op).2.2

def step (s : Manager) (op : Op) : Manager :=
  match op with
  | .register r => (s.register r).2
  | .find _ => s
  | .finalizeAll =>
    { modules := (s.sweep .finalizeAll).2.1
      nFinalized := s.nFinalized + (s.happenings .finalizeAll).length
      log := s.happenings .finalizeAll ++ s.log }
  | op => { s with modules := (s.sweep op).2.1, log := s.happenings op ++ s.log }

end Manager

end Lagopus.Modules
