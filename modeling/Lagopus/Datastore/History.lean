import Lagopus.Datastore.Flags
import Lagopus.Datastore.Transaction

/-!
# Histories of the port module

A history of the port module: commands on ports and on the objects they name, what a bridge asks of its
ports, and the passes of a commit.  Bridges are left open: a bridge may ask anything of any port at any
time it could.  Along the history it is noted what was last asked of every port: enabled by an enable,
disabled by a disable, and disabled when it is created or destroyed.  A request that is refused or fails
asks nothing.

* `History.Follows`: outside of transactions the flag of every port is what was last asked;
* `History.Agrees`: and the next commit will not change that;
* `Event.MarksAllow`: what a step has to meet to keep it so.
-/

namespace Lagopus.Datastore

open Prog World Function

/-- What is asked of the port module, or of the modules below it. -/
inductive PortCall where
  | command (c : ObjCommand PortOption)
  | leafCommand (k : LeafKind) (c : ObjCommand LeafOption)
  | enablePropagation (n : Name)
  | disablePropagation (n : Name)
  | updatePropagation (n : Name)
  | setUsed (b : Bool) (n : Name)
  | setPortNumber (number : Nat) (n : Name)

namespace PortCall

def run (state : InterpState) : PortCall → Prog World
  | command c => portCommands.run state c
  | leafCommand k c => (leafCommands k).run state c
  | enablePropagation n => port.enablePropagation state n
  | disablePropagation n => portDisablePropagation state n
  | updatePropagation n => port.update state n
  | setUsed b n => modify (portTable.setUsed b n)
  | setPortNumber number n => modify (Port.setPortNumber number n)

/-- The port of which something is asked, and whether it is to be enabled. -/
def asks (w : World) : PortCall → Option (Name × Bool)
  | command (.enable n) | enablePropagation n => some (n, true)
  | command (.disable n) | disablePropagation n | command (.destroy n) => some (n, false)
  | command (.create n _) | command (.config n _) =>
    if (portTable.find w n).isNone then some (n, false) else none
  | _ => none

/-- What is asked of every port after the call was carried out in the world `w`. -/
def wantedAfter (w : World) (c : PortCall) (wanted : Name → Bool) : Name → Bool :=
  (c.asks w).elim wanted fun x => update wanted x.1 x.2

end PortCall

/-- What a bridge does to ports while the interpreter commits. -/
inductive CommitCall where
  | disable (n : Name)
  | setUsed (b : Bool) (n : Name)

inductive Event where
  | call (c : PortCall)
  | begin
  /-- The commit, up to the ports. -/
  | commitPorts
  /-- The commit, while it is at the bridges. -/
  | commitBridge (c : CommitCall)
  /-- The second pass of the commit. -/
  | commitEnd

/-- Where a history is, and what was last asked of every port. -/
structure History where
  state : InterpState
  world : World
  wanted : Name → Bool

namespace History

/-- One event; what the state does not allow is refused. -/
def take (h : History) : Event → Bool × History
  | .call c =>
    if h.state = .autoCommit ∨ h.state = .atomic then
      let r := c.run h.state h.world
      (r.1, ⟨h.state, r.2, if r.1 then c.wantedAfter h.world h.wanted else h.wanted⟩)
    else (false, h)
  | .begin => if h.state = .autoCommit then (true, { h with state := .atomic }) else (false, h)
  | .commitPorts =>
    if h.state = .atomic then
      let r := updateUpToPorts .committing h.world h.world
      (r.1, { h with state := .committing, world := r.2 })
    else (false, h)
  | .commitBridge (.disable n) =>
    if h.state = .committing then
      let r := portDisablePropagation .committing n h.world
      (r.1, { h with world := r.2, wanted := update h.wanted n false })
    else (false, h)
  | .commitBridge (.setUsed b n) =>
    if h.state = .committing then (true, { h with world := portTable.setUsed b n h.world })
    else (false, h)
  | .commitEnd =>
    if h.state = .committing then
      let r := updateUpToPorts .committed h.world h.world
      (r.1, { h with state := .autoCommit, world := r.2 })
    else (false, h)

def step (h : History) (e : Event) : History := (h.take e).2

/-- The flags of one port, of which `b` was last asked, are right. -/
def FlagsAgree (state : InterpState) (b : Bool) (f : Flags) : Prop :=
  f.pending = b ∧ (f.isEnabling && f.isDisabling) = false ∧ (state ≠ .atomic → f.isEnabled = b)

instance (state : InterpState) (b : Bool) (f : Flags) : Decidable (FlagsAgree state b f) :=
  inferInstanceAs (Decidable (_ ∧ _ ∧ _))

/-- The flags of all ports are right. -/
def AllAgree (state : InterpState) (wanted : Name → Bool) (F : Name → Option Flags) : Prop :=
  ∀ n f, F n = some f → FlagsAgree state (wanted n) f

/-- The flag of every port is what was last asked, and the next commit will not change that. -/
def Agrees (h : History) : Prop := AllAgree h.state h.wanted (flagsOf h.world)

/-- Outside of transactions the flag of every port is what was last asked. -/
def Follows (h : History) : Prop :=
  h.state = .autoCommit → ∀ n c, portTable.find h.world n = some c → c.isEnabled = h.wanted n

/-- Transactions are successful: no step of a commit fails. -/
def Commits (h : History) : Event → Prop
  | .commitPorts => (h.take .commitPorts).1 = true
  | .commitBridge c => (h.take (.commitBridge c)).1 = true
  | .commitEnd => (h.take .commitEnd).1 = true
  | _ => True

end History

/-! ## What a step has to meet -/

/-- A port with an attribute to be replaced keeps its marks: none may stand against what is asked. -/
def PortCall.MarksAllowEnable (state : InterpState) (w : World) (ok : Bool) (n : Name) : Prop :=
  ∀ c, portTable.find w n = some c → ok = true → c.isDisabling →
    if state = .atomic then c.isEnabled = false else c.isEnabled = true ∨ Port.isModified c = false

/-- The same for a disable; and one that fails leaves a port enabled, or disabled if only what it
propagates fails. -/
def PortCall.MarksAllowDisable (w : World) (ok : Bool) (n : Name) : Prop :=
  ∀ c, portTable.find w n = some c →
    if (port.switchTo .autoCommit n false false w).1 then
      if ok then c.isEnabling = true → Port.isModified c = false else c.isEnabled = false
    else c.isEnabled = true

def PortCall.MarksAllow (state : InterpState) (w : World) (ok : Bool) : PortCall → Prop
  | .command (.enable n) | .enablePropagation n => MarksAllowEnable state w ok n
  | .command (.disable n) | .disablePropagation n => state = .autoCommit → MarksAllowDisable w ok n
  | _ => True

def Event.MarksAllow (h : History) : Event → Prop
  | .call c => c.MarksAllow h.state h.world (h.take (.call c)).1
  | .commitBridge (.disable n) => ∀ f, flagsOf h.world n = some f → f.isEnabling = false
  | _ => True

end Lagopus.Datastore
