import Lagopus.Datastore.Commands
import Mathlib.Data.List.Sort

/-!
# Transactions

`interp.c`: `atomic begin` lets the commands mark what is to be done; `atomic commit` does it in one pass
over all the objects and makes it final in another.  Here are the tables such a pass goes through up to
the ports; the tables behind them change no port but through their own calls
(`Lagopus/Datastore/History.lean`).
-/

namespace Lagopus.Datastore

open Prog World

/-- `s_create_all_objs_list`: the objects that exist, by kind in the order of `s_tbl_order`, and by name
within a kind. -/
def allNames (names : List Name) : List Name := names.insertionSort (· ≤ ·)

def leafNames (k : LeafKind) (w : World) : List Name :=
  allNames ((w.leaves.keys.filter (·.1 = k)).map (·.2))

def portNames (w : World) : List Name := allNames w.ports.keys

def bridgeNames (w : World) : List Name := allNames w.bridges.keys

/-- The objects of one table below ports or bridges, among those of the world `w₀`. -/
def updateLeaves (state : InterpState) (w₀ : World) (k : LeafKind) : Prog World :=
  forEach ((leaf k).update state) (leafNames k w₀)

/-- The first tables of `s_tbl_order`, up to the ports. -/
def updateUpToPorts (state : InterpState) (w₀ : World) : Prog World :=
  andThen (forEach (updateLeaves state w₀) [.policerAction, .policer, .queue, .interface])
    (forEach (port.update state) (portNames w₀))

/-- The interpreter, in the state it is in between two commands. -/
structure Interp where
  state : InterpState
  world : World

end Lagopus.Datastore
