import Lagopus.Route.Table
import Lagopus.Mactable.Table

/-!
# Routing a packet

`rib.c` keeps two pairs of a route table and an ARP table: the workers read one, while the updater
writes the other and then switches them.  A worker also keeps the results of its lookups in a cache of
its own, which it clears when it sees that the tables were switched.

* `ribUpdate`: the updater;
* `ribLookup`: a worker, for one packet;
* `L3.slow`: what the tables say about a destination at a moment.
-/

namespace Lagopus.Route

open L2

abbrev Mac := BitVec 48

/-- `struct arp_entry`. -/
structure ArpEntry where
  ip : Addr
  ifindex : Int
  mac : Mac
  deriving DecidableEq, Repr

abbrev ArpTable := KeyedStore ArpEntry.ip

/-- `arp_entry_update`. -/
def arpEntryUpdate (t : ArpTable) (e : ArpEntry) : ArpTable := t.put e

/-- `arp_entry_delete`. -/
def arpEntryDelete (t : ArpTable) (ip : Addr) : ArpTable := t.erase ip

/-- `arp_entries_all_copy`, onto a cleared table. -/
def arpEntriesAllCopy (src : ArpTable) : ArpTable := src.entries.foldl arpEntryUpdate .empty

/-- `struct notification_entry`: what the kernel tells about interfaces, neighbours and routes.  A
notification that is not acted upon has no counterpart here. -/
inductive Notification where
  | ifaddrAdd (ifindex : Int) (mac : Mac)
  | arpAdd (e : ArpEntry)
  | arpDel (ip : Addr)
  | routeAdd (e : RouteEntry)
  | routeDel (dest : Addr) (prefixlen : Fin 33)
  deriving DecidableEq, Repr

/-- `struct rib_tables`. -/
structure RibTables where
  arpTable : ArpTable
  routeTable : RouteTable

/-- `struct fib_entry`, under its destination. -/
structure FibEntry where
  dstIp : Addr
  srcMac : Mac
  dstMac : Mac
  outputPort : Port
  deriving DecidableEq, Repr

/-- `struct fib`: what one worker keeps. -/
structure Fib where
  localcache : KeyedStore FibEntry.dstIp
  referredTable : Bool
  referring : Nat

/-- `struct rib`. -/
structure Rib where
  notificationQueue : List Notification
  ribs : Bool → RibTables
  readTable : Bool
  fib : Worker → Fib

/-- `rib_init`. -/
def Rib.init : Rib :=
  { notificationQueue := [], ribs := fun _ => ⟨.empty, .init⟩, readTable := false
    fib := fun _ => ⟨.empty, false, 0⟩ }

/-- The tables the workers read. -/
def Rib.reading (r : Rib) : RibTables := r.ribs r.readTable

/-! ## The updater -/

/-- `route_entry_modify`: the routes of an interface get its address. -/
def routeEntryModify (t : RouteTable) (ifindex : Int) (mac : Mac) : RouteTable :=
  (t.table.entries.filter fun e => e.hop.ifindex = ifindex).foldl
    (fun t e => routeEntryUpdate t { e with hop := { e.hop with mac := mac } }) t

def RibTables.notified (t : RibTables) : Notification → RibTables
  | .ifaddrAdd ifindex mac => { t with routeTable := routeEntryModify t.routeTable ifindex mac }
  | .arpAdd e => { t with arpTable := arpEntryUpdate t.arpTable e }
  | .arpDel ip => { t with arpTable := arpEntryDelete t.arpTable ip }
  | .routeAdd e => { t with routeTable := routeEntryUpdate t.routeTable e }
  | .routeDel dest prefixlen =>
    { t with routeTable := routeEntryDelete t.routeTable dest prefixlen }

/-- `update_tables`: the tables read are copied, and the notifications written to the copy. -/
def updateTables (r : Rib) : RibTables :=
  let cleared := routeEntriesAllClear (r.ribs (!r.readTable)).routeTable
  r.notificationQueue.foldl RibTables.notified
    ⟨arpEntriesAllCopy r.reading.arpTable, copyEntries cleared r.reading.routeTable.table.entries⟩

/-- A worker is at work and has not seen the last switch. -/
def Rib.busy (r : Rib) : Prop :=
  ∃ i, (r.fib i).referredTable ≠ r.readTable ∧ (r.fib i).referring = 1

instance (r : Rib) : Decidable r.busy := inferInstanceAs (Decidable (∃ _, _))

/-- `rib_update`. -/
def ribUpdate (r : Rib) : Rib :=
  if r.busy then r
  else
    { r with
      notificationQueue := []
      ribs := Function.update r.ribs (!r.readTable) (updateTables r)
      readTable := !r.readTable }

/-! ## A worker -/

/-- What a lookup reads and writes of an IPv4 packet. -/
structure L3Packet where
  ipDst : Addr
  ttl : BitVec 8
  etherShost : Mac
  etherDhost : Mac
  outputPort : Port
  sendKernel : Bool
  freed : Bool
  deriving DecidableEq, Repr

/-- The results that `rib_lookup` returns. -/
inductive LookupResult where
  | ok | notFound | stop
  deriving DecidableEq, Repr

/-- `rewrite_pkt_header`, with `dec_ttl`. -/
def rewritePktHeader (pkt : L3Packet) (src dst : Mac) : L3Packet × LookupResult :=
  let ttl := if 0 < pkt.ttl then pkt.ttl - 1 else pkt.ttl
  let pkt := { pkt with etherShost := src, etherDhost := dst, ttl := ttl }
  if ttl = 0 then ({ pkt with freed := true }, .stop) else (pkt, .ok)

/-- `check_referred`. -/
def ribCheckReferred (r : Rib) (fib : Fib) : Fib × Bool :=
  let referred := fib.referredTable
  let fib := if referred = !r.readTable then { fib with referredTable := r.readTable } else fib
  (fib, referred ≠ fib.referredTable)

/-- `find_fib_entry`, after the cache has been cleared if the tables were switched. -/
def findFibEntry (r : Rib) (fib : Fib) (dstIp : Addr) : Fib × Option FibEntry :=
  let (fib, switched) := ribCheckReferred r fib
  if switched then ({ fib with localcache := .empty }, none)
  else (fib, fib.localcache.get dstIp)

/-- `add_fib_entry`. -/
def addFibEntry (fib : Fib) (e : FibEntry) : Fib := { fib with localcache := fib.localcache.put e }

def RT_SCOPE_LINK : BitVec 8 := 253

/-- The neighbour that a route leads to. -/
def NextHop.nexthop (hop : NextHop) (dstIp : Addr) : Addr :=
  if hop.scope = RT_SCOPE_LINK then dstIp else hop.gate

/-- The bridge, as far as routing goes. -/
structure L3 where
  rib : Rib
  mactable : Mactable

namespace L3

def init : L3 := ⟨.init, .init⟩

def setFib (s : L3) (i : Worker) (fib : Fib) : L3 :=
  { s with rib := { s.rib with fib := Function.update s.rib.fib i fib } }

/-- `mactable_port_lookup`. -/
def mactablePortLookup (s : L3) (i : Worker) (mac : Mac) : L3 × Port :=
  ({ s with mactable := s.mactable.setLocal i (lookupPort s.mactable (s.mactable.locals i) mac).1 },
    (lookupPort s.mactable (s.mactable.locals i) mac).2)

/-- `rib_lookup`, and whether it is answered from the cache. -/
def ribLookup (s : L3) (i : Worker) (pkt : L3Packet) : L3 × L3Packet × LookupResult × Bool :=
  match findFibEntry s.rib (s.rib.fib i) pkt.ipDst with
  | (_, some e) =>
    -- the result of the rewriting is dropped
    let pkt := (rewritePktHeader pkt e.srcMac e.dstMac).1
    (s, { pkt with outputPort := e.outputPort }, .ok, true)
  | (fib, none) =>
    let s := s.setFib i fib
    match routeEntryGet s.rib.reading.routeTable pkt.ipDst IPV4_BITLEN with
    | none => (s, { pkt with freed := true }, .notFound, false)
    | some hop =>
      match s.rib.reading.arpTable.get (hop.nexthop pkt.ipDst) with
      | none => (s, { pkt with sendKernel := true }, .ok, false)
      | some arp =>
        if arp.ifindex = -1 then (s, { pkt with sendKernel := true }, .ok, false)
        else
          -- what follows is done for a packet that is stopped as well
          let (pkt, rv) := rewritePktHeader pkt hop.mac arp.mac
          let (s, port) := s.mactablePortLookup i pkt.etherDhost
          let pkt := { pkt with outputPort := port }
          (s.setFib i (addFibEntry (s.rib.fib i) ⟨pkt.ipDst, hop.mac, arp.mac, port⟩), pkt, rv, false)

/-- What the tables say about a destination: the addresses and the port that a packet for it gets, or
nothing when it has no route or no neighbour. -/
def slow (s : L3) (i : Worker) (dstIp : Addr) : Option FibEntry :=
  (routeEntryGet s.rib.reading.routeTable dstIp IPV4_BITLEN).bind fun hop =>
    (s.rib.reading.arpTable.get (hop.nexthop dstIp)).bind fun arp =>
      if arp.ifindex = -1 then none
      else some ⟨dstIp, hop.mac, arp.mac, (s.mactablePortLookup i arp.mac).2⟩

end L3

end Lagopus.Route
