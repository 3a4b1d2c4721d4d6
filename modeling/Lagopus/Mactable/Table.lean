import Lagopus.Lib.KeyedStore

/-!
# The MAC address table

A bridge in L2 mode learns which port a station is behind.  Workers note what they
see in a cache and a queue of their own; a timer runs `mactable_update`, which
writes the entries of the table now read and then the queues into the other table,
ages out what is old, and lets the workers read that table from then on.

* `Macentry`, `LocalData` and `Mactable` are the structures of `mactable.h`, and
  `Writing` is the part of the table the updater works on.
* `addEntryWriteTable`, `ageOutWriteTable` and `mactableUpdate` are the updater;
  `learnPort`, `lookupPort` and `mactableEntryUpdate` are the workers.
* A hash map hands out its entries in an order of its own: `HashOrder` is any such
  order, and the model takes it as a parameter, as it does the clock.
-/

namespace Lagopus.L2

/-- `MACTABLE_SETTYPE_STATIC`, `MACTABLE_SETTYPE_DYNAMIC`. -/
inductive AddressType where
  | static
  | dynamic
  deriving DecidableEq, Repr

abbrev Inteth := BitVec 48
abbrev Port := BitVec 32

/-- `struct macentry`; the time is in seconds. -/
structure Macentry where
  inteth : Inteth
  portid : Port
  addressType : AddressType
  updateTime : Int
  deriving DecidableEq, Repr

abbrev MacHash := KeyedStore Macentry.inteth

/-- An order in which a hash map hands out its entries. -/
def HashOrder := { order : List Macentry → List Macentry // ∀ entries, (order entries).Perm entries }

def HashOrder.asKept : HashOrder := ⟨id, fun _ => List.Perm.refl _⟩

def MACTABLE_HISTORY_MAX_NUM : Nat := 10
def NR_MAX_ENTRIES : Nat := 1024
abbrev UPDATER_LOCALDATA_MAX_NUM : Nat := 64
def OFPP_ALL : Port := 0xfffffffc

/-- `struct local_data`: what one worker keeps. -/
structure LocalData where
  localcache : MacHash
  bbq : List Macentry
  ethHistory : Fin MACTABLE_HISTORY_MAX_NUM → Inteth
  historyIndex : Fin MACTABLE_HISTORY_MAX_NUM
  referredTable : Bool
  referring : Nat

abbrev Worker := Fin UPDATER_LOCALDATA_MAX_NUM

structure Mactable where
  maxentries : Nat
  ageingTime : Nat
  nentries : Nat
  hashmap : Bool → MacHash
  readTable : Bool
  macentryList : List Macentry
  locals : Worker → LocalData

def LocalData.init : LocalData :=
  { localcache := .empty, bbq := [], ethHistory := fun _ => 0, historyIndex := ⟨0, by decide⟩
    referredTable := false, referring := 0 }

/-- `mactable_init`. -/
def Mactable.init : Mactable :=
  { maxentries := 8192, ageingTime := 300, nentries := 0, hashmap := fun _ => .empty
    readTable := false, macentryList := [], locals := fun _ => .init }

variable (m : Mactable)

/-- The table the workers read. -/
def Mactable.reading : MacHash := m.hashmap m.readTable

/-! ## The updater -/

/-- What the updater works on: the table being written, the list of the entries that
may age, and their count. -/
structure Writing where
  table : MacHash
  list : List Macentry
  nentries : Nat

/-- `add_entry_write_table`.  The entry of an address that is already there takes over
its place in the list if that one was dynamic; a static one makes the new one static. -/
def addEntryWriteTable (w : Writing) (e : Macentry) : Writing :=
  match w.table.get e.inteth with
  | none =>
    { table := w.table.put e
      list := if e.addressType = .dynamic then w.list ++ [e] else w.list
      nentries := w.nentries + 1 }
  | some found =>
    if found.addressType = .dynamic then
      { w with table := w.table.put e, list := w.list.erase found ++ [e] }
    else { w with table := w.table.put { e with addressType := .static } }

/-- `age_out_write_table`, which stops at the first entry that is not old. -/
def ageOutWriteTable (ageingTime : Nat) (now : Int) :
    MacHash → Nat → List Macentry → Writing
  | table, nentries, [] => ⟨table, [], nentries⟩
  | table, nentries, e :: list =>
    if now - e.updateTime ≥ ageingTime then
      ageOutWriteTable ageingTime now (table.erase e.inteth) (nentries - 1) list
    else ⟨table, e :: list, nentries⟩

/-- The entries taken from the queues.  Each worker's share is bounded by what the
worker before it left, the first one's by what the read table left. -/
def takeQueues (maxentries : Nat) : Nat → List (List Macentry) → List Macentry
  | _, [] => []
  | entryNum, bbq :: bbqs =>
    let num := min bbq.length (maxentries - entryNum)
    bbq.take num ++ takeQueues maxentries num bbqs

/-- The entries of the read table, in the order the hash map hands them out. -/
def Mactable.readWrites (order : HashOrder) : List Macentry :=
  (order.val m.reading.entries).take m.maxentries

/-- The entries of the queues, each stamped with the clock as it is written. -/
def Mactable.queueWrites (clock : Nat → Int) : List Macentry :=
  (takeQueues m.maxentries (min m.reading.entries.length m.maxentries)
    (List.ofFn fun i => (m.locals i).bbq)).mapIdx fun j e => { e with updateTime := clock j }

def Mactable.writes (order : HashOrder) (clock : Nat → Int) : List Macentry :=
  m.readWrites order ++ m.queueWrites clock

/-- The list is emptied entry by entry, and the count with the first of them. -/
def Mactable.cleared : Writing :=
  ⟨.empty, [], if m.macentryList = [] then m.nentries else 0⟩

def Mactable.written (order : HashOrder) (clock : Nat → Int) : Writing :=
  (m.writes order clock).foldl addEntryWriteTable m.cleared

/-- The clock when the ageing starts. -/
def Mactable.ageingNow (clock : Nat → Int) : Int :=
  clock (m.queueWrites clock).length

def Mactable.aged (order : HashOrder) (clock : Nat → Int) : Writing :=
  let w := m.written order clock
  ageOutWriteTable m.ageingTime (m.ageingNow clock) w.table w.nentries w.list

/-- Some worker is still inside the table that would be overwritten. -/
def Mactable.busy : Bool :=
  (List.ofFn m.locals).any fun l => l.referredTable ≠ m.readTable ∧ l.referring = 1

/-- `mactable_update`: gives up for this time, or writes and switches. -/
def mactableUpdate (order : HashOrder) (clock : Nat → Int) : Mactable :=
  if m.busy then m
  else
    let w := m.aged order clock
    { m with
      nentries := w.nentries
      hashmap := Function.update m.hashmap (!m.readTable) w.table
      readTable := !m.readTable
      macentryList := w.list
      locals := fun i => { m.locals i with bbq := [] } }

/-! ## The workers -/

/-- `macentry_alloc`. -/
def macentryAlloc (inteth : Inteth) (portid : Port) (addressType : AddressType) : Macentry :=
  ⟨inteth, portid, addressType, 0⟩

variable (l : LocalData)

/-- `add_entry_bbq`; a full queue drops the entry. -/
def addEntryBbq (e : Macentry) : LocalData :=
  if l.bbq.length < NR_MAX_ENTRIES then { l with bbq := l.bbq ++ [e] } else l

/-- `check_eth_history`: whether the address is to be queued. -/
def checkEthHistory (inteth : Inteth) (switched : Bool) : LocalData × Bool :=
  let l := if switched then
    { l with ethHistory := fun _ => 0, historyIndex := ⟨0, by decide⟩ } else l
  if !switched ∧ ∃ i, l.ethHistory i = inteth then (l, false)
  else
    ({ l with
      ethHistory := Function.update l.ethHistory l.historyIndex inteth
      historyIndex := ⟨(l.historyIndex + 1) % MACTABLE_HISTORY_MAX_NUM,
        Nat.mod_lt _ (by decide)⟩ }, true)

/-- `check_referred`: the worker now refers to the table being read; whether it did not
before. -/
def checkReferred : LocalData × Bool :=
  if l.referredTable = !m.readTable then ({ l with referredTable := m.readTable }, true)
  else (l, false)

/-- The worker finds out about a switch, and drops its cache if there was one. -/
def refresh : LocalData × Bool :=
  let (l, switched) := checkReferred m l
  (if switched then { l with localcache := .empty } else l, switched)

/-- The address is queued unless the history has it. -/
def note (e : Macentry) (switched : Bool) : LocalData :=
  let (l, queue) := checkEthHistory l e.inteth switched
  if queue then addEntryBbq l e else l

/-- `learn_port` by one worker. -/
def learnPort (portid : Port) (inteth : Inteth)
    (addressType : AddressType) : LocalData :=
  let (l, switched) := refresh m l
  let e := macentryAlloc inteth portid addressType
  let l := match l.localcache.get inteth with
    | none => { l with localcache := l.localcache.put e }
    | some _ => l
  note l e switched

/-- `lookup_port` by one worker. -/
def lookupPort (inteth : Inteth) : LocalData × Port :=
  let (l, switched) := refresh m l
  match l.localcache.get inteth with
  | some e =>
    let port := e.portid
    (if port ≠ OFPP_ALL then note l (macentryAlloc inteth port e.addressType) switched else l, port)
  | none =>
    match m.reading.get inteth with
    | some e =>
      let copy := macentryAlloc inteth e.portid e.addressType
      let l := { l with localcache := l.localcache.put copy }
      (if e.portid ≠ OFPP_ALL then note l copy switched else l, e.portid)
    | none => (l, OFPP_ALL)

/-! ## Histories -/

inductive Event where
  | learn (i : Worker) (portid : Port) (inteth : Inteth)
  | lookup (i : Worker) (inteth : Inteth)
  | entryUpdate (i : Worker) (inteth : Inteth) (portid : Port)
  | maxEntriesSet (maxEntries : Nat)
  | ageingTimeSet (ageingTime : Nat)
  | update (order : HashOrder) (clock : Nat → Int)

def Mactable.setLocal (i : Worker) (l : LocalData) : Mactable :=
  { m with locals := Function.update m.locals i l }

/-- `mactable_entry_update` queues a static entry. -/
def mactableEntryUpdate (inteth : Inteth) (portid : Port) : LocalData :=
  addEntryBbq l (macentryAlloc inteth portid .static)

def Mactable.step : Event → Mactable
  | .learn i portid inteth => m.setLocal i (learnPort m (m.locals i) portid inteth .dynamic)
  | .lookup i inteth => m.setLocal i (lookupPort m (m.locals i) inteth).1
  | .entryUpdate i inteth portid =>
    m.setLocal i (mactableEntryUpdate (m.locals i) inteth portid)
  | .maxEntriesSet maxEntries => { m with maxentries := maxEntries }
  | .ageingTimeSet ageingTime => { m with ageingTime := ageingTime }
  | .update order clock => mactableUpdate m order clock

def Mactable.run (events : List Event) : Mactable := events.foldl Mactable.step m

end Lagopus.L2
