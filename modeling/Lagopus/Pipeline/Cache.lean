import Lagopus.Pipeline.Execute

/-!
# The pipeline and the flow cache

`lagopus_match_and_action` takes a packet through the flow tables. A packet whose hash is in the
cache of its thread is not looked up at all: the flow entries noted under that hash are executed
one after the other. Otherwise the packet is looked up table by table, and an output action notes
the flow entries matched so far under the packet's hash.

* `Flowcache`: the two banks of `ofcache.c`, `registerCache` and `cacheLookup`;
* `dpOpenflowMatch`, `matchLoop`: the way through the tables;
* `dpOpenflowDoCachedAction`: the way through the cache;
* `matchSequence`, `cachedSequence`: the flow entries each of the two executes, also when executing
  the last of them has no result.
-/

namespace Lagopus

/-! ## The flow cache -/

/-- `struct cache_entry`. -/
structure CacheEntry where
  hash64 : Nat
  flow : List FlowEntry
deriving DecidableEq

/-- The member `hash32_h`, the half of the hash that comes first in memory: the upper one in network order,
as here.  On a little-endian machine it is the lower one, and `hash32_l` the upper. -/
def hash32h (hash64 : Nat) : Nat := hash64 / 2 ^ 32

/-- The member `hash32_l`, the other half. -/
def hash32l (hash64 : Nat) : Nat := hash64 % 2 ^ 32

/-- `CACHE_NODE_MAX_ENTRIES`. -/
def CACHE_NODE_MAX_ENTRIES : Nat := 256

def FLOWCACHE_MAX_ENTRIES : Nat := 100000

/-- `struct flowcache_bank`: lists of entries by the `hash32_h` of their hash. -/
structure FlowcacheBank where
  hashmap : Nat → Option (List CacheEntry) := fun _ => none
  nentries : Nat := 0

/-- `struct flowcache`. -/
structure Flowcache where
  bank0 : FlowcacheBank := {}
  bank1 : FlowcacheBank := {}

/-- `register_cache_bank`: behind the entries that are there, the oldest of which gives way when the
list is full. -/
def registerCacheBank (bank : FlowcacheBank) (e : CacheEntry) : FlowcacheBank :=
  let key := hash32h e.hash64
  match bank.hashmap key with
  | some list =>
    if list.length = CACHE_NODE_MAX_ENTRIES then
      { bank with hashmap := update bank.hashmap key (list.tail ++ [e]) }
    else
      { hashmap := update bank.hashmap key (list ++ [e]), nentries := bank.nentries + 1 }
  | none => { hashmap := update bank.hashmap key [e], nentries := bank.nentries + 1 }

/-- `register_cache`. A first bank that is half full becomes the second one. -/
def registerCache (cache : Flowcache) (e : CacheEntry) : Flowcache :=
  let bank := registerCacheBank cache.bank0 e
  if FLOWCACHE_MAX_ENTRIES / 2 ≤ bank.nentries then { bank0 := {}, bank1 := bank }
  else { cache with bank0 := bank }

/-- `cache_lookup_bank`. -/
def cacheLookupBank (bank : FlowcacheBank) (hash64 : Nat) : Option CacheEntry :=
  (bank.hashmap (hash32h hash64)).bind fun list =>
    list.find? fun e => hash32l hash64 = hash32l e.hash64

/-- `cache_lookup`. -/
def cacheLookup (cache : Flowcache) (hash64 : Nat) : Option CacheEntry :=
  (cacheLookupBank cache.bank0 hash64).or (cacheLookupBank cache.bank1 hash64)

/-! ## Counters -/

/-- Add to one counter. -/
def addTo (count : Nat → Nat) (key n : Nat) : Nat → Nat :=
  fun k => if k = key then count k + n else count k

namespace Stats

/-- What `match_basic` counts when it succeeds. -/
def matchBasic (pktlen : Nat) (s : Stats) (flow : FlowEntry) : Stats :=
  { s with
    packetCount := if flow.noPktCounts then s.packetCount else addTo s.packetCount flow.head.id 1
    byteCount := if flow.noBytCounts then s.byteCount else addTo s.byteCount flow.head.id pktlen }

/-- `table->lookup_count++`. -/
def lookup (s : Stats) (tableId : Nat) : Stats :=
  { s with lookupCount := addTo s.lookupCount tableId 1 }

/-- What the loop of `dp_openflow_do_cached_action` counts, whatever the flags of the flow. -/
def cachedFlow (s : Stats) (pktlen : Nat) (flow : FlowEntry) : Stats :=
  { packetCount := addTo s.packetCount flow.head.id 1
    byteCount := addTo s.byteCount flow.head.id pktlen
    lookupCount := addTo s.lookupCount flow.tableId 1
    matchedCount :=
      if 0 < flow.head.priority then addTo s.matchedCount flow.tableId 1 else s.matchedCount }

end Stats

/-! ## Through the tables -/

/-- `struct table`, as the data path reads it. -/
structure Table where
  userdata : Option Index
  flowList : List FlowEntry

/-- The tables of a bridge, by `table_lookup`. -/
abbrev Flowdb := Nat → Option Table

/-- The flow entry behind a pointer. -/
def Table.deref (table : Table) (flow : FlowHead) : Option FlowEntry :=
  table.flowList.find? fun f => f.head.id = flow.id

def LAGOPUS_DP_PIPELINE_MAX : Nat := 254

/-- The flow `lagopus_find_flow` gives for a packet at a table. -/
def Flowdb.find (db : Flowdb) (tableId : Nat) (p : Packet) : Option FlowEntry :=
  (db tableId).bind fun table => (Index.lagopusFindFlow table.userdata p).1.bind table.deref

/-- The flows on the way there whose counters `match_basic` bumps. -/
def Flowdb.bumped (db : Flowdb) (tableId : Nat) (p : Packet) : List FlowEntry :=
  match db tableId with
  | none => []
  | some table => (Index.lagopusFindFlow table.userdata p).2.filterMap table.deref

/-- What looking a packet up at its table counts. -/
def Run.countLookup (db : Flowdb) (run : Run) : Run :=
  if (db run.tableId).isSome then
    let bumped := db.bumped run.tableId run.pkt
    let stats := run.stats.lookup run.tableId
    { run with stats := bumped.foldl (Stats.matchBasic run.pkt.pktlen) stats }
  else run

/-- `dp_openflow_match`: the flow to execute, or `none` for `LAGOPUS_RESULT_STOP`. -/
def dpOpenflowMatch (db : Flowdb) (run : Run) : Option FlowEntry :=
  if run.matched.length < LAGOPUS_DP_PIPELINE_MAX then db.find run.tableId run.pkt else none

/-- Note a flow that was matched. -/
def Run.note (run : Run) (flow : FlowEntry) : Run := { run with matched := run.matched ++ [flow] }

/-- The loop of `lagopus_match_and_action` over the tables. `matched_flow[]` is full after
`LAGOPUS_DP_PIPELINE_MAX` rounds, so one more is enough fuel. -/
def matchLoop (env : Env) (db : Flowdb) : Nat → Run → Outcome
  | 0, _ => .error .fuel
  | fuel + 1, run =>
    let run' := run.countLookup db
    match dpOpenflowMatch db run with
    | none => .ok (run', .stop)
    | some flow =>
      match executeInstruction env flow.instruction (run'.note flow) with
      | .ok (run'', .cont) => matchLoop env db fuel run''
      | o => o

/-- The flow entries the loop matches, in order. -/
def matchSequence (env : Env) (db : Flowdb) : Nat → Run → List FlowEntry
  | 0, _ => []
  | fuel + 1, run =>
    match dpOpenflowMatch db run with
    | none => []
    | some flow =>
      flow :: match executeInstruction env flow.instruction ((run.countLookup db).note flow) with
        | .ok (run', .cont) => matchSequence env db fuel run'
        | _ => []

/-! ## Through the cache -/

/-- A flow of a cache entry is counted and becomes the packet's flow. -/
def Run.countCached (run : Run) (flow : FlowEntry) : Run :=
  { run with tableId := flow.tableId, stats := run.stats.cachedFlow run.pkt.pktlen flow }

/-- The loop of `dp_openflow_do_cached_action`. -/
def cachedLoop (env : Env) : List FlowEntry → Run → Outcome
  | [], run => .ok (run, .ok)
  | flow :: flows, run =>
    andThen (executeInstruction env flow.instruction (run.countCached flow)) (cachedLoop env flows)

/-- The flow entries it executes, in order. -/
def cachedSequence (env : Env) : List FlowEntry → Run → List FlowEntry
  | [], _ => []
  | flow :: flows, run =>
    flow :: match executeInstruction env flow.instruction (run.countCached flow) with
      | .ok (run', .ok) => cachedSequence env flows run'
      | _ => []

/-- `calc_packet_hash`, at the start of `dp_openflow_do_cached_action`. -/
def Run.hashed (env : Env) (run : Run) : Run := { run with hash64 := env.calcPacketHash run.pkt }

/-- The cache entry for a packet. -/
def cacheHit (env : Env) (cache : Flowcache) (run : Run) : Option CacheEntry :=
  if env.hasCache then cacheLookup cache (env.calcPacketHash run.pkt) else none

/-- `dp_openflow_do_cached_action`. -/
def dpOpenflowDoCachedAction (env : Env) (cache : Flowcache) (run : Run) : Outcome :=
  match cacheHit env cache run with
  | some e => cachedLoop env e.flow { run.hashed env with cached := true }
  | none => .ok (run.hashed env, .notFound)

/-- `lagopus_match_and_action`. A group that is not there is reported like a miss of the cache, and
then the packet goes through the tables as well. -/
def lagopusMatchAndAction (env : Env) (db : Flowdb) (cache : Flowcache) (run : Run) : Outcome :=
  match dpOpenflowDoCachedAction env cache run with
  | .ok (run, .notFound) =>
    andThen (matchLoop env db (LAGOPUS_DP_PIPELINE_MAX + 1) run) (dpOpenflowDoActionSet env)
  | o => andThen o (dpOpenflowDoActionSet env)

/-- The cache after a packet. -/
def Flowcache.after (cache : Flowcache) (run : Run) : Flowcache :=
  run.registered.foldl (fun cache flow => registerCache cache ⟨run.hash64, flow⟩) cache

end Lagopus
