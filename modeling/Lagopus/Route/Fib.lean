import Lagopus.Lib.Trace
import Lagopus.Route.Rib
import Lagopus.Mactable.Learning

/-!
# Cached routes

A worker answers from its cache as long as it has not seen a switch of the route and ARP tables.  What
it has cached also depends on the MAC table, which is switched on its own schedule; and two switches
between two lookups look like none.

* `L3.Coherent`: a cache that will be used agrees with the tables;
* `coherent_ribLookup`, `coherent_ribUpdate`: how the steps keep it so;
* `L3.Handled`: what a lookup ought to do;
* `lookups_handled`: every run without the steps that spoil a cache, and without packets that expire,
  handles its lookups so.
-/

namespace Lagopus.Route

open L2 Function

/-! ## The MAC table -/

theorem lookupPort_lookupPort (m : Mactable) (l : LocalData) (a b : Inteth) :
    (lookupPort m (lookupPort m l a).1 b).2 = (lookupPort m l b).2 := by
  obtain ⟨-, href, -, hcache, -⟩ := lookupPort_spec m l a
  rw [(lookupPort_spec m _ b).1, (lookupPort_spec m l b).1]
  have hfresh : m.freshPort (lookupPort m l a).1 b =
      if b = a then (m.freshPort l a).or (m.readPort a) else m.freshPort l b := by
    rw [Mactable.freshPort, if_neg (by simp [Mactable.Switched, href]), hcache]
  rw [hfresh]
  split_ifs with hb
  · subst hb
    rw [Option.or_assoc, Option.or_self]
  · rfl

namespace L3

variable {s s' : L3} {i j : Worker}

/-- The port that a worker finds for an address. -/
def port (s : L3) (i : Worker) (mac : Mac) : Port := (s.mactablePortLookup i mac).2

theorem port_mactablePortLookup (s : L3) (i j : Worker) (a b : Mac) :
    (s.mactablePortLookup i a).1.port j b = s.port j b := by
  unfold port mactablePortLookup Mactable.setLocal
  by_cases hj : j = i
  · subst hj
    simp only [update_self]
    exact lookupPort_lookupPort s.mactable _ a b
  · simp only [update_of_ne hj]
    rfl

theorem slow_congr (hread : s'.rib.reading = s.rib.reading)
    (hport : ∀ mac, s'.port j mac = s.port j mac) (dstIp : Addr) : s'.slow j dstIp = s.slow j dstIp := by
  unfold slow
  simp only [hread]
  congr 1
  funext hop
  congr 1
  funext arp
  rw [show (s'.mactablePortLookup j arp.mac).2 = (s.mactablePortLookup j arp.mac).2 from hport arp.mac]

theorem reading_setFib (s : L3) (i : Worker) (fib : Fib) :
    (s.setFib i fib).rib.reading = s.rib.reading := rfl

theorem slow_setFib (s : L3) (i j : Worker) (fib : Fib) (dstIp : Addr) :
    (s.setFib i fib).slow j dstIp = s.slow j dstIp := rfl

theorem slow_mactablePortLookup (s : L3) (i j : Worker) (mac : Mac) (dstIp : Addr) :
    (s.mactablePortLookup i mac).1.slow j dstIp = s.slow j dstIp := by
  apply slow_congr
  · rfl
  · exact port_mactablePortLookup s i j mac

variable {e : FibEntry}

theorem slow_eq_some_iff {dstIp : Addr} : s.slow i dstIp = some e ↔ ∃ hop arp,
      routeEntryGet s.rib.reading.routeTable dstIp IPV4_BITLEN = some hop ∧
      s.rib.reading.arpTable.get (hop.nexthop dstIp) = some arp ∧ arp.ifindex ≠ -1 ∧
      e = ⟨dstIp, hop.mac, arp.mac, s.port i arp.mac⟩ := by
  unfold slow
  rw [Option.bind_eq_some_iff]
  refine exists_congr fun hop => ?_
  rw [Option.bind_eq_some_iff]
  constructor
  · rintro ⟨hroute, arp, harp, h⟩
    split_ifs at h with hif
    cases h
    exact ⟨arp, hroute, harp, hif, rfl⟩
  · rintro ⟨arp, hroute, harp, hif, rfl⟩
    exact ⟨hroute, arp, harp, by rw [if_neg hif]; rfl⟩

theorem slow_dstIp {dstIp : Addr} (h : s.slow i dstIp = some e) : e.dstIp = dstIp := by
  obtain ⟨hop, arp, -, -, -, rfl⟩ := slow_eq_some_iff.1 h
  rfl

/-! ## Coherent caches -/

/-- A worker that has seen the last switch has cached what the tables say now. -/
def Coherent (s : L3) : Prop :=
  ∀ i, (s.rib.fib i).referredTable = s.rib.readTable →
    ∀ dstIp e, (s.rib.fib i).localcache.get dstIp = some e → s.slow i dstIp = some e

theorem coherent_init : init.Coherent := by
  intro i _ dstIp e he
  cases he

theorem findFibEntry_eq (r : Rib) (fib : Fib) (dstIp : Addr) : findFibEntry r fib dstIp =
      if fib.referredTable = r.readTable then (fib, fib.localcache.get dstIp)
      else ({ fib with referredTable := r.readTable, localcache := .empty }, none) := by
  obtain ⟨localcache, referredTable, referring⟩ := fib
  unfold findFibEntry ribCheckReferred
  cases referredTable <;> cases r.readTable <;> rfl

theorem get_of_findFibEntry {ip dstIp : Addr}
    (he : ((s.setFib i (findFibEntry s.rib (s.rib.fib i) ip).1).rib.fib i).localcache.get dstIp =
      some e) : (s.rib.fib i).localcache.get dstIp = some e := by
  simp only [setFib, update_self] at he
  rw [findFibEntry_eq] at he
  split_ifs at he
  · exact he
  · cases he

theorem coherent_setFib (h : s.Coherent) {fib : Fib} (hfib : fib.referredTable = s.rib.readTable →
      ∀ dstIp e, fib.localcache.get dstIp = some e → s.slow i dstIp = some e) :
    (s.setFib i fib).Coherent := by
  intro j href dstIp e he
  by_cases hj : j = i
  · subst hj
    simp only [setFib, update_self] at href he
    exact hfib href dstIp e he
  · simp only [setFib, update_of_ne hj] at href he
    exact h j href dstIp e he

theorem coherent_findFibEntry (h : s.Coherent) (i : Worker) (dstIp : Addr) :
    (s.setFib i (findFibEntry s.rib (s.rib.fib i) dstIp).1).Coherent := by
  apply coherent_setFib h
  rw [findFibEntry_eq]
  split_ifs with href
  · exact fun _ => h i href
  · intro _ d e he
    cases he

theorem coherent_mactablePortLookup (h : s.Coherent) (i : Worker) (mac : Mac) :
    (s.mactablePortLookup i mac).1.Coherent := by
  intro j href dstIp e he
  rw [slow_mactablePortLookup]
  exact h j href dstIp e he

/-! ## Lookups -/

theorem rewritePktHeader_spec (pkt : L3Packet) (src dst : Mac) :
    (rewritePktHeader pkt src dst).1.etherShost = src ∧
      (rewritePktHeader pkt src dst).1.etherDhost = dst ∧
      (rewritePktHeader pkt src dst).1.ipDst = pkt.ipDst := by
  unfold rewritePktHeader
  dsimp only
  split_ifs <;> exact ⟨rfl, rfl, rfl⟩

/-- The four ways a lookup can go. -/
inductive Goes (s : L3) (i : Worker) (pkt : L3Packet) :
    L3 × L3Packet × LookupResult × Bool → Prop
  /-- The cache has the destination. -/
  | cached {e : FibEntry} : (s.rib.fib i).referredTable = s.rib.readTable →
      (s.rib.fib i).localcache.get pkt.ipDst = some e →
      Goes s i pkt (s, { (rewritePktHeader pkt e.srcMac e.dstMac).1 with outputPort := e.outputPort },
        .ok, true)
  | noRoute : s.slow i pkt.ipDst = none →
      Goes s i pkt (s.setFib i (findFibEntry s.rib (s.rib.fib i) pkt.ipDst).1,
        { pkt with freed := true }, .notFound, false)
  | kernel : s.slow i pkt.ipDst = none →
      Goes s i pkt (s.setFib i (findFibEntry s.rib (s.rib.fib i) pkt.ipDst).1,
        { pkt with sendKernel := true }, .ok, false)
  /-- The tables have it, and so has the cache then. -/
  | routed {e : FibEntry} : s.slow i pkt.ipDst = some e →
      Goes s i pkt
        (((s.setFib i (findFibEntry s.rib (s.rib.fib i) pkt.ipDst).1).mactablePortLookup i e.dstMac).1.setFib
            i (addFibEntry (findFibEntry s.rib (s.rib.fib i) pkt.ipDst).1 e),
          { (rewritePktHeader pkt e.srcMac e.dstMac).1 with outputPort := e.outputPort },
          (rewritePktHeader pkt e.srcMac e.dstMac).2, false)

theorem goes_ribLookup (s : L3) (i : Worker) (pkt : L3Packet) : s.Goes i pkt (s.ribLookup i pkt) := by
  unfold ribLookup
  cases hfind : findFibEntry s.rib (s.rib.fib i) pkt.ipDst with
  | mk fib found =>
    have hfib : fib = (findFibEntry s.rib (s.rib.fib i) pkt.ipDst).1 := by rw [hfind]
    cases found with
    | some e =>
      rw [findFibEntry_eq] at hfind
      split_ifs at hfind with href
      · exact .cached href (Prod.mk.inj hfind).2
      · cases (Prod.mk.inj hfind).2
    | none =>
      subst hfib
      simp only [reading_setFib]
      cases hroute : routeEntryGet s.rib.reading.routeTable pkt.ipDst IPV4_BITLEN with
      | none => exact .noRoute (by simp [slow, hroute])
      | some hop =>
        dsimp only
        cases harp : s.rib.reading.arpTable.get (hop.nexthop pkt.ipDst) with
        | none => exact .kernel (by simp [slow, hroute, harp])
        | some arp =>
          dsimp only
          split_ifs with hif
          · exact .kernel (by simp [slow, hroute, harp, hif])
          · have hslow : s.slow i pkt.ipDst =
                some ⟨pkt.ipDst, hop.mac, arp.mac, s.port i arp.mac⟩ := by
              simp [slow, hroute, harp, hif, port]
            have hfib : ((s.setFib i (findFibEntry s.rib (s.rib.fib i) pkt.ipDst).1).mactablePortLookup
                i arp.mac).1.rib.fib i = (findFibEntry s.rib (s.rib.fib i) pkt.ipDst).1 :=
              update_self ..
            obtain ⟨-, hdhost, hip⟩ := rewritePktHeader_spec pkt hop.mac arp.mac
            have hgoes := Goes.routed hslow
            simp only [hdhost, hip] at hgoes
            simp only [hdhost, hip, hfib]
            exact hgoes

theorem coherent_ribLookup (h : s.Coherent) (i : Worker) (pkt : L3Packet) :
    (s.ribLookup i pkt).1.Coherent := by
  have hfound := coherent_findFibEntry h i pkt.ipDst
  generalize hr : s.ribLookup i pkt = r
  have hgoes := s.goes_ribLookup i pkt
  rw [hr] at hgoes
  cases hgoes with
  | cached _ _ => exact h
  | noRoute _ => exact hfound
  | kernel _ => exact hfound
  | @routed e hslow =>
    apply coherent_setFib (coherent_mactablePortLookup hfound i e.dstMac)
    intro href dstIp d hd
    rw [slow_mactablePortLookup, slow_setFib]
    rw [addFibEntry, KeyedStore.get_put] at hd
    by_cases heq : dstIp = e.dstIp
    · subst heq
      rw [update_self] at hd
      cases hd
      rw [slow_dstIp hslow]
      exact hslow
    · rw [update_of_ne heq] at hd
      have hold := hfound i
      rw [setFib] at hold
      simp only [update_self] at hold
      exact hold href dstIp d hd

/-! ## Runs -/

/-- What happens on the bridge: a notification from the kernel, the two updaters, learning and the
like in the MAC table, and packets. -/
inductive Event where
  | notify (n : Notification)
  | ribUpdate
  | mac (e : L2.Event)
  | lookup (i : Worker) (pkt : L3Packet)

def step (s : L3) : Event → L3
  | .notify n => { s with rib := { s.rib with notificationQueue := s.rib.notificationQueue ++ [n] } }
  | .ribUpdate => { s with rib := ribUpdate s.rib }
  | .mac e => { s with mactable := s.mactable.step e }
  | .lookup i pkt => (s.ribLookup i pkt).1

/-- What a lookup ought to do. -/
structure LookedUp (s : L3) (i : Worker) (pkt : L3Packet) : Prop where
  /-- From the cache, a packet gets the addresses and the port it would get from the tables. -/
  cached : (s.ribLookup i pkt).2.2.2 = true → ∃ e, s.slow i pkt.ipDst = some e ∧
    (s.ribLookup i pkt).2.1.etherShost = e.srcMac ∧
    (s.ribLookup i pkt).2.1.etherDhost = e.dstMac ∧ (s.ribLookup i pkt).2.1.outputPort = e.outputPort
  /-- A packet that expires is not sent on by the caller, unless to the kernel. -/
  notSent : pkt.ttl ≤ 1 → (s.ribLookup i pkt).2.2.1 = .ok → (s.ribLookup i pkt).2.1.sendKernel = true
  /-- Nor does it leave anything in the cache. -/
  notCached : pkt.ttl ≤ 1 → ∀ dstIp e,
    ((s.ribLookup i pkt).1.rib.fib i).localcache.get dstIp = some e →
      (s.rib.fib i).localcache.get dstIp = some e

/-- What an event ought to do. -/
def Handled (s : L3) : Event → Prop
  | .lookup i pkt => s.LookedUp i pkt
  | _ => True

/-- An event that leaves the caches as good as they are: tables are switched when every worker has
seen the last switch, or has nothing cached; the MAC table keeps the ports that are cached; and a
packet that expires has nothing to be found. -/
def KeepsCaches (s : L3) : Event → Prop
  | .notify _ => True
  | .ribUpdate => ∀ i, (s.rib.fib i).referredTable = s.rib.readTable ∨
      (s.rib.fib i).localcache.entries = []
  | .mac e => ∀ i, (s.rib.fib i).referredTable = s.rib.readTable →
      ∀ f ∈ (s.rib.fib i).localcache.entries, (s.step (.mac e)).port i f.dstMac = f.outputPort
  | .lookup i pkt => pkt.ttl ≤ 1 →
      (findFibEntry s.rib (s.rib.fib i) pkt.ipDst).2 = none ∧ s.slow i pkt.ipDst = none

instance (s : L3) (e : Event) : Decidable (s.KeepsCaches e) := by
  cases e <;> unfold KeepsCaches <;> infer_instance

theorem coherent_ribUpdate (h : s.Coherent) (hkeeps : s.KeepsCaches .ribUpdate) : (s.step .ribUpdate).Coherent := by
  unfold step ribUpdate
  split_ifs
  · exact h
  · -- the workers that have seen the switch before have not seen this one
    intro i href dstIp e he
    rcases hkeeps i with hseen | hempty
    · rw [hseen] at href
      exact absurd href (by simp)
    · rw [KeyedStore.get_eq_some_iff] at he
      rw [hempty] at he
      cases he.1

theorem coherent_mac (h : s.Coherent) {e : L2.Event} (hkeeps : s.KeepsCaches (.mac e)) :
    (s.step (.mac e)).Coherent := by
  intro i href dstIp f hf
  have hport := hkeeps i href f ((s.rib.fib i).localcache.get_eq_some_iff.1 hf).1
  obtain ⟨hop, arp, hroute, harp, hif, rfl⟩ := slow_eq_some_iff.1 (h i href dstIp f hf)
  exact slow_eq_some_iff.2 ⟨hop, arp, hroute, harp, hif, by rw [hport]⟩

theorem lookedUp_of_keepsCaches (h : s.Coherent) {pkt : L3Packet} (hkeeps : s.KeepsCaches (.lookup i pkt)) :
    s.LookedUp i pkt := by
  have hgoes := s.goes_ribLookup i pkt
  constructor
  all_goals
    generalize s.ribLookup i pkt = r at hgoes
    cases hgoes
  case cached.cached e href he =>
    intro _
    obtain ⟨hsrc, hdst, -⟩ := rewritePktHeader_spec pkt e.srcMac e.dstMac
    exact ⟨e, h i href _ e he, hsrc, hdst, rfl⟩
  case cached.noRoute | cached.kernel | cached.routed => intro hhit; cases hhit
  case notSent.cached e href he =>
    intro httl
    have hnone := (hkeeps httl).1
    rw [findFibEntry_eq, if_pos href, he] at hnone
    cases hnone
  case notSent.noRoute => intro _ hok; cases hok
  case notSent.kernel => intro _ _; rfl
  case notSent.routed e hslow =>
    intro httl
    rw [(hkeeps httl).2] at hslow
    cases hslow
  case notCached.cached => exact fun _ _ _ he => he
  case notCached.noRoute | notCached.kernel => exact fun _ _ _ he => get_of_findFibEntry he
  case notCached.routed e hslow =>
    intro httl
    rw [(hkeeps httl).2] at hslow
    cases hslow

/-- In every run of events that keep the caches, a packet that is answered from a cache is rewritten as
the tables say at that moment, and a packet that expires is neither sent nor cached. -/
theorem lookups_handled {events : List Event} (hkeeps : Trace.EveryStep step KeepsCaches init events) :
    Trace.EveryStep step Handled init events := by
  apply Trace.EveryStep.of_invariant _ coherent_init hkeeps
  intro s e hs hc
  cases e with
  | notify n => exact ⟨trivial, hs⟩
  | ribUpdate => exact ⟨trivial, coherent_ribUpdate hs hc⟩
  | mac e => exact ⟨trivial, coherent_mac hs hc⟩
  | lookup i pkt => exact ⟨lookedUp_of_keepsCaches hs hc, coherent_ribLookup hs i pkt⟩

/-- The first worker. -/
def worker : Worker := ⟨0, by decide⟩

/-- A network behind a gateway, and the gateway. -/
def gatewayKnown : List Event :=
  [.notify (.routeAdd ⟨0x0a000000, ⟨8, by decide⟩, ⟨0xc0a80001, 1, 0, 0x10⟩⟩),
    .notify (.arpAdd ⟨0xc0a80001, 1, 0x20⟩), .ribUpdate]

/-- A packet for the network. -/
def packetFor (ttl : BitVec 8) : L3Packet := ⟨0x0a000007, ttl, 0, 0, 0, false, false⟩

/-- The MAC table learns where the gateway is, after a packet was sent there. -/
def gatewayMoves : List Event :=
  gatewayKnown ++ [.lookup worker (packetFor 64), .mac (.entryUpdate worker 0x20 5),
    .mac (.update .asKept fun _ => 0)]

/-- The gateway gets another address, and the tables are switched twice. -/
def gatewayReplaced : List Event :=
  gatewayKnown ++ [.lookup worker (packetFor 64), .notify (.arpAdd ⟨0xc0a80001, 1, 0x30⟩), .ribUpdate,
    .ribUpdate]

/-- A packet expires. -/
def packetExpires : List Event := gatewayKnown ++ [.lookup worker (packetFor 1)]

/-- The next packet is answered from the cache: with the port from before the gateway was learned,
with the address that it no longer has, and although it expires as the one before, which left the
entry. -/
theorem cached_routes_are_stale :
    (((gatewayMoves.foldl step init).ribLookup worker (packetFor 64)).2.2.2 = true ∧
      ((gatewayMoves.foldl step init).ribLookup worker (packetFor 64)).2.1.outputPort = OFPP_ALL ∧
      ((gatewayMoves.foldl step init).slow worker 0x0a000007).map FibEntry.outputPort = some 5) ∧
    (((gatewayReplaced.foldl step init).ribLookup worker (packetFor 64)).2.2.2 = true ∧
      ((gatewayReplaced.foldl step init).ribLookup worker (packetFor 64)).2.1.etherDhost = 0x20 ∧
      ((gatewayReplaced.foldl step init).slow worker 0x0a000007).map FibEntry.dstMac = some 0x30) ∧
    (((packetExpires.foldl step init).ribLookup worker (packetFor 1)).2.2.2 = true ∧
      ((packetExpires.foldl step init).ribLookup worker (packetFor 1)).2.2.1 = .ok) ∧
    ¬ (gatewayMoves.foldl step init).LookedUp worker (packetFor 64) := by
  refine ⟨⟨by decide +kernel, by decide +kernel, by decide +kernel⟩,
    ⟨by decide +kernel, by decide +kernel, by decide +kernel⟩,
    ⟨by decide +kernel, by decide +kernel⟩, ?_⟩
  intro h
  obtain ⟨e, hslow, -, -, hport⟩ := h.cached (by decide +kernel)
  have hmap : ((gatewayMoves.foldl step init).slow worker 0x0a000007).map FibEntry.outputPort = some 5 := by
    decide +kernel
  have hall : ((gatewayMoves.foldl step init).ribLookup worker (packetFor 64)).2.1.outputPort = OFPP_ALL := by
    decide +kernel
  rw [show (0x0a000007 : Addr) = (packetFor 64).ipDst from rfl, hslow, Option.map_some, ← hport,
    hall] at hmap
  exact absurd hmap (by decide)

/-- Packets before and after a switch that the worker notices. -/
theorem lookups_handled_gateway :
    Trace.EveryStep step Handled init (gatewayKnown ++
      [.lookup worker (packetFor 64), .lookup worker (packetFor 64), .ribUpdate, .lookup worker (packetFor 64)]) :=
  lookups_handled (by decide +kernel)

end L3

end Lagopus.Route
