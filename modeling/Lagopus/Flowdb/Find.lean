import Lagopus.Flowdb.Invariant
import Lagopus.Flowinfo.Classifier
import Lagopus.Lib.KeyedStore

/-!
# Lookups in the tables that flow mods leave

The flow database writes the flow list and the index of a table, and the data path follows the pointer
that it finds in the index.  After any calls it finds an entry of the flow list that hits the packet with
the greatest priority; what it may miss is an entry of priority 0.  That holds of admissible match lists:
the checks let others through, too.
-/

namespace Lagopus

open PrioritySearch Packet

variable {b : Bridge} {t : TableId} {p : Packet}

theorem Bridge.find_flowdb (b : Bridge) (t : TableId) (p : Packet) : b.flowdb.find t p =
    (Index.lagopusFindFlow (b.getTable t).userdata p).1.bind fun x =>
      ((b.flows t).find? fun g => g.head.id = x.id).map Flow.entry := by
  unfold Flowdb.find Bridge.flowdb Bridge.flows Bridge.getTable
  rw [dif_pos t.isLt]
  cases b.tables t with
  | none => rfl
  | some table =>
    show Option.bind _ (fun x => (table.flowList.map Flow.entry).find? _) = _
    simp only [List.find?_map]
    rfl

/-- No two entries of a table have one address. -/
theorem Bridge.Sound.find?_id (h : b.Sound) {f : Flow} (hf : f ∈ b.flows t) :
    (b.flows t).find? (fun g => g.head.id = f.head.id) = some f := by
  have hids : (List.map FlowHead.id ((b.getTable t).flowList.map Flow.head)).Nodup :=
    (h.tables t).distinct
  rw [List.map_map, flowList_getTable] at hids
  exact (KeyedStore.mk (b.flows t) hids).get_eq_some_iff.mpr ⟨hf, rfl⟩

/-- The entry found hits the packet, with the greatest priority; if there is none, only entries of
priority 0 do, one of which is filed by a mask. -/
def Bridge.FindsBest (b : Bridge) (t : TableId) (p : Packet) : Prop :=
  (∃ f ∈ b.flows t, b.flowdb.find t p = some f.entry ∧ f.head.Hits p ∧
    ∀ g ∈ b.flows t, g.head.Hits p → g.head.priority ≤ f.head.priority) ∨
  (b.flowdb.find t p = none ∧ ∀ g ∈ b.flows t, g.head.Hits p →
    g.head.priority = 0 ∧ ∃ k ∈ b.flows t, k.head.Hits p ∧ MaskFiled t k.head)

/-- **What the data path finds** after any calls of the flow database. -/
theorem Bridge.Reachable.findsBest (h : b.Reachable)
    (hadm : ∀ f ∈ b.flows t, Admissible f.head.matchList) (hp : p.Classified) : b.FindsBest t p := by
  obtain ⟨L, hrep, hperm⟩ := (h.sound.tables t).indexed
  have hmem : ∀ x, x ∈ L ↔ ∃ f ∈ b.flows t, f.head = x := by
    intro x
    rw [hperm.mem_iff, FlowTable.heads, flowList_getTable, List.mem_map]
  have hok : ∀ x ∈ L, KeySound p x := by
    intro x hx
    obtain ⟨f, hf, rfl⟩ := (hmem x).mp hx
    exact keySound (hadm f hf) hp.vlan
  obtain ⟨b', hfound⟩ := index_searches hrep hok
  unfold Bridge.FindsBest
  rw [b.find_flowdb]
  cases hr : (Index.lagopusFindFlow (b.getTable t).userdata p).1 with
  | none =>
    refine .inr ⟨rfl, fun g hg hhit => ?_⟩
    have hgL : g.head ∈ L := (hmem _).mpr ⟨g, hg, rfl⟩
    rw [hr] at hfound
    rcases hfound with ⟨hbest, -⟩ | ⟨-, -, -, hle, x, hx, -, hmask⟩
    · have hneg := hbest g.head ⟨hgL, hhit⟩
      have hprio := g.head.prio_nonneg
      omega
    · obtain ⟨k, hk, rfl⟩ := (hmem x).mp hx.1
      have hprio : (g.head.priority : Int) ≤ 0 := hle g.head ⟨hgL, hhit⟩
      exact ⟨by omega, k, hk, hx.2, hmask⟩
  | some x =>
    rw [hr] at hfound
    rcases hfound with ⟨⟨hx, -, hle⟩, -⟩ | ⟨-, hnone, -⟩
    · obtain ⟨f, hf, rfl⟩ := (hmem x).mp hx.1
      refine .inl ⟨f, hf, ?_, hx.2, fun g hg hhit => ?_⟩
      · show Option.map _ _ = _
        rw [h.sound.find?_id hf]
        rfl
      · exact Int.ofNat_le.mp (hle g.head ⟨(hmem _).mpr ⟨g, hg, rfl⟩, hhit⟩)
    · cases hnone

/-- An entry for 10.0.0.2, and a packet that goes there. -/
theorem Bridge.findsBest_dstList : ∃ (b : Bridge) (p : Packet),
    (b.flows 0).map Flow.head = [⟨0, 1, dstList⟩] ∧ b.FindsBest 0 p := by
  obtain ⟨p, hp⟩ : ∃ p, (ofFrame ipv4Frame).packetInit 1 1 = some p := ⟨_, rfl⟩
  have hreach : ∀ call, (FlowdbCall.run {} call).Reachable := fun call => ⟨{}, fun _ => rfl, [call], rfl⟩
  have hheads : ((FlowdbCall.run {} (.add { tableId := some 0, priority := 1 } dstList [])).flows 0).map
      Flow.head = [⟨0, 1, dstList⟩] := by decide
  refine ⟨_, p, hheads, (hreach _).findsBest (fun f hf => ?_) (classifyEtherPacket_classified hp)⟩
  have hhead : f.head = ⟨0, 1, dstList⟩ := List.mem_singleton.mp (hheads ▸ List.mem_map_of_mem hf)
  rw [hhead]
  exact ⟨by decide, by decide, { ofFrame ipv4Frame with etherType := ETHERTYPE_IP }, by decide⟩

end Lagopus
