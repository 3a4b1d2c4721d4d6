import Lagopus.Datastore.HistoryCalls
import Lagopus.Lib.Trace

/-!
# The enabled flag of a port follows what was last asked

* `allAgree_committing`: the first pass of a commit brings the flag of every port to what was last asked;
* `follows_of_marksAllow`: the histories whose steps the marks allow follow what was last asked,
  all along;
* `disable_enable_not_follows`: a transaction that disables a port and enables it again.
-/

namespace Lagopus.Datastore

open Prog World Function Trace

/-! ## Commits -/

namespace History

variable {wanted : Name → Bool}

/-- The ports, of which the flags will be right after the commit, are among the names. -/
def Soon (wanted : Name → Bool) (names : List Name) (w : World) : Prop :=
  AllAgree .atomic wanted (flagsOf w) ∧ ∀ n f, flagsOf w n = some f → n ∈ names

/-- The flag of a port is right already. -/
def Done (wanted : Name → Bool) (n : Name) (w : World) : Prop :=
  ∀ f, flagsOf w n = some f → f.isEnabled = wanted n

variable {f : Flags}

theorem FlagsAgree.set {b : Bool} (h : FlagsAgree .atomic b f) (cleared : Bool) :
    FlagsAgree .committing b (if cleared then f.set.clear else f.set) := by
  obtain ⟨e, i, d⟩ := f
  revert cleared e i d b
  decide

variable {state : InterpState}

theorem FlagsAgree.toAtomic {b : Bool} (h : FlagsAgree state b f) : FlagsAgree .atomic b f :=
  ⟨h.1, h.2.1, fun h => absurd rfl h⟩

variable {w : World} {n : Name}

theorem update_committing_flags {c : Conf PortAttr} (hc : portTable.find w n = some c) :
    ∃ cleared : Bool, flagsOf (port.update .committing n w).2 =
      update (flagsOf w) n (some (if cleared then c.flags.set.clear else c.flags.set)) := by
  set w₁ := portTable.alter n Conf.isEnabledSet w with hw₁
  have hc₁ : portTable.find w₁ n = some c.isEnabledSet := portTable_lawful.find_alter_self hc
  have hflags₁ : flagsOf w₁ = update (flagsOf w) n (some c.flags.set) := by
    rw [hw₁, flagsOf_alter _ Flags.set Conf.flags_isEnabledSet, flagsOf_of_find hc]
    rfl
  have hr : port.update .committing n w = Port.doUpdate .committing n false false w₁ := by
    show portTable.withConf n _ w = _
    rw [Table.withConf_of_some hc]
    rfl
  rw [hr]
  rcases Port.doUpdate_flags .committing false false hc₁ with ⟨hsame, -⟩ | ⟨hclear, -⟩
  · exact ⟨false, by rw [hsame, hflags₁]; rfl⟩
  · exact ⟨true, by rw [hclear, hflags₁, update_idem, Conf.flags_isEnabledSet]; rfl⟩

theorem find_of_update_ok (hok : (port.update state n w).1 = true) : ∃ c, portTable.find w n = some c := by
  cases hc : portTable.find w n with
  | some c => exact ⟨c, rfl⟩
  | none =>
    rw [show port.update state n w = (false, w) from Table.withConf_of_none hc] at hok
    exact absurd hok Bool.false_ne_true

theorem allAgree_committing {names : List Name} (h : Soon wanted names w)
    (hok : (forEach (port.update .committing) names w).1 = true) :
    AllAgree .committing wanted (flagsOf (forEach (port.update .committing) names w).2) := by
  have hstep : ∀ n w, Soon wanted names w → (port.update .committing n w).1 = true →
      Soon wanted names (port.update .committing n w).2 ∧
        Done wanted n (port.update .committing n w).2 := by
    rintro n w ⟨hagree, hnames⟩ hok
    obtain ⟨c, hc⟩ := find_of_update_ok hok
    have hflags := flagsOf_of_find hc
    obtain ⟨cleared, hafter⟩ := update_committing_flags hc
    have hset := (hagree n _ hflags).set cleared
    rw [Soon, Done, hafter]
    refine ⟨⟨hagree.update_same ?_, ?_⟩, ?_⟩
    · rintro f ⟨⟩
      exact hset.toAtomic
    · intro m f hf
      by_cases hm : m = n
      · exact hm ▸ hnames n _ hflags
      · rw [update_of_ne hm] at hf
        exact hnames m f hf
    · intro f hf
      rw [update_self] at hf
      rw [← Option.some.inj hf]
      exact hset.2.2 (by simp)
  have hold : ∀ n m w, Soon wanted names w → (port.update .committing n w).1 = true →
      Done wanted m w → Done wanted m (port.update .committing n w).2 := by
    intro n m w hw hok hm
    by_cases hmn : m = n
    · exact hmn ▸ (hstep n w hw hok).2
    · obtain ⟨c, hc⟩ := find_of_update_ok hok
      obtain ⟨cleared, hafter⟩ := update_committing_flags hc
      intro f hf
      rw [hafter, update_of_ne hmn] at hf
      exact hm f hf
  have hsoon := forEach_invariant (fun n w hw hn => (hstep n w hw hn).1) h hok
  have hdone := forEach_establishes (fun n w hw hn => (hstep n w hw hn).1)
    (fun n w hw hn => (hstep n w hw hn).2) hold h hok
  intro n f hf
  obtain ⟨hp, hx, -⟩ := hsoon.1 n f hf
  exact ⟨hp, hx, fun _ => hdone n (hsoon.2 n f hf) f hf⟩

theorem update_committed_flags (n : Name) (w : World) : flagsOf (port.update .committed n w).2 = flagsOf w ∨
      flagsOf (port.update .committed n w).2 = update (flagsOf w) n none := by
  cases hc : portTable.find w n with
  | none =>
    left
    rw [show port.update .committed n w = (false, w) from Table.withConf_of_none hc]
  | some c =>
    have hr : port.update .committed n w =
        (true, port.doDestroy .committed n (portTable.alter n (Conf.updateCurrentAttr .committed) w)) :=
      Table.withConf_of_some hc
    rw [hr, ← flagsOf_alter_same _ (Conf.flags_updateCurrentAttr .committed) n w]
    exact Port.doDestroy_flags .committed n _

theorem AllAgree.committed {names : List Name} (h : AllAgree state wanted (flagsOf w))
    (hok : (forEach (port.update .committed) names w).1 = true) :
    AllAgree state wanted (flagsOf (forEach (port.update .committed) names w).2) := by
  refine forEach_invariant (I := fun w => AllAgree state wanted (flagsOf w)) ?_ h hok
  intro n w hw _
  rcases update_committed_flags n w with heq | heq
  · rwa [heq]
  · rw [heq]
    exact hw.update_same fun f hf => absurd hf (by simp)

theorem updateUpToPorts_ok {w₀ : World} (hok : (updateUpToPorts state w₀ w).1 = true) :
    ∃ w₁, flagsOf w₁ = flagsOf w ∧
      updateUpToPorts state w₀ w = forEach (port.update state) (portNames w₀) w₁ := by
  have hleaf : ∀ k, Frames flagsOf (updateLeaves state w₀ k) := fun k =>
    frames_forEach ((ignoresFlags_flagsOf.leaf_outside k).update state) _
  exact (frames_forEach hleaf _).andThen_ok hok

theorem mem_portNames (h : flagsOf w n = some f) : n ∈ portNames w := by
  obtain ⟨c, hc, -⟩ := Option.map_eq_some_iff.mp h
  have hmem : n ∈ w.ports := AList.lookup_isSome.mp (by rw [show w.ports.lookup n = _ from hc]; rfl)
  exact (List.mem_insertionSort _).mpr (AList.mem_keys.mpr hmem)

theorem AllAgree.commitDisable (h : AllAgree .committing wanted (flagsOf w))
    (hok : (portDisablePropagation .committing n w).1 = true)
    (hi : ∀ f, flagsOf w n = some f → f.isEnabling = false) : AllAgree .committing (update wanted n false)
      (flagsOf (portDisablePropagation .committing n w).2) := by
  cases hc : portTable.find w n with
  | none =>
    rw [show portDisablePropagation .committing n w = (false, w) from Table.withConf_of_none hc] at hok
    exact absurd hok Bool.false_ne_true
  | some c =>
    have hr : portDisablePropagation .committing n w = _ := Table.withConf_of_some hc
    rw [if_neg (by simp)] at hr
    cases hsw : (port.switchTo .committing n false false w).1 with
    | false =>
      rw [hr, andThen_of_fail hsw] at hok
      exact absurd hok Bool.false_ne_true
    | true =>
      obtain ⟨cleared, hafter⟩ := Port.switchTo_committing_flags hc hsw
      have hflags : flagsOf (portDisablePropagation .committing n w).2 =
          update (flagsOf w) n (some (c.flags.switched cleared c.isEnabling)) := by
        rw [hr, andThen_of_ok hsw, ← hafter]
        exact frames_ite (frames_withConf fun c =>
          Port.frames_namesDisableAll c.current .committing) frames_ok _
      have hci : c.isEnabling = false := hi _ (flagsOf_of_find hc)
      rw [hflags, hci]
      apply h.update_some
      cases cleared with
      | true => exact ⟨rfl, rfl, fun _ => rfl⟩
      | false => exact ⟨hci, by simp [Flags.switched, Conf.flags, hci], fun _ => rfl⟩

/-! ## Histories -/

theorem agrees_step {h : History} {e : Event} (hh : h.Agrees) (hc : h.Commits e)
    (hmarks : e.MarksAllow h) : (h.step e).Agrees := by
  have htake : ∀ {r : Bool × History}, h.take e = r → r.2.Agrees → (h.step e).Agrees := by
    intro r hr hagrees
    show (h.take e).2.Agrees
    rwa [hr]
  cases e with
  | call c =>
    by_cases hs : h.state = .autoCommit ∨ h.state = .atomic
    · have hr : h.take (.call c) = _ := if_pos hs
      change c.MarksAllow h.state h.world (h.take (.call c)).1 at hmarks
      rw [hr] at hmarks
      exact htake hr (c.agrees hs hh hmarks)
    · exact htake (if_neg hs) hh
  | begin =>
    by_cases hs : h.state = .autoCommit
    · exact htake (if_pos hs) fun n f hf => (hh n f hf).toAtomic
    · exact htake (if_neg hs) hh
  | commitPorts =>
    by_cases hs : h.state = .atomic
    · have hr : h.take .commitPorts = _ := if_pos hs
      change (h.take .commitPorts).1 = true at hc
      rw [hr] at hc
      obtain ⟨w₁, hw₁, hpass⟩ := updateUpToPorts_ok hc
      rw [hpass] at hc
      refine htake hr ?_
      show AllAgree .committing h.wanted (flagsOf (updateUpToPorts .committing h.world h.world).2)
      rw [hpass]
      apply allAgree_committing _ hc
      unfold Soon
      rw [hw₁]
      exact ⟨fun n f hf => (hh n f hf).toAtomic, fun n f hf => mem_portNames hf⟩
    · exact htake (if_neg hs) hh
  | commitBridge c =>
    cases c with
    | disable n =>
      by_cases hs : h.state = .committing
      · have hr : h.take (.commitBridge (.disable n)) = _ := if_pos hs
        change (h.take (.commitBridge (.disable n))).1 = true at hc
        rw [hr] at hc
        refine htake hr ?_
        show AllAgree h.state (update h.wanted n false) _
        unfold Agrees at hh
        rw [hs] at hh ⊢
        exact hh.commitDisable hc hmarks
      · exact htake (if_neg hs) hh
    | setUsed b n =>
      by_cases hs : h.state = .committing
      · refine htake (if_pos hs) ?_
        show AllAgree h.state h.wanted (flagsOf (portTable.setUsed b n h.world))
        rwa [ignoresFlags_flagsOf.setUsed]
      · exact htake (if_neg hs) hh
  | commitEnd =>
    by_cases hs : h.state = .committing
    · have hr : h.take .commitEnd = _ := if_pos hs
      change (h.take .commitEnd).1 = true at hc
      rw [hr] at hc
      obtain ⟨w₁, hw₁, hpass⟩ := updateUpToPorts_ok hc
      rw [hpass] at hc
      refine htake hr ?_
      show AllAgree .autoCommit h.wanted (flagsOf (updateUpToPorts .committed h.world h.world).2)
      rw [hpass]
      apply AllAgree.committed _ hc
      rw [hw₁]
      intro n f hf
      obtain ⟨hp, hx, he⟩ := hh n f hf
      exact ⟨hp, hx, fun _ => he (by rw [hs]; decide)⟩
    · exact htake (if_neg hs) hh

theorem Agrees.follows {h : History} (hh : h.Agrees) : h.Follows := by
  intro hs n c hc
  exact (hh n _ (flagsOf_of_find hc)).2.2 (by rw [hs]; decide)

/-- From a datastore without ports, whatever the other objects and the answers of the dataplane are:
every history whose transactions are successful and whose steps the marks of the ports allow follows what
was last asked. -/
theorem follows_of_marksAllow (w : World) (hw : w.ports = ∅) (wanted : Name → Bool) (es : List Event)
    (h : EveryStep step (fun h e => h.Commits e ∧ e.MarksAllow h) ⟨.autoCommit, w, wanted⟩ es) :
    EveryStep step (fun h e => (h.step e).Follows) ⟨.autoCommit, w, wanted⟩ es := by
  have hinit : Agrees ⟨.autoCommit, w, wanted⟩ := by
    intro n f hf
    simp [flagsOf, portTable, hw] at hf
  have hstep : ∀ (h : History) e, h.Agrees → (h.Commits e ∧ e.MarksAllow h) →
      (h.step e).Follows ∧ (h.step e).Agrees := by
    intro h e hh he
    have hnext := agrees_step hh he.1 he.2
    exact ⟨hnext.follows, hnext⟩
  exact EveryStep.of_invariant hstep hinit h

instance (h : History) (e : Event) : Decidable (h.Commits e) := by
  unfold Commits
  cases e <;> infer_instance

def start : History := ⟨.autoCommit, World.empty, fun _ => false⟩

/-- A port is created, used by a bridge and enabled by it. -/
def enabledPort : List Event :=
  [.call (.command (.create ":p" [])), .call (.setUsed true ":p"), .call (.enablePropagation ":p")]

/-- Such a port is disabled in a transaction: it is enabled before and disabled after the commit. -/
theorem follows_disable :
    EveryStep step (fun h e => (h.step e).Follows) start
      (enabledPort ++ [.begin, .call (.command (.disable ":p")), .commitPorts, .commitEnd]) := by
  apply follows_of_marksAllow World.empty rfl
  have henable : ∀ c, portTable.find ((enabledPort.take 2).foldl step start).world ":p" = some c →
      c.isDisabling = false := by
    intro c hc
    have h : (portTable.find ((enabledPort.take 2).foldl step start).world ":p").map (·.isDisabling) =
        some false := by decide
    rw [hc] at h
    exact Option.some.inj h
  refine ⟨⟨trivial, trivial⟩, ⟨trivial, trivial⟩, ⟨trivial, ?_⟩, ⟨trivial, trivial⟩, ⟨trivial, ?_⟩,
    ⟨by decide, trivial⟩, ⟨by decide, trivial⟩, trivial⟩
  · intro c hc _ hd
    exact absurd (henable c hc) (by simp [hd])
  · intro hs
    exact absurd hs (by decide)

/-- The port is disabled and enabled again in a transaction. -/
def disabledAndEnabled : List Event :=
  enabledPort ++ [.begin, .call (.command (.disable ":p")), .call (.command (.enable ":p")),
    .commitPorts, .commitEnd]

/-- The transaction succeeds; its enable does nothing, since the port is still enabled, and the commit
disables the port. -/
theorem disable_enable_not_follows :
    EveryStep step Commits start disabledAndEnabled ∧
      (disabledAndEnabled.foldl step start).wanted ":p" = true ∧
      (portTable.find (disabledAndEnabled.foldl step start).world ":p").map (·.isEnabled) = some false ∧
      ¬ (disabledAndEnabled.foldl step start).Follows := by
  have hflag : (portTable.find (disabledAndEnabled.foldl step start).world ":p").map (·.isEnabled) =
      some false := by decide
  refine ⟨by decide, by decide, hflag, fun hf => ?_⟩
  obtain ⟨c, hc, hoff⟩ := Option.map_eq_some_iff.mp hflag
  have hon := hf (by decide) ":p" c hc
  rw [hoff] at hon
  exact absurd hon (by decide)

end History

end Lagopus.Datastore
