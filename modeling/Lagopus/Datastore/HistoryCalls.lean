import Lagopus.Datastore.History

/-!
# Calls of the port module and the enabled flags

A call that the marks of its port allow keeps the flags of all ports what was last asked.

* `History.FlagsAgree`: the flags of one port, as a table of cases;
* `History.AllAgree`: the flags of all ports, one of which is changed;
* `PortCall.agrees`: every call.
-/

namespace Lagopus.Datastore

open Prog World Function

namespace History

variable {state : InterpState} {wanted : Name → Bool} {F G : Name → Option Flags} {n : Name}
  {b : Bool} {f : Flags}

namespace FlagsAgree

theorem clear (h : FlagsAgree state b f) (hs : state ≠ .atomic) : FlagsAgree state b f.clear := by
  obtain ⟨-, -, he⟩ := h
  refine ⟨?_, rfl, fun _ => he hs⟩
  rw [← he hs]
  unfold Flags.pending Flags.clear
  cases f.isEnabled <;> rfl

theorem enabled (h : FlagsAgree state b f) (he : f.isEnabled = true) (hd : f.isDisabling = false) :
    FlagsAgree state true f := by
  refine ⟨?_, h.2.1, fun _ => he⟩
  unfold Flags.pending
  rw [he, hd]
  rfl

variable (h : FlagsAgree .autoCommit b f)

include h

theorem isDisabling_eq_false (he : f.isEnabled = true) : f.isDisabling = false := by
  obtain ⟨e, i, d⟩ := f
  revert e i d b
  decide

variable (cleared : Bool)

theorem switched_true (hd : cleared = false → f.isDisabling = false) :
    FlagsAgree .autoCommit true (f.switched cleared true) := by
  obtain ⟨e, i, d⟩ := f
  revert cleared e i d b
  decide

theorem switched_false (hi : cleared = false → f.isEnabling = false) :
    FlagsAgree .autoCommit false (f.switched cleared false) := by
  obtain ⟨e, i, d⟩ := f
  revert cleared e i d b
  decide

theorem switched_back {e : Bool}
    (he : f.isEnabled = e) : FlagsAgree .autoCommit b (f.switched cleared e) := by
  subst he
  obtain ⟨e, i, d⟩ := f
  revert cleared e i d b
  decide

end FlagsAgree

namespace AllAgree

variable (h : AllAgree state wanted F)

include h

theorem update_some (hf : FlagsAgree state b f) :
    AllAgree state (update wanted n b) (update F n (some f)) := by
  intro m g hg
  by_cases hm : m = n
  · subst hm
    rw [update_self] at hg ⊢
    rwa [← Option.some.inj hg]
  · rw [update_of_ne hm] at hg ⊢
    exact h m g hg

theorem update_none : AllAgree state (update wanted n b) (update F n none) := by
  intro m g hg
  by_cases hm : m = n
  · subst hm
    exact absurd hg (by simp)
  · rw [update_of_ne hm] at hg ⊢
    exact h m g hg

theorem update_same {x : Option Flags}
    (hx : ∀ f, x = some f → FlagsAgree state (wanted n) f) : AllAgree state wanted (update F n x) := by
  rw [← update_eq_self n wanted]
  cases x with
  | none => exact h.update_none
  | some f => exact h.update_some (hx f rfl)

theorem calmed (hs : state ≠ .atomic) (hG : Calmed n F G) : AllAgree state wanted G := by
  rcases hG with rfl | rfl | rfl
  · exact h
  · apply h.update_same
    intro f hf
    obtain ⟨f', hf', rfl⟩ := Option.map_eq_some_iff.mp hf
    exact (h n f' hf').clear hs
  · exact h.update_same fun f hf => absurd hf (by simp)

end AllAgree

end History

namespace Port

open History

variable {state : InterpState} {wanted : Name → Bool} {n : Name} {w : World}

/-- The two states in which there are commands. -/
def TakesCommands (state : InterpState) : Prop := state = .autoCommit ∨ state = .atomic

theorem agrees_mark (h : AllAgree .atomic wanted (flagsOf w)) {c : Conf PortAttr}
    (hc : portTable.find w n = some c) {g : Conf PortAttr → Conf PortAttr}
    (hg : ∀ c, (g c).flags = ⟨c.isEnabled, false, true⟩) :
    AllAgree .atomic (update wanted n false) (flagsOf (portTable.alter n g w)) := by
  rw [flagsOf_alter g (fun f => ⟨f.isEnabled, false, true⟩) hg, flagsOf_of_find hc]
  apply h.update_some
  refine ⟨?_, rfl, fun h => absurd rfl h⟩
  unfold Flags.pending
  cases c.flags.isEnabled <;> rfl

variable (hs : TakesCommands state) (h : AllAgree state wanted (flagsOf w))

include hs h

theorem agrees_enable (hmarks : PortCall.MarksAllowEnable state w (port.enableInternal state n true w).1 n) :
    let r := port.enableInternal state n true w
    AllAgree state (if r.1 then update wanted n true else wanted) (flagsOf r.2) := by
  intro r
  cases hc : portTable.find w n with
  | none =>
    have hr : r = (false, w) := Table.withConf_of_none hc
    rw [hr]
    exact h
  | some c =>
    have hr : r = _ := Table.withConf_of_some hc
    have hflags := flagsOf_of_find hc
    have hagree := h n _ hflags
    specialize hmarks c hc
    change r.1 = true → _ at hmarks
    by_cases hused : port.hasParent = true ∧ ¬ c.isUsed = true
    · rw [hr, if_pos hused]
      exact h
    rw [if_neg hused] at hr
    cases hen : c.isEnabled with
    | true =>
      rw [if_pos hen] at hr
      rw [hr] at hmarks ⊢
      show AllAgree state (update wanted n true) (flagsOf w)
      rw [← update_eq_self n (flagsOf w), hflags]
      apply h.update_some
      apply hagree.enabled hen
      rcases hs with rfl | rfl
      · exact hagree.isDisabling_eq_false hen
      · by_contra hd
        exact absurd (hmarks rfl (by simpa [Conf.flags] using hd)) (by simp [hen])
    | false =>
      rw [if_neg (by simp [hen])] at hr
      rcases hs with rfl | rfl
      · rw [if_neg (by simp)] at hr
        obtain ⟨cleared, hafter, hcl⟩ := switchTo_flags (p := true) (b := true) hc
        rw [hr] at hmarks ⊢
        rw [hafter]
        cases hok : (port.switchTo .autoCommit n true true w).1 with
        | true =>
          apply h.update_some
          apply hagree.switched_true
          rintro rfl
          by_contra hd
          rcases hmarks hok (by simpa [Conf.flags] using hd) with h' | h'
          · exact absurd h' (by simp [hen])
          · exact absurd (hcl hok) (by simp [h'])
        | false =>
          apply h.update_same
          rintro f ⟨⟩
          exact hagree.switched_back cleared hen
      · rw [if_pos rfl] at hr
        rw [hr]
        show AllAgree .atomic (update wanted n true) (flagsOf (portTable.alter n _ w))
        rw [flagsOf_alter _ (fun f => { f with isEnabling := true, isDisabling := false })
          (fun _ => rfl), hflags]
        apply h.update_some
        exact ⟨by simp [Conf.flags, Flags.pending, hen], rfl, fun h => absurd rfl h⟩

theorem agrees_disable {p : Bool} (hmarks : state = .autoCommit →
      PortCall.MarksAllowDisable w (port.disableInternal state n p w).1 n) :
    let r := port.disableInternal state n p w
    AllAgree state (if r.1 then update wanted n false else wanted) (flagsOf r.2) := by
  intro r
  cases hc : portTable.find w n with
  | none =>
    have hr : r = (false, w) := Table.withConf_of_none hc
    rw [hr]
    exact h
  | some c =>
    have hr : r = _ := Table.withConf_of_some hc
    have hagree := h n _ (flagsOf_of_find hc)
    rcases hs with rfl | rfl
    · rw [if_neg (by simp)] at hr
      specialize hmarks rfl c hc
      change ite (_ = true) (ite (r.1 = true) _ _) _ at hmarks
      obtain ⟨cleared, hafter, hcl⟩ := switchTo_flags (p := false) (b := false) hc
      cases hok : (port.switchTo .autoCommit n false false w).1 with
      | false =>
        rw [if_neg (by simp [hok])] at hmarks
        rw [hr, andThen_of_fail hok]
        show AllAgree .autoCommit wanted (flagsOf (port.switchTo .autoCommit n false false w).2)
        rw [hafter, hok]
        apply h.update_same
        rintro f ⟨⟩
        exact hagree.switched_back cleared hmarks
      | true =>
        rw [if_pos hok] at hmarks
        have hflags : flagsOf r.2 = update (flagsOf w) n (some (c.flags.switched cleared false)) := by
          rw [hr, andThen_of_ok hok]
          refine Eq.trans (frames_ite (frames_withConf fun c =>
            frames_namesDisableAll c.current .autoCommit) frames_ok _) ?_
          rw [hafter, hok]
          rfl
        rw [hflags]
        cases hall : r.1 with
        | true =>
          rw [if_pos hall] at hmarks
          apply h.update_some
          apply hagree.switched_false
          rintro rfl
          by_contra hi
          exact absurd (hcl hok) (by simp [hmarks (by simpa [Conf.flags] using hi)])
        | false =>
          rw [if_neg (by simp [hall])] at hmarks
          apply h.update_same
          rintro f ⟨⟩
          exact hagree.switched_back cleared hmarks
    · rw [if_pos rfl] at hr
      rw [hr]
      exact agrees_mark h hc fun _ => rfl

theorem agrees_destroy {p : Bool} :
    let r := port.destroyInternal state n p w
    AllAgree state (if r.1 then update wanted n false else wanted) (flagsOf r.2) := by
  intro r
  cases hc : portTable.find w n with
  | none =>
    have hr : r = (false, w) := Table.withConf_of_none hc
    rw [hr]
    exact h
  | some c =>
    have hr : r = _ := Table.withConf_of_some hc
    by_cases hused : port.hasParent = true ∧ c.isUsed = true
    · rw [hr, if_pos hused]
      exact h
    rw [if_neg hused] at hr
    rcases hs with rfl | rfl
    · rw [if_neg (by simp)] at hr
      set w₁ := (port.namesDisableAll c.current .autoCommit w).2 with hw₁
      have hflags₁ : flagsOf w₁ = flagsOf w := frames_namesDisableAll c.current .autoCommit w
      have h₁ : AllAgree .autoCommit wanted (flagsOf w₁) := by rwa [hflags₁]
      have hgone : ∀ w₂, update (flagsOf w₂) n none = update (flagsOf w₁) n none →
          AllAgree .autoCommit (update wanted n false) (flagsOf (port.doDestroy .autoCommit n w₂)) := by
        intro w₂ hw₂
        rw [doDestroy_autoCommit_flags, hw₂]
        exact h₁.update_none
      change r = andThen _ _ w₁ at hr
      cases hen : c.isEnabled with
      | false =>
        rw [if_neg (by simp [hen])] at hr
        rw [hr]
        exact hgone w₁ rfl
      | true =>
        rw [if_pos hen] at hr
        obtain ⟨c₁, hc₁, hcf⟩ : ∃ c₁, portTable.find w₁ n = some c₁ ∧ c₁.flags = c.flags := by
          apply Option.map_eq_some_iff.mp
          exact (congrFun hflags₁ n).trans (flagsOf_of_find hc)
        obtain ⟨cleared, hafter, -⟩ := switchTo_flags (p := p) (b := false) hc₁
        cases hok : (port.switchTo .autoCommit n p false w₁).1 with
        | true =>
          rw [hr, andThen_of_ok hok]
          exact hgone _ (by rw [hafter, update_idem])
        | false =>
          rw [hr, andThen_of_fail hok]
          show AllAgree .autoCommit wanted (flagsOf (port.switchTo .autoCommit n p false w₁).2)
          rw [hafter, hok]
          apply h₁.update_same
          rintro f ⟨⟩
          apply (h₁ n _ (flagsOf_of_find hc₁)).switched_back cleared
          rw [hcf]
          exact hen
    · rw [if_pos rfl] at hr
      rw [hr]
      exact agrees_mark h hc fun _ => rfl

theorem agrees_createInternal (opts : List PortOption) :
    let r := portCommands.createInternal state n opts w
    AllAgree state (if r.1 then update wanted n false else wanted) (flagsOf r.2) := by
  intro r
  set w₁ := (portCommands.createOptions state n opts w).2 with hw₁
  have hflags₁ : flagsOf w₁ = update (flagsOf w) n (some ⟨false, false, false⟩) := by
    refine Eq.trans (frames_forEach (frames_optParse state false n) opts _) ?_
    exact flagsOf_put n _ w
  set w₂ := andThen (portCommands.createOptions state n opts)
    (portCommands.updateInternal state n true false) w with hw₂
  have hupd : Calmed n (flagsOf w₁) (flagsOf w₂.2) := by
    rw [hw₂, andThen]
    split
    · rcases hs with rfl | rfl
      · exact updateInternal_autoCommit_calmed
      · exact .inl (frames_updateInternal_atomic n true false w₁)
    · exact .inl rfl
  cases hok : w₂.1 with
  | false =>
    -- whatever the update did to the new port, a failure removes it
    have hr : r = (false, portTable.delete n w₂.2) := if_neg (by simp [← hw₂, hok])
    have hw : update (flagsOf w₂.2) n none = update (flagsOf w) n none := by
      rcases hupd with hu | hu | hu
      all_goals rw [hu, hflags₁]; simp only [update_idem]
    rw [hr]
    show AllAgree state wanted (flagsOf (portTable.delete n w₂.2))
    rw [flagsOf_delete, hw]
    exact h.update_same fun f hf => absurd hf (by simp)
  | true =>
    have hr : r = w₂ := if_pos hok
    rw [hr, hok, if_pos rfl]
    have hnew : FlagsAgree state false ⟨false, false, false⟩ := ⟨rfl, rfl, fun _ => rfl⟩
    rcases hupd with hu | hu | hu
    · rw [hu, hflags₁]
      exact h.update_some hnew
    · rw [hu, hflags₁, update_self, update_idem]
      exact h.update_some hnew
    · rw [hu, hflags₁, update_idem]
      exact h.update_none

omit hs h in
theorem frames_dupModified (n : Name) : Frames flagsOf (portCommands.dupModified n) := by
  intro w
  cases hc : portTable.find w n with
  | none =>
    have hr : portCommands.dupModified n w = (false, w) := Table.withConf_of_none hc
    rw [hr]
  | some c =>
    have hr : portCommands.dupModified n w = _ := Table.withConf_of_some hc
    rw [hr]
    split
    · rfl
    · split
      · show flagsOf (portTable.put n { c with modified := c.current } w) = _
        rw [flagsOf_put, ← update_eq_self n (flagsOf w), flagsOf_of_find hc, update_idem]
        rfl
      · rfl

theorem agrees_configInternal {opts : List PortOption} :
    AllAgree state wanted (flagsOf (portCommands.configInternal state n opts w).2) := by
  have hopts : Frames flagsOf (portCommands.configOptions state n opts) := by
    apply (frames_dupModified n).andThen
    apply Frames.andThen _ (frames_forEach (frames_optParse state true n) opts)
    exact frames_modify (flagsOf_alter_same (fun c => { c with isDestroying := false })
      (fun _ => rfl) n)
  set w₁ := (portCommands.configOptions state n opts w).2 with hw₁
  have h₁ : AllAgree state wanted (flagsOf w₁) := by rwa [hw₁, hopts w]
  have hupd : AllAgree state wanted (flagsOf (port.updateInternal state n true false w₁).2) := by
    rcases hs with rfl | rfl
    · exact h₁.calmed (by simp) updateInternal_autoCommit_calmed
    · rwa [frames_updateInternal_atomic n true false w₁]
  show AllAgree state wanted (flagsOf (andThen _ _ w).2)
  unfold andThen
  split
  · split
    · exact h₁
    · exact hupd
  · exact h₁

end Port

theorem PortCall.agrees {state : InterpState} {wanted : Name → Bool} {w : World}
    (hs : Port.TakesCommands state) (h : History.AllAgree state wanted (flagsOf w)) (c : PortCall)
    (hmarks : c.MarksAllow state w (c.run state w).1) :
    let r := c.run state w
    History.AllAgree state (if r.1 then c.wantedAfter w wanted else wanted) (flagsOf r.2) := by
  have hleaf : ∀ {m : Prog World}, Frames flagsOf m → ∀ {b : Bool},
      History.AllAgree state (if b then wanted else wanted) (flagsOf (m w).2) := by
    intro m hm b
    rw [ite_self, hm w]
    exact h
  -- a command on a port that is being destroyed is refused
  have hnot : ∀ {m : Prog World} {n : Name} {b : Bool}, (port.notDestroying n m w = m w →
      History.AllAgree state (if (m w).1 then update wanted n b else wanted) (flagsOf (m w).2)) →
      History.AllAgree state (if (port.notDestroying n m w).1 then update wanted n b else wanted)
        (flagsOf (port.notDestroying n m w).2) := by
    intro m n b hm
    rcases Kind.notDestroying_eq n m w with heq | heq
    · rw [heq]
      exact h
    · rw [heq]
      exact hm heq
  have henable : ∀ n, PortCall.MarksAllowEnable state w (port.enablePropagation state n w).1 n →
      History.AllAgree state (if (port.enablePropagation state n w).1 then update wanted n true else wanted)
        (flagsOf (port.enablePropagation state n w).2) := by
    intro n hn
    refine hnot fun heq => Port.agrees_enable hs h ?_
    rwa [← heq]
  cases c with
  | command c =>
    cases c with
    | create n opts =>
      show History.AllAgree state (ite ((portCommands.create state n opts w).1 = true) _ _)
        (flagsOf (portCommands.create state n opts w).2)
      cases hc : portTable.find w n with
      | none =>
        rw [Commands.create_of_none hc]
        split
        · simpa [wantedAfter, asks, hc] using Port.agrees_createInternal (n := n) hs h opts
        · exact h
      | some c =>
        have hw : (PortCall.command (.create n opts)).wantedAfter w wanted = wanted := by
          simp [wantedAfter, asks, hc]
        rw [hw, ite_self, Commands.create_of_some hc]
        split
        · exact Port.agrees_configInternal hs h
        · exact h
    | config n opts =>
      show History.AllAgree state (ite ((portCommands.config state n opts w).1 = true) _ _)
        (flagsOf (portCommands.config state n opts w).2)
      cases hc : portTable.find w n with
      | none =>
        rw [Commands.config_of_none hc]
        simpa [wantedAfter, asks, hc] using Port.agrees_createInternal (n := n) hs h opts
      | some c =>
        have hw : (PortCall.command (.config n opts)).wantedAfter w wanted = wanted := by
          simp [wantedAfter, asks, hc]
        rw [hw, ite_self, Commands.config_of_some hc]
        exact Port.agrees_configInternal hs h
    | enable n => exact henable n hmarks
    | disable n =>
      refine hnot fun heq => Port.agrees_disable hs h ?_
      rwa [show port.disableInternal state n false w = _ from heq.symm]
    | destroy n => exact hnot fun _ => Port.agrees_destroy hs h
  | leafCommand k c => exact hleaf (ignoresFlags_flagsOf.leafCommand k state c)
  | enablePropagation n => exact henable n hmarks
  | disablePropagation n => exact Port.agrees_disable hs h hmarks
  | updatePropagation n =>
    show History.AllAgree state (if _ then wanted else wanted) _
    rw [ite_self]
    rcases hs with rfl | rfl
    · exact h.calmed (by simp) Port.updateInternal_autoCommit_calmed
    · have hframe : flagsOf (port.update .atomic n w).2 = flagsOf w :=
        Port.frames_updateInternal_atomic n false false w
      show History.AllAgree .atomic wanted (flagsOf (port.update .atomic n w).2)
      rwa [hframe]
  | setUsed b n => exact hleaf (frames_modify (ignoresFlags_flagsOf.setUsed b n))
  | setPortNumber number n =>
    apply hleaf
    apply frames_modify
    apply flagsOf_alter_same
    intro c
    split <;> rfl

end Lagopus.Datastore
