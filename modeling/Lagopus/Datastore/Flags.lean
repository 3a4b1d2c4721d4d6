import Lagopus.Datastore.Frame

/-!
# What the port module does to the flags of ports

Of a port, its flag `is_enabled` and the marks `is_enabling` and `is_disabling` are looked at, for all
ports at once.

* `flagsOf`: these flags of every port;
* `Port.doUpdate_flags`: an update changes nothing but the marks of its port, which it clears when there is
  nothing to replace;
* `Port.switchTo_flags`, `Port.switchTo_committing_flags`: what enabling and disabling makes of them;
* `Calmed`, `Port.autoCommit_calmed`: what an update in auto-commit mode can do at most.
-/

namespace Lagopus.Datastore

open Prog World Function Table

variable {α ω β : Type}

/-! ## The flags of one port -/

structure Flags where
  isEnabled : Bool
  isEnabling : Bool
  isDisabling : Bool
  deriving DecidableEq, Repr

def Conf.flags (c : Conf α) : Flags := ⟨c.isEnabled, c.isEnabling, c.isDisabling⟩

namespace Flags

/-- What `is_enabled` will be after the next commit. -/
def pending (f : Flags) : Bool := if f.isEnabled then !f.isDisabling else f.isEnabling

def clear (f : Flags) : Flags := ⟨f.isEnabled, false, false⟩

/-- The flag is set, and the marks may be cleared. -/
def switched (f : Flags) (cleared b : Bool) : Flags :=
  { (if cleared then f.clear else f) with isEnabled := b }

/-- `port_cmd_is_enabled_set`. -/
def set (f : Flags) : Flags := { f with isEnabled := f.pending }

end Flags

theorem Conf.flags_isEnabledSet (c : Conf α) : c.isEnabledSet.flags = c.flags.set := by
  unfold Conf.isEnabledSet Flags.set Flags.pending
  cases he : c.isEnabled <;> cases hd : c.isDisabling <;> cases hi : c.isEnabling <;>
    simp [Conf.flags, he, hd, hi]

theorem Conf.flags_switchAttr (c : Conf α) : c.switchAttr.flags = c.flags := by
  unfold Conf.switchAttr
  split <;> rfl

theorem Conf.flags_updateCurrentAttr (state : InterpState) (c : Conf α) :
    (c.updateCurrentAttr state).flags = c.flags := by
  unfold Conf.updateCurrentAttr
  split
  · rfl
  · split <;> rfl

/-! ## The flags of all ports -/

def flagsOf (w : World) (n : Name) : Option Flags := (portTable.find w n).map Conf.flags

variable {w : World} {n : Name} {c : Conf PortAttr}

theorem flagsOf_of_find (h : portTable.find w n = some c) : flagsOf w n = some c.flags := by
  unfold flagsOf
  rw [h]
  rfl

theorem flagsOf_put (n : Name) (c : Conf PortAttr) (w : World) :
    flagsOf (portTable.put n c w) = update (flagsOf w) n (some c.flags) := by
  funext m
  rw [flagsOf, portTable_lawful.find_put, update_apply]
  split <;> rfl

theorem flagsOf_delete (n : Name) (w : World) :
    flagsOf (portTable.delete n w) = update (flagsOf w) n none := by
  funext m
  rw [flagsOf, portTable_lawful.find_delete, update_apply]
  split <;> rfl

theorem flagsOf_alter (g : Conf PortAttr → Conf PortAttr) (φ : Flags → Flags)
    (hg : ∀ c, (g c).flags = φ c.flags) (n : Name) (w : World) :
    flagsOf (portTable.alter n g w) = update (flagsOf w) n ((flagsOf w n).map φ) := by
  funext m
  rw [flagsOf, portTable_lawful.find_alter, update_apply]
  split
  · next hm =>
    rw [hm, flagsOf, Option.map_map, Option.map_map]
    exact congrArg (Option.map · _) (funext hg)
  · rfl

theorem flagsOf_alter_same (g : Conf PortAttr → Conf PortAttr) (hg : ∀ c, (g c).flags = c.flags)
    (n : Name) (w : World) : flagsOf (portTable.alter n g w) = flagsOf w := by
  rw [flagsOf_alter g id hg, Option.map_id, id, update_eq_self]

theorem ignoresFlags_flagsOf : IgnoresPortFlags flagsOf where
  answers _ _ := rfl
  calls _ _ := rfl
  leaves _ _ := rfl
  setUsed b n w := flagsOf_alter_same (fun c => { c with isUsed := b }) (fun _ => rfl) n w

/-! ## Updates -/

namespace Port

/-- An update leaves the flags alone, or clears the marks of its port when there is nothing to replace. -/
theorem doUpdate_flags (state : InterpState) (p e : Bool) (hc : portTable.find w n = some c) :
    let r := doUpdate state n p e w
    (flagsOf r.2 = flagsOf w ∧ (r.1 = true → isModified c)) ∨
      (flagsOf r.2 = update (flagsOf w) n (some c.flags.clear) ∧ isModified c = false) := by
  intro r
  have hf := ignoresFlags_flagsOf
  set names : Prog World := if p then namesUpdate state c else ok with hnames
  have h₁ : flagsOf (names w).2 = flagsOf w := frames_ite (hf.namesUpdate state c) frames_ok w
  have hr : r = _ := withConf_of_some hc
  cases hok : (names w).1 with
  | false =>
    left
    rw [hr, andThen_of_fail hok]
    exact ⟨h₁, fun h => absurd h Bool.false_ne_true⟩
  | true =>
    rw [hr, andThen_of_ok hok]
    cases hmod : isModified c with
    | true =>
      left
      refine ⟨?_, fun _ => rfl⟩
      rw [if_pos rfl, ← h₁]
      apply Frames.andThen (hf.replace state n c _ p)
      apply frames_modify
      intro w
      split
      · rfl
      · exact flagsOf_alter_same _ (Conf.flags_updateCurrentAttr state) n w
    | false =>
      right
      refine ⟨?_, rfl⟩
      rw [if_neg (by simp)]
      show flagsOf (portTable.alter n Conf.clearMarks (startOrStop n state c p e (names w).2).2) = _
      rw [flagsOf_alter _ Flags.clear (fun _ => rfl), hf.startOrStop state n c p e, h₁,
        flagsOf_of_find hc]
      rfl

theorem switchTo_flags {p b : Bool} (hc : portTable.find w n = some c) :
    let r := port.switchTo .autoCommit n p b w
    ∃ cleared : Bool,
      flagsOf r.2 = update (flagsOf w) n (some (c.flags.switched cleared (if r.1 then b else !b))) ∧
      (r.1 = true → cleared = !isModified c) := by
  intro r
  set w₁ := portTable.alter n (fun c => { c with isEnabled := b }) w with hw₁
  have hc₁ : portTable.find w₁ n = some { c with isEnabled := b } := portTable_lawful.find_alter_self hc
  have hflags₁ : flagsOf w₁ = update (flagsOf w) n (some { c.flags with isEnabled := b }) := by
    rw [hw₁, flagsOf_alter _ (fun f => { f with isEnabled := b }) (fun _ => rfl),
      flagsOf_of_find hc]
    rfl
  -- an enable or disable makes only one trial
  have hupd : port.updateInternal .autoCommit n p true w₁ = doUpdate .autoCommit n p true w₁ := by
    show portTable.withConf n _ w₁ = _
    rw [withConf_of_some hc₁]
    show port.autoCommit n p true 2 w₁ = _
    simp only [Kind.autoCommit, or_true, if_true]
    rfl
  set u := doUpdate .autoCommit n p true w₁
  have hr : r = if u.1 then u else (false, portTable.alter n (fun c => { c with isEnabled := !b }) u.2) := by
    rw [← hupd]
    rfl
  have hmod : isModified { c with isEnabled := b } = isModified c := rfl
  obtain ⟨cleared, hflags, hcl⟩ : ∃ cleared : Bool,
      flagsOf u.2 = update (flagsOf w) n (some (c.flags.switched cleared b)) ∧
      (u.1 = true → cleared = !isModified c) := by
    rcases doUpdate_flags .autoCommit p true hc₁ with ⟨hsame, hm⟩ | ⟨hclear, hm⟩
    · exact ⟨false, by rw [hsame, hflags₁]; rfl, fun h => by rw [← hmod, hm h]; rfl⟩
    · exact ⟨true, by rw [hclear, hflags₁, update_idem]; rfl, fun _ => by rw [← hmod, hm]; rfl⟩
  refine ⟨cleared, ?_⟩
  cases hok : u.1 with
  | true =>
    rw [hr, if_pos hok, hok]
    exact ⟨hflags, fun _ => hcl hok⟩
  | false =>
    rw [hr, if_neg (by simp [hok]), flagsOf_alter _ (fun f => { f with isEnabled := !b }) (fun _ => rfl),
      hflags, update_self, update_idem]
    exact ⟨rfl, by simp⟩

/-- The same in a commit, where the pending mark is applied once more before the update. -/
theorem switchTo_committing_flags (hc : portTable.find w n = some c)
    (hok : (port.switchTo .committing n false false w).1 = true) : ∃ cleared : Bool,
      flagsOf (port.switchTo .committing n false false w).2 =
        update (flagsOf w) n (some (c.flags.switched cleared c.isEnabling)) := by
  set w₁ := portTable.alter n (fun c => { c with isEnabled := false }) w with hw₁
  have hc₁ : portTable.find w₁ n = some { c with isEnabled := false } := portTable_lawful.find_alter_self hc
  set w₂ := portTable.alter n Conf.isEnabledSet w₁ with hw₂
  have hc₂ : portTable.find w₂ n = some (Conf.isEnabledSet { c with isEnabled := false }) :=
    portTable_lawful.find_alter_self hc₁
  have hflags₂ : flagsOf w₂ = update (flagsOf w) n (some { c.flags with isEnabled := c.isEnabling }) := by
    rw [hw₂, flagsOf_alter _ Flags.set Conf.flags_isEnabledSet, flagsOf_of_find hc₁, hw₁,
      flagsOf_alter _ (fun f => { f with isEnabled := false }) (fun _ => rfl), update_idem]
    rfl
  set u := doUpdate .committing n false true w₂
  have hupd : port.updateInternal .committing n false true w₁ = u := withConf_of_some hc₁
  have hr : port.switchTo .committing n false false w =
      if u.1 then u else (false, portTable.alter n (fun c => { c with isEnabled := true }) u.2) := by
    rw [← hupd]
    rfl
  have hsw : port.switchTo .committing n false false w = u := by
    by_cases h : u.1
    · rw [hr, if_pos h]
    · rw [hr, if_neg h] at hok
      cases hok
  have hflags : (Conf.isEnabledSet { c with isEnabled := false }).flags =
      { c.flags with isEnabled := c.isEnabling } := Conf.flags_isEnabledSet _
  rw [hsw]
  rcases doUpdate_flags .committing false true hc₂ with ⟨hsame, -⟩ | ⟨hclear, -⟩
  · exact ⟨false, by rw [hsame, hflags₂]; rfl⟩
  · exact ⟨true, by rw [hclear, hflags₂, update_idem, hflags]; rfl⟩

theorem unsetUsed_flags (c : Conf PortAttr) (w : World) : flagsOf (port.unsetUsed c w) = flagsOf w :=
  (elim_frame (fun a => (ignoresFlags_flagsOf.portFrame .autoCommit).namesUsedSet a false) c.modified _).trans
    (elim_frame (fun a => (ignoresFlags_flagsOf.portFrame .autoCommit).namesUsedSet a false) c.current w)

theorem destroyed_flags (c : Conf PortAttr) (n : Name) (w : World) :
    flagsOf (portTable.delete n (port.dpDestroy n c.current (port.unsetUsed c w)).2) =
      update (flagsOf w) n none := by
  have hdestroy : Frames flagsOf (port.dpDestroy n c.current) :=
    frames_elim frames_ok ((ignoresFlags_flagsOf.portFrame .autoCommit).destroy n) c.current
  rw [flagsOf_delete, hdestroy, unsetUsed_flags]

theorem doDestroy_flags (state : InterpState) (n : Name) (w : World) :
    flagsOf (port.doDestroy state n w) = flagsOf w ∨
      flagsOf (port.doDestroy state n w) = update (flagsOf w) n none := by
  unfold Kind.doDestroy
  split
  · exact .inl rfl
  · next c _ =>
    split
    · exact .inr (flagsOf_delete n w)
    · split
      · exact .inr ((flagsOf_delete n _).trans (by rw [unsetUsed_flags]))
      · split
        · exact .inr (destroyed_flags c n w)
        · exact .inl rfl

theorem doDestroy_autoCommit_flags (n : Name) (w : World) :
    flagsOf (port.doDestroy .autoCommit n w) = update (flagsOf w) n none := by
  unfold Kind.doDestroy
  split
  · next hc =>
    have hnone : flagsOf w n = none := by
      unfold flagsOf
      rw [show portTable.find w n = none from hc]
      rfl
    rw [← hnone, update_eq_self]
  · next c _ =>
    rw [if_neg (by simp), if_neg (by simp), if_pos (.inr rfl)]
    exact destroyed_flags c n w

end Port

/-- The marks of one port may have been cleared, or the port be gone. -/
def Calmed (n : Name) (F F' : Name → Option Flags) : Prop :=
  F' = F ∨ F' = update F n ((F n).map Flags.clear) ∨ F' = update F n none

namespace Calmed

variable {n : Name} {F G H : Name → Option Flags}

theorem of_update (x : Option Flags) (h : x = F n ∨ x = (F n).map Flags.clear ∨ x = none) :
    Calmed n F (update F n x) := by
  rcases h with rfl | rfl | rfl
  · exact .inl (update_eq_self n F)
  · exact .inr (.inl rfl)
  · exact .inr (.inr rfl)

theorem trans (h : Calmed n F G) (h' : Calmed n G H) : Calmed n F H := by
  rcases h with rfl | rfl | rfl
  · exact h'
  · rcases h' with rfl | rfl | rfl
    · exact .inr (.inl rfl)
    · rw [update_self, update_idem, Option.map_map]
      exact .inr (.inl rfl)
    · rw [update_idem]
      exact .inr (.inr rfl)
  · rcases h' with rfl | rfl | rfl
    · exact .inr (.inr rfl)
    · rw [update_self, update_idem]
      exact .inr (.inr rfl)
    · rw [update_idem]
      exact .inr (.inr rfl)

end Calmed

namespace Port

variable {p e : Bool}

theorem doUpdate_calmed : Calmed n (flagsOf w) (flagsOf (doUpdate .autoCommit n p e w).2) := by
  cases hc : portTable.find w n with
  | none => exact .inl (congrArg (flagsOf ·.2) (withConf_of_none hc))
  | some c =>
    rcases doUpdate_flags .autoCommit p e hc with ⟨h, -⟩ | ⟨h, -⟩
    · exact .inl h
    · rw [h]
      apply Calmed.of_update
      rw [flagsOf_of_find hc]
      exact .inr (.inl rfl)

theorem autoCommit_calmed :
    ∀ {trials : Nat} {w : World}, Calmed n (flagsOf w) (flagsOf (port.autoCommit n p e trials w).2) := by
  intro trials
  induction trials with
  | zero => exact .inl rfl
  | succ trials ih =>
    intro w
    have hfirst : Calmed n (flagsOf w) (flagsOf (port.doUpdate .autoCommit n p e w).2) := doUpdate_calmed
    simp only [Kind.autoCommit]
    split
    · exact hfirst
    · split
      · exact hfirst
      · next c hc =>
        split
        · apply hfirst.trans
          rcases doDestroy_flags .autoCommit n (port.doUpdate .autoCommit n p e w).2 with h | h
          · exact .inl h
          · exact .inr (.inr h)
        · apply hfirst.trans
          have hput : flagsOf (port.table.put n c.switchAttr (port.doUpdate .autoCommit n p e w).2) =
              flagsOf (port.doUpdate .autoCommit n p e w).2 := by
            show flagsOf (portTable.put n _ _) = _
            rw [flagsOf_put, Conf.flags_switchAttr, ← flagsOf_of_find hc, update_eq_self]
          rw [← hput]
          exact ih

theorem updateInternal_autoCommit_calmed :
    Calmed n (flagsOf w) (flagsOf (port.updateInternal .autoCommit n p e w).2) := by
  cases hc : portTable.find w n with
  | none => exact .inl (congrArg (flagsOf ·.2) (withConf_of_none hc))
  | some c =>
    have hr : port.updateInternal .autoCommit n p e w = port.autoCommit n p e 2 w := withConf_of_some hc
    rw [hr]
    exact autoCommit_calmed

theorem frames_updateInternal_atomic (n : Name) (p e : Bool) :
    Frames flagsOf (port.updateInternal .atomic n p e) := by
  apply frames_withConf
  intro c
  apply frames_modify
  exact elim_frame (fun a => (ignoresFlags_flagsOf.portFrame .autoCommit).namesUsedSet a true) c.modified

theorem frames_namesDisableAll (a : Option PortAttr) (state : InterpState) :
    Frames flagsOf (port.namesDisableAll a state) :=
  frames_elim frames_fail
    (fun a => (ignoresFlags_flagsOf.portFrame state).namesDisable a a.queues true true) a

theorem frames_optParse (state : InterpState) (isConfig : Bool) (n : Name) (o : PortOption) :
    Frames flagsOf (optParse state isConfig n o) :=
  ignoresFlags_flagsOf.optParse
    (fun n g w => flagsOf_alter_same (fun c => { c with modified := c.modified.map g })
      (fun _ => rfl) n w) state isConfig n o

end Port

end Lagopus.Datastore
