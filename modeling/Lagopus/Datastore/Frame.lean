import Lagopus.Datastore.Commands

/-!
# What updating an object leaves alone

Updating a policer, queue, interface or controller changes no port and no bridge; updating a port changes
no bridge, and of the other ports at most the used flags.

* `Kind.Outside`: nothing that is done for objects of a kind is seen by a view of the world;
* `PlainFrame`, `PortFrame`, `BridgeFrame`: nothing that is done to the objects that policers and
  controllers, ports and bridges name is seen;
* `IgnoresLeaves.leaf_outside`: a view that does not look at the objects below ports.
-/

namespace Lagopus.Datastore

open Prog World Table Bridge

variable {α β : Type} {f : World → β}

/-! ## Programs on the world -/

theorem frames_withConf {t : Table α} {n : Name} {m : Conf α → Prog World}
    (h : ∀ c, Frames f (m c)) : Frames f (t.withConf n m) := by
  apply frames_read
  intro w
  cases t.find w n with
  | none => exact frames_fail
  | some c => exact h c

variable {m : Name → Prog World}

theorem frames_named (h : ∀ n, Frames f (m n)) (n : Option Name) : Frames f (named m n) := by
  cases n with
  | none => exact frames_ok
  | some n => exact h n

theorem frames_elim {m : Prog World} {g : α → Prog World} (hm : Frames f m)
    (h : ∀ a, Frames f (g a)) (o : Option α) : Frames f (o.elim m g) := by
  cases o with
  | none => exact hm
  | some a => exact h a

theorem NamesInfo.frames_update (h : ∀ n, Frames f (m n)) (info : NamesInfo) : Frames f (info.update m) :=
  (frames_forEachRegardless h _).regardless
    ((frames_forEachRegardless h _).regardless (frames_forEachRegardless h _))

theorem Table.alter_frame {t : Table α} (h : ∀ n c w, f (t.put n c w) = f w) (n : Name)
    (g : Conf α → Conf α) (w : World) : f (t.alter n g w) = f w := by
  unfold Table.alter
  split
  · exact h _ _ w
  · rfl

/-- An update like those of policers, controllers and ports: the names first, then the attribute asked for
or what is started or stopped. -/
theorem update_frame {t : Table α} {n : Name} {state : InterpState}
    (halter : ∀ n g w, f (t.alter n g w) = f w) {names replace startStop : Conf α → Prog World}
    {modified : Conf α → Prop} [DecidablePred modified] {w : World}
    (h : ∀ c, t.find w n = some c →
      Frames f (names c) ∧ Frames f (replace c) ∧ Frames f (startStop c)) :
    f (t.withConf n (fun c =>
      andThen (names c)
        (if modified c then
          andThen (replace c)
            (modify fun w =>
              if state = .committing ∨ state = .rollbacking then w
              else t.alter n (Conf.updateCurrentAttr state) w)
        else finally_ (startStop c) (t.alter n Conf.clearMarks))) w).2 = f w := by
  cases hc : t.find w n with
  | none => rw [withConf_of_none hc]
  | some c =>
    obtain ⟨hnames, hreplace, hstart⟩ := h c hc
    rw [withConf_of_some hc]
    refine Frames.andThen hnames (frames_ite (hreplace.andThen (frames_modify ?_)) ?_) w
    · intro w
      split
      · rfl
      · exact halter n _ w
    · exact hstart.finally_ (halter n _)

theorem frames_disableEach {disable : Name → Prog World} {unset : Name → World → World}
    (hdisable : ∀ n, Frames f (disable n)) (hunset : ∀ n w, f (unset n w) = f w) (names : List Name)
    (state : InterpState) (p u : Bool) : Frames f (disableEach disable unset names state p u) := by
  apply frames_forEach
  intro n
  apply (frames_ite (hdisable n) frames_ok).andThen
  exact frames_ite (frames_modify (hunset n)) frames_ok

theorem elim_frame {g : α → World → World} (h : ∀ a w, f (g a w) = f w) (o : Option α)
    (w : World) : f (o.elim w fun a => g a w) = f w := by
  cases o with
  | none => rfl
  | some a => exact h a w

theorem foldl_frame {g : World → Name → World} (h : ∀ w n, f (g w n) = f w) :
    ∀ (names : List Name) (w : World), f (names.foldl g w) = f w := by
  intro names
  induction names with
  | nil => exact fun _ => rfl
  | cons n names ih => exact fun w => (ih _).trans (h w n)

/-! ## Views that see nothing of a kind -/

/-- Nothing that is done for objects of the kind is seen. -/
structure Kind.Outside (K : Kind α) (f : World → β) : Prop where
  put : ∀ n c w, f (K.table.put n c w) = f w
  delete : ∀ n w, f (K.table.delete n w) = f w
  doUpdate : ∀ state n p e, Frames f (K.doUpdate state n p e)
  namesUsedSet : ∀ a b w, f (K.namesUsedSet a b w) = f w
  namesDisableAll : ∀ a state, Frames f (K.namesDisableAll a state)
  dpDestroy : ∀ n a, Frames f (K.dpDestroy n a)

theorem Kind.frames_notDestroying {K : Kind α} {n : Name} {m : Prog World} (hm : Frames f m) :
    Frames f (K.notDestroying n m) :=
  frames_withConf fun _ => frames_ite frames_fail hm

namespace Kind.Outside

variable {K : Kind α} (h : K.Outside f)

include h

theorem alter (n : Name) (g : Conf α → Conf α) (w : World) : f (K.table.alter n g w) = f w :=
  alter_frame h.put n g w

variable (state : InterpState) (n : Name)

theorem doDestroy (w : World) : f (K.doDestroy state n w) = f w := by
  have hunset : ∀ c w, f (K.unsetUsed c w) = f w := fun c w =>
    (elim_frame (fun a => h.namesUsedSet a false) c.modified _).trans
      (elim_frame (fun a => h.namesUsedSet a false) c.current w)
  unfold Kind.doDestroy
  split
  · rfl
  · next c _ =>
    split
    · exact h.delete n w
    · split
      · exact (h.delete n _).trans (hunset c w)
      · split
        · show f (K.table.delete n (K.dpDestroy n c.current (K.unsetUsed c w)).2) = f w
          rw [h.delete, h.dpDestroy n c.current, hunset]
        · rfl

theorem updateAborted (w : World) : f (K.updateAborted n w) = f w := by
  unfold Kind.updateAborted
  split
  · rfl
  · split
    · split
      · exact h.delete n w
      · exact h.put n _ w
    · rfl

theorem autoCommit (p e : Bool) : ∀ trials, Frames f (K.autoCommit n p e trials) := by
  intro trials
  induction trials with
  | zero => exact frames_fail
  | succ trials ih =>
    intro w
    have hfirst := h.doUpdate .autoCommit n p e w
    simp only [Kind.autoCommit]
    split
    · exact hfirst
    · split
      · exact hfirst
      · split
        · exact (h.doDestroy _ n _).trans hfirst
        · exact (ih _).trans ((h.put n _ _).trans hfirst)

theorem updateInternal (p e : Bool) : Frames f (K.updateInternal state n p e) := by
  have hused : ∀ (o : Option α) b, Frames f (modify fun w => o.elim w fun a => K.namesUsedSet a b w) :=
    fun o b => frames_modify (elim_frame (fun a => h.namesUsedSet a b) o)
  apply frames_withConf
  intro c
  cases state
  case autoCommit => exact h.autoCommit n p e _
  case atomic => exact hused _ true
  case committing => exact (frames_modify (h.alter n _)).andThen (h.doUpdate _ n p e)
  case committed | rollbacked => exact frames_modify fun w => (h.doDestroy _ n _).trans (h.alter n _ w)
  case commitFailure => exact frames_fail
  case rollbacking =>
    show Frames f (ite _ _ _)
    apply frames_ite
    · exact hused _ false
    · exact (frames_modify (h.alter n _)).andThen (h.doUpdate _ n p e)
  case aborting =>
    apply frames_modify
    intro w
    exact (elim_frame (fun a => h.namesUsedSet a true) c.current _).trans
      ((elim_frame (fun a => h.namesUsedSet a false) c.modified _).trans (h.alter n _ w))
  case aborted => exact frames_modify (h.updateAborted n)
  case dryrun => exact frames_modify (h.alter n _)

theorem update : Frames f (K.update state n) :=
  h.updateInternal state n false false

theorem switchTo (p b : Bool) : Frames f (K.switchTo state n p b) :=
  ((frames_modify (h.alter n _)).andThen (h.updateInternal state n p true)).orElse (h.alter n _)

theorem enableInternal (p : Bool) : Frames f (K.enableInternal state n p) := by
  apply frames_withConf
  intro c
  apply frames_ite frames_fail
  apply frames_ite frames_ok
  exact frames_ite (frames_modify (h.alter n _)) (h.switchTo state n p true)

theorem disableInternal (p : Bool) : Frames f (K.disableInternal state n p) := by
  apply frames_withConf
  intro c
  apply frames_ite (frames_modify (h.alter n _))
  apply (h.switchTo state n false false).andThen
  exact frames_ite (frames_withConf fun c => h.namesDisableAll c.current state) frames_ok

theorem destroyInternal (p : Bool) : Frames f (K.destroyInternal state n p) := by
  apply frames_withConf
  intro c
  apply frames_ite frames_fail
  apply frames_ite (frames_modify (h.alter n _))
  apply (h.namesDisableAll c.current state).regardless
  apply Frames.andThen (frames_ite (h.switchTo state n p false) frames_ok)
  exact frames_modify (h.doDestroy state n)

theorem enablePropagation : Frames f (K.enablePropagation state n) :=
  frames_notDestroying (h.enableInternal state n true)

end Kind.Outside

/-! ## Policers and controllers -/

/-- In this state of the interpreter the view sees nothing of what policers and controllers do to what
they name: it is changed and disabled, and enabled and updated if they propagate. -/
structure PlainFrame (f : World → β) (state : InterpState) (p : Bool) : Prop where
  answer : Frames f World.answer
  dp : ∀ c, Frames f (World.dp c)
  alter : ∀ k n g w, f ((leafTable k).alter n g w) = f w
  disable : ∀ k n, Frames f (plainDisablePropagation k state n)
  enable : p = true → ∀ k n, Frames f ((plain k).enablePropagation state n)
  update : p = true → ∀ k n, Frames f ((plain k).update state n)

theorem frames_plainDoUpdate (hanswer : Frames f World.answer) (hdp : ∀ c, Frames f (World.dp c))
    {k : LeafKind} (halter : ∀ n g w, f ((leafTable k).alter n g w) = f w) (state : InterpState)
    (n : Name) (p e : Bool) : Frames f (plainDoUpdate k state n p e) := by
  apply frames_withConf
  intro c
  apply frames_ite
  · apply (frames_ite hanswer frames_fail).bind
    intro hasDpid
    apply (frames_ite (hdp _) frames_ok).regardless
    apply (hdp _).andThen
    apply (frames_ite (hdp _) frames_ok).regardless
    apply (frames_ite (hdp _) frames_ok).andThen
    apply frames_modify
    intro w
    split
    · rfl
    · exact halter n _ w
  · exact (frames_ite (frames_ite (hdp _) (hdp _)) frames_ok).finally_ (halter n _)

namespace PlainFrame

variable {state : InterpState} {p : Bool} (h : PlainFrame f state p)

include h

theorem setUsed (k : LeafKind) (b : Bool) (n : Name) (w : World) : f ((leafTable k).setUsed b n w) = f w :=
  h.alter k n _ w

theorem actionsUsedSet (a : LeafAttr) (b : Bool) (w : World) : f (Policer.actionsUsedSet a b w) = f w :=
  foldl_frame (fun w n => h.setUsed .policerAction b n w) a.names w

theorem channelUsedSet (a : LeafAttr) (b : Bool) (w : World) : f (Controller.channelUsedSet a b w) = f w :=
  elim_frame (fun ch => h.setUsed .channel b ch) a.names.head? w

theorem actionsDisable (actions : List Name) (q u : Bool) :
    Frames f (Policer.actionsDisable actions state q u) :=
  frames_disableEach (h.disable .policerAction) (h.setUsed .policer false) actions state q u

theorem channelDisable (a : LeafAttr) : Frames f (Controller.channelDisable a state) :=
  frames_named (h.disable .channel) _

variable (n : Name) (a : LeafAttr)

theorem policerStart (info : NamesInfo) : Frames f (Policer.start n a info state p) := by
  apply Frames.andThen _ (h.dp _)
  cases hp : p with
  | false => exact frames_ok
  | true => exact frames_forEach (h.enable hp .policerAction) _

theorem channelStatus {g : Bool → Prog World} (hg : ∀ b, Frames f (g b)) :
    Frames f (Controller.channelStatus n g) :=
  (h.dp _).andThen ((h.dp _).andThen (h.answer.bind hg))

theorem controllerStart : Frames f (Controller.start n a state p) := by
  apply h.channelStatus
  intro isDown
  apply frames_named
  intro ch
  apply Frames.andThen _ (frames_ite (h.dp _) frames_ok)
  cases hp : p with
  | false => exact frames_ok
  | true => exact h.enable hp .channel ch

theorem policerReplace (c : Conf LeafAttr) : Frames f (Policer.replace n state c a p) := by
  apply Frames.andThen
  · apply frames_elim frames_ok
    intro b
    exact (h.actionsDisable _ p true).andThen (frames_forEach (fun _ => h.dp _) _)
  · apply Frames.andThen
    · apply frames_ite ((h.dp _).andThen (frames_forEach (fun _ => h.dp _) _))
      exact frames_forEach (fun _ => h.dp _) _
    · exact (frames_modify (h.actionsUsedSet a true)).andThen (frames_ite (h.policerStart n a _) frames_ok)

theorem controllerReplace (c : Conf LeafAttr) : Frames f (Controller.replace n state c a p) := by
  apply Frames.andThen
  · apply frames_elim frames_ok
    intro b
    exact (frames_modify (h.channelUsedSet b false)).andThen (frames_ite (h.channelDisable b) frames_ok)
  · apply (h.dp _).andThen
    exact (frames_modify (h.channelUsedSet a true)).andThen (frames_ite (h.controllerStart n a) frames_ok)

omit a

theorem policerStartOrStop (c : Conf LeafAttr) (e : Bool) : Frames f (Policer.startOrStop n state c p e) := by
  apply frames_ite _ frames_ok
  apply frames_elim frames_fail
  intro a
  apply frames_ite (h.policerStart n a _)
  exact (h.actionsDisable _ true false).andThen (h.dp _)

theorem controllerStartOrStop (c : Conf LeafAttr) (e : Bool) :
    Frames f (Controller.startOrStop n state c p e) := by
  apply frames_ite _ frames_ok
  apply frames_elim frames_fail
  intro a
  apply frames_ite (h.controllerStart n a)
  exact h.channelStatus n fun _ => frames_ite (h.dp _) frames_ok

theorem policerDoUpdate (e : Bool) : Frames f (Policer.doUpdate state n p e) := by
  intro w
  refine update_frame (h.alter .policer) fun c _ =>
    ⟨?_, h.policerReplace n _ c, h.policerStartOrStop n c e⟩
  cases hp : p with
  | false => exact frames_ok
  | true => exact NamesInfo.frames_update (h.update hp .policerAction) _

theorem controllerDoUpdate (e : Bool) : Frames f (Controller.doUpdate state n p e) := by
  intro w
  refine update_frame (h.alter .controller) fun c _ =>
    ⟨?_, h.controllerReplace n _ c, h.controllerStartOrStop n c e⟩
  cases hp : p with
  | false => exact frames_ok
  | true => exact frames_elim frames_fail (fun a => frames_named (h.update hp .channel) _) _

theorem leafDoUpdate (k : LeafKind) (e : Bool) : Frames f (leafDoUpdate k state n p e) := by
  have hplain : ∀ k, Frames f (plainDoUpdate k state n p e) := fun k =>
    frames_plainDoUpdate h.answer h.dp (h.alter k) state n p e
  cases k with
  | policer => exact h.policerDoUpdate n e
  | controller => exact h.controllerDoUpdate n e
  | policerAction => exact hplain .policerAction
  | queue => exact hplain .queue
  | interface => exact hplain .interface
  | channel => exact hplain .channel

theorem leafNamesUsedSet (k : LeafKind) (a : LeafAttr) (b : Bool) (w : World) :
    f (leafNamesUsedSet k a b w) = f w := by
  cases k with
  | policer => exact h.actionsUsedSet a b w
  | controller => exact h.channelUsedSet a b w
  | _ => rfl

theorem leafNamesDisableAll (k : LeafKind) (a : Option LeafAttr) : Frames f (leafNamesDisableAll k a state) := by
  cases k with
  | policer => exact frames_elim frames_fail (fun a => h.actionsDisable a.names true true) a
  | controller => exact frames_elim frames_fail h.channelDisable a
  | _ => exact frames_ok

theorem leafDpDestroy (k : LeafKind) (a : Option LeafAttr) : Frames f (leafDpDestroy k n a) := by
  cases k with
  | policer => exact frames_elim frames_ok (fun _ => frames_forEach (fun _ => h.dp _) _) a
  | controller => exact frames_ok
  | _ => exact h.dp _

end PlainFrame

/-- The view sees neither the dataplane nor the objects below ports and bridges. -/
structure IgnoresLeaves (f : World → β) : Prop where
  answers : ∀ w a, f { w with answers := a } = f w
  calls : ∀ w c, f { w with calls := c } = f w
  leaves : ∀ w l, f { w with leaves := l } = f w

namespace IgnoresLeaves

variable (h : IgnoresLeaves f)

include h

theorem answer : Frames f World.answer := by
  intro w
  unfold World.answer
  split
  · rfl
  · exact h.answers w _

theorem dp (c : DpCall) : Frames f (World.dp c) :=
  h.answer.andThen (frames_modify fun w => h.calls w _)

variable (k : LeafKind)

theorem leafAlter (n : Name) (g : Conf LeafAttr → Conf LeafAttr) (w : World) :
    f ((leafTable k).alter n g w) = f w := alter_frame (fun _ _ w => h.leaves w _) n g w

theorem plain_outside : (plain k).Outside f where
  put _ _ w := h.leaves w _
  delete _ w := h.leaves w _
  doUpdate := frames_plainDoUpdate h.answer h.dp (h.leafAlter k)
  namesUsedSet _ _ _ := rfl
  namesDisableAll _ _ := frames_ok
  dpDestroy _ _ := h.dp _

theorem plainFrame (state : InterpState) (p : Bool) : PlainFrame f state p where
  answer := h.answer
  dp := h.dp
  alter := h.leafAlter
  disable k n := Kind.frames_notDestroying ((h.plain_outside k).disableInternal state n true)
  enable _ k := (h.plain_outside k).enablePropagation state
  update _ k := (h.plain_outside k).update state

theorem leaf_outside : (leaf k).Outside f where
  put _ _ w := h.leaves w _
  delete _ w := h.leaves w _
  doUpdate state n p := (h.plainFrame state p).leafDoUpdate n k
  namesUsedSet := (h.plainFrame .autoCommit true).leafNamesUsedSet k
  namesDisableAll a state := (h.plainFrame state true).leafNamesDisableAll k a
  dpDestroy n := (h.plainFrame .autoCommit true).leafDpDestroy n k

theorem leafDisablePropagation (state : InterpState) (n : Name) :
    Frames f (leafDisablePropagation k state n) :=
  frames_ite ((h.leaf_outside k).disableInternal state n true)
    (Kind.frames_notDestroying ((h.leaf_outside k).disableInternal state n true))

theorem leafSetUsed (b : Bool) (n : Name) (w : World) : f ((leafTable k).setUsed b n w) = f w :=
  h.leafAlter k n _ w

end IgnoresLeaves

/-! ## What ports and bridges do to the objects they name -/

/-- In this state of the interpreter the view sees nothing of what is done to the objects below ports and
bridges, short of enabling and updating them. -/
structure LeafFrame (f : World → β) (state : InterpState) : Prop where
  answer : Frames f World.answer
  dp : ∀ c, Frames f (World.dp c)
  disable : ∀ k n, Frames f (leafDisablePropagation k state n)
  setUsed : ∀ k b n w, f ((leafTable k).setUsed b n w) = f w

theorem IgnoresLeaves.leafFrame (h : IgnoresLeaves f) (state : InterpState) : LeafFrame f state where
  answer := h.answer
  dp := h.dp
  disable k := h.leafDisablePropagation k state
  setUsed := h.leafSetUsed

/-- The same, with the used flags of ports, which `ofp_port_queues_disable` changes. -/
structure PortFrame (f : World → β) (state : InterpState) : Prop extends LeafFrame f state where
  portSetUsed : ∀ b n w, f (portTable.setUsed b n w) = f w

namespace PortFrame

variable {state : InterpState} (h : PortFrame f state)

include h

variable (a : PortAttr) (b : Bool) (w : World)

theorem interfaceUsedSet : f (Port.interfaceUsedSet a b w) = f w :=
  elim_frame (fun i => h.setUsed .interface b i) a.interface w

theorem policerUsedSet : f (Port.policerUsedSet a b w) = f w :=
  elim_frame (fun p => h.setUsed .policer b p) a.policer w

theorem queuesUsedSet : f (Port.queuesUsedSet a b w) = f w :=
  foldl_frame (fun w q => h.setUsed .queue b q w) a.queues w

theorem namesUsedSet : f (Port.namesUsedSet a b w) = f w :=
  (h.policerUsedSet a b _).trans ((h.queuesUsedSet a b _).trans (h.interfaceUsedSet a b w))

theorem namesDisable (queues : List Name) (p u : Bool) :
    Frames f (Port.namesDisable a queues state p u) := by
  apply (frames_named (h.disable .interface) _).andThen
  apply Frames.andThen _ (frames_named (h.disable .policer) _)
  exact frames_disableEach (h.disable .queue) (h.portSetUsed false) queues state p u

variable (n : Name) (a : PortAttr)

theorem create : Frames f (Port.create n a) :=
  ((h.dp _).andThen (frames_named (fun _ => h.dp _) _)).andThen
    ((frames_forEach (fun _ => h.dp _) _).andThen (frames_named (fun _ => h.dp _) _))

theorem destroy : Frames f (Port.destroy n a) :=
  (frames_named (fun _ => h.dp _) _).andThen ((frames_forEach (fun _ => h.dp _) _).andThen (h.dp _))

theorem stop : Frames f (Port.stop n a state) :=
  (h.namesDisable a _ true false).andThen (h.dp _)

omit a

variable {c : Conf PortAttr} (henable : c.isEnabled = true → ∀ k n, Frames f ((leaf k).enablePropagation state n))

include henable

theorem startIfEnabled (a : PortAttr) (info : NamesInfo) (p : Bool) :
    Frames f (if c.isEnabled then Port.start n a info state p else ok) := by
  cases hc : c.isEnabled with
  | false => exact frames_ok
  | true =>
    apply (frames_named (henable hc .policer) _).andThen
    apply (frames_ite (frames_forEach (henable hc .queue) _) frames_ok).andThen
    apply (frames_ite (frames_named (henable hc .interface) _) frames_ok).andThen
    exact h.dp _

theorem replace (m : PortAttr) (p : Bool) : Frames f (Port.replace n state c m p) := by
  apply Frames.andThen
  · apply frames_elim frames_ok
    intro a
    apply (frames_modify (h.interfaceUsedSet a false)).andThen
    apply (h.namesDisable a _ p true).andThen
    apply frames_ite (h.destroy n a)
    exact (frames_named (fun _ => h.dp _) _).andThen (frames_forEach (fun _ => h.dp _) _)
  · apply Frames.andThen
    · apply frames_ite (h.create n m)
      exact (frames_named (fun _ => h.dp _) _).andThen (frames_forEach (fun _ => h.dp _) _)
    · exact (frames_modify (h.namesUsedSet m true)).andThen (h.startIfEnabled n henable m _ p)

theorem startOrStop (p e : Bool) : Frames f (Port.startOrStop n state c p e) := by
  apply frames_ite _ frames_ok
  apply frames_elim frames_fail
  intro a
  have hstart := h.startIfEnabled n henable a (Port.queueNamesInfo c) p
  cases hc : c.isEnabled with
  | false => exact h.stop n a
  | true =>
    rw [if_pos hc] at hstart
    exact hstart

end PortFrame

/-- The view sees nothing of the objects below ports, and no used flag of a port. -/
structure IgnoresPortFlags (f : World → β) : Prop extends IgnoresLeaves f where
  setUsed : ∀ b n w, f (portTable.setUsed b n w) = f w

namespace IgnoresPortFlags

variable (h : IgnoresPortFlags f)

include h

theorem portFrame (state : InterpState) : PortFrame f state where
  toLeafFrame := h.leafFrame state
  portSetUsed := h.setUsed

theorem replace (state : InterpState) (n : Name) (c : Conf PortAttr) (m : PortAttr) (p : Bool) :
    Frames f (Port.replace n state c m p) :=
  (h.portFrame state).replace n (fun _ k => (h.leaf_outside k).enablePropagation state) m p

theorem startOrStop (state : InterpState) (n : Name) (c : Conf PortAttr) (p e : Bool) :
    Frames f (Port.startOrStop n state c p e) :=
  (h.portFrame state).startOrStop n (fun _ k => (h.leaf_outside k).enablePropagation state) p e

theorem namesUpdate (state : InterpState) (c : Conf PortAttr) : Frames f (Port.namesUpdate state c) := by
  apply frames_elim frames_fail
  intro a
  apply (frames_named ((h.leaf_outside .interface).update state) _).andThen
  apply (NamesInfo.frames_update ((h.leaf_outside .queue).update state) _).andThen
  exact frames_named ((h.leaf_outside .policer).update state) _

end IgnoresPortFlags

/-- The view sees nothing of what bridges do to what they name, short of updating it. -/
structure BridgeFrame (f : World → β) (state : InterpState) (p : Bool) : Prop extends
    PortFrame f state where
  portEnable : p = true → ∀ n, Frames f (port.enablePropagation state n)
  controllerEnable : p = true → ∀ n, Frames f ((leaf .controller).enablePropagation state n)
  portDisable : ∀ n, Frames f (portDisablePropagation state n)
  keys : ∀ w k, f { w with portTableKeys := k } = f w

namespace BridgeFrame

variable {state : InterpState} {p : Bool} (h : BridgeFrame f state p)

include h

theorem namesUsedSet (a : BridgeAttr) (b : Bool) (w : World) : f (namesUsedSet a b w) = f w :=
  (foldl_frame (fun w c => h.setUsed .controller b c w) a.controllers _).trans
    (foldl_frame (fun w p => h.portSetUsed b p w) a.ports w)

theorem namesDisable (ports controllers : List Name) (q u : Bool) :
    Frames f (namesDisable ports controllers state q u) := by
  apply (frames_disableEach h.portDisable (h.portSetUsed false) ports state q u).andThen
  exact frames_disableEach (h.disable .controller) (h.setUsed .controller false) controllers state q u

variable (n : Name)

theorem portsAdd (ports : List Name) : Frames f (portsAdd n ports) :=
  frames_forEach (fun _ => frames_withConf fun _ =>
    (h.dp _).andThen (frames_modify fun w => h.keys w _)) _

theorem portsDelete (ports : List Name) : Frames f (portsDelete n ports) :=
  frames_forEach (fun _ => frames_withConf fun _ =>
    (h.dp _).andThen (frames_modify fun w => h.keys w _)) _

theorem portIsModified : Frames f (portIsModified n) :=
  frames_read fun _ => frames_ite h.answer frames_fail

theorem portsIsModified (info : NamesInfo) : Frames f (portsIsModified info) := by
  unfold Bridge.portsIsModified
  induction info.notChange ++ info.add ++ info.del with
  | nil => exact frames_fail
  | cons p ps ih =>
    rw [List.foldr_cons]
    exact (h.portIsModified p).bind fun found => frames_ite frames_ok ih

variable (c : Conf BridgeAttr)

theorem isModified : Frames f (isModified c) := by
  apply frames_elim frames_fail
  exact fun m => frames_ite frames_ok (h.portsIsModified _)

theorem controllersAdd (cs : List Name) : Frames f (controllersAdd cs) :=
  frames_forEach (fun _ => frames_withConf fun _ => h.dp _) _

theorem controllersDelete (cs : List Name) : Frames f (controllersDelete cs) :=
  frames_forEach (fun _ => frames_withConf fun _ => h.dp _) _

theorem create (a : BridgeAttr) : Frames f (create n a) :=
  ((h.dp _).andThen (h.dp _)).andThen ((h.portsAdd n _).andThen (h.controllersAdd _))

theorem destroy (a : BridgeAttr) : Frames f (destroy n a) :=
  (h.controllersDelete _).andThen
    ((h.portsDelete n _).andThen ((h.dp _).andThen ((h.dp _).regardless frames_ok)))

theorem start (a : BridgeAttr) (ports controllers : NamesInfo) (u : Bool) :
    Frames f (start n a ports controllers state p u) := by
  have hlast : Frames f (if u then World.dp (.bridgeStart n) else ok) := frames_ite (h.dp _) frames_ok
  cases hp : p with
  | false => exact frames_ok.andThen (frames_ok.andThen hlast)
  | true =>
    apply (frames_forEach (h.portEnable hp) _).andThen
    exact (frames_forEach (h.controllerEnable hp) _).andThen hlast

theorem stop (a : BridgeAttr) : Frames f (stop n a state) :=
  (h.namesDisable _ _ true false).andThen (h.dp _)

theorem queueMaxBatchesSet : Frames f (queueMaxBatchesSet n) :=
  (h.dp _).andThen (((h.dp _).andThen (h.dp _)).regardless frames_ok)

theorem replace (m : BridgeAttr) : Frames f (replace n state c m p) := by
  apply Frames.andThen
  · apply frames_elim frames_ok
    intro a
    apply (h.namesDisable _ _ p true).andThen
    apply frames_ite (frames_ite (h.destroy n a) frames_ok)
    exact (h.controllersDelete _).andThen (h.portsDelete n _)
  · apply Frames.andThen
    · apply frames_ite (frames_ite (h.create n m) (h.queueMaxBatchesSet n))
      exact (h.portsAdd n _).andThen (h.controllersAdd _)
    · apply frames_ite _ frames_ok
      exact (frames_modify (h.namesUsedSet m true)).andThen (frames_ite (h.start n m _ _ _) frames_ok)

theorem startOrStop (e : Bool) : Frames f (startOrStop n state c p e) := by
  apply frames_ite _ frames_ok
  apply frames_elim frames_fail
  exact fun a => frames_ite (h.start n a _ _ true) (h.stop n a)

theorem doUpdate (halter : ∀ n g w, f (bridgeTable.alter n g w) = f w) (n : Name) (e : Bool)
    (hnames : p = true → ∀ c, Frames f (namesUpdate state c)) :
    Frames f (doUpdate state n p e) := by
  apply frames_withConf
  intro c
  apply (h.isModified c).bind
  intro modified
  apply Frames.andThen
  · cases hp : p with
    | false => exact frames_ok
    | true => exact hnames hp c
  · apply frames_ite
    · apply (h.replace n c _).andThen
      apply frames_modify
      intro w
      split
      · rfl
      · exact halter n _ w
    · exact (h.startOrStop n c e).finally_ (halter n _)

end BridgeFrame

/-! ## Commands -/

namespace Commands

variable {ω : Type} {C : Commands α ω} (h : C.Outside f)
  (hopt : ∀ state isConfig n o, Frames f (C.optParse state isConfig n o))

include h hopt

variable (state : InterpState) (n : Name) (opts : List ω)

theorem frames_createInternal : Frames f (C.createInternal state n opts) := by
  apply Frames.orElse _ (h.delete n)
  apply Frames.andThen _ (h.updateInternal state n true false)
  exact (frames_modify (h.put n _)).andThen (frames_forEach (hopt state false n) _)

theorem frames_configInternal : Frames f (C.configInternal state n opts) := by
  apply Frames.andThen _ (frames_ite frames_ok (h.updateInternal state n true false))
  apply Frames.andThen
  · apply frames_withConf
    exact fun c => frames_ite frames_ok (frames_ite (frames_modify (h.put n _)) frames_fail)
  · exact (frames_modify (h.alter n _)).andThen (frames_forEach (hopt state true n) _)

theorem frames_create : Frames f (C.create state n opts) := by
  apply frames_read
  intro w
  cases C.table.find w n with
  | none => exact frames_ite (frames_createInternal h hopt state n opts) frames_fail
  | some c => exact frames_ite (frames_configInternal h hopt state n opts) frames_fail

theorem frames_config : Frames f (C.config state n opts) := by
  apply frames_read
  intro w
  cases C.table.find w n with
  | none => exact frames_createInternal h hopt state n opts
  | some c => exact frames_configInternal h hopt state n opts

theorem frames_run (c : ObjCommand ω) : Frames f (C.run state c) := by
  cases c with
  | create n opts => exact frames_create h hopt state n opts
  | config n opts => exact frames_config h hopt state n opts
  | enable n => exact h.enablePropagation state n
  | disable n => exact Kind.frames_notDestroying (h.disableInternal state n false)
  | destroy n => exact Kind.frames_notDestroying (h.destroyInternal state n _)

end Commands

namespace IgnoresLeaves

variable (h : IgnoresLeaves f)

include h

theorem actionOptParse (n : Name) (isAdded : Bool) (action : Name) :
    Frames f (Policer.actionOptParse n isAdded action) := by
  apply frames_withConf
  intro c
  apply frames_ite
  · apply frames_ite frames_fail
    apply frames_withConf
    exact fun ac => frames_ite frames_fail (frames_modify (h.leafAlter .policer n _))
  · apply frames_ite frames_fail
    exact frames_modify fun w =>
      (h.leafSetUsed .policerAction false action _).trans (h.leafAlter .policer n _ w)

theorem channelOptParse (n ch : Name) : Frames f (Controller.channelOptParse n ch) := by
  have hused := (h.plainFrame .autoCommit true).channelUsedSet
  apply frames_withConf
  intro cc
  apply frames_ite frames_fail
  apply frames_withConf
  intro c
  apply frames_modify
  intro w
  exact (h.leafAlter .controller n _ _).trans
    ((elim_frame (fun a => hused a false) c.modified _).trans
      (elim_frame (fun a => hused a false) c.current w))

theorem leafOptParse (k : LeafKind) (isConfig : Bool) (n : Name) (o : LeafOption) :
    Frames f (leafOptParse k isConfig n o) := by
  cases o with
  | id v | other v => exact frames_modify (h.leafAlter k n _)
  | name isAdded m =>
    exact frames_ite (h.actionOptParse n isAdded m) (frames_ite (h.channelOptParse n m) frames_fail)
  | «show» => exact frames_ite frames_ok frames_fail
  | bad => exact frames_fail

theorem leafCommand (k : LeafKind) (state : InterpState) (c : ObjCommand LeafOption) :
    Frames f ((leafCommands k).run state c) :=
  Commands.frames_run (h.leaf_outside k) (fun _ => h.leafOptParse k) state c

end IgnoresLeaves

theorem IgnoresPortFlags.optParse (h : IgnoresPortFlags f)
    (hmod : ∀ n g w, f (portTable.setModified n g w) = f w) (state : InterpState) (isConfig : Bool)
    (n : Name) (o : PortOption) : Frames f (Port.optParse state isConfig n o) := by
  have hf := h.portFrame state
  cases o with
  | interface i =>
    apply frames_withConf
    intro ic
    apply frames_ite frames_fail
    apply frames_withConf
    intro c
    apply frames_modify
    intro w
    exact (hmod n _ _).trans ((elim_frame (fun a => hf.interfaceUsedSet a false) c.modified _).trans
      (elim_frame (fun a => hf.interfaceUsedSet a false) c.current w))
  | policer isAdded p =>
    apply frames_withConf
    intro c
    apply frames_elim frames_fail
    intro m
    apply frames_ite
    · apply (frames_modify (hf.policerUsedSet m false)).andThen
      apply frames_withConf
      exact fun pc => frames_ite frames_fail (frames_modify (hmod n _))
    · apply frames_ite frames_fail
      exact frames_modify fun w => (hmod n _ _).trans (hf.policerUsedSet m false w)
  | queueAdd q id =>
    apply frames_withConf
    intro c
    apply frames_ite frames_fail
    apply frames_withConf
    intro qc
    apply frames_elim frames_fail
    intro id
    apply frames_read
    intro w
    apply frames_ite frames_fail
    apply frames_ite frames_fail
    exact (frames_modify (hmod n _)).andThen (h.leafCommand .queue state (.config q _))
  | queueDelete q idGiven =>
    apply frames_withConf
    intro c
    apply frames_ite frames_fail
    apply frames_ite frames_fail
    exact frames_modify fun w => (h.leafSetUsed .queue false q _).trans (hmod n _ w)
  | «show» => exact frames_ite frames_ok frames_fail
  | bad => exact frames_fail

end Lagopus.Datastore
