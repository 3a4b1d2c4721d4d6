import Lagopus.Modules.Manager
import Lagopus.Lib.Trace

/-!
# The life of a module

What happens to a module is to follow an automaton: it is initialized, started, shut down and stopped
only while it is started, and finalized once, when it is initialized and not running.

* `life`: where a module is, by everything that happened;
* `Legal`: everything that happened was allowed when it did;
* `correct_iff_onlyNew`: a run of the manager is correct if and only if it registers no name twice, looks
  for no module that is registered, and finalizes no module a second time.
-/

namespace Lagopus.Modules

open List

/-! ## What is allowed -/

inductive Phase where
  | registered | initialized | started | stopping | ended
  deriving DecidableEq, Repr

structure Life where
  phase : Phase
  isFinalized : Bool
  deriving DecidableEq, Repr

/-- The index of the module to which something happens. -/
def Happening.idx : Happening → Nat
  | .init i _ => i
  | .start i _ => i
  | .shutdown i => i
  | .stop i => i
  | .finalize i => i
  | .cancelling i => i
  | .ended i => i

namespace Life

def new : Life := ⟨.registered, false⟩

def next (l : Life) : Happening → Life
  | .init _ ok => if ok then { l with phase := .initialized } else l
  | .start _ ok => if ok then { l with phase := .started } else l
  | .shutdown _ => l
  | .stop _ => l
  | .finalize _ => { l with isFinalized := true }
  | .cancelling _ => { l with phase := .stopping }
  | .ended _ => { l with phase := .ended }

/-- Initialized until that succeeds, started only after it did, shut down and stopped only while
started, finalized once and only when initialized and not running. -/
def Allows (l : Life) : Happening → Prop
  | .init _ _ => l.phase = .registered
  | .start _ _ => l.phase = .initialized
  | .shutdown _ => l.phase = .started
  | .stop _ => l.phase = .started
  | .finalize _ => (l.phase = .initialized ∨ l.phase = .ended) ∧ ¬ l.isFinalized
  | .cancelling _ => l.phase = .started
  | .ended _ => l.phase = .started ∨ l.phase = .stopping

end Life

/-- The life of a module so far. -/
def life : List Happening → Nat → Life
  | [], _ => .new
  | h :: log, i => if h.idx = i then (life log i).next h else life log i

/-- An initialization comes after those of all the modules registered before. -/
def InOrder (log : List Happening) : Happening → Prop
  | .init i _ => ∀ j < i, (life log j).phase ≠ .registered
  | _ => True

/-- Everything was allowed when it happened. -/
def Legal : List Happening → Prop
  | [] => True
  | h :: log => Legal log ∧ (life log h.idx).Allows h ∧ InOrder log h

/-! ## Steps -/

/-- The states in which `s_finalize_module` calls the module's function. -/
def Module.isFinalizable (m : Module) : Bool :=
  m.status = .initialized ∨ m.status = .shutdown ∨ m.status = .stopped

namespace Manager

def names (s : Manager) : List Name := s.modules.map Module.name

/-- `lagopus_module_find` answers the index of the module of the name, and `NOT_FOUND` if there is none. -/
def FindsRightly (s : Manager) (name : Name) : Prop :=
  (name ∈ s.names → ∃ i : Nat, s.find name = .index i ∧ s.names[i]? = some name) ∧
    (name ∉ s.names → name ≠ [] → s.find name = .notFound)

/-- What is asked of a call: names stay distinct, everything that happens is allowed, modules are
finalized in the reverse order, and the manager knows whether all of them are. -/
structure Correct (s : Manager) (op : Op) : Prop where
  distinct : (s.step op).names.Nodup
  found : ∀ name, op = .find name → s.FindsRightly name
  legal : Legal (s.step op).log
  reversed : op = .finalizeAll → ((s.happenings op).map Happening.idx).Pairwise (· < ·)
  cleanly : (s.step op).isFinalizedCleanly ↔
    ∀ i < (s.step op).modules.length, (life (s.step op).log i).isFinalized

/-- There is room for the module, and it has a name and its functions. -/
def Accepts (s : Manager) (r : Registration) : Prop :=
  s.modules.length < MAX_MODULES ∧ r.name ≠ [] ∧ r.hasProcs

/-- A name that is accepted is new, also when it is cut off; no module that is registered is looked for;
and no module that would be finalized was finalized before. -/
def OnlyNew (s : Manager) : Op → Prop
  | .register r => s.Accepts r → r.name.take (MAX_MODULE_NAME - 1) ∉ s.names
  | .find name => name ∉ s.names
  | .finalizeAll => ∀ i m, s.modules[i]? = some m → m.isFinalizable → ¬ (life s.log i).isFinalized
  | _ => True

end Manager

/-! ## What happened and the state of a module -/

/-- The state of a module is the one its life says. -/
def Matches (l : Life) (m : Module) : Prop :=
  match m.status with
  | .registered => l = .new
  | .initialized => l.phase = .initialized
  | .started => l.phase = .started
  | .cancelling => l.phase = .stopping
  | .shutdown => l.phase = .ended
  | .stopped => l.phase = .ended
  | .unknown => False
  | .finalized => False

/-- The modules of a list that starts at an index. -/
def Tracks (log : List Happening) (i : Nat) (ms : List Module) : Prop :=
  ∀ k m, ms[k]? = some m → Matches (life log (i + k)) m

variable {hs log : List Happening} {i : Nat}

theorem life_of_ne (h : ∀ x ∈ hs, x.idx ≠ i) : life (hs ++ log) i = life log i := by
  induction hs with
  | nil => rfl
  | cons x hs ih =>
    rw [cons_append, life, if_neg (h x mem_cons_self)]
    exact ih fun y hy => h y (mem_cons_of_mem x hy)

/-- The modules registered before have been initialized. -/
def Before (log : List Happening) (i : Nat) : Prop := ∀ j < i, (life log j).phase ≠ .registered

/-- What an action did concerns one module and was allowed, and the state of the module follows its
life. -/
structure Outcome (P : Prop) (log : List Happening) (i : Nat) (m m' : Module) (hs : List Happening) :
    Prop where
  idx : ∀ h ∈ hs, h.idx = i
  name : m'.name = m.name
  legal : Legal log → P → Legal (hs ++ log)
  tracks : Matches (life (hs ++ log) i) m'
  isFinalized : (life (hs ++ log) i).isFinalized = (life log i).isFinalized

namespace Outcome

variable {P : Prop} {log hs : List Happening} {i : Nat} {m m' m'' : Module}

theorem nothing (hm : Matches (life log i) m) : Outcome P log i m m [] where
  idx _ h := absurd h not_mem_nil
  name := rfl
  legal hlegal _ := hlegal
  tracks := hm
  isFinalized := rfl

theorem cons (o : Outcome P log i m m' hs) {h : Happening} (hi : h.idx = i)
    (hallows : (life (hs ++ log) i).Allows h) (horder : P → InOrder (hs ++ log) h)
    (hmatch : Matches ((life (hs ++ log) i).next h) m'') (hname : m''.name = m'.name)
    (hfin : ((life (hs ++ log) i).next h).isFinalized = (life (hs ++ log) i).isFinalized) :
    Outcome P log i m m'' (h :: hs) := by
  have hlife : life (h :: hs ++ log) i = (life (hs ++ log) i).next h := if_pos hi
  constructor
  · intro g hg
    rcases mem_cons.mp hg with rfl | hg
    · exact hi
    · exact o.idx g hg
  · exact hname.trans o.name
  · intro hlegal hP
    exact ⟨o.legal hlegal hP, hi.symm ▸ hallows, horder hP⟩
  · rw [hlife]
    exact hmatch
  · rw [hlife, hfin, o.isFinalized]

end Outcome

/-- Whatever an action does, it does rightly. -/
def Obeys (f : Action) (P : List Happening → Nat → Prop) : Prop :=
  ∀ {log i m}, Matches (life log i) m → Outcome (P log i) log i m (f i m).2.1 (f i m).2.2

theorem obeys_initializeModule (answer : Nat → Bool × Bool) : Obeys (initializeModule answer) Before := by
  intro log i m hm
  unfold initializeModule
  split
  · next hs =>
    have hnew : life log i = .new := by simpa [Matches, hs] using hm
    have hallows : (life log i).Allows (.init i true) := by rw [hnew]; rfl
    split
    · exact (Outcome.nothing hm).cons rfl hallows id (by simp [Matches, Life.next]) rfl rfl
    · exact (Outcome.nothing hm).cons rfl hallows id (by simp [Matches, Life.next, hnew, hs]) rfl rfl
  · exact .nothing hm

variable (answer : Nat → Bool)

theorem obeys_startModule : Obeys (startModule answer) Before := by
  intro log i m hm
  unfold startModule
  split
  · next hs =>
    have hphase : (life log i).phase = .initialized := by simpa [Matches, hs] using hm
    split
    · exact (Outcome.nothing hm).cons rfl hphase (fun _ => trivial) (by simp [Matches, Life.next]) rfl rfl
    · exact (Outcome.nothing hm).cons rfl hphase (fun _ => trivial)
        (by simpa [Matches, Life.next, hs] using hphase) rfl rfl
  · split <;> exact .nothing hm

/-- No condition. -/
def Anyhow (_ : List Happening) (_ : Nat) : Prop := True

theorem obeys_shutdownModule : Obeys (shutdownModule answer) Anyhow := by
  intro log i m hm
  unfold shutdownModule
  split
  · next hs =>
    have hphase : (life log i).phase = .started := by simpa [Matches, hs] using hm
    have hcall : Outcome (Anyhow log i) log i m m [.shutdown i] :=
      (Outcome.nothing hm).cons rfl hphase (fun _ => trivial) hm rfl rfl
    have hallows : (life ([.shutdown i] ++ log) i).Allows (.ended i) :=
      Or.inl (by simpa [life, Happening.idx, Life.next] using hphase)
    by_cases hthread : m.hasThread
    · simp only [if_pos hthread]
      exact hcall
    · simp only [if_neg hthread]
      exact hcall.cons rfl hallows (fun _ => trivial) (by simp [Matches, Life.next]) rfl rfl
  · split <;> exact .nothing hm

theorem obeys_stopModule : Obeys (stopModule answer) Anyhow := by
  intro log i m hm
  unfold stopModule
  split
  · next hs =>
    have hphase : (life log i).phase = .started := by simpa [Matches, hs] using hm
    split
    · exact .nothing hm
    · -- The module's own function is called if it has one.
      obtain ⟨called, hcalled, hcall, hstill⟩ : ∃ called : List Happening,
          (if m.hasStop then [.stop i] else []) = called ∧
          Outcome (Anyhow log i) log i m m called ∧ (life (called ++ log) i).phase = .started := by
        cases m.hasStop with
        | true =>
          refine ⟨_, rfl, (Outcome.nothing hm).cons rfl hphase (fun _ => trivial) hm rfl rfl, ?_⟩
          simpa [life, Happening.idx, Life.next] using hphase
        | false => exact ⟨_, rfl, .nothing hm, hphase⟩
      simp only [hcalled]
      split
      · split
        · exact hcall.cons rfl hstill (fun _ => trivial) (by simp [Matches, Life.next]) rfl rfl
        · have hallows : (life (called ++ log) i).Allows (.ended i) := Or.inl hstill
          exact hcall.cons rfl hallows (fun _ => trivial) (by simp [Matches, Life.next]) rfl rfl
      · exact hcall
  · split <;> exact .nothing hm

theorem obeys_waitModule (answer : Nat → Option Bool) : Obeys (waitModule answer) Anyhow := by
  intro log i m hm
  unfold waitModule
  split
  · next hs =>
    have hphase : (life log i).phase = .started ∨ (life log i).phase = .stopping := by
      rcases hs.1 with hs | hs
      · exact .inr (by simpa [Matches, hs] using hm)
      · exact .inl (by simpa [Matches, hs] using hm)
    split
    · exact .nothing hm
    · next isCanceled _ =>
      exact (Outcome.nothing hm).cons rfl hphase (fun _ => trivial)
        (by cases isCanceled <;> simp [Matches, Life.next]) rfl rfl
  · split <;> exact .nothing hm

/-! ## Going over all the modules -/

variable {m : Module} {ms : List Module}

theorem tracks_cons : Tracks log i (m :: ms) ↔ Matches (life log i) m ∧ Tracks log (i + 1) ms := by
  constructor
  · intro h
    refine ⟨h 0 m rfl, fun k m' hk => ?_⟩
    rw [Nat.add_right_comm]
    exact h (k + 1) m' hk
  · rintro ⟨hm, hms⟩ k m' hk
    cases k with
    | zero =>
      have hmm : m = m' := Option.some.inj hk
      exact hmm ▸ hm
    | succ k =>
      have hk' := hms k m' hk
      rw [Nat.add_right_comm] at hk'
      exact hk'

theorem Tracks.congr {log' : List Happening} (h : Tracks log i ms)
    (hlife : ∀ j ≥ i, life log' j = life log j) : Tracks log' i ms := by
  intro k m hk
  rw [hlife (i + k) (Nat.le_add_right i k)]
  exact h k m hk

/-- What a call over the modules from an index on did, none of which it finalized. -/
structure Swept (log : List Happening) (i : Nat) (ms ms' : List Module) (hs : List Happening) :
    Prop where
  idx : ∀ h ∈ hs, i ≤ h.idx ∧ h.idx < i + ms.length
  names : ms'.map Module.name = ms.map Module.name
  tracks : Tracks (hs ++ log) i ms'
  isFinalized : ∀ j, (life (hs ++ log) j).isFinalized = (life log j).isFinalized

theorem Outcome.isFinalized_all {P : Prop} {m' : Module} (o : Outcome P log i m m' hs) (j : Nat) :
    (life (hs ++ log) j).isFinalized = (life log j).isFinalized := by
  by_cases hj : j = i
  · rw [hj, o.isFinalized]
  · rw [life_of_ne fun x hx => (o.idx x hx).trans_ne (Ne.symm hj)]

theorem forward_swept {f : Action} (hf : Obeys f Before)
    (hpast : ∀ {log i m}, Matches (life log i) m → (f i m).1 = .ok →
      (life ((f i m).2.2 ++ log) i).phase ≠ .registered) :
    ∀ {ms : List Module} {log : List Happening} {i : Nat}, Tracks log i ms → Legal log →
      Before log i → Swept log i ms (forward f i ms).2.1 (forward f i ms).2.2 ∧
        Legal ((forward f i ms).2.2 ++ log) := by
  intro ms
  induction ms with
  | nil =>
    intro log i htracks hlegal _
    exact ⟨⟨fun _ h => absurd h not_mem_nil, rfl, htracks, fun _ => rfl⟩, hlegal⟩
  | cons m ms ih =>
    intro log i htracks hlegal hbefore
    obtain ⟨hm, hms⟩ := tracks_cons.mp htracks
    have o := hf hm
    have hothers : ∀ j ≥ i + 1, life ((f i m).2.2 ++ log) j = life log j := fun j hj =>
      life_of_ne fun x hx => by rw [o.idx x hx]; omega
    have hlegal₁ := o.legal hlegal hbefore
    have hms₁ := hms.congr hothers
    by_cases hr : (f i m).1 = .ok
    · have hbefore₁ : Before ((f i m).2.2 ++ log) (i + 1) := by
        intro j hj
        by_cases hji : j = i
        · rw [hji]
          exact hpast hm hr
        · rw [life_of_ne fun x hx => (o.idx x hx).trans_ne (Ne.symm hji)]
          exact hbefore j (by omega)
      obtain ⟨hsw, hlegal₂⟩ := ih hms₁ hlegal₁ hbefore₁
      simp only [forward, if_pos hr, append_assoc]
      refine ⟨⟨?_, ?_, ?_, ?_⟩, hlegal₂⟩
      · intro h hh
        rw [length_cons]
        rcases mem_append.mp hh with hh | hh
        · have := hsw.idx h hh
          omega
        · have := o.idx h hh
          omega
      · rw [map_cons, map_cons, hsw.names, o.name]
      · rw [append_assoc, tracks_cons]
        refine ⟨?_, hsw.tracks⟩
        rw [life_of_ne fun x hx => by have := hsw.idx x hx; omega]
        exact o.tracks
      · intro j
        rw [append_assoc, hsw.isFinalized, o.isFinalized_all]
    · simp only [forward, if_neg hr]
      refine ⟨⟨?_, ?_, tracks_cons.mpr ⟨o.tracks, hms₁⟩, o.isFinalized_all⟩, hlegal₁⟩
      · intro h hh
        rw [length_cons, o.idx h hh]
        omega
      · rw [map_cons, map_cons, o.name]

theorem backward_swept {f : Action} (hf : Obeys f Anyhow) :
    ∀ {ms : List Module} {log : List Happening} {i : Nat}, Tracks log i ms → Legal log →
      Swept log i ms (backward f i ms).2.1 (backward f i ms).2.2 ∧
        Legal ((backward f i ms).2.2 ++ log) := by
  intro ms
  induction ms with
  | nil =>
    intro log i htracks hlegal
    exact ⟨⟨fun _ h => absurd h not_mem_nil, rfl, htracks, fun _ => rfl⟩, hlegal⟩
  | cons m ms ih =>
    intro log i htracks hlegal
    obtain ⟨hm, hms⟩ := tracks_cons.mp htracks
    obtain ⟨hsw, hlegal₁⟩ := ih hms hlegal
    have hself : life ((backward f (i + 1) ms).2.2 ++ log) i = life log i :=
      life_of_ne fun x hx => by have := hsw.idx x hx; omega
    have o := hf (hself.symm ▸ hm : Matches (life ((backward f (i + 1) ms).2.2 ++ log) i) m)
    simp only [backward]
    refine ⟨⟨?_, ?_, ?_, ?_⟩, ?_⟩
    · intro h hh
      rw [length_cons]
      rcases mem_append.mp hh with hh | hh
      · have := o.idx h hh
        omega
      · have := hsw.idx h hh
        omega
    · rw [map_cons, map_cons, hsw.names, o.name]
    · rw [append_assoc, tracks_cons]
      refine ⟨o.tracks, hsw.tracks.congr fun j hj => life_of_ne fun x hx => ?_⟩
      rw [o.idx x hx]
      omega
    · intro j
      rw [append_assoc, o.isFinalized_all, hsw.isFinalized]
    · rw [append_assoc]
      exact o.legal hlegal₁ trivial

/-! ## Finalizing -/

/-- The indices of the modules that are finalized. -/
def finalizedNow : Nat → List Module → List Nat
  | _, [] => []
  | i, m :: ms => if m.isFinalizable then i :: finalizedNow (i + 1) ms else finalizedNow (i + 1) ms

theorem backward_finalizeModule (i : Nat) (ms : List Module) :
    (backward finalizeModule i ms).2 = (ms, (finalizedNow i ms).map .finalize) := by
  induction ms generalizing i with
  | nil => rfl
  | cons m ms ih =>
    have hm : (finalizeModule i m).2 = (m, if m.isFinalizable then [.finalize i] else []) := by
      unfold finalizeModule Module.isFinalizable
      split
      · next h => simp [h]
      · next h => simp [h]
    have h₁ : (finalizeModule i m).2.1 = m := by rw [hm]
    have h₂ : (finalizeModule i m).2.2 = if m.isFinalizable then [.finalize i] else [] := by rw [hm]
    simp only [backward, finalizedNow, h₁, h₂, ih]
    split <;> rfl

theorem mem_finalizedNow {j : Nat} :
    j ∈ finalizedNow i ms ↔ ∃ k m, ms[k]? = some m ∧ m.isFinalizable ∧ j = i + k := by
  induction ms generalizing i with
  | nil => simp [finalizedNow]
  | cons m ms ih =>
    have hrest : j ∈ finalizedNow (i + 1) ms ↔
        ∃ k m', (m :: ms)[k + 1]? = some m' ∧ m'.isFinalizable ∧ j = i + (k + 1) := by
      rw [ih]
      simp [getElem?_cons_succ, Nat.add_assoc, Nat.add_comm 1]
    constructor
    · intro h
      unfold finalizedNow at h
      split at h
      · next hm =>
        rcases mem_cons.mp h with rfl | h
        · exact ⟨0, m, rfl, hm, rfl⟩
        · obtain ⟨k, m', hk⟩ := hrest.mp h
          exact ⟨k + 1, m', hk⟩
      · obtain ⟨k, m', hk⟩ := hrest.mp h
        exact ⟨k + 1, m', hk⟩
    · rintro ⟨k, m', hk, hm', hj⟩
      unfold finalizedNow
      cases k with
      | zero =>
        have hmm : m = m' := Option.some.inj hk
        rw [hmm, if_pos hm', hj]
        exact mem_cons_self
      | succ k =>
        have hin := hrest.mpr ⟨k, m', hk, hm', hj⟩
        split
        · exact mem_cons_of_mem i hin
        · exact hin

theorem pairwise_finalizedNow (i : Nat) (ms : List Module) : (finalizedNow i ms).Pairwise (· < ·) := by
  induction ms generalizing i with
  | nil => exact Pairwise.nil
  | cons m ms ih =>
    unfold finalizedNow
    split
    · refine pairwise_cons.mpr ⟨fun j hj => ?_, ih (i + 1)⟩
      obtain ⟨k, _, _, _, rfl⟩ := mem_finalizedNow.mp hj
      omega
    · exact ih (i + 1)

theorem nodup_finalizedNow (i : Nat) (ms : List Module) : (finalizedNow i ms).Nodup :=
  (pairwise_finalizedNow i ms).imp Nat.ne_of_lt

section FinalizeLog

variable {js : List Nat} {log : List Happening}

theorem life_finalize (js : List Nat) (log : List Happening) (j : Nat) : life (js.map .finalize ++ log) j =
      if j ∈ js then { life log j with isFinalized := true } else life log j := by
  induction js with
  | nil => rfl
  | cons i js ih =>
    rw [map_cons, cons_append, life, ih]
    by_cases hij : i = j
    · subst hij
      have hidx : (Happening.finalize i).idx = i := rfl
      rw [if_pos hidx, if_pos mem_cons_self]
      split <;> rfl
    · have hidx : ¬ (Happening.finalize i).idx = j := hij
      rw [if_neg hidx]
      simp [Ne.symm hij]

theorem legal_finalize_iff (hlegal : Legal log) (hnodup : js.Nodup)
    (hphase : ∀ j ∈ js, (life log j).phase = .initialized ∨ (life log j).phase = .ended) :
    Legal (js.map .finalize ++ log) ↔ ∀ j ∈ js, ¬ (life log j).isFinalized := by
  induction js with
  | nil => exact ⟨fun _ j hj => absurd hj not_mem_nil, fun _ => hlegal⟩
  | cons i js ih =>
    obtain ⟨hi, hnodup⟩ := nodup_cons.mp hnodup
    have hrest := ih hnodup fun j hj => hphase j (mem_cons_of_mem i hj)
    have hself : life (js.map .finalize ++ log) i = life log i := by rw [life_finalize, if_neg hi]
    have hallows : (life (js.map .finalize ++ log) i).Allows (.finalize i) ↔
        ¬ (life log i).isFinalized := by
      rw [hself]
      exact and_iff_right (hphase i mem_cons_self)
    rw [forall_mem_cons, ← hrest, ← hallows]
    exact ⟨fun h => ⟨h.2.1, h.1⟩, fun h => ⟨h.2, h.1, trivial⟩⟩

end FinalizeLog

theorem Tracks.phase_of_isFinalizable {j : Nat} (h : Tracks log i ms) (hj : j ∈ finalizedNow i ms) :
    (life log j).phase = .initialized ∨ (life log j).phase = .ended := by
  obtain ⟨k, m, hk, hm, rfl⟩ := mem_finalizedNow.mp hj
  have hmatch := h k m hk
  have hstatus : m.status = .initialized ∨ m.status = .shutdown ∨ m.status = .stopped := by
    simpa [Module.isFinalizable] using hm
  rcases hstatus with hs | hs | hs
  · exact .inl (by simpa [Matches, hs] using hmatch)
  · exact .inr (by simpa [Matches, hs] using hmatch)
  · exact .inr (by simpa [Matches, hs] using hmatch)

theorem Tracks.finalize (h : Tracks log i ms) : Tracks ((finalizedNow i ms).map .finalize ++ log) i ms := by
  intro k m hk
  have hmatch := h k m hk
  rw [life_finalize]
  split
  · next hj =>
    -- A module that is only registered is not among those that are finalized.
    have hphase := h.phase_of_isFinalizable hj
    unfold Matches at hmatch ⊢
    split <;> simp_all [Life.new]
  · exact hmatch

/-! ## The manager -/

namespace Manager

/-- The indices of the modules that have been finalized. -/
def finalized (log : List Happening) (n : Nat) : Finset Nat :=
  (Finset.range n).filter fun i => (life log i).isFinalized

/-- What the manager knows is what happened. -/
structure Inv (s : Manager) : Prop where
  distinct : s.names.Nodup
  legal : Legal s.log
  tracks : Tracks s.log 0 s.modules
  idx : ∀ h ∈ s.log, h.idx < s.modules.length
  nFinalized : s.nFinalized = (finalized s.log s.modules.length).card

theorem inv_init : init.Inv where
  distinct := nodup_nil
  legal := trivial
  tracks := fun k m hk => absurd hk (by simp [init])
  idx := fun _ h => absurd h not_mem_nil
  nFinalized := rfl

variable {s : Manager}

theorem Inv.cleanly (h : s.Inv) :
    s.isFinalizedCleanly ↔ ∀ i < s.modules.length, (life s.log i).isFinalized := by
  have hcard : (finalized s.log s.modules.length).card = (Finset.range s.modules.length).card ↔
      ∀ i ∈ Finset.range s.modules.length, (life s.log i).isFinalized := Finset.card_filter_eq_iff
  simp only [Finset.mem_range, Finset.card_range] at hcard
  rw [← hcard, ← h.nFinalized]
  exact decide_eq_true_iff.trans eq_comm

theorem Inv.sweep {ms' : List Module} (h : s.Inv) (hsw : Swept s.log 0 s.modules ms' hs)
    (hlegal : Legal (hs ++ s.log)) : Inv { s with modules := ms', log := hs ++ s.log } := by
  have hlen : ms'.length = s.modules.length := by
    simpa using congrArg length hsw.names
  constructor
  · show (ms'.map Module.name).Nodup
    rw [hsw.names]
    exact h.distinct
  · exact hlegal
  · exact hsw.tracks
  · intro x hx
    show x.idx < ms'.length
    rw [hlen]
    rcases mem_append.mp hx with hx | hx
    · have := hsw.idx x hx
      omega
    · exact h.idx x hx
  · show s.nFinalized = (finalized (hs ++ s.log) ms'.length).card
    rw [h.nFinalized, hlen]
    unfold finalized
    simp [hsw.isFinalized]

theorem happenings_finalizeAll (s : Manager) :
    s.happenings .finalizeAll = (finalizedNow 0 s.modules).map .finalize :=
  congrArg Prod.snd (backward_finalizeModule 0 s.modules)

theorem step_finalizeAll (s : Manager) :
    s.step .finalizeAll = ⟨s.modules, s.nFinalized + (finalizedNow 0 s.modules).length,
      (finalizedNow 0 s.modules).map .finalize ++ s.log⟩ := by
  have hmodules : (s.sweep .finalizeAll).2.1 = s.modules :=
    congrArg Prod.fst (backward_finalizeModule 0 s.modules)
  simp [step, hmodules, happenings_finalizeAll]

theorem onlyNew_finalizeAll :
    s.OnlyNew .finalizeAll ↔ ∀ j ∈ finalizedNow 0 s.modules, ¬ (life s.log j).isFinalized := by
  constructor
  · intro h j hj
    obtain ⟨k, m, hk, hm, rfl⟩ := mem_finalizedNow.mp hj
    rw [Nat.zero_add]
    exact h k m hk hm
  · intro h i m hi hm
    exact h i (mem_finalizedNow.mpr ⟨i, m, hi, hm, (Nat.zero_add i).symm⟩)

theorem Inv.legal_finalizeAll (h : s.Inv) : Legal (s.step .finalizeAll).log ↔ s.OnlyNew .finalizeAll := by
  rw [step_finalizeAll, onlyNew_finalizeAll]
  exact legal_finalize_iff h.legal (nodup_finalizedNow 0 _) fun j => h.tracks.phase_of_isFinalizable

theorem Inv.finalizeAll (h : s.Inv) (hnew : s.OnlyNew .finalizeAll) : (s.step .finalizeAll).Inv := by
  have hlegal := h.legal_finalizeAll.mpr hnew
  have hnot := onlyNew_finalizeAll.mp hnew
  rw [step_finalizeAll] at hlegal ⊢
  have hlt : ∀ j ∈ finalizedNow 0 s.modules, j < s.modules.length := by
    intro j hj
    obtain ⟨k, m, hk, -, rfl⟩ := mem_finalizedNow.mp hj
    have := (List.getElem?_eq_some_iff.mp hk).1
    omega
  refine ⟨h.distinct, hlegal, h.tracks.finalize, ?_, ?_⟩
  · intro x hx
    rcases mem_append.mp hx with hx | hx
    · obtain ⟨j, hj, rfl⟩ := mem_map.mp hx
      exact hlt j hj
    · exact h.idx x hx
  · -- Those finalized now come on top of those finalized before.
    have hset : finalized ((finalizedNow 0 s.modules).map .finalize ++ s.log) s.modules.length =
        finalized s.log s.modules.length ∪ (finalizedNow 0 s.modules).toFinset := by
      ext j
      simp only [finalized, Finset.mem_filter, Finset.mem_range, Finset.mem_union, mem_toFinset,
        life_finalize]
      by_cases hj : j ∈ finalizedNow 0 s.modules
      · simp [hj, hlt j hj]
      · simp [hj]
    have hdisjoint : Disjoint (finalized s.log s.modules.length)
        (finalizedNow 0 s.modules).toFinset := by
      rw [Finset.disjoint_right]
      intro j hj hfin
      exact hnot j (mem_toFinset.mp hj) (Finset.mem_filter.mp hfin).2
    show s.nFinalized + (finalizedNow 0 s.modules).length = _
    rw [hset, Finset.card_union_of_disjoint hdisjoint,
      toFinset_card_of_nodup (nodup_finalizedNow 0 _), h.nFinalized]

theorem register_cases (s : Manager) (r : Registration) :
    (s.Accepts r ∧ (s.register r).2 = { s with modules := s.modules ++
      [⟨r.name.take (MAX_MODULE_NAME - 1), r.hasStop, false, .registered⟩] }) ∨
    (¬ s.Accepts r ∧ (s.register r).2 = s) := by
  unfold register Accepts
  split
  · next hroom =>
    split
    · next hprocs =>
      -- a name that is there is not found either
      have hfind : s.sFindModule r.name false = .notFound := by
        unfold sFindModule
        rw [if_neg hprocs.1]
        split <;> rfl
      rw [if_pos hfind]
      exact .inl ⟨⟨hroom, hprocs⟩, rfl⟩
    · next hprocs => exact .inr ⟨fun h => hprocs h.2, rfl⟩
  · next hroom => exact .inr ⟨fun h => hroom h.1, rfl⟩

theorem Inv.register (h : s.Inv) (hnew : m.name ∉ s.names) (hstatus : m.status = .registered) :
    Inv { s with modules := s.modules ++ [m] } := by
  have hlife : ∀ i ≥ s.modules.length, life s.log i = .new := by
    intro i hi
    have hne : life (s.log ++ []) i = life [] i :=
      life_of_ne fun x hx => (Nat.lt_of_lt_of_le (h.idx x hx) hi).ne
    rwa [append_nil] at hne
  constructor
  · show ((s.modules ++ [m]).map Module.name).Nodup
    rw [map_append, map_singleton]
    exact nodup_append.mpr ⟨h.distinct, nodup_singleton _, by
      intro a ha b hb hab
      rw [mem_singleton.mp hb] at hab
      exact hnew (hab ▸ ha)⟩
  · exact h.legal
  · intro k m' hk
    by_cases hlt : k < s.modules.length
    · exact h.tracks k m' (by rwa [getElem?_append_left hlt] at hk)
    · have hlen : k = s.modules.length := by
        have hk' := (List.getElem?_eq_some_iff.mp hk).1
        rw [length_append, length_singleton] at hk'
        omega
      have hmm : m = m' := by simpa [hlen] using hk
      show Matches (life s.log (0 + k)) m'
      rw [← hmm, Nat.zero_add, hlife k (by omega), Matches, hstatus]
  · intro x hx
    show x.idx < (s.modules ++ [m]).length
    have := h.idx x hx
    rw [length_append]
    omega
  · show s.nFinalized = (finalized s.log (s.modules ++ [m]).length).card
    rw [h.nFinalized, length_append, length_singleton]
    unfold finalized
    rw [Finset.range_add_one, Finset.filter_insert, hlife _ le_rfl]
    simp [Life.new]

theorem Inv.step_sweep (h : s.Inv) {op : Op}
    (hop : s.step op = { s with modules := (s.sweep op).2.1, log := s.happenings op ++ s.log })
    (hsw : Swept s.log 0 s.modules (s.sweep op).2.1 (s.happenings op) ∧
      Legal (s.happenings op ++ s.log)) : (s.step op).Inv := by
  rw [hop]
  exact h.sweep hsw.1 hsw.2

theorem before_zero (log : List Happening) : Before log 0 := fun _ hj => absurd hj (Nat.not_lt_zero _)

theorem Inv.step (h : s.Inv) {op : Op} (hnew : s.OnlyNew op) : (s.step op).Inv := by
  cases op with
  | register r =>
    show (s.register r).2.Inv
    rcases s.register_cases r with ⟨hok, hr⟩ | ⟨-, hr⟩
    · rw [hr]
      exact h.register (hnew hok) rfl
    · rw [hr]
      exact h
  | find name => exact h
  | initializeAll answer =>
    refine h.step_sweep rfl (forward_swept (obeys_initializeModule answer) ?_ h.tracks h.legal (before_zero _))
    intro log i m hm hok
    unfold initializeModule at hok ⊢
    split at hok
    · split at hok
      · next hs ha => simp [hs, ha, life, Happening.idx, Life.next]
      · simp at hok
    · simp at hok
  | startAll answer =>
    refine h.step_sweep rfl (forward_swept (obeys_startModule answer) ?_ h.tracks h.legal (before_zero _))
    intro log i m hm hok
    unfold startModule at hok ⊢
    split at hok
    · split at hok
      · next hs ha => simp [hs, ha, life, Happening.idx, Life.next]
      · simp at hok
    · split at hok
      · next hs =>
        have hphase : (life log i).phase = .started := by simpa [Matches, hs] using hm
        simp [hs, hphase]
      · simp at hok
  | shutdownAll isValidLevel answer =>
    cases isValidLevel with
    | true => exact h.step_sweep rfl (backward_swept (obeys_shutdownModule answer) h.tracks h.legal)
    | false => exact h
  | stopAll answer =>
    exact h.step_sweep rfl (backward_swept (obeys_stopModule answer) h.tracks h.legal)
  | waitAll answer =>
    exact h.step_sweep rfl (backward_swept (obeys_waitModule answer) h.tracks h.legal)
  | finalizeAll => exact h.finalizeAll hnew

theorem find_ne_index (s : Manager) (name : Name) (i : Nat) : s.find name ≠ .index i := by
  unfold find sFindModule
  split
  · simp
  · split <;> simp

theorem findsRightly_iff (s : Manager) (name : Name) : s.FindsRightly name ↔ name ∉ s.names := by
  constructor
  · intro h hin
    obtain ⟨i, hi, -⟩ := h.1 hin
    exact s.find_ne_index name i hi
  · intro hnot
    refine ⟨fun hin => absurd hin hnot, fun _ hne => ?_⟩
    unfold find sFindModule
    rw [if_neg hne]
    split <;> rfl

theorem Inv.correct_iff (h : s.Inv) (op : Op) : s.Correct op ↔ s.OnlyNew op := by
  constructor
  · intro hc
    cases op with
    | register r =>
      intro hok
      have hdistinct := hc.distinct
      have hstep : s.step (.register r) = (s.register r).2 := rfl
      rcases s.register_cases r with ⟨-, hr⟩ | ⟨hno, -⟩
      · rw [hstep, hr] at hdistinct
        have hnames : (s.names ++ [r.name.take (MAX_MODULE_NAME - 1)]).Nodup := by
          simpa [names] using hdistinct
        exact fun hin => (nodup_append.mp hnames).2.2 _ hin _ mem_cons_self rfl
      · exact absurd hok hno
    | find name => exact (s.findsRightly_iff name).mp (hc.found name rfl)
    | finalizeAll => exact h.legal_finalizeAll.mp hc.legal
    | initializeAll answer => trivial
    | startAll answer => trivial
    | shutdownAll isValidLevel answer => trivial
    | stopAll answer => trivial
    | waitAll answer => trivial
  · intro hh
    have hnext := h.step hh
    refine ⟨hnext.distinct, ?_, hnext.legal, ?_, hnext.cleanly⟩
    · rintro name rfl
      exact (s.findsRightly_iff name).mpr hh
    · rintro rfl
      rw [happenings_finalizeAll, map_map]
      exact (map_id' (finalizedNow 0 s.modules)).symm ▸ pairwise_finalizedNow 0 s.modules

open Trace

/-- A run of the manager is correct if and only if every call is about new names and about modules that
have not been finalized. -/
theorem correct_iff_onlyNew (ops : List Op) :
    EveryStep step Correct init ops ↔ EveryStep step OnlyNew init ops :=
  EveryStep.iff_of_invariant (fun _ op h => h.correct_iff op) (fun _ _ h hh => h.step hh) inv_init ops

def registration (name : Name) : Op := .register ⟨name, true, false⟩

/-- A name is registered twice; a module that is registered is not found; an initialized module is
finalized as often as that is asked for, and then not all of them seem to be. -/
theorem runs_not_correct :
    ¬ EveryStep step Correct init [registration ['a'], registration ['a']] ∧
    ¬ EveryStep step Correct init [registration ['a'], .find ['a']] ∧
    ¬ EveryStep step Correct init
      [registration ['a'], .initializeAll fun _ => (true, false), .finalizeAll, .finalizeAll] := by
  refine ⟨fun h => ?_, fun h => ?_, fun h => ?_⟩
  · exact absurd h.2.1.distinct (by decide)
  · obtain ⟨i, hi, -⟩ := (h.2.1.found ['a'] rfl).1 (by decide)
    exact find_ne_index _ _ i hi
  · have hlegal := h.2.2.2.1.legal
    exact hlegal.2.1.2 (by decide)

end Manager

end Lagopus.Modules
