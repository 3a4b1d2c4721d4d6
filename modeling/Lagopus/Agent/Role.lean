import Mathlib.Data.Fin.Basic
import Mathlib.Data.List.FinRange
import Mathlib.Tactic
import Lagopus.Lib.Trace

/-!
# Controller roles

The channels of one datapath have a role each, and share a generation id.  A role request names a
role; requests for master and slave also carry a generation id, which must not be older than the one
stored.

* `ofpRoleRequestHandle`: the handler, on the roles and the generation id of one datapath;
* `dpidIterate_role`: what the walk over the channels does;
* `atMostOneMaster_run_iff`: which runs of requests keep a single master.
-/

namespace Lagopus

open Function

/-- `OFPCR_ROLE_*`. -/
inductive Role where
  | nochange
  | equal
  | master
  | slave
  deriving DecidableEq, Repr

/-- `role_check`: the roles a request may name. -/
def Role.check (role : BitVec 32) : Option Role :=
  if role = 0 then some .nochange
  else if role = 1 then some .equal
  else if role = 2 then some .master
  else if role = 3 then some .slave
  else none

/-- `struct ofp_role_request`. -/
structure RoleRequest where
  role : BitVec 32
  generationId : BitVec 64
  deriving DecidableEq, Repr

/-- The codes of `OFPET_ROLE_REQUEST_FAILED` that the handler sets. -/
inductive RoleRequestFailed where
  | stale
  | badRole
  deriving DecidableEq, Repr

/-- What the channel manager keeps for one datapath with `n` channels: the role of each channel and
the generation id, once there is one. -/
structure DpidChannels (n : Nat) where
  role : Fin n → Role
  generationId : Option (BitVec 64)

namespace DpidChannels

variable {n : Nat}

/-- Newly attached channels. -/
def initial (n : Nat) : DpidChannels n := ⟨fun _ => .equal, none⟩

/-- `channel_role_set`. -/
def roleSet (s : DpidChannels n) (c : Fin n) (role : Role) : DpidChannels n :=
  { s with role := Function.update s.role c role }

/-- `change_master2slave`. -/
def changeMaster2slave (s : DpidChannels n) (c : Fin n) : DpidChannels n :=
  if s.role c = .master then s.roleSet c .slave else s

/-- `channel_mgr_dpid_iterate`, over the channel list. -/
def dpidIterate (s : DpidChannels n) (f : DpidChannels n → Fin n → DpidChannels n) :
    DpidChannels n :=
  (List.finRange n).foldl f s

/-- `ofp_role_channel_update`, with the role that the reply names. -/
def channelUpdate (s : DpidChannels n) (c : Fin n) (role : Role) : DpidChannels n × Role :=
  let currentRole := s.role c
  if role = currentRole ∨ role = .nochange then
    (s, currentRole)
  else
    -- The walk depends on the role the channel has, not on the one it asks for.
    let s := if currentRole = .master then s.dpidIterate changeMaster2slave else s
    (s.roleSet c role, role)

/-- `distance`. -/
def distance (generationId current : BitVec 64) : Int := (generationId - current).toInt

/-- `ofp_role_generation_id_check`; `none` when the id is stale. -/
def generationIdCheck (s : DpidChannels n) (role : Role) (generationId : BitVec 64) :
    Option (DpidChannels n) :=
  if role ≠ .master ∧ role ≠ .slave then
    some s
  else if s.generationId.any fun gen => distance generationId gen < 0 then
    none
  else
    some { s with generationId := some generationId }

/-- `ofp_role_request_handle`, for a request of the right length, with the role of its reply. -/
def ofpRoleRequestHandle (s : DpidChannels n) (c : Fin n) (req : RoleRequest) :
    DpidChannels n × Except RoleRequestFailed Role :=
  (Role.check req.role).elim (s, .error .badRole) fun role =>
    (s.generationIdCheck role req.generationId).elim (s, .error .stale) fun s =>
      let (s, reply) := s.channelUpdate c role
      (s, .ok reply)

/-! ## The walk over the channels -/

theorem role_changeMaster2slave (s : DpidChannels n) (c d : Fin n) :
    (s.changeMaster2slave c).role d = if d = c ∧ s.role d = .master then .slave else s.role d := by
  unfold changeMaster2slave
  by_cases hm : s.role c = .master
  · rw [if_pos hm]
    by_cases hd : d = c
    · simp [roleSet, hd, hm]
    · simp [roleSet, hd]
  · rw [if_neg hm, if_neg]
    rintro ⟨rfl, hd⟩
    exact hm hd

theorem role_foldl (cs : List (Fin n)) (s : DpidChannels n) (d : Fin n) :
    (cs.foldl changeMaster2slave s).role d =
      if d ∈ cs ∧ s.role d = .master then .slave else s.role d := by
  induction cs generalizing s with
  | nil => simp
  | cons c cs ih =>
    rw [List.foldl_cons, ih, role_changeMaster2slave]
    by_cases hm : s.role d = .master
    · by_cases hd : d = c
      · simp [← hd, hm]
      · simp [hd]
    · simp [hm]

theorem dpidIterate_role (s : DpidChannels n) (d : Fin n) : (s.dpidIterate changeMaster2slave).role d =
      if s.role d = .master then .slave else s.role d := by
  rw [dpidIterate, role_foldl]
  simp

/-! ## One request -/

/-- No two channels are master. -/
def AtMostOneMaster (s : DpidChannels n) : Prop :=
  ∀ c d, s.role c = .master → s.role d = .master → c = d

instance (s : DpidChannels n) : Decidable s.AtMostOneMaster :=
  inferInstanceAs (Decidable (∀ _ _, _))

theorem atMostOneMaster_initial (n : Nat) : (initial n).AtMostOneMaster := by
  intro c d hc
  cases hc

/-- What a request has to leave behind. -/
structure Handled (s : DpidChannels n) (c : Fin n) (req : RoleRequest) : Prop where
  /-- A single master. -/
  one : (s.ofpRoleRequestHandle c req).1.AtMostOneMaster
  /-- An accepted request for master makes the channel the master, and the masters before it
  slaves. -/
  taken : Role.check req.role = some .master →
    (∃ reply, (s.ofpRoleRequestHandle c req).2 = .ok reply) →
      (∀ d, (s.ofpRoleRequestHandle c req).1.role d = .master ↔ d = c) ∧
      ∀ d ≠ c, s.role d = .master → (s.ofpRoleRequestHandle c req).1.role d = .slave
  /-- A stale request changes nothing. -/
  stale : (s.ofpRoleRequestHandle c req).2 = .error .stale → (s.ofpRoleRequestHandle c req).1 = s
  /-- The other channels keep their roles, apart from a master that is replaced. -/
  others : ∀ d ≠ c, s.role d ≠ .master ∨ Role.check req.role ≠ some .master →
    (s.ofpRoleRequestHandle c req).1.role d = s.role d

/-- A request for master that is accepted although another channel is the master. -/
def Usurps (s : DpidChannels n) (c : Fin n) (req : RoleRequest) : Prop :=
  Role.check req.role = some .master ∧ (s.generationIdCheck .master req.generationId).isSome ∧
    ∃ d ≠ c, s.role d = .master

instance (s : DpidChannels n) (c : Fin n) (req : RoleRequest) : Decidable (s.Usurps c req) :=
  inferInstanceAs (Decidable (_ ∧ _ ∧ _))

variable {s s' : DpidChannels n} {role : Role}

theorem role_of_generationIdCheck {gen : BitVec 64}
    (h : s.generationIdCheck role gen = some s') : s'.role = s.role := by
  unfold generationIdCheck at h
  split_ifs at h <;> cases h <;> rfl

theorem role_channelUpdate (h : s.AtMostOneMaster) (c : Fin n) (hrole : role ≠ .nochange) :
    (s.channelUpdate c role).1.role = Function.update s.role c role := by
  unfold channelUpdate
  by_cases hsame : role = s.role c
  · rw [if_pos (Or.inl hsame), hsame, update_eq_self]
  · rw [if_neg (by simp [hsame, hrole])]
    funext d
    by_cases hd : d = c
    · subst hd
      simp [roleSet]
    · by_cases hc : s.role c = .master
      · have hne : s.role d ≠ .master := fun hm => hd (h d c hm hc)
        simp [hc, roleSet, hd, dpidIterate_role, hne]
      · simp [hc, roleSet, hd]

theorem handle_of_rejected {c : Fin n} {req : RoleRequest} (hrej : ∀ role, Role.check req.role = some role →
      s.generationIdCheck role req.generationId = none) :
    ∃ e, s.ofpRoleRequestHandle c req = (s, .error e) := by
  unfold ofpRoleRequestHandle
  cases hcheck : Role.check req.role with
  | none => exact ⟨_, rfl⟩
  | some role => exact ⟨.stale, by simp [hrej role hcheck]⟩

theorem handle_of_accepted (h : s.AtMostOneMaster) (c : Fin n)
    {req : RoleRequest} (hcheck : Role.check req.role = some role)
    (hgen : s.generationIdCheck role req.generationId = some s') :
    (∃ reply, (s.ofpRoleRequestHandle c req).2 = .ok reply) ∧
      (s.ofpRoleRequestHandle c req).1.role =
        if role = .nochange then s.role else Function.update s.role c role := by
  have hs' := role_of_generationIdCheck hgen
  have hone : s'.AtMostOneMaster := by
    intro c d
    rw [hs']
    exact h c d
  simp only [ofpRoleRequestHandle, hcheck, hgen, Option.elim_some, Except.ok.injEq, exists_eq', true_and]
  split_ifs with hrole
  · subst hrole
    simp [channelUpdate, hs']
  · rw [role_channelUpdate hone c hrole, hs']

theorem atMostOneMaster_update {f : Fin n → Role} {c : Fin n}
    (h : ∀ a b, f a = .master → f b = .master → a = b)
    (hrole : role = .master → ∀ d ≠ c, f d ≠ .master) (a b : Fin n)
    (ha : Function.update f c role a = .master) (hb : Function.update f c role b = .master) : a = b := by
  by_cases hac : a = c <;> by_cases hbc : b = c
  · rw [hac, hbc]
  · subst hac
    rw [update_self] at ha
    rw [update_of_ne hbc] at hb
    exact absurd hb (hrole ha b hbc)
  · subst hbc
    rw [update_self] at hb
    rw [update_of_ne hac] at ha
    exact absurd ha (hrole hb a hac)
  · rw [update_of_ne hac] at ha
    rw [update_of_ne hbc] at hb
    exact h a b ha hb

/-- A request does what it has to, unless it usurps: the master that is there stays one. -/
theorem handled_iff_not_usurps (h : s.AtMostOneMaster) (c : Fin n)
    (req : RoleRequest) : s.Handled c req ↔ ¬ s.Usurps c req := by
  constructor
  · rintro hh ⟨hcheck, hgen, d, hd, hm⟩
    obtain ⟨s', hs'⟩ := Option.isSome_iff_exists.1 hgen
    obtain ⟨hok, hrole⟩ := handle_of_accepted h c hcheck hs'
    have hold : (s.ofpRoleRequestHandle c req).1.role d = .master := by
      rw [hrole, if_neg (by decide), update_of_ne hd, hm]
    exact hd (((hh.taken hcheck hok).1 d).1 hold)
  · intro hnot
    by_cases hacc : ∃ role s', Role.check req.role = some role ∧
        s.generationIdCheck role req.generationId = some s'
    · obtain ⟨role, s', hcheck, hgen⟩ := hacc
      obtain ⟨⟨reply, hok⟩, hrole⟩ := handle_of_accepted h c hcheck hgen
      have hfree : role = .master → ∀ d ≠ c, s.role d ≠ .master := by
        rintro rfl d hd hm
        exact hnot ⟨hcheck, by simp [hgen], d, hd, hm⟩
      constructor
      case one =>
        intro a b
        rw [hrole]
        split_ifs
        · exact h a b
        · exact atMostOneMaster_update h hfree a b
      case taken =>
        rintro hmaster -
        cases hcheck.symm.trans hmaster
        rw [hrole, if_neg (by decide)]
        refine ⟨fun d => ?_, fun d hd hm => absurd hm (hfree rfl d hd)⟩
        by_cases hd : d = c
        · simp [hd]
        · simp [hd, hfree rfl d hd]
      case stale =>
        intro hstale
        rw [hok] at hstale
        cases hstale
      case others =>
        intro d hd hkeep
        rw [hrole]
        split_ifs
        · rfl
        · rw [update_of_ne hd]
    · obtain ⟨e, he⟩ : ∃ e, s.ofpRoleRequestHandle c req = (s, .error e) := by
        apply handle_of_rejected
        intro role hcheck
        by_contra hsome
        obtain ⟨s', hs'⟩ := Option.ne_none_iff_exists'.1 hsome
        exact hacc ⟨role, s', hcheck, hs'⟩
      constructor
      case one => rw [he]; exact h
      case taken =>
        rintro - ⟨reply, hok⟩
        rw [he] at hok
        cases hok
      case stale => intro _; rw [he]
      case others => intro d _ _; rw [he]

/-! ## Runs of requests -/

/-- The next state, for a request on one of the channels. -/
def step (s : DpidChannels n) (e : Fin n × RoleRequest) : DpidChannels n :=
  (s.ofpRoleRequestHandle e.1 e.2).1

/-- Along every run of requests on any channels, each request does what it has to if and only if
none asks for master while another channel has it. -/
theorem atMostOneMaster_run_iff {s : DpidChannels n} (h : s.AtMostOneMaster)
    (reqs : List (Fin n × RoleRequest)) :
    Trace.EveryStep step (fun s e => s.Handled e.1 e.2) s reqs ↔
      Trace.EveryStep step (fun s e => ¬ s.Usurps e.1 e.2) s reqs := by
  apply Trace.EveryStep.iff_of_invariant _ _ h
  · intro s e hs
    exact handled_iff_not_usurps hs e.1 e.2
  · intro s e hs hnot
    exact ((handled_iff_not_usurps hs e.1 e.2).2 hnot).one

/-- Two channels ask for master, one after the other. -/
def twoRequests : List (Fin 2 × RoleRequest) := [(0, ⟨2, 0⟩), (1, ⟨2, 1⟩)]

/-- Both requests are accepted, and both channels are master. -/
theorem twoRequests_twoMasters :
    (initial 2).AtMostOneMaster ∧
      ((((initial 2).step (0, ⟨2, 0⟩)).ofpRoleRequestHandle 1 ⟨2, 1⟩).2 = .ok .master) ∧
      ¬ (twoRequests.foldl step (initial 2)).AtMostOneMaster ∧
      ¬ Trace.EveryStep step (fun s e => s.Handled e.1 e.2) (initial 2) twoRequests := by
  refine ⟨atMostOneMaster_initial 2, by decide, by decide, ?_⟩
  intro hrun
  exact absurd hrun.2.1.one (by decide)

/-- The master steps down before the other channel asks. -/
theorem atMostOneMaster_run_iff_handover :
    (initial 2).AtMostOneMaster ∧
      Trace.EveryStep step (fun s e => s.Handled e.1 e.2) (initial 2)
        [(0, ⟨2, 0⟩), (0, ⟨3, 1⟩), (1, ⟨2, 1⟩), (0, ⟨2, 0⟩)] :=
  ⟨atMostOneMaster_initial 2, (atMostOneMaster_run_iff (atMostOneMaster_initial 2) _).2 (by decide)⟩

end DpidChannels

end Lagopus
