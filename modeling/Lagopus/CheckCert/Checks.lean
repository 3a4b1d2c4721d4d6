import Lagopus.CheckCert.Policy

/-!
# Checks against the current file

The table, the sorted array and the switch for self-signed certificates are kept between checks.  Here
they are followed along whole runs: files are written and deleted, another file is named, certificates
are checked.

* `Policy.Holds`: the variables hold the policy of a version;
* `reload_spec`: loading leaves them so;
* `checks_right`: every check of a run is answered by the current file, as long as files are `Plain`
  and a file that is silent on self-signed certificates does not follow one that allowed them;
* `selfsigned_survives`: what happens otherwise.
-/

namespace Lagopus.CheckCert

open Option

variable {pl : Platform}

/-- Every line of the version is plain. -/
def Version.Plain (pl : Platform) (v : Version) : Prop := ∀ l ∈ lines v.content, CheckCert.Plain pl l

/-- The variables hold the policy of a version. -/
structure Policy.Holds (pl : Platform) (p : Policy) (v : Version) : Prop where
  readable : v.readable = true
  pats : p.pats = some (serializePairs pl ((v.rules pl).map Directive.pair))
  selfSigned : p.allowSelfsigned = (v.lastSelfSigned pl).any (·.allow)

theorem loadLines_chunks {v : Version} {b : Bool} (hv : v.Plain pl)
    (hb : (v.lastSelfSigned pl).isSome = true ∨ b = false) :
    loadLines pl b (chunks v.content.length v.content) =
      some ((v.lastSelfSigned pl).any (·.allow), (v.rules pl).map Directive.pair) := by
  have hflag : (v.lastSelfSigned pl).elim b (·.allow) = (v.lastSelfSigned pl).any (·.allow) := by
    cases hlast : v.lastSelfSigned pl with
    | some d => rfl
    | none =>
      rw [hlast] at hb
      exact hb.resolve_left Bool.false_ne_true
  rw [chunks_eq le_rfl fun l hl => (hv l hl).length, loadLines_eq pl b hv, ← hflag]
  rfl

/-- **The verdict is that of the policy.** -/
theorem Policy.Holds.verdict_iff {p : Policy} {v : Version} (h : p.Holds pl v)
    (issuer subject : List Char) : verdict pl .ok p issuer subject = .ok ↔ v.Permits pl issuer subject := by
  have hproper : ∀ d ∈ v.rules pl, d.Proper ∧ d.IsRule := fun d hd =>
    ⟨Directive.proper_of_mem_directivesOf (List.mem_filter.1 hd).1,
      by simpa using (List.mem_filter.1 hd).2⟩
  have hmem : ∀ q, q ∈ serializePairs pl ((v.rules pl).map Directive.pair) ↔
      ∃ d ∈ v.rules pl, d.pair = q := fun q => by
    rw [(serializePairs_perm pl _).mem_iff, List.mem_map]
  have hfirst : firstMatch pl issuer subject (p.pats.getD []) = .ok ↔
      (∀ d ∈ v.rules pl, d.allow = false → ¬ d.Matches pl issuer subject) ∧
        ∃ d ∈ v.rules pl, d.allow = true ∧ d.Matches pl issuer subject := by
    rw [h.pats, getD_some, firstMatch_eq_ok_iff pl issuer subject (serializePairs_sorted pl _)]
    · refine and_congr ⟨fun hall d hd hdeny hm => ?_, fun hall q hq hdeny => ?_⟩
        ⟨fun ⟨q, hq, hallow⟩ => ?_, fun ⟨d, hd, hallow⟩ => ?_⟩
      · obtain ⟨hd', hrule⟩ := hproper d hd
        exact hall d.pair ((hmem _).2 ⟨d, hd, rfl⟩)
          ((check_pair_iff pl hd' hrule issuer subject).2.2 ⟨hdeny, hm⟩)
      · obtain ⟨d, hd, rfl⟩ := (hmem q).1 hq
        obtain ⟨hd', hrule⟩ := hproper d hd
        obtain ⟨hfalse, hm⟩ := (check_pair_iff pl hd' hrule issuer subject).2.1 hdeny
        exact hall d hd hfalse hm
      · obtain ⟨d, hd, rfl⟩ := (hmem q).1 hq
        obtain ⟨hd', hrule⟩ := hproper d hd
        exact ⟨d, hd, (check_pair_iff pl hd' hrule issuer subject).1.1 hallow⟩
      · obtain ⟨hd', hrule⟩ := hproper d hd
        exact ⟨d.pair, (hmem _).2 ⟨d, hd, rfl⟩, (check_pair_iff pl hd' hrule issuer subject).1.2 hallow⟩
    · intro q hq
      obtain ⟨d, hd, rfl⟩ := (hmem q).1 hq
      exact (hproper d hd).1.cmplen.1
    · intro q hq
      obtain ⟨d, hd, rfl⟩ := (hmem q).1 hq
      exact (hproper d hd).1.cmplen.2
  unfold verdict Version.Permits
  rw [← hfirst, h.selfSigned, if_pos rfl]
  simp only [h.readable, true_and]
  split_ifs with hself
  · refine iff_of_false (by decide) fun hc => ?_
    rw [hself.1] at hc
    exact Bool.false_ne_true (hc.1 hself.2)
  · refine (and_iff_right fun hsame => ?_).symm
    by_contra hno
    exact hself ⟨Bool.eq_false_iff.2 hno, hsame⟩

theorem verdict_ne_ok {r : Result} (hr : r ≠ .ok) (p : Policy) (issuer subject : List Char) :
    verdict pl r p issuer subject ≠ .ok := by
  unfold verdict
  split_ifs
  · decide
  · exact hr

/-- The variables are those of the version there is, unless that is going to be loaded. -/
structure UpToDate (pl : Platform) (file : Option Version) (p : Policy) : Prop where
  dated : ∀ v, file = some v → 0 < v.mtime
  holds : ∀ v, file = some v → p.pats ≠ none → p.lastOpen ≠ 0 → v.mtime ≤ p.lastOpen → p.Holds pl v

/-- **Loading brings the variables up to date**, or fails and leaves nothing allowed. -/
theorem reload_spec {file : Option Version} {p : Policy} (now : Nat) (hname : p.filename ≠ [])
    (hp : UpToDate pl file p) (hfile : ∀ v, file = some v → v.readable = true →
      v.Plain pl ∧ ((v.lastSelfSigned pl).isSome = true ∨ p.allowSelfsigned = false)) :
    ∃ r p', reload pl file now p = some (r, p') ∧ p'.filename = p.filename ∧
      ((r = .ok ∧ ∃ v, file = some v ∧ p'.Holds pl v) ∨
        (r ≠ .ok ∧ p'.pats = none ∧ ∀ v, file = some v → v.readable = true → v.rules pl = [])) := by
  unfold reload loadConfig
  rw [if_pos hname]
  cases hf : file with
  | none =>
    refine ⟨.notFound, _, rfl, rfl, .inr ⟨by decide, rfl, fun v hv => ?_⟩⟩
    cases hv
  | some v =>
    have hdated := hp.dated v hf
    simp only
    by_cases hload : (p.pats = none ∨ p.lastOpen = 0) ∨ p.lastOpen < v.mtime
    · rw [if_pos ⟨hdated, hload⟩]
      cases hread : v.readable with
      | false =>
        refine ⟨.notFound, _, rfl, rfl, .inr ⟨by decide, rfl, fun v' hv' hread' => ?_⟩⟩
        cases hv'
        exact absurd (hread.symm.trans hread') Bool.false_ne_true
      | true =>
        obtain ⟨hplain, hflag⟩ := hfile v hf hread
        rw [if_pos rfl, loadLines_chunks hplain hflag, map_some, map_some]
        by_cases hempty : v.rules pl = []
        · rw [if_pos (show (v.rules pl).map Directive.pair = [] by rw [hempty]; rfl)]
          refine ⟨.noMemory, _, rfl, rfl, .inr ⟨by decide, rfl, fun v' hv' _ => ?_⟩⟩
          cases hv'
          exact hempty
        · rw [if_neg (show (v.rules pl).map Directive.pair ≠ [] by simpa using hempty)]
          exact ⟨.ok, _, rfl, rfl, .inl ⟨rfl, v, rfl, hread, rfl, rfl⟩⟩
    · rw [if_neg fun hc => hload hc.2, if_neg (Nat.ne_of_gt hdated)]
      obtain ⟨hopen, hold⟩ := not_or.1 hload
      obtain ⟨hpats, hlast⟩ := not_or.1 hopen
      exact ⟨.ok, p, rfl, rfl, .inl ⟨rfl, v, rfl, hp.holds v hf hpats hlast (Nat.not_lt.1 hold)⟩⟩

/-! ## Runs -/

/-- Patterns without special characters, and the insertion sort. -/
def literal : Platform where
  regcomp _ := true
  regexec pat s := pat = s
  hashOrder := id
  hashOrder_perm := List.Perm.refl
  qsort cmp := List.insertionSort fun p q => cmp p q ≤ 0
  qsort_perm _ := List.perm_insertionSort _
  qsort_sorted cmp htotal htrans ps :=
    have : Std.Total fun p q : PatternPair => cmp p q ≤ 0 := ⟨htotal⟩
    have : IsTrans PatternPair fun p q => cmp p q ≤ 0 := ⟨htrans⟩
    List.pairwise_insertionSort _ ps

namespace State

/-- The file named last. -/
def current (s : State) : Option Version := if s.named = [] then none else s.files s.named

/-- The variables are up to date with the file named last. -/
structure Sound (pl : Platform) (s : State) (p : Policy) : Prop where
  policy : s.policy = some p
  named : p.filename = s.named
  dated : ∀ name v, s.files name = some v → 0 < v.mtime
  holds : ∀ v, s.files s.named = some v → p.pats ≠ none → p.lastOpen ≠ 0 → v.mtime ≤ p.lastOpen →
    p.Holds pl v

/-- The steps of the runs that are followed: a version is written later than the last loading; a name
fits into the buffer; the file that a check reads is plain, and has a line on self-signed certificates
if they were allowed before. -/
def Allowed (pl : Platform) (s : State) : Event → Prop
  | .modify _ version => ∀ v, version = some v → ∀ p, s.policy = some p → p.lastOpen < v.mtime
  | .setConfigFile name => name.length < pathMax
  | .check _ _ _ => ∀ v, s.current = some v → v.readable = true →
      v.Plain pl ∧ ((v.lastSelfSigned pl).isSome = true ∨
        ∀ p, s.policy = some p → p.allowSelfsigned = false)

/-- A check is answered by the policy of the current file. -/
def Right (pl : Platform) (s : State) : Event → Prop
  | .check issuer subject now => ∃ r, (s.checked pl issuer subject now).map (·.1) = some r ∧
      (r = .ok ↔ ∃ v, s.current = some v ∧ v.Permits pl issuer subject)
  | _ => True

theorem Sound.check {s : State} {p : Policy} (h : s.Sound pl p) {issuer subject : List Char}
    {now : Nat} (hallowed : s.Allowed pl (.check issuer subject now)) :
    s.Right pl (.check issuer subject now) ∧
      ∃ p', (step pl s (.check issuer subject now)).Sound pl p' := by
  have hchecked : s.checked pl issuer subject now =
      checkCertificates pl (s.files s.named) now issuer subject p := by
    rw [checked, h.policy, bind_some, h.named]
  -- the answer and the variables after it are enough
  have hend : ∀ r p', s.checked pl issuer subject now = some (r, p') → p'.filename = s.named →
      (∀ v, s.files s.named = some v → p'.pats ≠ none → p'.lastOpen ≠ 0 →
        v.mtime ≤ p'.lastOpen → p'.Holds pl v) →
      (r = .ok ↔ ∃ v, s.current = some v ∧ v.Permits pl issuer subject) →
      s.Right pl (.check issuer subject now) ∧
        ∃ p', (step pl s (.check issuer subject now)).Sound pl p' := by
    intro r p' hr hname hholds hiff
    refine ⟨⟨r, by rw [hr, map_some], hiff⟩, p', ?_, hname, h.dated, hholds⟩
    rw [step, hr, map_some]
  unfold checkCertificates at hchecked
  by_cases hgiven : issuer ≠ [] ∨ subject ≠ []
  · rw [if_pos hgiven] at hchecked
    by_cases hname : s.named = []
    · have hnone : s.current = none := if_pos hname
      have hreload : reload pl (s.files s.named) now p = some (.anyFailures, p) :=
        if_neg (not_not.2 (h.named.trans hname))
      rw [hreload, map_some] at hchecked
      refine hend _ p hchecked h.named h.holds (iff_of_false ?_ ?_)
      · exact verdict_ne_ok (show Result.anyFailures ≠ .ok by decide) p issuer subject
      · rintro ⟨v, hv, -⟩
        rw [hnone] at hv
        cases hv
    · have hcurrent : s.current = s.files s.named := if_neg hname
      obtain ⟨r, p', hreload, hname', hcases⟩ := reload_spec now (fun hc => hname (h.named.symm.trans hc))
        ⟨fun v hv => h.dated _ v hv, h.holds⟩ fun v hv hread => by
          obtain ⟨hplain, hflag⟩ := hallowed v (hcurrent.trans hv) hread
          exact ⟨hplain, hflag.imp_right fun hoff => hoff p h.policy⟩
      rw [hreload, map_some] at hchecked
      refine hend _ p' hchecked (hname'.trans h.named) ?_ ?_
      · rintro v hv hpats - -
        rcases hcases with ⟨-, v', hv', hholds⟩ | ⟨-, hnone, -⟩
        · cases hv.symm.trans hv'
          exact hholds
        · exact absurd hnone hpats
      · rcases hcases with ⟨rfl, v, hv, hholds⟩ | ⟨hr, -, hrules⟩
        · refine (hholds.verdict_iff issuer subject).trans ⟨fun hp => ⟨v, hcurrent.trans hv, hp⟩, ?_⟩
          rintro ⟨v', hv', hp⟩
          cases hv.symm.trans (hcurrent.symm.trans hv')
          exact hp
        · refine iff_of_false (verdict_ne_ok hr p' issuer subject) ?_
          rintro ⟨v, hv, hread, -, -, d, hd, -⟩
          rw [hrules v (hcurrent.symm.trans hv) hread] at hd
          exact absurd hd List.not_mem_nil
  · rw [if_neg hgiven] at hchecked
    refine hend _ p hchecked h.named h.holds (iff_of_false (by decide) ?_)
    -- without a name there is nothing for a pattern to match
    rintro ⟨v, -, -, -, -, d, hd, -, hm⟩
    have hrule : d.IsRule := by simpa using (List.mem_filter.1 hd).2
    rcases hrule with hne | hne
    · obtain ⟨pat, hpat⟩ := List.exists_mem_of_ne_nil _ hne
      exact hgiven (.inl (hm.1 pat hpat).1)
    · obtain ⟨pat, hpat⟩ := List.exists_mem_of_ne_nil _ hne
      exact hgiven (.inr (hm.2 pat hpat).1)

theorem Sound.step {s : State} {p : Policy} (h : s.Sound pl p) {e : Event}
    (hallowed : s.Allowed pl e) : s.Right pl e ∧ ∃ p', (step pl s e).Sound pl p' := by
  cases e with
  | check issuer subject now => exact h.check hallowed
  | setConfigFile name =>
    refine ⟨trivial, CheckCert.setConfigFile name p, ?_, ?_, h.dated, fun _ _ _ hlast => ?_⟩
    · rw [CheckCert.step, h.policy]
      rfl
    · exact List.take_of_length_le (Nat.le_sub_one_of_lt hallowed)
    · exact absurd rfl hlast
  | modify name version =>
    -- a version is new and written after the last loading, or was there before
    have hold : ∀ n v, (CheckCert.step pl s (.modify name version)).files n = some v →
        p.lastOpen < v.mtime ∨ s.files n = some v := by
      intro n v hv
      by_cases hn : n = name
      · refine .inl (hallowed v ?_ p h.policy)
        rw [← hv, hn]
        exact (Function.update_self name version s.files).symm
      · refine .inr (hv ▸ ?_)
        exact (Function.update_of_ne hn version s.files).symm
    refine ⟨trivial, p, h.policy, h.named, fun n v hv => ?_, fun v hv hpats hlast hle => ?_⟩
    · rcases hold n v hv with hlater | hsame
      · exact Nat.zero_lt_of_lt hlater
      · exact h.dated n v hsame
    · rcases hold s.named v hv with hlater | hsame
      · exact absurd hle (Nat.not_le.2 hlater)
      · exact h.holds v hsame hpats hlast hle

theorem sound_init : ({} : State).Sound pl {} :=
  ⟨rfl, rfl, fun _ _ h => (by cases h), fun _ h => (by cases h)⟩

/-- **Every check is answered by the current file**, in every run of which the steps are allowed. -/
theorem checks_right (pl : Platform) {es : List Event}
    (h : Trace.EveryStep (CheckCert.step pl) (Allowed pl) {} es) :
    Trace.EveryStep (CheckCert.step pl) (Right pl) {} es := by
  have hstep : ∀ s e, (∃ p, s.Sound pl p) → s.Allowed pl e →
      s.Right pl e ∧ ∃ p, (CheckCert.step pl s e).Sound pl p :=
    fun s e ⟨p, hs⟩ he => hs.step he
  exact Trace.EveryStep.of_invariant hstep ⟨{}, sound_init⟩ h

/-- A certificate of issuer `a` is allowed by a file that says so. -/
theorem checks_right_of_issuer_file :
    Trace.EveryStep (CheckCert.step literal) (Right literal) {}
      [.modify "p".toList (some ⟨1, true, "allow issuer a\n".toList⟩), .setConfigFile "p".toList,
        .check "a".toList "b".toList 2] := by
  obtain ⟨v, hv⟩ : ∃ v : Version, v = ⟨1, true, "allow issuer a\n".toList⟩ := ⟨_, rfl⟩
  have hplain : v.Plain literal := by
    have hlines : lines v.content = ["allow issuer a\n".toList] := by
      rw [hv]
      decide +kernel
    intro l hl
    rw [hlines, List.mem_singleton] at hl
    subst hl
    exact ⟨by decide +kernel, by decide +kernel, fun _ => by decide +kernel, fun _ => by decide +kernel⟩
  rw [← hv]
  refine checks_right literal ⟨?_, ?_, ?_, trivial⟩
  · rintro v' hv' p hp
    cases hv'
    cases hp
    rw [hv]
    decide
  · exact show "p".toList.length < pathMax by decide +kernel
  · intro v' hv' _
    have hcurrent : (CheckCert.step literal (CheckCert.step literal {} (.modify "p".toList (some v)))
        (.setConfigFile "p".toList)).current = some v := by
      have hname : "p".toList ≠ [] := by decide +kernel
      refine (if_neg hname).trans ?_
      exact Function.update_self "p".toList (some v) fun _ => none
    rw [← Option.some.inj (hcurrent.symm.trans hv')]
    refine ⟨hplain, Or.inr fun p hp => ?_⟩
    rw [← Option.some.inj hp]
    rfl

/-- Self-signed certificates are allowed by the first version of a file. The second one does not speak
of them, and a self-signed certificate is still accepted. -/
theorem selfsigned_survives :
    (([.modify "p".toList (some ⟨1, true, "allow self-signed\nallow issuer a\n".toList⟩),
        .setConfigFile "p".toList, .check "a".toList "a".toList 2,
        .modify "p".toList (some ⟨3, true, "allow issuer a\n".toList⟩)].foldl
      (CheckCert.step literal) {}).checked literal "a".toList "a".toList 4).map (·.1) = some .ok ∧
      ¬ (⟨3, true, "allow issuer a\n".toList⟩ : Version).Permits literal "a".toList "a".toList := by
  decide +kernel

end State

end Lagopus.CheckCert
