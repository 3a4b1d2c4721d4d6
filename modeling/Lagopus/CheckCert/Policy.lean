import Lagopus.CheckCert.Load
import Lagopus.Lib.Trace
import Mathlib.Data.List.Sort

/-!
# The policy a file states

A line states a directive: a permission with clauses, at most one pattern for the issuer and one for
the subject.  The rules of a file are the directives with a pattern; whether self-signed certificates
are allowed is said by the last directive that speaks of them.  Checks are compared with that.

* `directive`, `directives`, `Permits`: what a line, a file and a policy say;
* `loadLines_eq`: loading finds the directives of a file whose lines are `Plain`;
* `firstMatch_eq_ok_iff`: the first match in the sorted array is the verdict of all rules;
* `checks_right`: along every run in which the files are plain and no file is silent on self-signed
  certificates after one that allowed them, every check is answered by the current file.
-/

namespace Lagopus.CheckCert

open List Option

/-! ## Directives -/

inductive Clause
  | selfSigned
  | issuer (pat : List Char)
  | subject (pat : List Char)
deriving DecidableEq

namespace Clause

def issuer? : Clause → Option (List Char)
  | issuer pat => some pat
  | _ => none

def subject? : Clause → Option (List Char)
  | subject pat => some pat
  | _ => none

end Clause

/-- The clauses behind the permission. -/
def readClauses : List (List Char) → Option (List Clause)
  | [] => some []
  | w :: ws =>
    if isSelfSigned w then (readClauses ws).map (.selfSigned :: ·)
    else
      match ws with
      | [] => none
      | pat :: ws =>
        if sameWord w "issuer".toList then
          (strUnescape pat).bind fun s => (readClauses ws).map (.issuer s :: ·)
        else if sameWord w "subject".toList then
          (strUnescape pat).bind fun s => (readClauses ws).map (.subject s :: ·)
        else none

structure Directive where
  allow : Bool
  clauses : List Clause
deriving DecidableEq

namespace Directive

def issuers (d : Directive) : List (List Char) := d.clauses.filterMap Clause.issuer?

def subjects (d : Directive) : List (List Char) := d.clauses.filterMap Clause.subject?

/-- At most one pattern of each kind, and regular expressions. -/
def WellFormed (pl : Platform) (d : Directive) : Prop :=
  (d.issuers.length ≤ 1 ∧ d.subjects.length ≤ 1) ∧
    (∀ pat ∈ d.issuers, pl.regcomp pat = true) ∧ ∀ pat ∈ d.subjects, pl.regcomp pat = true

instance (pl : Platform) (d : Directive) : Decidable (d.WellFormed pl) :=
  inferInstanceAs (Decidable ((_ ∧ _) ∧ _ ∧ _))

/-- The directive speaks of self-signed certificates. -/
def SelfSigned (d : Directive) : Prop := .selfSigned ∈ d.clauses

instance (d : Directive) : Decidable d.SelfSigned := inferInstanceAs (Decidable (_ ∈ _))

/-- The directive is a rule. -/
def IsRule (d : Directive) : Prop := d.issuers ≠ [] ∨ d.subjects ≠ []

instance (d : Directive) : Decidable d.IsRule := inferInstanceAs (Decidable (_ ∨ _))

/-- Each pattern of the directive matches. -/
def Matches (pl : Platform) (d : Directive) (issuer subject : List Char) : Prop :=
  (∀ pat ∈ d.issuers, issuer ≠ [] ∧ pl.regexec pat issuer = true) ∧
    ∀ pat ∈ d.subjects, subject ≠ [] ∧ pl.regexec pat subject = true

instance (pl : Platform) (d : Directive) (issuer subject : List Char) :
    Decidable (d.Matches pl issuer subject) := inferInstanceAs (Decidable (_ ∧ _))

end Directive

/-- A word that begins a comment. -/
def IsComment (w : List Char) : Prop := w.head? = some '#'

instance (w : List Char) : Decidable (IsComment w) := inferInstanceAs (Decidable (_ = _))

/-- What the words of a line say. -/
def wordsDirective (pl : Platform) (w : List Char) (ws : List (List Char)) : Option Directive :=
  if (w :: ws).length < nTokens ∧ ¬ IsComment w ∧ ws ≠ [] ∧ permission w ≠ .unknown then
    (readClauses ws).bind fun cs =>
      let d : Directive := ⟨permission w = .allow, cs⟩
      if d.WellFormed pl then some d else none
  else none

/-- What a line says, if it is well formed. -/
def directive (pl : Platform) (line : List Char) : Option Directive :=
  match tokenizeQuote line with
  | .ok (w :: ws) => wordsDirective pl w ws
  | _ => none

/-- The lines of a file, each with its newline. -/
def lines : List Char → List (List Char)
  | [] => []
  | c :: cs =>
    if c = '\n' then [c] :: lines cs
    else
      match lines cs with
      | [] => [[c]]
      | l :: ls => (c :: l) :: ls

/-- The directives of some lines. A line that is too long has none. -/
def directivesOf (pl : Platform) (ls : List (List Char)) : List Directive :=
  (ls.filter fun l => l.length < lineMax).filterMap (directive pl)

namespace Version

def directives (pl : Platform) (v : Version) : List Directive := directivesOf pl (lines v.content)

def rules (pl : Platform) (v : Version) : List Directive := (v.directives pl).filter (·.IsRule)

/-- The last directive that speaks of self-signed certificates. -/
def lastSelfSigned (pl : Platform) (v : Version) : Option Directive :=
  ((v.directives pl).filter (·.SelfSigned)).getLast?

/-- The policy of the file permits a certificate. -/
def Permits (pl : Platform) (v : Version) (issuer subject : List Char) : Prop :=
  v.readable = true ∧
    (issuer ≠ [] ∧ subject ≠ [] ∧ issuer = subject → (v.lastSelfSigned pl).any (·.allow) = true) ∧
    (∀ d ∈ v.rules pl, d.allow = false → ¬ d.Matches pl issuer subject) ∧
    ∃ d ∈ v.rules pl, d.allow = true ∧ d.Matches pl issuer subject

instance (pl : Platform) (v : Version) (issuer subject : List Char) :
    Decidable (v.Permits pl issuer subject) := inferInstanceAs (Decidable (_ ∧ (_ → _) ∧ _ ∧ _))

end Version

/-! ## Parsing -/

/-- The patterns of some clauses, with those found before. -/
def fill : List Char → List Char → List Clause → Option (List Char × List Char)
  | issuer, subject, [] => some (issuer, subject)
  | issuer, subject, .selfSigned :: cs => fill issuer subject cs
  | issuer, subject, .issuer pat :: cs => if issuer ≠ [] then none else fill pat subject cs
  | issuer, subject, .subject pat :: cs => if subject ≠ [] then none else fill issuer pat cs

section Clauses

variable {w pat : List Char} {ws : List (List Char)}

theorem readClauses_selfSigned (hself : isSelfSigned w = true) :
    readClauses (w :: ws) = (readClauses ws).map (.selfSigned :: ·) := by
  rw [readClauses.eq_def]
  exact if_pos hself

variable (hself : ¬ isSelfSigned w = true)

include hself

theorem readClauses_issuer (hissuer : sameWord w "issuer".toList = true) : readClauses (w :: pat :: ws) =
      (strUnescape pat).bind fun s => (readClauses ws).map (.issuer s :: ·) := by
  rw [readClauses, if_neg hself]
  simp only [if_pos hissuer]

theorem readClauses_subject (hissuer : ¬ sameWord w "issuer".toList = true)
    (hsubject : sameWord w "subject".toList = true) : readClauses (w :: pat :: ws) =
      (strUnescape pat).bind fun s => (readClauses ws).map (.subject s :: ·) := by
  rw [readClauses, if_neg hself]
  simp only [if_neg hissuer, if_pos hsubject]

theorem readClauses_single : readClauses [w] = none := by
  rw [readClauses, if_neg hself]

theorem readClauses_unknown (hissuer : ¬ sameWord w "issuer".toList = true)
    (hsubject : ¬ sameWord w "subject".toList = true) : readClauses (w :: ws) = none := by
  cases ws with
  | nil => exact readClauses_single hself
  | cons pat ws =>
    rw [readClauses, if_neg hself]
    simp only [if_neg hissuer, if_neg hsubject]

end Clauses

variable {perm : ConnPermission} {ws : List (List Char)} {cs : List Clause}

/-- What the loop over the words has to leave: the patterns of the clauses, and the variable, when the
words are clauses. -/
def LoopReads (perm : ConnPermission) (b : Bool) (issuer subject : List Char) (ws : List (List Char))
    (r : Bool × Option (List Char × List Char)) : Prop :=
  r.2 = (readClauses ws).bind (fill issuer subject) ∧
    ∀ cs, readClauses ws = some cs → fill issuer subject cs ≠ none →
      r.1 = if .selfSigned ∈ cs then decide (perm = .allow) else b

section LoopReads

variable {b : Bool} {issuer subject issuer' subject' pat s : List Char} {ws' : List (List Char)}
  {r : Bool × Option (List Char × List Char)} {mk : List Char → Clause}

theorem loopReads_error (h : readClauses ws = none) : LoopReads perm b issuer subject ws (b, none) := by
  simp [LoopReads, h]

variable (h : readClauses ws' = (strUnescape pat).bind fun s => (readClauses ws).map (mk s :: ·))

include h

theorem loopReads_second (hfill : ∀ s cs, fill issuer subject (mk s :: cs) = none) :
    LoopReads perm b issuer subject ws' (b, none) := by
  cases hpat : strUnescape pat with
  | none => exact loopReads_error (by rw [h, hpat, bind_none])
  | some s =>
    cases hcs : readClauses ws with
    | none => exact loopReads_error (by rw [h, hpat, hcs]; rfl)
    | some cs => simp [LoopReads, h, hpat, hcs, hfill]

theorem loopReads_first (hpat : strUnescape pat = some s) (hself : mk s ≠ .selfSigned)
    (hfill : ∀ cs, fill issuer subject (mk s :: cs) = fill issuer' subject' cs)
    (ih : LoopReads perm b issuer' subject' ws r) : LoopReads perm b issuer subject ws' r := by
  cases hcs : readClauses ws with
  | none => simpa [LoopReads, h, hpat, hcs] using ih
  | some cs => simpa [LoopReads, h, hpat, hcs, hfill, hself.symm] using ih

end LoopReads

/-- **The loop over the words reads the clauses.** -/
theorem parseLoop_reads (perm : ConnPermission) (b : Bool) (issuer subject : List Char)
    (ws : List (List Char)) : LoopReads perm b issuer subject ws (parseLoop perm b issuer subject ws) := by
  fun_induction parseLoop perm b issuer subject ws with
  | case1 => simp [LoopReads, readClauses, fill]
  | case2 b issuer subject w ws hself ih =>
    rw [LoopReads, readClauses_selfSigned hself]
    cases hcs : readClauses ws with
    | none => simpa [LoopReads, hcs] using ih
    | some cs => simpa [LoopReads, hcs, fill] using ih
  | case3 b issuer subject w hself hissuer => exact loopReads_error (readClauses_single hself)
  | case4 b issuer subject w hself hissuer pat ws hgiven =>
    exact loopReads_second (readClauses_issuer hself hissuer) fun _ _ => if_pos hgiven
  | case5 b issuer subject w hself hissuer pat ws hgiven hpat =>
    exact loopReads_error (by rw [readClauses_issuer hself hissuer, hpat]; rfl)
  | case6 b issuer subject w hself hissuer pat ws hgiven s hpat ih =>
    exact loopReads_first (readClauses_issuer hself hissuer) hpat (by simp) (fun _ => if_neg hgiven) ih
  | case7 b issuer subject w hself hissuer hsubject =>
    exact loopReads_error (readClauses_single hself)
  | case8 b issuer subject w hself hissuer hsubject pat ws hgiven =>
    exact loopReads_second (readClauses_subject hself hissuer hsubject) fun _ _ => if_pos hgiven
  | case9 b issuer subject w hself hissuer hsubject pat ws hgiven hpat =>
    exact loopReads_error (by rw [readClauses_subject hself hissuer hsubject, hpat]; rfl)
  | case10 b issuer subject w hself hissuer hsubject pat ws hgiven s hpat ih =>
    exact loopReads_first (readClauses_subject hself hissuer hsubject) hpat (by simp)
      (fun _ => if_neg hgiven) ih
  | case11 b issuer subject w ws hself hissuer hsubject =>
    exact loopReads_error (readClauses_unknown hself hissuer hsubject)

theorem parseLoop_fst_of_not_mentioned {b : Bool} {issuer subject : List Char}
    (h : ws.any isSelfSigned = false) : (parseLoop perm b issuer subject ws).1 = b := by
  fun_induction parseLoop perm b issuer subject ws with
  | case2 b issuer subject w ws hself ih =>
    rw [any_cons, hself] at h
    cases h
  | case6 b issuer subject w hself hissuer pat ws hgiven s hpat ih =>
    simp only [any_cons, Bool.or_eq_false_iff] at h
    exact ih h.2.2
  | case10 b issuer subject w hself hissuer hsubject pat ws hgiven s hpat ih =>
    simp only [any_cons, Bool.or_eq_false_iff] at h
    exact ih h.2.2
  | _ => rfl

theorem patterns_of_readClauses {n : Nat} (h : readClauses ws = some cs) (hws : ∀ w ∈ ws, w.length ≤ n) :
    (∀ pat ∈ cs.filterMap Clause.issuer?, pat ≠ [] ∧ pat.length ≤ n) ∧
      ∀ pat ∈ cs.filterMap Clause.subject?, pat ≠ [] ∧ pat.length ≤ n := by
  fun_induction readClauses ws generalizing cs with
  | case1 =>
    cases h
    exact ⟨by simp, by simp⟩
  | case2 w ws hself ih =>
    obtain ⟨cs', hcs', rfl⟩ := map_eq_some_iff.1 h
    exact (ih hcs' (forall_mem_cons.1 hws).2 :)
  | case3 => cases h
  | case4 w hself pat ws hissuer ih =>
    obtain ⟨-, hpat, hws⟩ := (forall_mem_cons.1 hws).imp_right forall_mem_cons.1
    obtain ⟨s, hs, h⟩ := bind_eq_some_iff.1 h
    obtain ⟨cs', hcs', rfl⟩ := map_eq_some_iff.1 h
    have hlen := length_strUnescape_le hs
    obtain ⟨hissuers, hsubjects⟩ := ih hcs' hws
    exact ⟨forall_mem_cons.2 ⟨⟨hlen.1, hlen.2.trans hpat⟩, hissuers⟩, hsubjects⟩
  | case5 w hself pat ws hissuer hsubject ih =>
    obtain ⟨-, hpat, hws⟩ := (forall_mem_cons.1 hws).imp_right forall_mem_cons.1
    obtain ⟨s, hs, h⟩ := bind_eq_some_iff.1 h
    obtain ⟨cs', hcs', rfl⟩ := map_eq_some_iff.1 h
    have hlen := length_strUnescape_le hs
    obtain ⟨hissuers, hsubjects⟩ := ih hcs' hws
    exact ⟨hissuers, forall_mem_cons.2 ⟨⟨hlen.1, hlen.2.trans hpat⟩, hsubjects⟩⟩
  | case6 => cases h

/-- A pattern given before, as a list. -/
def given (pat : List Char) : List (List Char) := if pat = [] then [] else [pat]

/-- There is a place for the patterns of the clauses if there is one of each kind at most. -/
theorem fill_eq (issuer subject : List Char) (hissuers : ∀ pat ∈ cs.filterMap Clause.issuer?, pat ≠ [])
    (hsubjects : ∀ pat ∈ cs.filterMap Clause.subject?, pat ≠ []) : fill issuer subject cs =
      if (given issuer ++ cs.filterMap Clause.issuer?).length ≤ 1 ∧
          (given subject ++ cs.filterMap Clause.subject?).length ≤ 1 then
        some ((given issuer ++ cs.filterMap Clause.issuer?).headD [],
          (given subject ++ cs.filterMap Clause.subject?).headD [])
      else none := by
  induction cs generalizing issuer subject with
  | nil => unfold given; split_ifs <;> simp_all [fill]
  | cons c cs ih =>
    cases c with
    | selfSigned => exact ih issuer subject hissuers hsubjects
    | issuer pat =>
      have hpat : given pat = [pat] := if_neg (hissuers pat (mem_cons_self ..))
      have hrest := ih pat subject (fun p hp => hissuers p (mem_cons_of_mem _ hp)) hsubjects
      rw [fill]
      by_cases hissuer : issuer = []
      · have hnone : given issuer = [] := if_pos hissuer
        rw [if_neg (not_not.2 hissuer), hrest, hpat, hnone]
        rfl
      · have hone : given issuer = [issuer] := if_neg hissuer
        rw [if_pos hissuer, hone]
        simp [Clause.issuer?]
    | subject pat =>
      have hpat : given pat = [pat] := if_neg (hsubjects pat (mem_cons_self ..))
      have hrest := ih issuer pat hissuers (fun p hp => hsubjects p (mem_cons_of_mem _ hp))
      rw [fill]
      by_cases hsubject : subject = []
      · have hnone : given subject = [] := if_pos hsubject
        rw [if_neg (not_not.2 hsubject), hrest, hpat, hnone]
        rfl
      · have hone : given subject = [subject] := if_neg hsubject
        rw [if_pos hsubject, hone]
        simp [Clause.subject?]

namespace Directive

/-- The entry of the table for a rule. -/
def pair (d : Directive) : PatternPair where
  perm := if d.allow then .allow else .deny
  issuer := d.issuers.headD []
  subject := d.subjects.headD []
  cmplen := (d.issuers.headD []).length + (d.subjects.headD []).length +
    if d.allow then 0 else 100000

/-- What the line of a directive guarantees. -/
structure Proper (d : Directive) : Prop where
  oneIssuer : d.issuers.length ≤ 1
  oneSubject : d.subjects.length ≤ 1
  issuers : ∀ pat ∈ d.issuers, pat ≠ [] ∧ pat.length ≤ lineMax
  subjects : ∀ pat ∈ d.subjects, pat ≠ [] ∧ pat.length ≤ lineMax

end Directive

variable {l ls : List (List Char)}

theorem forall_mem_iff_headD {P : List Char → Prop} (hone : l.length ≤ 1)
    (hne : ∀ pat ∈ l, pat ≠ []) : (∀ pat ∈ l, P pat) ↔ (l.headD [] ≠ [] → P (l.headD [])) := by
  match l, hone, hne with
  | [], _, _ => simp
  | [pat], _, hne => simp [hne pat (mem_singleton_self _)]

theorem headD_ne_nil_iff (hne : ∀ pat ∈ l, pat ≠ []) : l.headD [] ≠ [] ↔ l ≠ [] := by
  cases l with
  | nil => simp
  | cons pat l => simp [hne pat (mem_cons_self ..)]

variable {d : Directive} (pl : Platform)

theorem fill_createPair (hperm : perm ≠ .unknown) (hissuers : ∀ pat ∈ cs.filterMap Clause.issuer?, pat ≠ [])
    (hsubjects : ∀ pat ∈ cs.filterMap Clause.subject?, pat ≠ []) (hd : d = ⟨perm = .allow, cs⟩) :
    ((fill [] [] cs).bind fun pats =>
      if pats.1 ≠ [] ∨ pats.2 ≠ [] then createPair pl perm pats.1 pats.2 else none) =
      if d.WellFormed pl ∧ d.IsRule then some d.pair else none := by
  have hi : d.issuers = cs.filterMap Clause.issuer? := by rw [hd]; rfl
  have hs : d.subjects = cs.filterMap Clause.subject? := by rw [hd]; rfl
  rw [← hi] at hissuers
  rw [← hs] at hsubjects
  rw [fill_eq [] [] (hi ▸ hissuers) (hs ▸ hsubjects), ← hi, ← hs]
  simp only [given, if_true, nil_append]
  by_cases hone : d.issuers.length ≤ 1 ∧ d.subjects.length ≤ 1
  · rw [if_pos hone, bind_some]
    have hrule : (d.issuers.headD [] ≠ [] ∨ d.subjects.headD [] ≠ []) ↔ d.IsRule :=
      or_congr (headD_ne_nil_iff hissuers) (headD_ne_nil_iff hsubjects)
    have hcomp := and_congr
      (forall_mem_iff_headD (P := fun pat => pl.regcomp pat = true) hone.1 hissuers)
      (forall_mem_iff_headD (P := fun pat => pl.regcomp pat = true) hone.2 hsubjects)
    have hwf : d.WellFormed pl ↔ (d.issuers.headD [] ≠ [] → pl.regcomp (d.issuers.headD []) = true) ∧
          (d.subjects.headD [] ≠ [] → pl.regcomp (d.subjects.headD []) = true) := by
      rw [← hcomp]
      exact and_iff_right hone
    simp only [hrule]
    by_cases hr : d.IsRule
    · have hknown : perm = .allow ∨ perm = .deny := by
        cases perm with
        | unknown => exact absurd rfl hperm
        | allow => exact .inl rfl
        | deny => exact .inr rfl
      have hpair : d.pair =
          { perm := perm, issuer := d.issuers.headD [], subject := d.subjects.headD [],
            cmplen := (d.issuers.headD []).length + (d.subjects.headD []).length +
              if perm = .deny then 100000 else 0 } := by
        rcases hknown with rfl | rfl
        all_goals
          rw [hd]
          rfl
      rw [if_pos hr, createPair, if_pos (hknown.imp_right .inl)]
      simp only [hr, and_true, hwf, ← hpair]
    · rw [if_neg hr, if_neg fun h => hr h.2]
  · rw [if_neg hone, if_neg fun h => hone h.1.1]
    rfl

theorem parseWords_eq (b : Bool) {w : List Char} {n : Nat}
    (hfew : (w :: ws).length < nTokens) (hcomment : ¬ IsComment w) (hws : ∀ v ∈ ws, v.length ≤ n)
    (hquiet : wordsDirective pl w ws = none → ws.any isSelfSigned = false) : parseWords pl b w ws =
      ((wordsDirective pl w ws).elim b fun d => if d.SelfSigned then d.allow else b,
        (wordsDirective pl w ws).bind fun d => if d.IsRule then some d.pair else none) := by
  unfold parseWords
  unfold wordsDirective at *
  by_cases hok : ws ≠ [] ∧ permission w ≠ .unknown
  · have hcond : (w :: ws).length < nTokens ∧ ¬ IsComment w ∧ ws ≠ [] ∧ permission w ≠ .unknown :=
      ⟨hfew, hcomment, hok⟩
    rw [if_pos hcond] at hquiet ⊢
    rw [if_neg (not_or.2 hok)]
    simp only [(parseLoop_reads ..).1]
    cases hcs : readClauses ws with
    | none =>
      rw [hcs] at hquiet
      rw [parseLoop_fst_of_not_mentioned (hquiet rfl)]
      rfl
    | some cs =>
      rw [hcs] at hquiet
      simp only [bind_some] at hquiet ⊢
      obtain ⟨hissuers, hsubjects⟩ := patterns_of_readClauses hcs hws
      rw [fill_createPair pl hok.2 (fun p hp => (hissuers p hp).1) (fun p hp => (hsubjects p hp).1) rfl]
      by_cases hwf : Directive.WellFormed pl ⟨permission w = .allow, cs⟩
      · have hfill : fill [] [] cs ≠ none := by
          rw [fill_eq [] [] (fun p hp => (hissuers p hp).1) (fun p hp => (hsubjects p hp).1)]
          exact ne_of_eq_of_ne (if_pos hwf.1) (some_ne_none _)
        rw [(parseLoop_reads ..).2 cs hcs hfill]
        simp only [hwf, if_true, true_and, elim_some, bind_some]
        rfl
      · rw [if_neg hwf] at hquiet
        rw [parseLoop_fst_of_not_mentioned (hquiet rfl)]
        simp only [hwf, if_false, false_and, elim_none, bind_none]
  · have hcond : ¬ ((w :: ws).length < nTokens ∧ ¬ IsComment w ∧ ws ≠ [] ∧
        permission w ≠ .unknown) := fun h => hok h.2.2
    rw [if_neg hcond, if_pos (by rw [not_and_or, not_not, not_not] at hok; exact hok)]
    rfl

/-- A line that mentions self-signed certificates and is no comment. -/
def mentionsSelfSigned (line : List Char) : Bool :=
  match tokenizeQuote line with
  | .ok (w :: ws) => !decide (IsComment w) && ws.any isSelfSigned
  | _ => false

variable {line cs : List Char}

/-- **A line is parsed to its directive**, unless it has too many words, or is in error and speaks of
self-signed certificates all the same. -/
theorem parseLine_eq (b : Bool) (hfits : tokenizeQuote line ≠ .error .overflow)
    (hquiet : directive pl line = none → mentionsSelfSigned line = false) : parseLine pl b line =
      some ((directive pl line).elim b fun d => if d.SelfSigned then d.allow else b,
        (directive pl line).bind fun d => if d.IsRule then some d.pair else none) := by
  unfold parseLine
  unfold directive mentionsSelfSigned at *
  cases htok : tokenizeQuote line with
  | error e =>
    cases e with
    | overflow => exact absurd htok hfits
    | quoteNotClosed => rfl
  | ok tokens =>
    cases tokens with
    | nil => rfl
    | cons w ws =>
      rw [htok] at hquiet
      simp only at hquiet ⊢
      by_cases hcomment : nTokens ≤ (w :: ws).length ∨ IsComment w
      · have hno : ¬ ((w :: ws).length < nTokens ∧ ¬ IsComment w ∧ ws ≠ [] ∧
            permission w ≠ .unknown) := fun h => hcomment.elim (Nat.not_le.2 h.1) h.2.1
        rw [if_pos (show _ ∨ w.head? = _ from hcomment), wordsDirective, if_neg hno]
        rfl
      · rw [if_neg (show ¬ (_ ∨ w.head? = _) from hcomment)]
        obtain ⟨hfew, hcomment⟩ := not_or.1 hcomment
        have hmentions : (!decide (IsComment w) && ws.any isSelfSigned) = ws.any isSelfSigned := by
          simp [hcomment]
        have hws := (forall_mem_cons.1 (length_le_of_mem_tokenizeQuote htok)).2
        rw [hmentions] at hquiet
        exact congrArg some (parseWords_eq pl b (Nat.not_le.1 hfew) hcomment hws hquiet)

/-- A quoted word has blanks in it. -/
example : tokenizeQuote "allow issuer \"a b\"\n".toList =
    .ok ["allow".toList, "issuer".toList, "a b".toList] := by decide

/-! ## Loading -/

/-- A line that loading takes for what it is: it fits into the buffer, its words fit into the array,
and it does not speak of self-signed certificates when it is in error. -/
structure Plain (pl : Platform) (line : List Char) : Prop where
  length : line.length ≤ lineMax
  text : Char.ofNat 0 ∉ line
  fits : line.length < lineMax → tokenizeQuote line ≠ .error .overflow
  quiet : line.length < lineMax → directive pl line = none → mentionsSelfSigned line = false

theorem cstr_eq_self (h : Char.ofNat 0 ∉ line) : cstr line = line :=
  takeWhile_eq_self_iff.2 fun c hc => by simpa using ne_of_mem_of_not_mem hc h

/-- **Loading finds the directives of plain lines.** -/
theorem loadLines_eq (b : Bool) (h : ∀ l ∈ ls, Plain pl l) : loadLines pl b ls =
      some (((directivesOf pl ls).filter (·.SelfSigned)).getLast?.elim b (·.allow),
        ((directivesOf pl ls).filter (·.IsRule)).map Directive.pair) := by
  induction ls generalizing b with
  | nil => rfl
  | cons l ls ih =>
    obtain ⟨hl, hls⟩ := forall_mem_cons.1 h
    rw [loadLines, cstr_eq_self hl.text]
    by_cases hlong : lineMax ≤ l.length
    · have hdrop : directivesOf pl (l :: ls) = directivesOf pl ls := by
        rw [directivesOf, filter_cons_of_neg (by simpa using hlong)]
        rfl
      rw [if_pos hlong, ih b hls, hdrop]
    · have hshort := Nat.not_le.1 hlong
      have hcons : directivesOf pl (l :: ls) =
          (directive pl l).toList ++ directivesOf pl ls := by
        rw [directivesOf, filter_cons_of_pos (by simpa using hshort), filterMap_cons]
        cases directive pl l <;> rfl
      rw [if_neg hlong, parseLine_eq pl b (hl.fits hshort) (hl.quiet hshort), hcons]
      simp only
      rw [ih _ hls]
      cases directive pl l with
      | none => rfl
      | some d =>
        simp only [elim_some, bind_some, map_some, toList_some, cons_append, nil_append]
        refine congrArg some (congrArg₂ Prod.mk ?_ ?_)
        · by_cases hself : d.SelfSigned
          · rw [if_pos hself, filter_cons_of_pos (by simpa using hself), getLast?_cons]
            cases ((directivesOf pl ls).filter (·.SelfSigned)).getLast? <;> rfl
          · rw [if_neg hself, filter_cons_of_neg (by simpa using hself)]
        · by_cases hrule : d.IsRule
          · rw [if_pos hrule, filter_cons_of_pos (by simpa using hrule)]
            rfl
          · rw [if_neg hrule, filter_cons_of_neg (by simpa using hrule)]
            rfl

theorem lines_eq_cons (h : cs ≠ []) : ∃ l r, lines cs = l :: lines r ∧ cs = l ++ r ∧ l ≠ [] ∧
      ∀ n, l.length ≤ n → fgets n cs = (l, r) := by
  induction cs with
  | nil => exact absurd rfl h
  | cons c cs ih =>
    by_cases hnl : c = '\n'
    · refine ⟨[c], cs, by rw [lines, if_pos hnl], rfl, cons_ne_nil _ _, fun n hn => ?_⟩
      obtain ⟨n, rfl⟩ := Nat.exists_eq_add_of_le' hn
      rw [length_singleton, fgets, if_pos hnl]
    · by_cases hcs : cs = []
      · subst hcs
        have hone : lines [c] = [[c]] := if_neg hnl
        refine ⟨[c], [], hone, rfl, cons_ne_nil _ _, fun n hn => ?_⟩
        obtain ⟨n, rfl⟩ := Nat.exists_eq_add_of_le' hn
        rw [length_singleton, fgets, if_neg hnl]
        cases n <;> rfl
      · obtain ⟨l, r, hlines, happ, hne, hfgets⟩ := ih hcs
        refine ⟨c :: l, r, by rw [lines, if_neg hnl, hlines], by rw [happ]; rfl,
          cons_ne_nil _ _, fun n hn => ?_⟩
        obtain ⟨n, rfl⟩ := Nat.exists_eq_add_of_le' (Nat.one_le_of_lt hn)
        rw [fgets, if_neg hnl, hfgets n (Nat.le_of_succ_le_succ hn)]

theorem chunks_eq {fuel : Nat} (hfuel : cs.length ≤ fuel)
    (h : ∀ l ∈ lines cs, l.length ≤ lineMax) : chunks fuel cs = lines cs := by
  induction fuel generalizing cs with
  | zero =>
    rw [length_eq_zero_iff.1 (Nat.le_zero.1 hfuel)]
    rfl
  | succ fuel ih =>
    by_cases hcs : cs = []
    · rw [hcs]
      rfl
    · obtain ⟨l, r, hlines, happ, hne, hfgets⟩ := lines_eq_cons hcs
      rw [hlines] at h ⊢
      obtain ⟨hl, hr⟩ := forall_mem_cons.1 h
      have hlen : r.length ≤ fuel := by
        rw [happ, length_append] at hfuel
        have := length_pos_iff.2 hne
        omega
      rw [chunks, if_neg hcs, hfgets lineMax hl, ih hlen hr]

/-! ## The verdict -/

theorem Directive.proper_of_mem_directivesOf {pl : Platform} (h : d ∈ directivesOf pl ls) : d.Proper := by
  obtain ⟨l, hl, hd⟩ := mem_filterMap.1 h
  have hshort : l.length < lineMax := by simpa using (mem_filter.1 hl).2
  unfold directive at hd
  split at hd
  · next w ws htok =>
    obtain ⟨-, hd⟩ := ite_none_right_eq_some.1 hd
    obtain ⟨cs, hcs, hd⟩ := bind_eq_some_iff.1 hd
    obtain ⟨hwf, hd⟩ := ite_none_right_eq_some.1 hd
    have hws : ∀ v ∈ ws, v.length ≤ lineMax := fun v hv =>
      (length_le_of_mem_tokenizeQuote htok v (mem_cons_of_mem _ hv)).trans hshort.le
    obtain ⟨hissuers, hsubjects⟩ := patterns_of_readClauses hcs hws
    cases hd
    exact ⟨hwf.1.1, hwf.1.2, hissuers, hsubjects⟩
  · cases hd

theorem check_pair (hd : d.Proper) (hrule : d.IsRule) (issuer subject : List Char) :
    check pl d.pair issuer subject = if d.Matches pl issuer subject then d.pair.perm else .unknown := by
  have hmatches := and_congr
    (forall_mem_iff_headD (P := fun pat => issuer ≠ [] ∧ pl.regexec pat issuer = true)
      hd.oneIssuer fun p hp => (hd.issuers p hp).1)
    (forall_mem_iff_headD (P := fun pat => subject ≠ [] ∧ pl.regexec pat subject = true)
      hd.oneSubject fun p hp => (hd.subjects p hp).1)
  have hsome := or_congr (headD_ne_nil_iff fun p hp => (hd.issuers p hp).1)
    (headD_ne_nil_iff fun p hp => (hd.subjects p hp).1)
  have hgiven := hsome.2 hrule
  unfold check
  rw [show d.pair.issuer = d.issuers.headD [] from rfl,
    show d.pair.subject = d.subjects.headD [] from rfl]
  simp only [Directive.Matches, hmatches]
  generalize d.issuers.headD [] = i at hgiven ⊢
  generalize d.subjects.headD [] = s at hgiven ⊢
  by_cases hi : i = []
  · have hs : s ≠ [] := hgiven.resolve_left (not_not.2 hi)
    simp [hi, hs]
  · by_cases hs : s = []
    · simp [hi, hs]
    · simp [hi, hs, and_assoc, and_left_comm]

theorem Directive.Proper.cmplen (hd : d.Proper) : (d.pair.perm = .allow → d.pair.cmplen < 100000) ∧
      (d.pair.perm = .deny → 100000 ≤ d.pair.cmplen) := by
  have hlen : ∀ l : List (List Char), (∀ pat ∈ l, pat ≠ [] ∧ pat.length ≤ lineMax) →
      (l.headD []).length ≤ lineMax := by
    intro l hl
    cases l with
    | nil => exact Nat.zero_le _
    | cons pat l => exact (hl pat (mem_cons_self ..)).2
  have hissuer := hlen d.issuers hd.issuers
  have hsubject := hlen d.subjects hd.subjects
  unfold lineMax at hissuer hsubject
  unfold Directive.pair
  cases d.allow with
  | true => exact ⟨fun _ => by simp only [if_true]; omega, fun h => by simp at h⟩
  | false => exact ⟨fun h => by simp at h, fun _ => Nat.le_add_left _ _⟩

theorem check_pair_iff (hd : d.Proper) (hrule : d.IsRule) (issuer subject : List Char) :
    (check pl d.pair issuer subject = .allow ↔ d.allow = true ∧ d.Matches pl issuer subject) ∧
      (check pl d.pair issuer subject = .deny ↔ d.allow = false ∧ d.Matches pl issuer subject) := by
  rw [check_pair pl hd hrule]
  unfold Directive.pair
  cases d.allow <;> by_cases hm : d.Matches pl issuer subject <;> simp [hm]

theorem check_eq_or (p : PatternPair) (issuer subject : List Char) :
    check pl p issuer subject = p.perm ∨ check pl p issuer subject = .unknown := by
  unfold check
  split_ifs
  all_goals first
    | exact .inl rfl
    | exact .inr rfl

/-- **The first match is the verdict of all rules**: those that deny come first. -/
theorem firstMatch_eq_ok_iff (issuer subject : List Char) {ps : List PatternPair}
    (hsorted : ps.Pairwise fun p q => q.cmplen ≤ p.cmplen)
    (hallow : ∀ p ∈ ps, p.perm = .allow → p.cmplen < 100000)
    (hdeny : ∀ p ∈ ps, p.perm = .deny → 100000 ≤ p.cmplen) : firstMatch pl issuer subject ps = .ok ↔
      (∀ p ∈ ps, check pl p issuer subject ≠ .deny) ∧
        ∃ p ∈ ps, check pl p issuer subject = .allow := by
  induction ps with
  | nil => simp [firstMatch]
  | cons p ps ih =>
    obtain ⟨hp, hps⟩ := pairwise_cons.1 hsorted
    obtain ⟨hpallow, hallow⟩ := forall_mem_cons.1 hallow
    obtain ⟨hpdeny, hdeny⟩ := forall_mem_cons.1 hdeny
    have hperm := check_eq_or pl p issuer subject
    rw [firstMatch, forall_mem_cons, exists_mem_cons_iff]
    cases hc : check pl p issuer subject with
    | unknown => simpa using ih hps hallow hdeny
    | deny => simp
    | allow =>
      have hlow : p.cmplen < 100000 := by
        rw [hc] at hperm
        exact hpallow (hperm.resolve_right (by decide)).symm
      simp only [ne_eq, true_iff]
      refine ⟨⟨by decide, fun q hq hqdeny => ?_⟩, .inl trivial⟩
      -- a rule that denies would stand in front of this one
      have hqperm := check_eq_or pl q issuer subject
      rw [hqdeny] at hqperm
      have hhigh := hdeny q hq (hqperm.resolve_right (by decide)).symm
      exact absurd (hp q hq) (by omega)

end Lagopus.CheckCert
