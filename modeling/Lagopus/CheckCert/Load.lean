import Lagopus.CheckCert.Tokenize

/-!
# The certificate policy

`session_checkcert.c` keeps the rules of a configuration file in a table, and whether self-signed
certificates are allowed in a variable of its own.  Before every check the file is loaded again if it
has changed.

* `parseLine`: one line of the file; it sets the variable as it goes, and answers with a rule;
* `loadConfig`: the loading, with `chunks` for the lines as `fgets` reads them;
* `checkCertificates`, `State`, `step`: checks, and the world they are made in.

Regular expressions are a parameter, and so are the order in which the hash table hands out the rules and
the sort (`Platform`).  Allocation does not fail.
-/

namespace Lagopus.CheckCert

inductive ConnPermission
  | unknown
  | allow
  | deny
deriving DecidableEq

structure PatternPair where
  perm : ConnPermission
  issuer : List Char
  subject : List Char
  cmplen : Nat
deriving DecidableEq

/-- What the policy is built on: regular expressions, the order in which the hash table hands out the
rules, and `lagopus_qsort_r`, which sorts by any comparison that is one. -/
structure Platform where
  regcomp : List Char → Bool
  regexec : List Char → List Char → Bool
  hashOrder : List PatternPair → List PatternPair
  hashOrder_perm : ∀ ps, (hashOrder ps).Perm ps
  qsort : (PatternPair → PatternPair → Int) → List PatternPair → List PatternPair
  qsort_perm : ∀ cmp ps, (qsort cmp ps).Perm ps
  qsort_sorted : ∀ cmp, (∀ p q, cmp p q ≤ 0 ∨ cmp q p ≤ 0) →
    (∀ p q r, cmp p q ≤ 0 → cmp q r ≤ 0 → cmp p r ≤ 0) →
      ∀ ps, (qsort cmp ps).Pairwise fun p q => cmp p q ≤ 0

/-- `s_cmp_proc`. -/
def cmpProc (p q : PatternPair) : Int := q.cmplen - p.cmplen

/-- `s_serialize_pairs`. -/
def serializePairs (pl : Platform) (ps : List PatternPair) : List PatternPair :=
  pl.qsort cmpProc (pl.hashOrder ps)

theorem serializePairs_perm (pl : Platform) (ps : List PatternPair) : (serializePairs pl ps).Perm ps :=
  (pl.qsort_perm _ _).trans (pl.hashOrder_perm ps)

/-- The longest rules come first. -/
theorem serializePairs_sorted (pl : Platform) (ps : List PatternPair) :
    (serializePairs pl ps).Pairwise fun p q => q.cmplen ≤ p.cmplen := by
  have hsorted := pl.qsort_sorted cmpProc (fun p q => by unfold cmpProc; omega)
    (fun p q r => by unfold cmpProc; omega) (pl.hashOrder ps)
  refine hsorted.imp fun {p q} h => ?_
  unfold cmpProc at h
  omega

/-- `s_create_pair`. The offset puts the rules that deny in front. -/
def createPair (pl : Platform) (perm : ConnPermission) (issuer subject : List Char) :
    Option PatternPair :=
  if perm = .allow ∨ perm = .deny ∨ issuer ≠ [] ∨ subject ≠ [] then
    if (issuer ≠ [] → pl.regcomp issuer = true) ∧ (subject ≠ [] → pl.regcomp subject = true) then
      some
        { perm := perm, issuer := issuer, subject := subject,
          cmplen := issuer.length + subject.length + if perm = .deny then 100000 else 0 }
    else none
  else none

/-- `s_check`. -/
def check (pl : Platform) (p : PatternPair) (issuer subject : List Char) : ConnPermission :=
  if p.issuer ≠ [] ∧ p.subject ≠ [] then
    if issuer ≠ [] ∧ subject ≠ [] ∧ pl.regexec p.issuer issuer = true ∧
        pl.regexec p.subject subject = true then p.perm
    else .unknown
  else if p.issuer ≠ [] then
    if issuer ≠ [] ∧ pl.regexec p.issuer issuer = true then p.perm else .unknown
  else if p.subject ≠ [] then
    if subject ≠ [] ∧ pl.regexec p.subject subject = true then p.perm else .unknown
  else .unknown

/-! ## Lines -/

/-- The two spellings of the keyword. -/
def isSelfSigned (w : List Char) : Bool :=
  sameWord w "self-signed".toList || sameWord w "selfsigned".toList

/-- The `while` loop of `s_parse_line`: the variable, and both patterns unless the line is in error. -/
def parseLoop (perm : ConnPermission) :
    Bool → List Char → List Char → List (List Char) → Bool × Option (List Char × List Char)
  | allowSelfsigned, issuer, subject, [] => (allowSelfsigned, some (issuer, subject))
  | allowSelfsigned, issuer, subject, w :: ws =>
    if isSelfSigned w then parseLoop perm (perm = .allow) issuer subject ws
    else if sameWord w "issuer".toList then
      match ws with
      | [] => (allowSelfsigned, none)
      | pat :: ws =>
        if issuer ≠ [] then (allowSelfsigned, none)
        else
          match strUnescape pat with
          | none => (allowSelfsigned, none)
          | some s => parseLoop perm allowSelfsigned s subject ws
    else if sameWord w "subject".toList then
      match ws with
      | [] => (allowSelfsigned, none)
      | pat :: ws =>
        if subject ≠ [] then (allowSelfsigned, none)
        else
          match strUnescape pat with
          | none => (allowSelfsigned, none)
          | some s => parseLoop perm allowSelfsigned issuer s ws
    else (allowSelfsigned, none)

/-- The permission a line begins with. -/
def permission (w : List Char) : ConnPermission :=
  if sameWord w "allow".toList then .allow
  else if sameWord w "deny".toList then .deny
  else .unknown

/-- The words of a line that is not a comment: the variable, and the rule of the line. A rule is made
if there is a pattern. -/
def parseWords (pl : Platform) (allowSelfsigned : Bool) (w : List Char) (ws : List (List Char)) :
    Bool × Option PatternPair :=
  if ws = [] ∨ permission w = .unknown then (allowSelfsigned, none)
  else
    let r := parseLoop (permission w) allowSelfsigned [] [] ws
    (r.1, r.2.bind fun pats =>
      if pats.1 ≠ [] ∨ pats.2 ≠ [] then createPair pl (permission w) pats.1 pats.2 else none)

/-- `s_parse_line`. With more words than its array has room for, the stack is overwritten: `none`. -/
def parseLine (pl : Platform) (allowSelfsigned : Bool) (line : List Char) :
    Option (Bool × Option PatternPair) :=
  match tokenizeQuote line with
  | .error .overflow => none
  | .error .quoteNotClosed => some (allowSelfsigned, none)
  | .ok [] => some (allowSelfsigned, none)
  | .ok (w :: ws) =>
    if nTokens ≤ (w :: ws).length ∨ w.head? = some '#' then some (allowSelfsigned, none)
    else some (parseWords pl allowSelfsigned w ws)

/-- `sizeof(buf)` of `s_load_config`, without the terminating zero. -/
def lineMax : Nat := 4095

/-- `fgets`: at most `n` characters, up to the end of the line, and what is left. -/
def fgets : Nat → List Char → List Char × List Char
  | 0, cs => ([], cs)
  | _ + 1, [] => ([], [])
  | n + 1, c :: cs =>
    if c = '\n' then ([c], cs) else (c :: (fgets n cs).1, (fgets n cs).2)

/-- What the loop of `s_load_config` reads. Every chunk takes a character at least. -/
def chunks : Nat → List Char → List (List Char)
  | 0, _ => []
  | fuel + 1, cs =>
    if cs = [] then [] else (fgets lineMax cs).1 :: chunks fuel (fgets lineMax cs).2

/-- The buffer as a string. -/
def cstr (buf : List Char) : List Char := buf.takeWhile fun c => c ≠ Char.ofNat 0

/-- The loop of `s_load_config`: the variable, and the table. -/
def loadLines (pl : Platform) : Bool → List (List Char) → Option (Bool × List PatternPair)
  | allowSelfsigned, [] => some (allowSelfsigned, [])
  | allowSelfsigned, buf :: bufs =>
    if lineMax ≤ (cstr buf).length then loadLines pl allowSelfsigned bufs
    else
      match parseLine pl allowSelfsigned (cstr buf) with
      | none => none
      | some r => (loadLines pl r.1 bufs).map fun t => (t.1, r.2.toList ++ t.2)

/-! ## Checks -/

inductive Result
  | ok
  | anyFailures
  | notFound
  | noMemory
  | notAllowed
  | invalidArgs
deriving DecidableEq

/-- A version of a file. -/
structure Version where
  mtime : Nat
  readable : Bool
  content : List Char

/-- The static variables. `pats` is `none` for a null pointer. -/
structure Policy where
  pats : Option (List PatternPair) := none
  filename : List Char := []
  lastOpen : Nat := 0
  allowSelfsigned : Bool := false

/-- `s_unload_config`. -/
def unload (p : Policy) : Policy := { p with pats := none }

/-- `s_load_config`, for the file there is under `s_filename`, at the time `now`. -/
def loadConfig (pl : Platform) (file : Option Version) (now : Nat) (p : Policy) :
    Option (Result × Policy) :=
  match file with
  | none => some (.notFound, unload p)
  | some v =>
    if 0 < v.mtime ∧ ((p.pats = none ∨ p.lastOpen = 0) ∨ p.lastOpen < v.mtime) then
      if v.readable then
        (loadLines pl p.allowSelfsigned (chunks v.content.length v.content)).map fun r =>
          if r.2 = [] then (.noMemory, { unload p with allowSelfsigned := r.1 })
          else
            (.ok, { p with
              pats := some (serializePairs pl r.2), lastOpen := now, allowSelfsigned := r.1 })
      else some (.notFound, unload p)
    else if v.mtime = 0 then some (.notFound, unload p)
    else some (.ok, p)

/-- The loop over the array. -/
def firstMatch (pl : Platform) (issuer subject : List Char) : List PatternPair → Result
  | [] => .notAllowed
  | p :: ps =>
    match check pl p issuer subject with
    | .unknown => firstMatch pl issuer subject ps
    | .allow => .ok
    | .deny => .notAllowed

/-- Loading, as a check does it. -/
def reload (pl : Platform) (file : Option Version) (now : Nat) (p : Policy) :
    Option (Result × Policy) :=
  if p.filename ≠ [] then
    (loadConfig pl file now p).map fun r =>
      if r.1 = .ok then r else (r.1, { r.2 with allowSelfsigned := false })
  else some (.anyFailures, p)

/-- What a check answers after loading. -/
def verdict (pl : Platform) (r : Result) (p : Policy) (issuer subject : List Char) : Result :=
  if p.allowSelfsigned = false ∧ issuer ≠ [] ∧ subject ≠ [] ∧ issuer = subject then .notAllowed
  else if r = .ok then firstMatch pl issuer subject (p.pats.getD []) else r

/-- `s_check_certificates`. -/
def checkCertificates (pl : Platform) (file : Option Version) (now : Nat)
    (issuer subject : List Char) (p : Policy) : Option (Result × Policy) :=
  if issuer ≠ [] ∨ subject ≠ [] then
    (reload pl file now p).map fun r => (verdict pl r.1 r.2 issuer subject, r.2)
  else some (.invalidArgs, p)

/-- `PATH_MAX`. -/
def pathMax : Nat := 4096

/-- `s_check_certificates_set_config_file`. -/
def setConfigFile (name : List Char) (p : Policy) : Policy :=
  { p with filename := name.take (pathMax - 1), lastOpen := 0 }

/-! ## Runs -/

/-- The policy and the files there are. There is no policy any more once the stack has been
overwritten. `named` is the name given last. -/
structure State where
  policy : Option Policy := some {}
  files : List Char → Option Version := fun _ => none
  named : List Char := []

inductive Event
  /-- A file is written, or deleted. -/
  | modify (name : List Char) (version : Option Version)
  | setConfigFile (name : List Char)
  | check (issuer subject : List Char) (now : Nat)

/-- The answer of a check, and the policy after it. -/
def State.checked (pl : Platform) (s : State) (issuer subject : List Char) (now : Nat) :
    Option (Result × Policy) :=
  s.policy.bind fun p => checkCertificates pl (s.files p.filename) now issuer subject p

def step (pl : Platform) (s : State) : Event → State
  | .modify name version => { s with files := Function.update s.files name version }
  | .setConfigFile name => { s with policy := s.policy.map (setConfigFile name), named := name }
  | .check issuer subject now => { s with policy := (s.checked pl issuer subject now).map (·.2) }

end Lagopus.CheckCert
