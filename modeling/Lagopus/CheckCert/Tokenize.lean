import Mathlib.Data.List.TakeWhile
import Mathlib.Data.List.Basic

/-!
# Words of a configuration line

`lagopus_str_tokenize_quote` cuts a line into words, in place, and `lagopus_str_unescape` takes the
backslashes out of one.  A string is the list of its characters; the null pointer and the empty string
are both `[]`, which is how `IS_VALID_STRING` sees them.

* `tokenizeQuote`: the words of a line, for an array of sixteen pointers;
* `strUnescape`: a word without its backslashes;
* `length_le_of_mem_tokenizeQuote`, `length_strUnescape_le`: neither makes anything longer.
-/

namespace Lagopus.CheckCert

open List

def isDelm (c : Char) : Bool := c = '\t' || c = '\r' || c = '\n' || c = ' '

def isQuote (c : Char) : Bool := c = '"' || c = Char.ofNat 39

/-- How the search for the end of a quoted word ends. -/
inductive Quoted
  | closed (token rest : List Char)
  /-- The string ends behind a quote with a backslash in front of it. -/
  | ended (token : List Char)
  | notClosed

/-- A quoted word, from the first character behind the quote on. `prev` is the character in front,
and `escaped` says that it was a quote with a backslash in front of it. -/
def quoted (quote : Char) (prev : Char) (escaped : Bool) : List Char → Quoted
  | [] => if escaped then .ended [] else .notClosed
  | c :: cs =>
    if c = quote ∧ prev ≠ '\\' then .closed [] cs
    else
      match quoted quote c (c = quote) cs with
      | .closed token rest => .closed (c :: token) rest
      | .ended token => .ended (c :: token)
      | .notClosed => .notClosed

inductive TokenizeError
  | quoteNotClosed
  /-- A word more than the array of the caller has room for. -/
  | overflow
deriving DecidableEq

/-- The array of `s_parse_line` has sixteen pointers, and it passes 1024 for their number. -/
def nTokens : Nat := 16

/-- Write a pointer behind the words there are. -/
def push (tokens : List (List Char)) (token : List Char) :
    Except TokenizeError (List (List Char)) :=
  if tokens.length < nTokens then .ok (tokens ++ [token]) else .error .overflow

/-- The loop of `lagopus_str_tokenize_quote`. Every word takes a character at least. -/
def tokenizeLoop : Nat → List (List Char) → List Char → Except TokenizeError (List (List Char))
  | 0, tokens, _ => .ok tokens
  | fuel + 1, tokens, buf =>
    match buf.dropWhile isDelm with
    | [] => .ok tokens
    | c :: cs =>
      let word := (c :: cs).takeWhile fun c => !isDelm c && !isQuote c
      match (c :: cs).dropWhile fun c => !isDelm c && !isQuote c with
      | [] => push tokens word
      | d :: rest =>
        if isDelm d then
          match push tokens word with
          | .error e => .error e
          | .ok tokens => tokenizeLoop fuel tokens rest
        else if tokens.length = nTokens then .error .overflow
        else if rest = [] then .error .quoteNotClosed
        else
          -- a word that ends with a quote is a word of its own
          let before := if word = [] then tokens else tokens ++ [word]
          if before.length = nTokens then .error .overflow
          else
            match quoted d (Char.ofNat 0) false rest with
            | .notClosed => .error .quoteNotClosed
            | .ended token => .ok (if word = [] then before else before ++ [token])
            | .closed token rest => tokenizeLoop fuel (before ++ [token]) rest

/-- `lagopus_str_tokenize_quote`. -/
def tokenizeQuote (buf : List Char) : Except TokenizeError (List (List Char)) :=
  tokenizeLoop buf.length [] buf

/-- The loop of `lagopus_str_unescape`; `gotBs` says that the last character was a backslash. -/
def unescapeLoop : Bool → List Char → List Char
  | _, [] => []
  | true, c :: cs =>
    if isQuote c then c :: unescapeLoop false cs
    else if c = '\\' then '\\' :: '\\' :: unescapeLoop false cs
    else '\\' :: c :: unescapeLoop false cs
  | false, c :: cs => if c = '\\' then unescapeLoop true cs else c :: unescapeLoop false cs

/-- The word neither begins nor ends with a quote, unless there is a backslash in front of the last
one. -/
def Escapable (org : List Char) : Prop :=
  org.head?.any isQuote = false ∧
    (org.getLast?.any isQuote = false ∨ 2 ≤ org.length ∧ org.dropLast.getLast? = some '\\')

instance (org : List Char) : Decidable (Escapable org) := inferInstanceAs (Decidable (_ ∧ (_ ∨ _ ∧ _)))

/-- `lagopus_str_unescape`, where it answers a positive length. -/
def strUnescape (org : List Char) : Option (List Char) :=
  if org ≠ [] ∧ Escapable org ∧ unescapeLoop false org ≠ [] then some (unescapeLoop false org)
  else none

/-- `strcasecmp` finds no difference. -/
def sameWord (a b : List Char) : Bool := a.map Char.toLower = b.map Char.toLower

/-! ## Lengths -/

theorem length_unescapeLoop_le (gotBs : Bool) (cs : List Char) :
    (unescapeLoop gotBs cs).length ≤ cs.length + gotBs.toNat := by
  induction cs generalizing gotBs with
  | nil => exact Nat.zero_le _
  | cons c cs ih =>
    have htrue := ih true
    have hfalse := ih false
    cases gotBs with
    | true =>
      rw [unescapeLoop]
      split_ifs <;> simp only [length_cons, Bool.toNat_true, Bool.toNat_false] at * <;> omega
    | false =>
      rw [unescapeLoop]
      split_ifs <;> simp only [length_cons, Bool.toNat_true, Bool.toNat_false] at * <;> omega

theorem length_strUnescape_le {org s : List Char} (h : strUnescape org = some s) :
    s ≠ [] ∧ s.length ≤ org.length := by
  obtain ⟨⟨-, -, hne⟩, hs⟩ := Option.ite_none_right_eq_some.1 h
  cases hs
  exact ⟨hne, length_unescapeLoop_le false org⟩

/-- A quoted word and what is behind it are not longer than what they are found in. -/
def Quoted.Within (n : Nat) : Quoted → Prop
  | closed token rest => token.length + rest.length < n
  | ended token => token.length ≤ n
  | notClosed => True

theorem quoted_within (quote prev : Char) (escaped : Bool) (cs : List Char) :
    (quoted quote prev escaped cs).Within cs.length := by
  induction cs generalizing prev escaped with
  | nil =>
    cases escaped with
    | true => exact le_rfl
    | false => trivial
  | cons c cs ih =>
    rw [quoted]
    split_ifs with hquote
    · exact show 0 + cs.length < cs.length + 1 by omega
    · have hih := ih c (c = quote)
      cases hrest : quoted quote c (c = quote) cs with
      | closed token rest =>
        rw [hrest] at hih
        exact show token.length + 1 + rest.length < cs.length + 1 by
          have : token.length + rest.length < cs.length := hih
          omega
      | ended token =>
        rw [hrest] at hih
        exact Nat.succ_le_succ hih
      | notClosed => trivial

variable {tokens ts : List (List Char)}

theorem forall_mem_push {P : List Char → Prop} {token : List Char}
    (h : push tokens token = .ok ts) (htokens : ∀ t ∈ tokens, P t) (ht : P token) : ∀ t ∈ ts, P t := by
  unfold push at h
  split_ifs at h
  cases h
  exact forall_mem_append.2 ⟨htokens, forall_mem_singleton.2 ht⟩

theorem except_of_ite {ε α : Type} {c : Prop} [Decidable c] {e : ε} {x : Except ε α} {a : α}
    (h : (if c then .error e else x) = .ok a) : ¬ c ∧ x = .ok a := by
  split_ifs at h with hc
  exact ⟨hc, h⟩

theorem length_le_of_mem_tokenizeLoop {fuel n : Nat} {buf : List Char}
    (h : tokenizeLoop fuel tokens buf = .ok ts) (htokens : ∀ t ∈ tokens, t.length ≤ n)
    (hbuf : buf.length ≤ n) : ∀ t ∈ ts, t.length ≤ n := by
  induction fuel generalizing tokens buf with
  | zero =>
    cases h
    exact htokens
  | succ fuel ih =>
    have hdrop := (dropWhile_sublist isDelm (l := buf)).length_le
    rw [tokenizeLoop] at h
    cases hline : buf.dropWhile isDelm with
    | nil =>
      rw [hline] at h
      cases h
      exact htokens
    | cons c cs =>
      rw [hline] at h hdrop
      simp only at h
      have hword := (takeWhile_sublist (fun c => !isDelm c && !isQuote c) (l := c :: cs)).length_le
      have hrest := (dropWhile_sublist (fun c => !isDelm c && !isQuote c) (l := c :: cs)).length_le
      generalize (c :: cs).takeWhile (fun c => !isDelm c && !isQuote c) = word at h hword
      cases hd : (c :: cs).dropWhile fun c => !isDelm c && !isQuote c with
      | nil =>
        rw [hd] at h
        exact forall_mem_push h htokens (hword.trans (hdrop.trans hbuf))
      | cons d rest =>
        rw [hd] at h hrest
        simp only at h
        have hlen : rest.length ≤ n := by
          simp only [length_cons] at hrest hdrop
          omega
        have hbefore : ∀ t ∈ (if word = [] then tokens else tokens ++ [word]), t.length ≤ n := by
          split_ifs
          · exact htokens
          · exact forall_mem_append.2 ⟨htokens, forall_mem_singleton.2 (by omega)⟩
        by_cases hdelm : isDelm d = true
        · rw [if_pos hdelm] at h
          cases hpush : push tokens word with
          | error e =>
            rw [hpush] at h
            cases h
          | ok tokens' =>
            rw [hpush] at h
            exact ih h (forall_mem_push hpush htokens (hword.trans (hdrop.trans hbuf))) hlen
        · rw [if_neg hdelm] at h
          obtain ⟨-, h⟩ := except_of_ite h
          obtain ⟨-, h⟩ := except_of_ite h
          obtain ⟨-, h⟩ := except_of_ite h
          have hin := quoted_within d (Char.ofNat 0) false rest
          -- what is there before the quoted word, and the quoted word itself
          have hboth : ∀ token : List Char, token.length ≤ n →
              ∀ t ∈ (if word = [] then tokens else tokens ++ [word]) ++ [token], t.length ≤ n :=
            fun token htoken => forall_mem_append.2 ⟨hbefore, forall_mem_singleton.2 htoken⟩
          cases hq : quoted d (Char.ofNat 0) false rest with
          | notClosed =>
            rw [hq] at h
            cases h
          | ended token =>
            rw [hq] at h hin
            cases h
            have htoken : token.length ≤ rest.length := hin
            by_cases hempty : word = []
            · rw [if_pos hempty]
              exact hbefore
            · rw [if_neg hempty]
              exact hboth token (by omega)
          | closed token rest' =>
            rw [hq] at h hin
            have htoken : token.length + rest'.length < rest.length := hin
            exact ih h (hboth token (by omega)) (by omega)

theorem length_le_of_mem_tokenizeQuote {buf : List Char}
    (h : tokenizeQuote buf = .ok ts) : ∀ t ∈ ts, t.length ≤ buf.length :=
  length_le_of_mem_tokenizeLoop h (fun _ ht => absurd ht not_mem_nil) le_rfl

end Lagopus.CheckCert
