import Mathlib.Data.List.TakeWhile

/-!
# The text of a MAC address

* `cmdMacAddrParse`: the groups of a text and the verdict, which every group overwrites;
* `macRight_iff`: when the verdict is right.
-/

namespace Lagopus.Datastore

open List

def isHex (c : Char) : Bool := '0' ≤ c ∧ c ≤ '9' ∨ 'a' ≤ c ∧ c ≤ 'f' ∨ 'A' ≤ c ∧ c ≤ 'F'

/-- What `strtol` makes of hexadecimal digits. -/
def octet (group : List Char) : Nat :=
  group.foldl (fun n c => 16 * n + (c.toNat - if c ≤ '9' then 48 else if c ≤ 'F' then 55 else 87)) 0

/-- `lagopus_str_tokenize` for colons, with room for `max` words. -/
def strTokenize : Nat → List Char → List (List Char)
  | 0, _ => []
  | max + 1, buf =>
    match buf.dropWhile (· = ':') with
    | [] => []
    | c :: cs => (c :: cs).takeWhile (· ≠ ':') :: strTokenize max ((c :: cs).dropWhile (· ≠ ':')).tail

inductive ParseResult
  | ok
  | invalidArgs
  | outOfRange

/-- The loop over the groups: the verdict, and what is stored in the bytes of the address. -/
def parseOctets : ParseResult → List (List Char) → ParseResult × List (Option Nat)
  | ret, [] => (ret, [])
  | _, group :: groups =>
    if group.length = 2 then
      if group.all isHex then (parseOctets .ok groups).map id (some (octet group) :: ·)
      else (.outOfRange, [])
    else (parseOctets .outOfRange groups).map id (none :: ·)

def cmdMacAddrParse (str : List Char) : ParseResult × List (Option Nat) :=
  if str = [] then (.invalidArgs, [])
  else if (strTokenize 7 str).length = 6 then parseOctets .outOfRange (strTokenize 7 str)
  else (.outOfRange, [])

/-- Six groups of two hexadecimal digits, separated by single colons. -/
structure MacText (str : List Char) : Prop where
  six : (str.splitOn ':').length = 6
  digits : ∀ group ∈ str.splitOn ':', group.length = 2 ∧ group.all isHex

/-- **The verdict is right**, and so are the bytes. -/
structure MacRight (str : List Char) : Prop where
  verdict : (cmdMacAddrParse str).1 = .ok ↔ MacText str
  bytes : MacText str → (cmdMacAddrParse str).2 = (str.splitOn ':').map (some ∘ octet)

/-- Of six groups the last one has two characters, and where there are two they are digits. -/
def Taken (groups : List (List Char)) : Prop :=
  groups.length = 6 ∧ (∀ group ∈ groups, group.length = 2 → group.all isHex) ∧
    groups.getLast?.any (·.length = 2) = true

variable {groups : List (List Char)} {str : List Char}

/-- The words of a text: what stands between colons, where something does. -/
def words (str : List Char) : List (List Char) := (str.splitOn ':').filter (· ≠ [])

theorem words_dropWhile (str : List Char) : words (str.dropWhile (· = ':')) = words str := by
  induction str with
  | nil => rfl
  | cons c str ih =>
    by_cases hc : c = ':'
    · rw [dropWhile_cons_of_pos (by simpa using hc), ih, hc]
      simp [words, splitOn, splitOnP_cons_eq_if_modifyHead]
    · rw [dropWhile_cons_of_neg (by simpa using hc)]

theorem words_cons {c : Char} (hc : c ≠ ':') (cs : List Char) :
    words (c :: cs) = (c :: cs).takeWhile (· ≠ ':') :: words ((c :: cs).dropWhile (· ≠ ':')).tail := by
  have hword : ∀ x ∈ (c :: cs).takeWhile (· ≠ ':'), (x == ':') = false := by
    intro x hx
    simpa using mem_takeWhile_imp hx
  have hne : decide ((c :: cs).takeWhile (· ≠ ':') ≠ []) = true := by simp [hc]
  have hwords : words (c :: cs) =
      words ((c :: cs).takeWhile (· ≠ ':') ++ (c :: cs).dropWhile (· ≠ ':')) := by
    rw [takeWhile_append_dropWhile]
  rw [hwords]
  cases hrest : (c :: cs).dropWhile (· ≠ ':') with
  | nil =>
    rw [append_nil, words, splitOn, splitOnP_eq_singleton hword]
    exact filter_cons_of_pos hne
  | cons d ds =>
    have hd : (d == ':') = true := by
      have hnot := head?_dropWhile_not (fun x => decide (x ≠ ':')) (c :: cs)
      rw [hrest] at hnot
      simpa using hnot
    rw [words, splitOn, splitOnP_append_cons_of_forall_mem hword d hd]
    exact filter_cons_of_pos hne

/-- The tokenizer finds the words, as many as there is room for. -/
theorem strTokenize_eq_take (max : Nat) (str : List Char) : strTokenize max str = (words str).take max := by
  induction max generalizing str with
  | zero => rfl
  | succ max ih =>
    rw [strTokenize, ← words_dropWhile]
    cases hstart : str.dropWhile (· = ':') with
    | nil => rfl
    | cons c cs =>
      have hc : c ≠ ':' := by
        have hnot := head_dropWhile_not (· = ':') (by rw [hstart]; simp : str.dropWhile (· = ':') ≠ [])
        simpa [hstart] using hnot
      rw [words_cons hc, take_succ_cons, ← ih]

theorem parseOctets_ok (ret : ParseResult) : (parseOctets ret groups).1 = .ok ↔
    (∀ group ∈ groups, group.length = 2 → group.all isHex) ∧
      (groups.getLast?.any (·.length = 2) = true ∨ groups = [] ∧ ret = .ok) := by
  induction groups generalizing ret with
  | nil => simp [parseOctets]
  | cons group groups ih =>
    have hlast : (group :: groups).getLast?.any (·.length = 2) = true ↔
        groups.getLast?.any (·.length = 2) = true ∨ groups = [] ∧ group.length = 2 := by
      cases groups <;> simp
    rw [hlast, parseOctets, forall_mem_cons]
    split_ifs with hlen hhex
    · simp [ih, hlen, hhex]
    · simp [hlen, hhex]
    · simp [ih, hlen]

theorem parseOctets_bytes (h : ∀ group ∈ groups, group.length = 2 ∧ group.all isHex) (ret : ParseResult) :
    (parseOctets ret groups).2 = groups.map (some ∘ octet) := by
  induction groups generalizing ret with
  | nil => rfl
  | cons group groups ih =>
    obtain ⟨⟨hlen, hhex⟩, hgroups⟩ := forall_mem_cons.1 h
    simp [parseOctets, hlen, hhex, ih hgroups]

/-- Six words are found exactly if there are six. -/
theorem length_strTokenize : (strTokenize 7 str).length = 6 ↔ (words str).length = 6 := by
  rw [strTokenize_eq_take, length_take]
  omega

theorem strTokenize_eq_words (h : (words str).length = 6) : strTokenize 7 str = words str := by
  rw [strTokenize_eq_take, take_of_length_le (by omega)]

theorem cmdMacAddrParse_ok : (cmdMacAddrParse str).1 = .ok ↔ Taken (words str) := by
  unfold cmdMacAddrParse Taken
  split_ifs with hnil hsix
  · simp [hnil, words]
  · have hsix := length_strTokenize.1 hsix
    have hne : words str ≠ [] := ne_nil_of_length_eq_add_one hsix
    simp [strTokenize_eq_words hsix, parseOctets_ok, hsix, hne]
  · simp [mt length_strTokenize.2 hsix]

namespace MacText

variable (h : MacText str)

include h

theorem words_eq : words str = str.splitOn ':' := by
  refine filter_eq_self.2 fun group hgroup => ?_
  have hne := ne_nil_of_length_eq_add_one (h.digits group hgroup).1
  simpa using hne

theorem taken : Taken (str.splitOn ':') := by
  refine ⟨h.six, fun group hgroup _ => (h.digits group hgroup).2, ?_⟩
  have hne := ne_nil_of_length_eq_add_one h.six
  simpa [getLast?_eq_some_getLast hne] using (h.digits _ (getLast_mem hne)).1

end MacText

/-- The answer is right unless the words of another text are taken. -/
theorem macRight_iff (str : List Char) : MacRight str ↔ (Taken (words str) → MacText str) := by
  refine ⟨fun hright htaken => hright.verdict.1 (cmdMacAddrParse_ok.2 htaken), fun htext => ⟨⟨?_, ?_⟩, ?_⟩⟩
  · exact fun hok => htext (cmdMacAddrParse_ok.1 hok)
  · intro h
    rw [cmdMacAddrParse_ok, h.words_eq]
    exact h.taken
  · intro h
    have hne : str ≠ [] := by
      rintro rfl
      cases h.six
    have hsix : (words str).length = 6 := by rw [h.words_eq, h.six]
    rw [cmdMacAddrParse, if_neg hne, strTokenize_eq_words hsix, if_pos hsix, h.words_eq]
    exact parseOctets_bytes h.digits _

/-- The first group has one digit. -/
theorem short_group_taken : (cmdMacAddrParse "1:22:33:44:55:66".toList).1 = .ok ∧
    ¬ MacRight "1:22:33:44:55:66".toList := by
  refine ⟨rfl, fun hright => ?_⟩
  have hdigits := (hright.verdict.1 rfl).digits
  revert hdigits
  decide

end Lagopus.Datastore
