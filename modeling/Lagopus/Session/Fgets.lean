import Lagopus.Lib.Octets
import Lagopus.Lib.Trace

/-!
# Reading lines from a session

`session_fgets` takes bytes out of the buffer before it knows whether the rest of the line is there.
If a read brings nothing, it returns `NULL`, and what it has taken is gone.

* `sessionFgets_cases`: what becomes of the bytes in one call;
* `losesNothing_iff`: when those of all calls are returned or still there;
* `text_run_sublist`: what is returned in any case.
-/

namespace Lagopus

open Trace List

/-- The bytes in the buffer, and what the reads to come return: nothing, if there are no data for now,
and always after the last. -/
structure Session where
  rbuf : List Octet
  reads : List (List Octet)

namespace Session

def newline : Octet := 10

/-- The buffer is filled if it is empty. -/
def fill (s : Session) : Session :=
  if s.rbuf = [] then ⟨s.reads.headD [], s.reads.tail⟩ else s

def advance (len : Nat) (s : Session) : Session := { s with rbuf := s.rbuf.drop len }

/-- The loop: `size` bytes may still be copied behind `d`. -/
def fgetsLoop (size : Nat) (d : List Octet) (s : Session) : Option (List Octet) × Session :=
  if size = 0 then (some d, s)
  else if s.fill.rbuf = [] then (none, s.fill)
  else
    let part := s.fill.rbuf.take size
    if newline ∈ part then
      let len := part.idxOf newline + 1
      (some (d ++ part.take len), s.fill.advance len)
    else fgetsLoop (size - part.length) (d ++ part) (s.fill.advance part.length)
termination_by size
decreasing_by
  have := List.length_pos_iff.2 ‹¬ s.fill.rbuf = []›
  simp only [List.length_take]
  omega

/-- `session_fgets`: the string, without the zero behind it, or `NULL`. -/
def sessionFgets (size : Int) (s : Session) : Option (List Octet) × Session :=
  if size ≤ 0 then (none, s) else fgetsLoop (size - 1).toNat [] s

/-- The strings that have been returned, with the sizes of the calls, and the session. -/
abbrev Calls := List (Int × List Octet) × Session

def call (r : Calls) (size : Int) : Calls :=
  (r.1 ++ (sessionFgets size r.2).1.toList.map (size, ·), (sessionFgets size r.2).2)

def run (s : Session) (sizes : List Int) : Calls := sizes.foldl call ([], s)

/-! ## What ought to happen -/

/-- The bytes that have not been taken. -/
def pending (s : Session) : List Octet := s.rbuf ++ s.reads.flatten

/-- The strings one behind the other. -/
def text (r : Calls) : List Octet := r.1.flatMap Prod.snd

/-- The string ends with its first newline. -/
def EndsLine (str : List Octet) : Prop := ∃ line, str = line ++ [newline] ∧ newline ∉ line

/-- **Nothing is lost**: the strings are a part of the stream, end where they ought to, and what is not
among them has not been taken. -/
structure LosesNothing (s : Session) (sizes : List Int) : Prop where
  inOrder : text (run s sizes) <+: s.pending
  ends : ∀ c ∈ (run s sizes).1, EndsLine c.2 ∨ c.2.length = c.1 - 1 ∨
    (run s sizes).1.getLast? = some c ∧ text (run s sizes) = s.pending
  kept : text (run s sizes) ++ (run s sizes).2.pending = s.pending

/-- The bytes before the next read without data. -/
def ready (s : Session) : List Octet := s.rbuf ++ (s.reads.takeWhile (· ≠ [])).flatten

/-- They do not fill a string of this length and have no end of a line. -/
def Short (s : Session) (size : Nat) : Prop := s.ready.length < size ∧ newline ∉ s.ready

/-- A call loses the part of a line that is there. -/
def Loses (s : Session) (size : Int) : Prop := s.ready ≠ [] ∧ s.Short (size - 1).toNat

def NeverLoses : Session → List Int → Prop :=
  EveryStep (fun s size => (sessionFgets size s).2) fun s size => ¬ s.Loses size

/-! ## One call -/

variable {s : Session}

theorem pending_fill (s : Session) : s.fill.pending = s.pending := by
  rcases s with ⟨_ | _, _ | _⟩ <;> simp [fill, pending]

theorem ready_eq (s : Session) : s.ready = if s.fill.rbuf = [] then [] else s.fill.ready := by
  rcases s with ⟨_ | _, _ | ⟨_ | _, _⟩⟩ <;> simp [fill, ready]

theorem take_append_pending (len : Nat) : s.rbuf.take len ++ (s.advance len).pending = s.pending := by
  simp [pending, advance, ← append_assoc]

theorem take_append_ready (len : Nat) : s.rbuf.take len ++ (s.advance len).ready = s.ready := by
  simp [ready, advance, ← append_assoc]

/-- A string is returned from the bytes to come, or they are too few and those that are there go. -/
theorem fgetsLoop_cases (size : Nat) (d : List Octet) (s : Session) :
    (∃ str, (fgetsLoop size d s).1 = some (d ++ str) ∧ (EndsLine str ∨ str.length = size) ∧
      str ++ (fgetsLoop size d s).2.pending = s.pending ∧ ¬ s.Short size) ∨
    (fgetsLoop size d s).1 = none ∧ s.ready ++ (fgetsLoop size d s).2.pending = s.pending ∧
      s.Short size := by
  fun_induction fgetsLoop size d s with
  | case1 d s => exact .inl ⟨[], by simp, .inr rfl, rfl, fun h => Nat.not_lt_zero _ h.1⟩
  | case2 size d s hsize hnil =>
    rw [Short, ready_eq, if_pos hnil]
    exact .inr ⟨rfl, pending_fill s, Nat.pos_of_ne_zero hsize, not_mem_nil⟩
  | case3 size d s hsize hfill part hmem len =>
    have hlen : len ≤ part.length := idxOf_lt_length_of_mem hmem
    have htake : part.take len = s.fill.rbuf.take len := by
      rw [take_take, min_eq_left (hlen.trans (length_take_le _ _))]
    refine .inl ⟨part.take len, rfl, .inl ⟨part.take (part.idxOf newline), ?_, ?_⟩, ?_, fun h => h.2 ?_⟩
    · rw [take_succ_eq_append_getElem (idxOf_lt_length_of_mem hmem), getElem_idxOf]
    · rw [mem_take_iff_idxOf_lt hmem]
      exact lt_irrefl _
    · rw [htake, take_append_pending, pending_fill]
    · rw [ready_eq, if_neg hfill, ← take_append_ready size]
      exact mem_append_left _ hmem
  | case4 size d s hsize hfill part hmem ih =>
    -- the rest of the loop gets what is behind the part
    have htake : s.fill.rbuf.take part.length = part := by
      rw [length_take, ← take_take, take_length]
    have hready := take_append_ready (s := s.fill) part.length
    have hpending := take_append_pending (s := s.fill) part.length
    rw [htake, ← s.ready_eq.trans (if_neg hfill)] at hready
    rw [htake, pending_fill] at hpending
    have hle : part.length ≤ size := length_take_le _ _
    have hshort : (s.fill.advance part.length).Short (size - part.length) ↔ s.Short size := by
      rw [Short, Short, ← hready, length_append, mem_append, not_or]
      exact and_congr (by omega) (iff_and_self.2 fun _ => hmem)
    rw [hshort] at ih
    rw [← hready, ← hpending]
    rcases ih with ⟨str, hstr, hends, hrest, hno⟩ | ⟨hnone, hrest, hyes⟩
    · refine .inl ⟨part ++ str, by rw [hstr, append_assoc], hends.imp ?_ fun h => ?_, ?_, hno⟩
      · rintro ⟨line, rfl, hline⟩
        exact ⟨part ++ line, (append_assoc ..).symm, by simp [hmem, hline]⟩
      · rw [length_append, h]
        omega
      · rw [append_assoc, hrest]
    · exact .inr ⟨hnone, by rw [append_assoc, hrest], hyes⟩

theorem sessionFgets_cases (size : Int) (s : Session) :
    (∃ str, (sessionFgets size s).1 = some str ∧ (EndsLine str ∨ str.length = size - 1) ∧
      str ++ (sessionFgets size s).2.pending = s.pending ∧ ¬ s.Loses size) ∨
    (sessionFgets size s).1 = none ∧ ∃ lost, lost ++ (sessionFgets size s).2.pending = s.pending ∧
      (lost ≠ [] ↔ s.Loses size) := by
  unfold sessionFgets Loses
  split_ifs with hsize
  · have hzero : (size - 1).toNat = 0 := by omega
    exact .inr ⟨rfl, [], rfl, by simp [hzero, Short]⟩
  · rcases fgetsLoop_cases (size - 1).toNat [] s with ⟨str, hstr, hends, hrest, hno⟩ | ⟨hnone, hrest, hyes⟩
    · exact .inl ⟨str, hstr, hends.imp_right fun h => by omega, hrest, fun h => hno h.2⟩
    · exact .inr ⟨hnone, s.ready, hrest, (and_iff_left hyes).symm⟩

/-! ## All calls -/

variable (r : Calls) (sizes : List Int)

/-- The strings, and the bytes that have not been taken. -/
def known : List Octet := text r ++ r.2.pending

theorem known_call (size : Int) : (r.2.Loses size → (known (call r size)).length < (known r).length) ∧
      (¬ r.2.Loses size → known (call r size) = known r) := by
  unfold known text call
  rcases sessionFgets_cases size r.2 with ⟨str, hstr, -, hrest, hno⟩ | ⟨hnone, lost, hrest, hlost⟩
  · exact ⟨fun h => absurd h hno, fun _ => by simp [hstr, ← hrest]⟩
  · rw [hnone, ← hrest]
    refine ⟨fun h => ?_, fun h => ?_⟩
    · simpa using length_pos_iff.2 (hlost.2 h)
    · simp [not_not.1 (mt hlost.1 h)]

theorem known_run : (known (sizes.foldl call r)).length ≤ (known r).length ∧
    (known (sizes.foldl call r) = known r ↔ NeverLoses r.2 sizes) := by
  induction sizes generalizing r with
  | nil => exact ⟨le_rfl, iff_of_true rfl trivial⟩
  | cons size sizes ih =>
    obtain ⟨hle, hiff⟩ := ih (call r size)
    rw [foldl_cons]
    by_cases hlose : r.2.Loses size
    · have hlt := hle.trans_lt ((known_call r size).1 hlose)
      exact ⟨hlt.le, iff_of_false (fun heq => hlt.ne (congrArg List.length heq)) fun h => h.1 hlose⟩
    · rw [← (known_call r size).2 hlose]
      exact ⟨hle, hiff.trans (and_iff_right hlose).symm⟩

theorem ends_run (hr : ∀ c ∈ r.1, EndsLine c.2 ∨ c.2.length = c.1 - 1) :
    ∀ c ∈ (sizes.foldl call r).1, EndsLine c.2 ∨ c.2.length = c.1 - 1 := by
  induction sizes generalizing r with
  | nil => exact hr
  | cons size sizes ih =>
    refine ih _ (forall_mem_append.2 ⟨hr, ?_⟩)
    rcases sessionFgets_cases size r.2 with ⟨str, hstr, hends, -⟩ | ⟨hnone, -⟩
    · simpa [hstr] using hends
    · simp [hnone]

/-- **Nothing is lost**, exactly if no call comes when a part of a line is there. -/
theorem losesNothing_iff (s : Session) (sizes : List Int) : LosesNothing s sizes ↔ NeverLoses s sizes := by
  have hiff := (known_run ([], s) sizes).2
  refine ⟨fun h => hiff.1 h.kept, fun h => ⟨⟨_, hiff.2 h⟩, fun c hc => ?_, hiff.2 h⟩⟩
  exact (ends_run _ sizes (by simp) c hc).imp_right .inl

theorem known_call_sublist (size : Int) : known (call r size) <+ known r := by
  unfold known text call
  rcases sessionFgets_cases size r.2 with ⟨str, hstr, -, hrest, -⟩ | ⟨hnone, lost, hrest, -⟩
  · simp [hstr, ← hrest]
  · simp [hnone, ← hrest]

/-- **Whatever is lost, nothing is made up**: the strings are bytes of the stream in its order, each up to
the end of a line or as long as the caller has room. -/
theorem text_run_sublist (s : Session) (sizes : List Int) : text (run s sizes) <+ s.pending ∧
    ∀ c ∈ (run s sizes).1, EndsLine c.2 ∨ c.2.length = c.1 - 1 := by
  have hknown : ∀ r : Calls, known (sizes.foldl call r) <+ known r := by
    induction sizes with
    | nil => exact fun r => Sublist.refl _
    | cons size sizes ih => exact fun r => (ih _).trans (known_call_sublist r size)
  exact ⟨(sublist_append_left _ _).trans (hknown ([], s)), ends_run ([], s) sizes (by simp)⟩

/-- The second read comes too early: the call returns nothing, and the next one the rest of the line. -/
theorem line_lost : (run ⟨[], [[97, 98], [], [99, 10]]⟩ [10, 10]).1 = [(10, [99, 10])] ∧
    ¬ LosesNothing ⟨[], [[97, 98], [], [99, 10]]⟩ [10, 10] := by
  have hrun : (run ⟨[], [[97, 98], [], [99, 10]]⟩ [10, 10]).1 = [(10, [99, 10])] := by
    simp [run, call, sessionFgets, fgetsLoop, fill, advance, newline]
  refine ⟨hrun, fun h => ?_⟩
  have hin := h.inOrder
  rw [text, hrun] at hin
  exact absurd hin (by decide)

end Session

end Lagopus
