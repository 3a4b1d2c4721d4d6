import Lagopus.Pipeline.Execute

/-!
# What is noted in the actions of a flow entry

Before a flow entry is executed for the first time, `flow_instruction_examination` goes through
its apply-actions list and leaves notes in the `flags` of the actions: an output that is not the
last thing to happen to the packet has to work on a copy, and a push or pop whose Ethernet
addresses are set afterwards need not copy them.  The notes are made in a single pass, by
reaching back to the last output and the last push or pop seen so far.

* `flowActionExamination` is that pass; `flowActionExamination_eq` says what it notes in an
  action, in terms of the actions behind it;
* `Instructions.unflagged_examine`: copying an examined list gives back the list.
-/

namespace Lagopus

open List Instructions

/-! ## Changing the last of a kind -/

/-- Change the last element that satisfies `p`. -/
def modifyLast {α : Type} (p : α → Bool) (f : α → α) : List α → List α
  | [] => []
  | a :: as =>
    if as.any p then a :: modifyLast p f as
    else if p a then f a :: as
    else a :: as

section ModifyLast

variable {α : Type} {p : α → Bool} {f : α → α}

theorem modifyLast_of_not_any {l : List α} (h : l.any p = false) : modifyLast p f l = l := by
  cases l with
  | nil => rfl
  | cons a as =>
    obtain ⟨ha, has⟩ := (Bool.or_eq_false_iff).1 h
    simp [modifyLast, ha, has]

theorem modifyLast_concat (l : List α) (a : α) :
    modifyLast p f (l ++ [a]) = if p a then l ++ [f a] else modifyLast p f l ++ [a] := by
  induction l with
  | nil => simp [modifyLast]
  | cons b l ih =>
    cases hpa : p a with
    | true => simp [modifyLast, ih, hpa]
    | false =>
      simp only [cons_append, modifyLast, any_append, any_cons, hpa, any_nil, Bool.or_false, ih]
      split_ifs <;> simp_all

theorem any_modifyLast {q : α → Bool} (hf : ∀ a, q (f a) = q a) (l : List α) :
    (modifyLast p f l).any q = l.any q := by
  induction l with
  | nil => rfl
  | cons a as ih =>
    rw [modifyLast]
    split_ifs <;> simp [ih, hf]

theorem modifyLast_modifyLast {g : α → α} (hf : ∀ a, p (f a) = p a) (l : List α) :
    modifyLast p g (modifyLast p f l) = modifyLast p (g ∘ f) l := by
  induction l with
  | nil => rfl
  | cons a as ih =>
    by_cases has : as.any p = true
    · simp [modifyLast, has, any_modifyLast hf, ih]
    · by_cases ha : p a = true
      · simp [modifyLast, has, ha, hf]
      · simp [modifyLast, has, ha]

theorem modifyLast_comm {q : α → Bool} {g : α → α} (hdisj : ∀ a, p a = true → q a = false)
    (hfq : ∀ a, q (f a) = q a) (hgp : ∀ a, p (g a) = p a) (l : List α) :
    modifyLast p f (modifyLast q g l) = modifyLast q g (modifyLast p f l) := by
  induction l with
  | nil => rfl
  | cons a as ih =>
    have hp : (modifyLast q g as).any p = as.any p := any_modifyLast hgp as
    have hq : (modifyLast p f as).any q = as.any q := any_modifyLast hfq as
    by_cases hpa : p a = true
    · have hqa := hdisj a hpa
      cases hpas : as.any p <;> cases hqas : as.any q <;>
        simp [modifyLast, hpa, hqa, hpas, hqas, hp, hq, hfq, ih]
    · cases hpas : as.any p <;> cases hqas : as.any q <;> cases hqa : q a <;>
        simp [modifyLast, hpa, hqa, hpas, hqas, hp, hq, hgp, ih]

end ModifyLast

/-! ## Flags -/

/-- The action pushes or pops a header. -/
def Action.restacks : Action → Bool
  | .rewrite (.pushVlan _ _) | .rewrite (.popVlan _) | .rewrite (.pushMpls _ _)
  | .rewrite (.popMpls _) | .rewrite (.pushPbb _ _) | .rewrite .popPbb => true
  | _ => false

def Action.isOutput : Action → Bool
  | .output _ _ => true
  | _ => false

/-- The actions at which an output seen before is marked. -/
def Action.marks (a : Action) : Bool := a.restacks || a.setFieldOf.isSome || a.isOutput

/-- `action->flags = OUTPUT_COPIED_PACKET`. -/
def Action.setCopied : Action → Action
  | .output port _ => .output port true
  | a => a

/-- `SET_FIELD_ETH_DST` and `SET_FIELD_ETH_SRC`. -/
structure EthFlags where
  dst : Bool := false
  src : Bool := false

variable (flags : EthFlags)

/-- `flags |= …`, for a set-field action. -/
def EthFlags.add (field : OxmField) : EthFlags :=
  if field = .ethDst then { flags with dst := true }
  else if field = .ethSrc then { flags with src := true }
  else flags

/-- `NEED_COPY_ETH_ADDR`. -/
def EthFlags.needCopy : Bool := !(flags.dst && flags.src)

/-- `action->flags = flags`, for an action that pushes or pops. -/
def Action.setFlags : Action → Action
  | .rewrite (.pushVlan t _) => .rewrite (.pushVlan t flags.needCopy)
  | .rewrite (.popVlan _) => .rewrite (.popVlan flags.needCopy)
  | .rewrite (.pushMpls t _) => .rewrite (.pushMpls t flags.needCopy)
  | .rewrite (.pushPbb t _) => .rewrite (.pushPbb t flags.needCopy)
  | a => a

/-- The action with `flags` 0: as the parser allocates it, and as `copy_action_list` copies it. -/
def Action.unflagged : Action → Action
  | .output port _ => .output port false
  | a => a.setFlags {}

/-! ## The pass -/

/-- `action_output->flags = OUTPUT_COPIED_PACKET`, on the actions seen so far. -/
def markOutput : List Action → List Action := modifyLast Action.isOutput Action.setCopied

/-- `action_push->flags = flags`. -/
def markPush : List Action → List Action :=
  modifyLast Action.restacks (Action.setFlags flags)

/-- The loop of `flow_action_examination`. `action_output` and `action_push` point into the
actions seen so far, to the last output and the last push or pop. -/
def examineLoop (flags : EthFlags) (seen : List Action) : List Action → List Action
  | [] => seen
  | a :: as =>
    if a.restacks then examineLoop {} (markOutput seen ++ [a]) as
    else match a.setFieldOf with
      | some field =>
        if seen.any Action.restacks then
          examineLoop (flags.add field) (markPush (flags.add field) (markOutput seen) ++ [a]) as
        else examineLoop flags (markOutput seen ++ [a]) as
      | none =>
        if a.isOutput then examineLoop flags (markOutput seen ++ [a]) as
        else examineLoop flags (seen ++ [a]) as

/-- `flow_action_examination`. The cookies it notes for packet-in messages are left out. -/
def flowActionExamination (actionList : List Action) : List Action := examineLoop {} [] actionList

/-- The array has an instruction behind apply-actions. -/
def Instructions.later (ins : Instructions) : Bool :=
  ins.clearActions || ins.writeActions.isSome || ins.writeMetadata.isSome || ins.gotoTable.isSome

/-- `flow_instruction_examination`. -/
def Instructions.examine (ins : Instructions) : Instructions :=
  { ins with applyActions := ins.applyActions.map fun as =>
      if ins.later then markOutput (flowActionExamination as) else flowActionExamination as }

/-- `copy_instruction_list`, and then `map_instruction_list_to_array`. -/
def Instructions.unflagged (ins : Instructions) : Instructions :=
  { ins with
    applyActions := ins.applyActions.map (·.map Action.unflagged)
    writeActions := ins.writeActions.map (·.map Action.unflagged) }

/-! ## What the pass notes -/

open Lagopus.Action

@[simp]
theorem Action.isOutput_setCopied (a : Action) : a.setCopied.isOutput = a.isOutput := by
  cases a <;> rfl

@[simp]
theorem Action.restacks_setCopied (a : Action) : a.setCopied.restacks = a.restacks := by
  cases a <;> rfl

variable (flags : EthFlags)

@[simp]
theorem Action.isOutput_setFlags (a : Action) : (a.setFlags flags).isOutput = a.isOutput := by
  cases a with
  | rewrite r => cases r <;> rfl
  | _ => rfl

@[simp]
theorem Action.restacks_setFlags (a : Action) : (a.setFlags flags).restacks = a.restacks := by
  cases a with
  | rewrite r => cases r <;> rfl
  | _ => rfl

variable {a : Action}

theorem Action.not_restacks_of_isOutput (h : a.isOutput = true) : a.restacks = false := by
  cases a with
  | output port copied => rfl
  | _ => cases h

theorem Action.not_isOutput_of_restacks (h : a.restacks = true) : a.isOutput = false := by
  cases a with
  | output port copied => cases h
  | _ => rfl

theorem Action.kind_of_setFieldOf {field : OxmField} (h : a.setFieldOf = some field) :
    a.isOutput = false ∧ a.restacks = false := by
  cases a with
  | rewrite r => cases r <;> first | exact ⟨rfl, rfl⟩ | cases h
  | _ => cases h

variable (l : List Action)

theorem markOutput_markOutput : markOutput (markOutput l) = markOutput l := by
  have hcomp : setCopied ∘ setCopied = setCopied := by
    funext a
    cases a <;> rfl
  rw [markOutput, modifyLast_modifyLast isOutput_setCopied, hcomp]

theorem markPush_markPush (flags flags' : EthFlags) (l : List Action) :
    markPush flags (markPush flags' l) = markPush flags l := by
  have hcomp : setFlags flags ∘ setFlags flags' = setFlags flags := by
    funext a
    cases a with
    | rewrite r => cases r <;> rfl
    | _ => rfl
  rw [markPush, markPush, modifyLast_modifyLast (restacks_setFlags flags'), hcomp]

theorem markOutput_markPush : markOutput (markPush flags l) = markPush flags (markOutput l) :=
  modifyLast_comm (fun _ => not_restacks_of_isOutput) restacks_setCopied (isOutput_setFlags flags) l

theorem markOutput_concat (a : Action) :
    markOutput (l ++ [a]) = if a.isOutput then l ++ [a.setCopied] else markOutput l ++ [a] :=
  modifyLast_concat l a

theorem markPush_concat (a : Action) : markPush flags (l ++ [a]) =
      if a.restacks then l ++ [a.setFlags flags] else markPush flags l ++ [a] :=
  modifyLast_concat l a

/-- The fields set behind a push or pop, before the next one. -/
def setBehind (as : List Action) : List OxmField :=
  (as.takeWhile fun a => !a.restacks).filterMap setFieldOf

/-- What is noted in an action that has `as` behind it. -/
def Action.noted (as : List Action) (a : Action) : Action :=
  if a.isOutput then if as.any marks then a.setCopied else a
  else if a.restacks ∧ setBehind as ≠ [] then
    a.setFlags ((setBehind as).foldl EthFlags.add {})
  else a

/-- Every action with its note. -/
def notedAll : List Action → List Action
  | [] => []
  | a :: as => a.noted as :: notedAll as

/-- What the actions `as` still to come will change in those already seen. -/
def reachBack (as seen : List Action) : List Action :=
  let seen := if as.any marks then markOutput seen else seen
  if setBehind as = [] then seen else markPush ((setBehind as).foldl EthFlags.add flags) seen

theorem setBehind_cons (a : Action) (as : List Action) : setBehind (a :: as) =
      if a.restacks then [] else a.setFieldOf.toList ++ setBehind as := by
  unfold setBehind
  cases hr : a.restacks with
  | true => simp [hr]
  | false => cases hf : a.setFieldOf <;> simp [hr, hf]

theorem reachBack_concat (as seen : List Action) (a : Action)
    (hr : a.restacks = false) (ho : a.isOutput = false) :
    reachBack flags as (seen ++ [a]) = reachBack flags as seen ++ [a] := by
  simp only [reachBack, markOutput_concat, ho, Bool.false_eq_true, if_false]
  split_ifs <;> simp [markPush_concat, hr]

/-- **The pass**: each action gets its note, and the last output and the last push or pop seen
before get theirs. -/
theorem examineLoop_eq (seen as : List Action) :
    examineLoop flags seen as = reachBack flags as seen ++ notedAll as := by
  induction as generalizing flags seen with
  | nil => simp [examineLoop, reachBack, notedAll, setBehind]
  | cons a as ih =>
    rw [examineLoop]
    cases hr : a.restacks with
    | true =>
      -- what is set behind it is noted in this action, and in none before it
      have ho := not_isOutput_of_restacks hr
      have hback : reachBack flags (a :: as) seen = markOutput seen := by
        simp [reachBack, setBehind_cons, hr, marks]
      have hnext : reachBack {} as (markOutput seen ++ [a]) = markOutput seen ++ [a.noted as] := by
        simp only [reachBack, markOutput_concat, ho, Bool.false_eq_true, if_false,
          markOutput_markOutput, ite_self, markPush_concat, hr, if_true, noted, ne_eq,
          true_and]
        split_ifs <;> simp_all
      rw [if_pos rfl, ih, hback, hnext, notedAll]
      simp
    | false =>
      simp only [Bool.false_eq_true, if_false]
      cases hf : a.setFieldOf with
      | some field =>
        obtain ⟨ho, -⟩ := kind_of_setFieldOf hf
        have hnoted : a.noted as = a := by simp [noted, ho, hr]
        have hset : setBehind (a :: as) = field :: setBehind as := by simp [setBehind_cons, hr, hf]
        have hmarks : (a :: as).any marks = true := by simp [marks, hf]
        simp only
        split_ifs with hpush
        · rw [ih, reachBack_concat _ _ _ _ hr ho, notedAll, hnoted]
          simp only [reachBack, hset, hmarks, if_true, cons_ne_nil, if_false,
            foldl_cons, markOutput_markPush, markOutput_markOutput, ite_self]
          split_ifs with hnil
          · simp [hnil]
          · simp [markPush_markPush]
        · have hnone : ∀ fl : EthFlags, ∀ l : List Action, l.any restacks = false →
              markPush fl l = l := fun fl l h => modifyLast_of_not_any h
          have hout : (markOutput seen).any restacks = false := by
            rw [markOutput, any_modifyLast restacks_setCopied]
            simpa using hpush
          rw [ih, reachBack_concat _ _ _ _ hr ho, notedAll, hnoted]
          simp only [reachBack, hset, hmarks, if_true, cons_ne_nil,
            markOutput_markOutput, ite_self, hnone _ _ hout]
          simp
      | none =>
        have hset : setBehind (a :: as) = setBehind as := by simp [setBehind_cons, hr, hf]
        simp only
        cases ho : a.isOutput with
        | true =>
          have hmarks : (a :: as).any marks = true := by simp [marks, ho]
          have hnext : reachBack flags as (markOutput seen ++ [a]) =
              reachBack flags (a :: as) seen ++ [a.noted as] := by
            simp only [reachBack, hset, hmarks, if_true, markOutput_concat, ho, noted]
            split_ifs <;> simp [markPush_concat, hr]
          rw [if_pos rfl, ih, hnext, notedAll]
          simp
        | false =>
          have hmarks : (a :: as).any marks = as.any marks := by
            simp [marks, hf, ho, hr]
          have hnoted : a.noted as = a := by simp [noted, ho, hr]
          have hback : reachBack flags (a :: as) seen = reachBack flags as seen := by
            simp [reachBack, hset, hmarks]
          simp only [Bool.false_eq_true, if_false]
          rw [ih, reachBack_concat _ _ _ _ hr ho, hback, notedAll, hnoted]
          simp

variable (as : List Action)

theorem flowActionExamination_eq : flowActionExamination as = notedAll as := by
  rw [flowActionExamination, examineLoop_eq]
  simp [reachBack, markOutput, markPush, modifyLast]

/-! ## Examining and copying -/

@[simp]
theorem Action.unflagged_unflagged (a : Action) : a.unflagged.unflagged = a.unflagged := by
  cases a with
  | rewrite r => cases r <;> rfl
  | _ => rfl

theorem map_modifyLast {α β : Type} {p : α → Bool} {f : α → α} {u : α → β} (h : ∀ a, u (f a) = u a)
    (l : List α) : (modifyLast p f l).map u = l.map u := by
  induction l with
  | nil => rfl
  | cons a as ih =>
    rw [modifyLast]
    split_ifs <;> simp [ih, h]

@[simp]
theorem Action.unflagged_setCopied (a : Action) : a.setCopied.unflagged = a.unflagged := by
  cases a <;> rfl

@[simp]
theorem Action.unflagged_setFlags (a : Action) : (a.setFlags flags).unflagged = a.unflagged := by
  cases a with
  | rewrite r => cases r <;> rfl
  | _ => rfl

@[simp]
theorem Action.unflagged_noted (a : Action) : (a.noted as).unflagged = a.unflagged := by
  unfold noted
  split_ifs <;> simp

theorem map_unflagged_notedAll : (notedAll as).map Action.unflagged = as.map Action.unflagged := by
  induction as with
  | nil => rfl
  | cons a as ih => simp [notedAll, ih]

theorem Instructions.unflagged_examine (ins : Instructions) : ins.unflagged.examine.unflagged = ins.unflagged := by
  have hmark : ∀ as : List Action, (markOutput as).map Action.unflagged = as.map Action.unflagged :=
    fun as => map_modifyLast Action.unflagged_setCopied as
  have hcomp : Action.unflagged ∘ Action.unflagged = Action.unflagged := funext Action.unflagged_unflagged
  unfold examine unflagged
  cases ins.applyActions <;> cases ins.writeActions <;>
    simp [hcomp, flowActionExamination_eq]
  all_goals split_ifs <;> simp [hmark, map_unflagged_notedAll]

end Lagopus
