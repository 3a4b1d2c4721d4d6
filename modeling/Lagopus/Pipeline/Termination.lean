import Lagopus.Group.Chains
import Lagopus.Pipeline.Cache

/-!
# The way of a packet through the tables

A chain of goto-table instructions may lead back to a table it came from; what stops
`lagopus_match_and_action` is the count of matches in the packet.  A chain of groups may lead back
to a group it came from; nothing stops it but the absence of such a chain
(`Lagopus/Group/Chains.lean`).

* `executeInstruction_matched`: no instruction changes the matches of a packet;
* `length_matchSequence_le`: the loop over the tables executes at most `LAGOPUS_DP_PIPELINE_MAX`
  flow entries, whatever the tables;
* `lagopusMatchAndAction_ends`: one call ends, with or without a cache, if no group leads back to
  itself.  What a packet does that it gives to `OFPP_TABLE` is the business of another call.
-/

namespace Lagopus

open FiniteGraph List Run

/-! ## What an execution leaves alone -/

section Matches

variable {env : Env} {execGroup : Nat → Run → Outcome} {run run' : Run} {rv : Rv}

/-- Whatever it ends with, the matches are those of before. -/
def KeepsMatches (run : Run) (o : Outcome) : Prop :=
  ∀ run' rv, o = .ok (run', rv) → run'.matched = run.matched

theorem keepsMatches_ok (h : run'.matched = run.matched) : KeepsMatches run (.ok (run', rv)) := by
  intro run'' rv' heq
  cases heq
  exact h

theorem keepsMatches_error (e : Stuck) : KeepsMatches run (.error e) := by
  intro run' rv heq
  cases heq

theorem KeepsMatches.andThen {o : Outcome} {k : Run → Outcome} (h : KeepsMatches run o)
    (hk : ∀ mid, KeepsMatches mid (k mid)) : KeepsMatches run (andThen o k) := by
  intro run' rv heq
  unfold Lagopus.andThen at heq
  split at heq
  · exact (hk _ run' rv heq).trans (h _ _ rfl)
  · exact h run' rv heq

theorem Run.matched_register (env : Env) (run : Run) : (run.register env).matched = run.matched := by
  unfold register
  split_ifs <;> rfl

variable (hgroups : ∀ id run, KeepsMatches run (execGroup id run))

include hgroups

theorem execAction_matched (a : Action) (run : Run) :
    KeepsMatches run (execAction env execGroup run a) := by
  cases a with
  | output port copied =>
    cases copied with
    | true => exact keepsMatches_ok rfl
    | false => exact keepsMatches_ok (matched_register env run)
  | group id => exact hgroups id run
  | setQueue id | experimenter => exact keepsMatches_ok rfl
  | rewrite r =>
    rw [execAction]
    split
    · exact keepsMatches_error _
    · exact keepsMatches_ok rfl

theorem executeActionList_matched (as : List Action) (run : Run) :
    KeepsMatches run (executeActionList env execGroup as run) := by
  induction as generalizing run with
  | nil => exact keepsMatches_ok rfl
  | cons a as ih => exact (execAction_matched hgroups a run).andThen ih

theorem executeActionSet_matched (slot : Run → Nat → List Action) (run : Run) :
    KeepsMatches run (executeActionSet env execGroup slot run) := by
  have hslots : ∀ (is : List Nat) (run : Run),
      KeepsMatches run (executeSlots env execGroup slot is run) := by
    intro is
    induction is with
    | nil => exact fun run => keepsMatches_ok rfl
    | cons i is ih => exact fun run => (executeActionList_matched hgroups _ run).andThen ih
  unfold executeActionSet
  cases hexec : executeSlots env execGroup slot (List.range ACTION_SET_ORDER_MAX) run with
  | error e => exact keepsMatches_error _
  | ok result => exact keepsMatches_ok (hslots _ run result.1 result.2 hexec)

theorem executeBucket_matched (b : Option Bucket) (run : Run) :
    KeepsMatches run (executeBucket env execGroup run b) := by
  cases b with
  | none => exact keepsMatches_ok rfl
  | some b => exact executeActionSet_matched hgroups _ run

end Matches

section Groups

variable {env : Env} {execGroup : Nat → Run → Outcome} {run run' : Run}

/-- What a copy does to itself is not seen in the packet it was made of. -/
theorem executeCopies_matched {bs : List Bucket} (h : executeCopies env execGroup bs run = .ok run') :
    run'.matched = run.matched := by
  induction bs generalizing run with
  | nil =>
    cases h
    rfl
  | cons b bs ih =>
    simp only [executeCopies] at h
    cases hcopy : executeCopy env execGroup b run with
    | error e =>
      rw [hcopy] at h
      cases h
    | ok mid =>
      rw [hcopy] at h
      have hmid : mid.matched = run.matched := by
        unfold executeCopy at hcopy
        split at hcopy
        · cases hcopy
        · cases hexec : executeActionSet env execGroup (fun _ => b.actions)
              { pkt := _, cached := true } with
          | error e =>
            rw [hexec] at hcopy
            cases hcopy
          | ok result =>
            rw [hexec] at hcopy
            cases hcopy
            rfl
      exact (ih h).trans hmid

theorem executeGroupAction_matched (env : Env) (fuel id : Nat) (run : Run) :
    KeepsMatches run (executeGroupAction env fuel id run) := by
  induction fuel generalizing id run with
  | zero => exact keepsMatches_error _
  | succ fuel ih =>
    rw [executeGroupAction]
    cases env.groups.lookup id with
    | none => exact keepsMatches_ok rfl
    | some g =>
      simp only
      split
      · cases hcopies : executeCopies env (executeGroupAction env fuel) g.buckets run with
        | error e => exact keepsMatches_error _
        | ok mid =>
          exact keepsMatches_ok ((matched_register env mid).trans (executeCopies_matched hcopies))
      · intro run' rv h
        rw [executeBucket_matched ih _ _ run' rv h]
        split_ifs <;> rfl
      · exact executeBucket_matched ih _ run
      · split
        · exact keepsMatches_error _
        · exact executeBucket_matched ih _ run
      · exact keepsMatches_ok rfl

end Groups

/-! ## Instructions -/

variable {env : Env} {ins : Instructions}

theorem executeLater_matched (env : Env) (ins : Instructions) (run : Run) :
    (executeLater env ins run).1.matched = run.matched := by
  unfold executeLater executeInstructionGotoTable
  simp only
  repeat' split
  all_goals rfl

theorem executeInstruction_matched (env : Env) (ins : Instructions) (run : Run) :
    KeepsMatches run (executeInstruction env ins run) := by
  have hmeter : ∀ id, (executeInstructionMeter env id run).1.matched = run.matched := by
    intro id
    unfold executeInstructionMeter
    split <;> rfl
  have happly : ∀ as run, KeepsMatches run (executeActionList env (execGroup env) as run) :=
    executeActionList_matched (executeGroupAction_matched env env.groupFuel)
  refine KeepsMatches.andThen (keepsMatches_ok ?_) fun mid => (happly _ mid).andThen fun next => ?_
  · cases ins.meter with
    | none => rfl
    | some id => exact hmeter id
  · exact keepsMatches_ok (executeLater_matched env ins next)

theorem executeInstruction_ends (hgroups : ∀ id run, Ends (execGroup env id run))
    (ins : Instructions) (run : Run) : Ends (executeInstruction env ins run) := by
  refine ends_andThen (ends_ok _) fun run => ends_andThen ?_ fun run => ends_ok _
  exact executeActionList_ends (fun id _ => hgroups id) run

/-! ## The loop over the tables -/

variable {db : Flowdb}

theorem Run.matched_noted (db : Flowdb) (run : Run) (flow : FlowEntry) :
    ((run.countLookup db).note flow).matched = run.matched ++ [flow] := by
  unfold note countLookup
  split_ifs <;> rfl

theorem lt_of_dpOpenflowMatch {run : Run} {flow : FlowEntry}
    (h : dpOpenflowMatch db run = some flow) : run.matched.length < LAGOPUS_DP_PIPELINE_MAX := by
  unfold dpOpenflowMatch at h
  split_ifs at h with hlt
  exact hlt

theorem length_matched_of_round {run run' : Run} {flow : FlowEntry} {rv : Rv}
    (h : executeInstruction env ins ((run.countLookup db).note flow) = .ok (run', rv)) :
    run'.matched.length = run.matched.length + 1 := by
  rw [executeInstruction_matched env ins _ run' rv h, matched_noted, length_append, length_singleton]

/-- **The count of matches bounds the loop**: whatever the tables and the groups are. -/
theorem length_matchSequence_le (env : Env) (db : Flowdb) (fuel : Nat) (run : Run) :
    (matchSequence env db fuel run).length ≤ LAGOPUS_DP_PIPELINE_MAX - run.matched.length := by
  induction fuel generalizing run with
  | zero => simp [matchSequence]
  | succ fuel ih =>
    rw [matchSequence]
    cases hmatch : dpOpenflowMatch db run with
    | none => simp
    | some flow =>
      have hlt := lt_of_dpOpenflowMatch hmatch
      simp only [length_cons]
      split
      · rename_i run' hexec
        have hround := length_matched_of_round hexec
        have hrest := ih run'
        omega
      · simp only [length_nil]
        omega

section Ends

variable (hgroups : ∀ id run, Ends (execGroup env id run))

include hgroups

theorem matchLoop_ends (db : Flowdb) {fuel : Nat} {run : Run}
    (hfuel : LAGOPUS_DP_PIPELINE_MAX - run.matched.length < fuel) : Ends (matchLoop env db fuel run) := by
  induction fuel generalizing run with
  | zero => omega
  | succ fuel ih =>
    rw [matchLoop]
    cases hmatch : dpOpenflowMatch db run with
    | none => exact ends_ok _
    | some flow =>
      have hlt := lt_of_dpOpenflowMatch hmatch
      simp only
      split
      · rename_i run' hexec
        have hround := length_matched_of_round hexec
        exact ih (by omega)
      · exact executeInstruction_ends hgroups _ _

theorem cachedLoop_ends (flows : List FlowEntry) (run : Run) : Ends (cachedLoop env flows run) := by
  induction flows generalizing run with
  | nil => exact ends_ok _
  | cons flow flows ih => exact ends_andThen (executeInstruction_ends hgroups _ _) ih

theorem dpOpenflowDoActionSet_ends (run : Run) : Ends (dpOpenflowDoActionSet env run) := by
  unfold dpOpenflowDoActionSet
  split_ifs
  · exact executeActionSet_ends (fun _ _ id _ => hgroups id) run
  · exact ends_ok _

end Ends

/-- **One call ends** where no group leads back to itself. -/
theorem lagopusMatchAndAction_ends (hacyclic : Acyclic (Edge env.groups))
    (hfuel : env.groupFuel = env.groups.length + 2) (db : Flowdb) (cache : Flowcache) (run : Run) :
    Ends (lagopusMatchAndAction env db cache run) := by
  have hgroups : ∀ id run, Ends (execGroup env id run) := by
    intro id run
    have hterm := (terminates_of_acyclic hacyclic).execute env rfl id run
    rwa [← hfuel] at hterm
  have hset := dpOpenflowDoActionSet_ends hgroups
  have hcached : Ends (dpOpenflowDoCachedAction env cache run) := by
    unfold dpOpenflowDoCachedAction
    split
    · exact cachedLoop_ends hgroups _ _
    · exact ends_ok _
  unfold lagopusMatchAndAction
  split
  · exact ends_andThen (matchLoop_ends hgroups db (by omega)) hset
  · exact ends_andThen hcached hset

end Lagopus
