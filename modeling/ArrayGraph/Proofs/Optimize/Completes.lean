import Mathlib.Algebra.GroupWithZero.Nat
import ArrayGraph.Proofs.Optimize.Total

/-!
# Optimization completes

Optimization with the standard database succeeds on every graph that is ready, for every query and
budget, and the graph is valid at the end of every iteration of every stage.
-/

namespace ArrayGraph

variable {α : Type} [Arithmetic α]

namespace Edit

open Dataflow

section Iterations

variable {rules : List (Rule α)} {stages : List (Stage α × List (Rule α))} {budget : Option Nat}
  {before after : Editing α}

/-- What a stage with a number of iterations left has changed a graph to, after each of them. -/
def iterations (rules : List (Rule α)) : Nat → Editing α → List (Editing α)
  | 0, _ => []
  | left + 1, before =>
    match iterate rules before with
    | .ok 0 after => [after]
    | .ok _ after => after :: iterations rules left after
    | .error _ _ => []

/-- What stages have changed a graph to, after each of their iterations. -/
def checkpoints (budget : Option Nat) :
    List (Stage α × List (Rule α)) → OptimizeReport → Editing α → List (Editing α)
  | [], _, _ => []
  | (stage, rules) :: rest, report, before =>
    iterations rules (stageBudget stage.kind budget) before ++
      match runStage budget report stage rules before with
      | .ok next after => checkpoints budget rest next after
      | .error _ _ => []

/-- The graph in the last of some states, or a graph where there is none. -/
def lastGraph (states : List (Editing α)) (graph : Dataflow α) : Dataflow α :=
  (states.getLast?.map (·.graph)).getD graph

omit [Arithmetic α] in
theorem lastGraph_append (front back : List (Editing α)) (graph : Dataflow α) :
    lastGraph (front ++ back) graph = lastGraph back (lastGraph front graph) := by
  simp only [lastGraph, List.getLast?_append]
  cases back.getLast? <;> rfl

theorem valid_of_mem_iterations (total : ∀ rule ∈ rules, rule.Total) {left : Nat}
    (ready : before.graph.Ready) : ∀ state ∈ iterations rules left before, state.graph.Valid := by
  induction left generalizing before with
  | zero => simp [iterations]
  | succ left ih =>
    intro state member
    have ends := total_iterate total before ready
    unfold iterations at member
    split at member
    · rename_i after ran
      rw [List.mem_singleton.mp member]
      exact (ends.of_ok ran).valid
    · rename_i after ran
      rcases List.mem_cons.mp member with rfl | later
      · exact (ends.of_ok ran).valid
      · exact ih (ends.of_ok ran) state later
    · cases member

/-- Iterations are counted, and the last of them is where they end. -/
theorem repeatRules_eq_ok {left counted applied : Nat} {outcome : Nat × Nat × Bool}
    (ran : repeatRules rules left counted applied before = .ok outcome after) :
    outcome.1 = counted + (iterations rules left before).length ∧
      after.graph = lastGraph (iterations rules left before) before.graph := by
  induction left generalizing counted applied before with
  | zero =>
    simp only [repeatRules, pure_eq_ok_iff] at ran
    rcases ran with ⟨rfl, rfl⟩
    exact ⟨rfl, rfl⟩
  | succ left ih =>
    simp only [repeatRules, bind_eq_ok_iff] at ran
    rcases ran with ⟨count, middle, iterated, ran⟩
    cases count with
    | zero =>
      simp only [if_true, pure_eq_ok_iff] at ran
      rcases ran with ⟨rfl, rfl⟩
      simp [iterations, iterated, lastGraph]
    | succ count =>
      rw [if_neg (Nat.succ_ne_zero count)] at ran
      rcases ih ran with ⟨total, last⟩
      have more : iterations rules (left + 1) before = [middle] ++ iterations rules left middle := by
        simp [iterations, iterated]
      rw [more, lastGraph_append, List.length_append]
      exact ⟨by simp only [List.length_singleton]; omega, last⟩

omit [Arithmetic α] in
theorem logAll_keeps {level : LogLevel} {texts : List String} {value : PUnit}
    (ran : (forIn texts PUnit.unit fun text _ => do
      log level text
      pure (ForInStep.yield PUnit.unit) : Edit α OptimizeError PUnit) before = .ok value after) :
    after.graph = before.graph := by
  induction texts generalizing before with
  | nil =>
    cases ran
    rfl
  | cons text rest ih =>
    simp only [List.forIn_cons, bind_assoc, pure_bind] at ran
    rcases bind_eq_ok_iff.mp ran with ⟨_, middle, logged, ran⟩
    have kept : middle.graph = before.graph := by
      cases logged
      rfl
    exact (ih ran).trans kept

/-- A stage adds one entry to the report. -/
theorem runStage_eq_ok {report next : OptimizeReport} {stage : Stage α}
    (ran : runStage budget report stage rules before = .ok next after) :
    (∃ entry, next.stages = report.stages ++ [entry] ∧
      entry.iterations = (iterations rules (stageBudget stage.kind budget) before).length) ∧
    after.graph = lastGraph (iterations rules (stageBudget stage.kind budget) before) before.graph := by
  simp only [runStage] at ran
  rcases bind_eq_ok_iff.mp ran with ⟨⟨counted, applied, settled⟩, middle, repeated, ran⟩
  rcases repeatRules_eq_ok repeated with ⟨count, last⟩
  rcases bind_eq_ok_iff.mp ran with ⟨_, later, logged, ran⟩
  have kept : after.graph = later.graph ∧ next.stages = report.stages ++
      [⟨stage.name, counted, applied, settled || decide (stage.kind = .once)⟩] := by
    split at ran
    · rcases bind_eq_ok_iff.mp ran with ⟨_, final, checked, ran⟩
      simp only [discard, Functor.discard, Functor.mapConst] at checked
      rcases bind_eq_ok_iff.mp checked with ⟨_, same, validated, checked⟩
      cases (checkValid_eq_ok_iff.mp validated).2
      cases checked
      cases ran
      exact ⟨rfl, rfl⟩
    · cases ran
      exact ⟨rfl, rfl⟩
  refine ⟨⟨_, kept.2, ?_⟩, ?_⟩
  · simpa using count
  · rw [kept.1, logAll_keeps logged, last]

/-- Stages end where their last iteration does, and report as many iterations as there are. -/
theorem runStages_eq_ok {report final : OptimizeReport}
    (ran : (stages.foldlM (fun report (stage, rules) => runStage budget report stage rules) report :
      Edit α OptimizeError OptimizeReport) before = .ok final after) :
    (final.stages.map (·.iterations)).sum =
        (report.stages.map (·.iterations)).sum + (checkpoints budget stages report before).length ∧
      after.graph = lastGraph (checkpoints budget stages report before) before.graph := by
  induction stages generalizing report before with
  | nil =>
    cases ran
    exact ⟨rfl, rfl⟩
  | cons entry rest ih =>
    rcases entry with ⟨stage, rules⟩
    simp only [List.foldlM_cons, bind_eq_ok_iff] at ran
    rcases ran with ⟨next, middle, staged, ran⟩
    rcases runStage_eq_ok staged with ⟨⟨entry, stages, count⟩, last⟩
    rcases ih ran with ⟨total, final⟩
    simp only [checkpoints, staged, lastGraph_append, ← last, List.length_append, ← count]
    refine ⟨?_, final⟩
    rw [total, stages]
    simp [Nat.add_assoc]

theorem valid_of_mem_checkpoints (total : ∀ entry ∈ stages, ∀ rule ∈ entry.2, rule.Total)
    {report : OptimizeReport} (ready : before.graph.Ready) :
    ∀ state ∈ checkpoints budget stages report before, state.graph.Valid := by
  induction stages generalizing report before with
  | nil => simp [checkpoints]
  | cons entry rest ih =>
    rcases entry with ⟨stage, rules⟩
    have stageTotal := total (stage, rules) List.mem_cons_self
    intro state member
    rcases List.mem_append.mp member with here | later
    · exact valid_of_mem_iterations stageTotal ready state here
    · have ends := total_runStage stageTotal budget report stage before ready
      split at later
      · rename_i next after ran
        exact ih (fun entry member => total entry (List.mem_cons_of_mem _ member)) (ends.of_ok ran)
          state later
      · cases later

end Iterations

/-- An optimization that succeeds. The orderings it gives are those of the graph it ends with, the
graph is valid after every iteration, and the iterations are those that it reports. -/
def Completes (database : Database α) (query : Query) (budget : Option Nat) (before : Editing α) :
    Prop :=
  ∃ report orderings after,
    optimize database query budget before = .ok (report, orderings) after ∧
    after.graph.validate = Except.ok orderings ∧
    let passed := checkpoints budget (database.select query) ⟨[], []⟩ before
    (∀ state ∈ passed, ∃ orderings, state.graph.validate = Except.ok orderings) ∧
      (report.stages.map (·.iterations)).sum = passed.length ∧
      after.graph = lastGraph passed before.graph

theorem completes_of_total {database : Database α} {query : Query} (budget : Option Nat)
    {before : Editing α}
    (total : ∀ entry ∈ database.select query, ∀ rule ∈ entry.2, rule.Total)
    (ready : before.graph.Ready) : Completes database query budget before := by
  let staging : Edit α OptimizeError OptimizeReport := (database.select query).foldlM
    (fun report (stage, rules) => runStage budget report stage rules) ⟨[], []⟩
  have staged : Total staging := total_foldlM
    (fun report entry member => total_runStage (total entry member) budget report entry.1) _
  cases ran : staging before with
  | error failure after => exact ((staged before ready).of_error ran).elim
  | ok report after =>
    rcases ((staged before ready).of_ok ran).valid with ⟨orderings, validated⟩
    rcases runStages_eq_ok ran with ⟨count, last⟩
    refine ⟨report, orderings, after, ?_, validated, valid_of_mem_checkpoints total ready, ?_, last⟩
    · refine (bind_of_ok ran).trans ?_
      exact (bind_of_ok (checkValid_of_validate validated)).trans rfl
    · simpa using count

end Edit

namespace Dataflow

theorem ready_of_capture {source : Graph α} {graph : Dataflow α} {inputs outputs : List VarId}
    {requireDependence : Bool} (built : source.Built)
    (captured : capture source inputs outputs requireDependence = Except.ok graph)
    (free : graph.hasDestroyers = false) : graph.Ready := by
  have formed := formed_of_capture built captured
  refine ⟨formed, ?_, ?_⟩
  · rw [(capture_eq_ok captured).1]
    exact pruned_prune
  · exact formed.valid_of_not_hasDestroyers (acyclic_of_capture built captured) free

/-- Optimization with the standard database completes on every graph that is well formed, pruned and
valid, and so on what is captured from a symbolic graph that overwrites nothing. -/
theorem optimize_completes (query : Query) (budget : Option Nat) (before : Editing α)
    (starts : before.graph.Ready ∨ before.graph.hasDestroyers = false ∧
      ∃ source inputs outputs requireDependence, Graph.Built source ∧
        capture source inputs outputs requireDependence = Except.ok before.graph) :
    Edit.Completes Database.standard query budget before := by
  apply Edit.completes_of_total budget Rule.total_of_standard
  rcases starts with ready | ⟨free, source, inputs, outputs, _, built, captured⟩
  · exact ready
  · exact ready_of_capture built captured free

/-- A graph with a destructive node to begin with. -/
theorem optimize_completes_negatedAfterSum : negatedAfterSum.Ready ∧
    Edit.Completes Database.standard (Query.none.including ["fast_run"]) none
      ⟨negatedAfterSum, ⟨#[], #[]⟩, []⟩ := by
  have pruned : negatedAfterSum.prune = negatedAfterSum := rfl
  have ready : negatedAfterSum.Ready :=
    ⟨by decide, pruned ▸ pruned_prune, ⟨[(⟨1⟩, [⟨0⟩])]⟩, rfl⟩
  exact ⟨ready, optimize_completes _ none _ (Or.inl ready)⟩

end Dataflow

end ArrayGraph
