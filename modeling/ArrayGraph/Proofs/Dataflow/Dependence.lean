import ArrayGraph.Proofs.Dataflow.Basic

/-!
# What a variable depends on

Dependence is one relation, whichever way a traversal follows it. A variable depends on itself and on
the inputs of the nodes that compute what it depends on. The nodes it is computed from are the
producers of these variables, and its roots are those among them that no live node computes.
-/

namespace ArrayGraph.Dataflow

open Relation

variable {α : Type} {graph : Dataflow α} {id : NodeId} {var operand root : VarId}

/-- A variable is another one, or is computed from it in some steps. -/
def DependsOn (graph : Dataflow α) : VarId → VarId → Prop := ReflTransGen (Leads graph.operands)

theorem mem_operands : operand ∈ graph.operands var ↔
    ∃ id node index, graph.producer? var = some (id, node, index) ∧ operand ∈ node.inputs := by
  unfold operands
  cases graph.producer? var with
  | none => simp
  | some entry =>
    rcases entry with ⟨id, node, index⟩
    simp

/-- The nodes that a variable is computed from are the producers of what it depends on. -/
theorem computedFrom_iff : graph.ComputedFrom var id ↔
    ∃ target, graph.DependsOn var target ∧ graph.producerId? target = some id := by
  constructor
  · rintro ⟨producer, produced, path⟩
    induction path with
    | refl => exact ⟨var, ReflTransGen.refl, produced⟩
    | tail _ reads ih =>
      rcases ih with ⟨target, depends, targetProduced⟩
      rcases readsFrom_iff.mp reads with ⟨node, live, input, inputMem, inputProduced⟩
      rcases producerId?_eq_some.mp targetProduced with ⟨content, index, found⟩
      cases live.symm.trans (producer?_eq_some.mp found).2
      exact ⟨input, depends.tail (mem_operands.mpr ⟨_, node, index, found, inputMem⟩),
        inputProduced⟩
  · rintro ⟨target, depends, produced⟩
    induction depends using ReflTransGen.head_induction_on with
    | refl => exact ⟨id, produced, ReflTransGen.refl⟩
    | head leads _ ih =>
      rcases ih with ⟨source, sourceProduced, path⟩
      rcases mem_operands.mp leads with ⟨reader, node, index, found, inputMem⟩
      refine ⟨reader, producerId?_eq_some.mpr ⟨node, index, found⟩, ReflTransGen.head ?_ path⟩
      exact readsFrom_iff.mpr
        ⟨node, (producer?_eq_some.mp found).2, _, inputMem, sourceProduced⟩

/-- The search for the roots of a variable finds all that it depends on and no node computes. -/
theorem WellFormed.mem_rootAncestors_iff [Arithmetic α] (wellFormed : graph.WellFormed)
    (known : var.index < graph.vars.size) : root ∈ graph.rootAncestors var ↔
      graph.DependsOn var root ∧ graph.producerId? root = none := by
  have within : ∀ origin, ∀ target ∈ graph.operands origin, target ∈ graph.varIds := by
    intro origin target member
    rcases mem_operands.mp member with ⟨id, node, index, found, input⟩
    have live := (producer?_eq_some.mp found).2
    exact mem_varIds.mpr (wellFormed.read_known target (Or.inr ⟨id, node, live, input⟩))
  have startWithin : ∀ origin ∈ [var], origin ∈ graph.varIds := by
    intro origin member
    rw [List.mem_singleton.mp member]
    exact mem_varIds.mpr known
  have enough : graph.varIds.length ≤ graph.vars.size := by simp [varIds]
  simp only [rootAncestors, List.mem_filter, Bool.and_eq_true, decide_eq_true_eq,
    mem_closure_iff within startWithin enough, List.mem_singleton, exists_eq_left,
    Option.isNone_iff_eq_none]
  refine and_iff_right_of_imp ?_
  rintro ⟨path, _⟩
  rcases ReflTransGen.cases_tail path with rfl | ⟨_, _, leads⟩
  · exact mem_varIds.mpr known
  · exact within _ _ leads

end ArrayGraph.Dataflow
