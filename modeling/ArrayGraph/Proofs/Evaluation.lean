import Mathlib.Data.List.Forall2
import ArrayGraph.Dataflow.Basic
import ArrayGraph.Proofs.Checked

/-!
# Plain evaluation

What a variable stands for, given arrays for the roots: an operation is a function of the contents of
its operands, and where results are put plays no part. `Evaluates` is the second side of the theorems
about execution and about optimization. It is a relation rather than a function, so it needs no
bound on the depth of a graph, and a variable without an array is one for which evaluation fails.

What host functions compute is a parameter, indexed by their identity.
-/

namespace ArrayGraph

variable {α : Type}

/-- What host functions compute, by their identity. -/
abbrev Meaning (α : Type) := Nat → List (Tensor α) → Checked OpError (List (Tensor α))

/-- The arrays that an operation computes. A target to overwrite makes no difference. -/
def Op.evaluate [Arithmetic α] (hosts : Meaning α) (op : Op α) (operands : List (Tensor α)) :
    Checked OpError (List (Tensor α)) :=
  match op with
  | .host function => hosts function.identity operands
  | _ => (op.compute operands).map fun result => [result]

theorem Op.evaluate_of_table [Arithmetic α] {hosts : Meaning α} {op : Op α}
    (table : ∀ function, op ≠ .host function) (operands : List (Tensor α)) :
    op.evaluate hosts operands = (op.compute operands).map fun result => [result] := by
  cases op with
  | host function => exact absurd rfl (table function)
  | _ => rfl

/-- A variable stands for an array. Which node computes a variable, if any, is a parameter. -/
inductive Evaluates [Arithmetic α] (hosts : Meaning α)
    (producer : VarId → Option (Node α × Nat)) (roots : VarId → Option (Tensor α)) :
    VarId → Tensor α → Prop
  | root {var : VarId} {tensor : Tensor α} (unproduced : producer var = none)
      (given : roots var = some tensor) : Evaluates hosts producer roots var tensor
  | output {var : VarId} {node : Node α} {index : Nat} (values : VarId → Tensor α)
      {results : List (Tensor α)} {tensor : Tensor α}
      (produced : producer var = some (node, index))
      (operands : ∀ input ∈ node.inputs, Evaluates hosts producer roots input (values input))
      (computed : node.op.evaluate hosts (node.inputs.map values) = Except.ok results)
      (selected : results[index]? = some tensor) : Evaluates hosts producer roots var tensor

section Evaluates

variable [Arithmetic α] {hosts : Meaning α} {producer : VarId → Option (Node α × Nat)}
  {roots : VarId → Option (Tensor α)} {var : VarId}

theorem Evaluates.root_iff (unproduced : producer var = none) {tensor : Tensor α} :
    Evaluates hosts producer roots var tensor ↔ roots var = some tensor := by
  constructor
  · intro evaluates
    cases evaluates with
    | root _ given => exact given
    | output _ produced => simp [unproduced] at produced
  · exact Evaluates.root unproduced

theorem Evaluates.output_iff {node : Node α} {index : Nat}
    (produced : producer var = some (node, index)) {tensor : Tensor α} :
    Evaluates hosts producer roots var tensor ↔
      ∃ values results, (∀ input ∈ node.inputs, Evaluates hosts producer roots input (values input)) ∧
        node.op.evaluate hosts (node.inputs.map values) = Except.ok results ∧
        results[index]? = some tensor := by
  constructor
  · intro evaluates
    cases evaluates with
    | root unproduced => simp [produced] at unproduced
    | output values produced' operands computed selected =>
      rw [produced] at produced'
      cases produced'
      exact ⟨values, _, operands, computed, selected⟩
  · rintro ⟨values, results, operands, computed, selected⟩
    exact Evaluates.output values produced operands computed selected

/-- A variable stands for one array at most. -/
theorem Evaluates.unique {first second : Tensor α}
    (left : Evaluates hosts producer roots var first)
    (right : Evaluates hosts producer roots var second) : first = second := by
  induction left generalizing second with
  | root unproduced given =>
    rw [Evaluates.root_iff unproduced, given] at right
    exact Option.some.inj right
  | output values produced _ computed selected ih =>
    rcases (Evaluates.output_iff produced).mp right with
      ⟨values', results', operands', computed', selected'⟩
    have same : ∀ input ∈ _, values input = values' input :=
      fun input member => ih input member (operands' input member)
    rw [← List.map_congr_left same, computed] at computed'
    cases computed'
    rw [selected] at selected'
    exact Option.some.inj selected'

theorem Evaluates.unique_list {vars : List VarId} {first second : List (Tensor α)}
    (left : List.Forall₂ (Evaluates hosts producer roots) vars first)
    (right : List.Forall₂ (Evaluates hosts producer roots) vars second) : first = second :=
  List.right_unique_forall₂' (fun _ _ _ evaluates evaluates' => evaluates.unique evaluates') left
    right

/-- Further roots make no difference to what a variable stands for. -/
theorem Evaluates.mono {roots' : VarId → Option (Tensor α)}
    (included : ∀ var tensor, roots var = some tensor → roots' var = some tensor) {tensor : Tensor α}
    (evaluates : Evaluates hosts producer roots var tensor) :
    Evaluates hosts producer roots' var tensor := by
  induction evaluates with
  | root unproduced given => exact .root unproduced (included _ _ given)
  | output values produced _ computed selected ih => exact .output values produced ih computed selected

/-- Arrays for a list of variables, as a function of the variables. -/
theorem Evaluates.exists_values {vars : List VarId} {tensors : List (Tensor α)}
    (evaluate : List.Forall₂ (Evaluates hosts producer roots) vars tensors) :
    ∃ values, (∀ var ∈ vars, Evaluates hosts producer roots var (values var)) ∧
      vars.map values = tensors := by
  induction evaluate with
  | nil => exact ⟨fun _ => ⟨.bool, [], #[]⟩, by simp, rfl⟩
  | @cons head tensor rest tensors first _ ih =>
    rcases ih with ⟨values, evaluate, rfl⟩
    refine ⟨fun var => if var = head then tensor else values var, ?_, ?_⟩
    · intro var member
      by_cases same : var = head
      · simpa [same] using first
      · simpa [same] using evaluate var (by simpa [same] using member)
    · rw [List.map_cons, if_pos rfl]
      congr 1
      apply List.map_congr_left
      intro var member
      by_cases same : var = head
      · rw [if_pos same]
        exact first.unique (same ▸ evaluate var member)
      · rw [if_neg same]

/-- A variable that a node computes, with the arrays of the node's inputs in a list. -/
theorem Evaluates.output_iff_forall₂ {node : Node α} {index : Nat}
    (produced : producer var = some (node, index)) {tensor : Tensor α} :
    Evaluates hosts producer roots var tensor ↔
      ∃ operands results, List.Forall₂ (Evaluates hosts producer roots) node.inputs operands ∧
        node.op.evaluate hosts operands = Except.ok results ∧ results[index]? = some tensor := by
  rw [Evaluates.output_iff produced]
  constructor
  · rintro ⟨values, results, evaluate, computed, selected⟩
    refine ⟨node.inputs.map values, results, ?_, computed, selected⟩
    rw [List.forall₂_map_right_iff, List.forall₂_same]
    exact evaluate
  · rintro ⟨operands, results, evaluate, computed, selected⟩
    rcases exists_values evaluate with ⟨values, each, rfl⟩
    exact ⟨values, results, each, computed, selected⟩

/-- What a graph computes is computed by another one, in which variables may have other names. The
producers of a variable in both graphs have operations that compute the same from corresponding
inputs, unless the variable is known to stand for the same array for another reason. -/
theorem Evaluates.simulate {producer' : VarId → Option (Node α × Nat)}
    {roots' : VarId → Option (Tensor α)} (relevant : VarId → Prop) (rename : VarId → VarId)
    (root : ∀ var, relevant var → producer var = none → ∀ tensor, roots var = some tensor →
      Evaluates hosts producer' roots' (rename var) tensor)
    (output : ∀ var node index, relevant var → producer var = some (node, index) →
      (∀ tensor, Evaluates hosts producer roots var tensor →
        Evaluates hosts producer' roots' (rename var) tensor) ∨
      (∀ input ∈ node.inputs, relevant input) ∧ ∃ node',
        producer' (rename var) = some (node', index) ∧ node'.inputs = node.inputs.map rename ∧
        ∀ operands results, node.op.evaluate hosts operands = Except.ok results →
          node'.op.evaluate hosts operands = Except.ok results)
    {tensor : Tensor α} (relevantVar : relevant var)
    (evaluates : Evaluates hosts producer roots var tensor) :
    Evaluates hosts producer' roots' (rename var) tensor := by
  induction evaluates with
  | root unproduced given => exact root _ relevantVar unproduced _ given
  | @output var node index values results tensor produced operands computed selected ih =>
    rcases output var node index relevantVar produced with known | ⟨inputs, node', produced', same, agree⟩
    · exact known tensor (Evaluates.output values produced operands computed selected)
    · rw [Evaluates.output_iff_forall₂ produced', same]
      refine ⟨node.inputs.map values, results, ?_, agree _ _ computed, selected⟩
      rw [List.forall₂_map_left_iff, List.forall₂_map_right_iff, List.forall₂_same]
      exact fun input member => ih input member (inputs input member)

/-- Two graphs agree on a variable if they agree on what it is computed from. -/
theorem Evaluates.congr_iff {producer' : VarId → Option (Node α × Nat)}
    {roots' : VarId → Option (Tensor α)} (relevant : VarId → Prop)
    (same : ∀ var, relevant var → producer' var = producer var ∧ roots' var = roots var)
    (inputs : ∀ var node index, relevant var → producer var = some (node, index) →
      ∀ input ∈ node.inputs, relevant input)
    (relevantVar : relevant var) {tensor : Tensor α} :
    Evaluates hosts producer' roots' var tensor ↔ Evaluates hosts producer roots var tensor := by
  constructor
  · refine Evaluates.simulate relevant id ?_ ?_ relevantVar
    · intro var relevantVar unproduced tensor given
      rcases same var relevantVar with ⟨sameProducer, sameRoot⟩
      exact .root (sameProducer ▸ unproduced) (sameRoot ▸ given)
    · intro var node index relevantVar produced
      rw [(same var relevantVar).1] at produced
      exact Or.inr ⟨inputs var node index relevantVar produced, node, produced, by simp,
        fun _ _ computed => computed⟩
  · refine Evaluates.simulate relevant id ?_ ?_ relevantVar
    · intro var relevantVar unproduced tensor given
      rcases same var relevantVar with ⟨sameProducer, sameRoot⟩
      exact .root (sameProducer.trans unproduced) (sameRoot.trans given)
    · intro var node index relevantVar produced
      exact Or.inr ⟨inputs var node index relevantVar produced, node,
        (same var relevantVar).1.trans produced, by simp, fun _ _ computed => computed⟩

end Evaluates

namespace Dataflow

variable [Arithmetic α] (graph : Dataflow α) (hosts : Meaning α)
  (roots : VarId → Option (Tensor α))

/-- The live node that computes a variable, apart from its identifier. -/
def producerNode? (var : VarId) : Option (Node α × Nat) := (graph.producer? var).map (·.2)

/-- A variable of a dataflow graph stands for an array. -/
abbrev Evaluates : VarId → Tensor α → Prop := ArrayGraph.Evaluates hosts graph.producerNode? roots

/-- A live node can be evaluated, whether or not anyone reads its outputs. -/
def NodeEvaluates (node : Node α) : Prop :=
  ∃ values results, (∀ input ∈ node.inputs, graph.Evaluates hosts roots input (values input)) ∧
    node.op.evaluate hosts (node.inputs.map values) = Except.ok results

/-- Every live node can be evaluated. -/
def AllEvaluate : Prop := ∀ id node, graph.node? id = some node → graph.NodeEvaluates hosts roots node

variable {graph}

variable {hosts roots} in
theorem AllEvaluate.mono {roots' : VarId → Option (Tensor α)} (all : graph.AllEvaluate hosts roots)
    (included : ∀ var tensor, roots var = some tensor → roots' var = some tensor) :
    graph.AllEvaluate hosts roots' := by
  intro id node live
  rcases all id node live with ⟨values, results, evaluate, computed⟩
  exact ⟨values, results, fun input member => (evaluate input member).mono included, computed⟩

variable {hosts roots} in
theorem nodeEvaluates_iff_forall₂ {node : Node α} : graph.NodeEvaluates hosts roots node ↔
    ∃ operands results, List.Forall₂ (graph.Evaluates hosts roots) node.inputs operands ∧
      node.op.evaluate hosts operands = Except.ok results := by
  constructor
  · rintro ⟨values, results, evaluate, computed⟩
    refine ⟨node.inputs.map values, results, ?_, computed⟩
    rw [List.forall₂_map_right_iff, List.forall₂_same]
    exact evaluate
  · rintro ⟨operands, results, evaluate, computed⟩
    rcases Evaluates.exists_values evaluate with ⟨values, each, rfl⟩
    exact ⟨values, results, each, computed⟩

omit [Arithmetic α] in
theorem producerNode?_eq_none {var : VarId} :
    graph.producerNode? var = none ↔ graph.producer? var = none := by simp [producerNode?]

omit [Arithmetic α] in
theorem producerNode?_eq_some {var : VarId} {node : Node α} {index : Nat} :
    graph.producerNode? var = some (node, index) ↔
      ∃ id, graph.producer? var = some (id, node, index) := by
  simp only [producerNode?, Option.map_eq_some_iff, Prod.exists]
  constructor
  · rintro ⟨id, content, position, found, same⟩
    cases same
    exact ⟨id, found⟩
  · rintro ⟨id, found⟩
    exact ⟨id, node, index, found, rfl⟩

end Dataflow

end ArrayGraph
