import ArrayGraph.Optimize.Rules.Pattern

/-!
# Simplifying rules

Views and copies inside a graph serve no purpose, a sum with zero and a product with one are their
other operand, and two negations cancel. Two further rules let an operation on two equal operands
collapse to a constant, which is wrong for operands that are not numbers.
-/

namespace ArrayGraph.Rule

variable {α : Type} [Arithmetic α]

/-- The operand that is left of a binary node when the other one is uniformly a number. -/
def remainingOperand? (memory : Memory α) (graph : Dataflow α) (id : NodeId)
    (function : ScalarFunction) (identity : α) : Option (List VarId) :=
  match graph.elementwiseOperands? id function with
  | some [left, right] =>
    let first :=
      if graph.isUniformly memory right identity then graph.standsIn? id left else none
    match first with
    | some replacement => some replacement
    | none => if graph.isUniformly memory left identity then graph.standsIn? id right else none
  | _ => none

/-- A rule that drops an operand which is uniformly a number. -/
def dropOperand (name : String) (function : ScalarFunction) (identity : α) : Rule α where
  name
  tags := .ofList ["canonicalize", "fast_run", "fast_compile"]
  action := .onNode fun id => do
    let editing ← get
    pure (remainingOperand? editing.memory editing.graph id function identity)

/-- A sum with zero is its other operand. -/
def addZero : Rule α := dropOperand "add_zero" .add 0

/-- A product with one is its other operand. -/
def mulOne : Rule α := dropOperand "mul_one" .mul 1

/-- The operand under a node of one function over a node of another. -/
def nestedOperand? (graph : Dataflow α) (id : NodeId) (outer inner : ScalarFunction) :
    Option (List VarId) := do
  let operand ← (← graph.elementwiseOperands? id outer).head?
  let innermost ← (← graph.producerOperands? operand inner).head?
  graph.standsIn? id innermost

/-- Two negations cancel. -/
def negNeg : Rule α where
  name := "neg_neg"
  tags := .ofList ["canonicalize", "fast_run", "fast_compile"]
  action := .onNode fun id => do pure (nestedOperand? (← Edit.graph) id .neg .neg)

/-- A rule that lets a function of two equal operands be a constant. -/
def collapse (name : String) (function : ScalarFunction) (number : α) : Rule α where
  name
  tags := .ofList ["unsafe"]
  action := .onNode fun id => do
    let graph ← Edit.graph
    match graph.elementwiseOperands? id function with
    | some [left, right] =>
      if left = right && (graph.standsIn? id left).isSome then
        pure (some [← Edit.addNodeSingle (.fill number) [left]])
      else pure none
    | _ => pure none

/-- A difference of equal operands is zero. -/
def subSelf : Rule α := collapse "sub_self" .sub 0

/-- A quotient of equal operands is one. -/
def divSelf : Rule α := collapse "div_self" .div 1

/-- A view or a copy is its operand. -/
def removeIdentity : Rule α where
  name := "remove_identity"
  tags := .ofList ["useless", "fast_run", "fast_compile"]
  action := .onNode fun id => do
    let graph ← Edit.graph
    match graph.node? id with
    | some ⟨.view, operand :: _, _⟩ | some ⟨.copy, operand :: _, _⟩ =>
      pure (graph.standsIn? id operand)
    | _ => pure none

end ArrayGraph.Rule
