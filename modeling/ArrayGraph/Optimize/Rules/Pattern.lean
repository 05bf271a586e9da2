import ArrayGraph.Optimize.Rule

/-!
# Patterns in graphs

What local rules look for: elementwise nodes, producers of their operands, and constants that hold
one number throughout.
-/

namespace ArrayGraph

namespace Dataflow

variable {α : Type} [Arithmetic α]

/-- The number that every element of a constant is. An empty constant has none. -/
def uniformConstant? (memory : Memory α) (graph : Dataflow α) (id : VarId) : Option α :=
  match (graph.var id).constant? with
  | some value =>
    match (memory.contents value).toList with
    | first :: rest => if rest.all (· == first) then some first else none
    | [] => none
  | none => none

/-- Whether a variable is a constant all of whose elements equal a number. -/
def isUniformly (memory : Memory α) (graph : Dataflow α) (id : VarId) (number : α) : Bool :=
  match graph.uniformConstant? memory id with
  | some found => found == number
  | none => false

omit [Arithmetic α] in
/-- The operands of a node that applies a scalar function and overwrites nothing. -/
def elementwiseOperands? (graph : Dataflow α) (id : NodeId) (function : ScalarFunction) :
    Option (List VarId) :=
  match graph.node? id with
  | some ⟨.elementwise found none, inputs, _⟩ => if found = function then some inputs else none
  | _ => none

omit [Arithmetic α] in
/-- The operands of the node that computes a variable, if it applies a scalar function. -/
def producerOperands? (graph : Dataflow α) (id : VarId) (function : ScalarFunction) :
    Option (List VarId) := do
  graph.elementwiseOperands? (← graph.producerId? id) function

omit [Arithmetic α] in
/-- A variable as the replacement for a node's first output, if it has the same type. -/
def standsIn? (graph : Dataflow α) (id : NodeId) (replacement : VarId) : Option (List VarId) := do
  let node ← graph.node? id
  let output ← node.outputs.head?
  if graph.type output = graph.type replacement then some [replacement] else none

end Dataflow

namespace Edit

variable {α : Type} [Arithmetic α]

/-- Adds a node with one output and offers that output as the replacement for a node's first
output. -/
def offerNode (id : NodeId) (op : Op α) (inputs : List VarId) :
    Edit α GraphError (Option (List VarId)) := do
  let replacement ← addNodeSingle op inputs
  pure ((← graph).standsIn? id replacement)

end Edit

end ArrayGraph
