import ArrayGraph.Dataflow.Order

/-!
# Text of a dataflow graph

A first line with the inputs and their types, a line for each node in schedule order, and a last
line with the outputs. Scalar constants show their number, named variables their name.
-/

namespace ArrayGraph.Dataflow

variable {α : Type} [Arithmetic α]

/-- The text of a variable. -/
def varText (memory : Memory α) (graph : Dataflow α) (id : VarId) : String :=
  let var := graph.var id
  match var.kind with
  | .constant value =>
    match value.shape, value.item? memory with
    | [], some number => Arithmetic.write number
    | _, _ => s!"const%{id.index}"
  | _ => var.name.getD s!"%{id.index}"

/-- The text of a list of variables. -/
def varsText (memory : Memory α) (graph : Dataflow α) (ids : List VarId) : String :=
  Text.commaSeparated (ids.map (graph.varText memory))

/-- The line of a node. -/
def nodeLine (memory : Memory α) (graph : Dataflow α) (node : Node α) : String :=
  s!"  {graph.varsText memory node.outputs} = {node.op.name}({graph.varsText memory node.inputs})\n"

/-- The text of a graph. A graph without a schedule shows its nodes by rising identifier. -/
def text (memory : Memory α) (graph : Dataflow α) : String :=
  let inputs := graph.inputs.map fun id => s!"{graph.varText memory id}: {(graph.type id).text}"
  let listed : List NodeId := match graph.order Orderings.empty with
    | Except.ok order => order
    | Except.error _ => graph.liveNodes.map fun (id, _) => id
  "inputs: " ++ Text.commaSeparated inputs ++ "\n" ++
    String.join ((listed.filterMap graph.node?).map (graph.nodeLine memory)) ++
    "outputs: " ++ graph.varsText memory graph.outputs

end ArrayGraph.Dataflow
