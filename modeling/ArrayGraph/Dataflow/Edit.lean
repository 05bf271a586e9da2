import ArrayGraph.Dataflow.Basic

/-!
# Changing a dataflow graph

A change either gives another graph or fails, and a failed change gives none: the graph before it
is what remains. Adding a node with a wrong number of outputs is the one exception, where the node
is there although the caller gets an error.
-/

namespace ArrayGraph.Dataflow

variable {α : Type}

/-- The graph with a further constant, and the variable of that constant. -/
def addConstant (graph : Dataflow α) (value : Value) : VarId × Dataflow α :=
  (⟨graph.vars.size⟩,
    { graph with vars := graph.vars.push ⟨value.type, .constant value, none⟩ })

/-- Adds a node that applies an operation to variables of the graph. Nothing reads the new variables
yet. -/
def addNode [Arithmetic α] (graph : Dataflow α) (op : Op α) (inputs : List VarId) :
    Checked GraphError (List VarId × Dataflow α) := do
  inputs.forM (graph.requireVar ·)
  let types ← (op.inferTypes (inputs.map graph.type)).mapError GraphError.op
  let node : NodeId := ⟨graph.nodes.size⟩
  let outputs := (List.range types.length).map fun index => VarId.mk (graph.vars.size + index)
  Except.ok (outputs,
    { graph with
      vars := graph.vars ++ Graph.outputVariables node types
      nodes := graph.nodes.push (some ⟨op, inputs, outputs⟩) })

/-- Adds a node that applies an operation with one output. If the operation has another number of
outputs that is an error, but the node is added all the same. -/
def addNodeSingle [Arithmetic α] (graph : Dataflow α) (op : Op α) (inputs : List VarId) :
    Checked GraphError VarId × Dataflow α :=
  match graph.addNode op inputs with
  | Except.ok (outputs, extended) => ((Graph.single op outputs).mapError GraphError.op, extended)
  | Except.error failure => (Except.error failure, graph)

/-- Checks that a variable can stand in for another: it has the same type, and no reader of the old
variable is needed to compute the new one. -/
def checkReplacement (graph : Dataflow α) (old new : VarId) : Checked GraphError Unit := do
  graph.requireVar old
  graph.requireVar new
  if graph.type old ≠ graph.type new then
    Checked.raise (.typeMismatch old new (graph.type old) (graph.type new))
  else
    let needed := graph.ancestors new
    let cyclic := graph.liveNodes.any fun (id, node) =>
      old ∈ node.inputs && (id ∈ needed || new ∈ node.outputs)
    if cyclic then Checked.raise (.cycle old new) else Except.ok ()

/-- A list with one item in the place of another. -/
def substitute (old new : VarId) (items : List VarId) : List VarId :=
  items.map fun item => if item = old then new else item

/-- The graph in which a variable is read wherever another one was. -/
def redirect (graph : Dataflow α) (old new : VarId) : Dataflow α :=
  { graph with
    nodes := graph.nodes.map fun place =>
      place.map fun node => { node with inputs := substitute old new node.inputs }
    outputs := substitute old new graph.outputs }

/-- Lets every reader of a variable read another one, and removes what is no longer needed. -/
def replace (graph : Dataflow α) (old new : VarId) : Checked GraphError (Dataflow α) := do
  if old = new then Except.ok graph
  else
    graph.checkReplacement old new
    Except.ok (graph.redirect old new).prune

/-- Several replacements, one after the other; all of them or none. -/
def replaceAll (graph : Dataflow α) (pairs : List (VarId × VarId)) :
    Checked GraphError (Dataflow α) :=
  pairs.foldlM (fun current (old, new) => current.replace old new) graph

/-- Lets one output be another variable, and removes what is no longer needed. -/
def replaceOutput (graph : Dataflow α) (index : Nat) (new : VarId) :
    Checked GraphError (Dataflow α) := do
  let old ← Checked.orError graph.outputs[index]? (.noSuchOutput index)
  graph.requireVar new
  if graph.type old ≠ graph.type new then
    Checked.raise (.typeMismatch old new (graph.type old) (graph.type new))
  else Except.ok { graph with outputs := graph.outputs.set index new }.prune

/-- Puts another operation at a node, which must have outputs of the same types. -/
def replaceNodeOp [Arithmetic α] (graph : Dataflow α) (id : NodeId) (op : Op α) :
    Checked GraphError (Dataflow α) := do
  let node ← graph.getNode id
  let types ← (op.inferTypes (node.inputs.map graph.type)).mapError GraphError.op
  if types = node.outputs.map graph.type then
    Except.ok { graph with nodes := graph.nodes.setIfInBounds id.index (some { node with op }) }
  else Checked.raise (.opSignature node.op.name op.name)

/-- Forbids that the storage of a variable be overwritten. -/
def guard (graph : Dataflow α) (id : VarId) : Dataflow α :=
  { graph with guarded := id :: graph.guarded }

end ArrayGraph.Dataflow
