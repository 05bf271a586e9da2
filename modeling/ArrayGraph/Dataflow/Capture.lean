import ArrayGraph.Dataflow.Basic

/-!
# Capturing a function's part of a symbolic graph

Constants and shared variables may be read without being declared. Any other root that an output
depends on must be a declared input.
-/

namespace ArrayGraph.Dataflow

variable {α : Type}

/-- Checks that declared inputs are roots. -/
def requireRoots (graph : Graph α) : List VarId → Checked GraphError Unit
  | [] => Except.ok ()
  | id :: rest => do
    let var ← graph.getVar id
    if var.isRoot then requireRoots graph rest else Checked.raise (.notARoot id)

/-- Walks back from the variables on a stack, the last one first, and fails at the first input that
is not declared. Each step visits another variable or drops one from the stack, so the number of
variables and reads in the graph bounds the walk. -/
def requireDeclared (graph : Graph α) (declared : List VarId) :
    Nat → List VarId → List VarId → Checked GraphError Unit
  | _, [], _ => Except.ok ()
  | 0, _ :: _, _ => Except.ok ()
  | fuel + 1, id :: stack, visited =>
    if id ∈ visited then requireDeclared graph declared fuel stack visited
    else do
      let var ← graph.getVar id
      match var.kind with
      | .input =>
        if id ∈ declared then requireDeclared graph declared fuel stack (id :: visited)
        else Checked.raise (.undeclaredInput id var.name)
      | .shared _ | .constant _ => requireDeclared graph declared fuel stack (id :: visited)
      | .output node _ => do
        let content ← graph.getNode node
        requireDeclared graph declared fuel (content.inputs.reverse ++ stack) (id :: visited)

/-- How many steps a walk over all variables and reads of a graph can take. -/
def walkLength (graph : Graph α) (start : List VarId) : Nat :=
  let widest := graph.nodes.foldl (fun most node => max most node.inputs.length) 0
  start.length + graph.vars.size * (widest + 1)

/-- Checks that every output depends on a declared input. -/
def requireConnected (graph : Dataflow α) : Nat → List VarId → Checked GraphError Unit
  | _, [] => Except.ok ()
  | index, output :: rest =>
    if graph.inputs.any (· ∈ graph.rootAncestors output) then
      requireConnected graph (index + 1) rest
    else Checked.raise (.disconnectedOutput index)

/-- The part of a symbolic graph that computes outputs from declared inputs. On request, each output
must depend on one of the inputs. -/
def capture (graph : Graph α) (inputs outputs : List VarId) (requireDependence : Bool) :
    Checked GraphError (Dataflow α) := do
  requireRoots graph inputs
  requireDeclared graph inputs (walkLength graph outputs) outputs.reverse []
  let captured := prune
    { vars := graph.vars
      nodes := graph.nodes.map some
      inputs
      outputs
      guarded := [] }
  if requireDependence then requireConnected captured 0 outputs
  Except.ok captured

end ArrayGraph.Dataflow
