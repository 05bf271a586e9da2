import ArrayGraph.Alias
import ArrayGraph.Dataflow.Edit

/-!
# Reuse of storage and sharing contracts

Two questions about storage are settled here. Which inputs may a node overwrite? Those for which
the graph stays valid with the destructive form of the node in its place. And which outputs need a
copy of their own? Those that would hand out storage that the caller did not agree to share.
-/

namespace ArrayGraph

/-- Whether a node may overwrite one of its inputs. -/
inductive Liveness where
  /-- Only this node still needs the storage. -/
  | unique
  /-- The storage is needed after the node, for the reason given. -/
  | needed (reason : AliasError)
  /-- The node has no form that writes its output there. -/
  | incompatible
deriving DecidableEq, Repr

/-- What a caller agrees to for a declared input. -/
structure InputContract where
  var : VarId
  /-- Outputs may share the argument's storage. -/
  borrow : Bool
  /-- The input is a shared container that the function updates. -/
  updated : Bool
deriving DecidableEq, Repr

/-- What a caller agrees to for an output. -/
structure OutputContract where
  /-- The output may share the storage of something else. -/
  borrow : Bool
  /-- The input that the output is written back to, for an update. -/
  updateOf : Option VarId
deriving DecidableEq, Repr

namespace Dataflow

variable {α : Type} [Arithmetic α]

/-- Whether a node may overwrite its input at a position: its destructive form is tried. -/
def inputLivenessAt (graph : Dataflow α) (id : NodeId) (node : Node α) (position : Nat) :
    Checked GraphError Liveness :=
  let candidates := node.op.reuseCandidates (node.inputs.map graph.type)
    (node.outputs.map graph.type)
  match node.op.destructiveVariant? position with
  | none => Except.ok .incompatible
  | some variant =>
    if position ∈ candidates then do
      let trial ← graph.replaceNodeOp id variant
      match trial.validate with
      | Except.ok _ => Except.ok .unique
      | Except.error (Failure.error reason) => Except.ok (.needed reason)
      | Except.error (Failure.fault broken) => Checked.abort broken
    else Except.ok .incompatible

/-- Whether a node may overwrite its inputs, one by one. -/
def inputLiveness (graph : Dataflow α) (id : NodeId) : Checked GraphError (List Liveness) := do
  let node ← graph.getNode id
  (List.range node.inputs.length).mapM (graph.inputLivenessAt id node)

/-- The positions of the inputs that a node may overwrite. -/
def reusableInputs (graph : Dataflow α) (id : NodeId) : Checked GraphError (List Nat) := do
  let liveness ← graph.inputLiveness id
  Except.ok (positions liveness .unique)

/-- Puts a view or a copy between an output and what computes it. -/
def wrapOutput (graph : Dataflow α) (index : Nat) (view : Bool) :
    Checked GraphError (Dataflow α) := do
  let output ← Checked.orError graph.outputs[index]? (.noSuchOutput index)
  let (wrapped, extended) := graph.addNodeSingle (if view then .view else .copy) [output]
  extended.replaceOutput index (← wrapped)

/-- The owners of all storage that nodes overwrite. -/
def destroyedRoots (graph : Dataflow α) : List VarId :=
  graph.liveNodes.flatMap fun (_, node) => (overwritten node).map graph.aliasRoot

/-- The owner of the storage of an output. -/
def outputRoot? (graph : Dataflow α) (index : Nat) : Option VarId :=
  graph.outputs[index]?.map graph.aliasRoot

/-- How an output is to be protected: by a view, by a copy, or not at all. -/
def protection? (graph : Dataflow α) (destroyed : List VarId) (inputs : List InputContract)
    (outputs : List OutputContract) (index : Nat) (contract : OutputContract) (root : VarId) :
    Option Bool :=
  let later := (outputs.zipIdx.drop (index + 1)).find? fun (_, position) =>
    graph.outputRoot? position = some root
  match later with
  | some (other, _) => some (contract.borrow && other.borrow)
  | none =>
    match contract.updateOf with
    | some target => if root ≠ target && (graph.var root).isRoot then some false else none
    | none =>
      match (graph.var root).kind with
      | .output _ _ => none
      | .shared _ => some false
      | .constant _ => some contract.borrow
      | .input =>
        match inputs.find? (·.var = root) with
        | some input =>
          if input.updated || root ∈ destroyed then none
          else some (input.borrow && contract.borrow)
        | none => some false

/-- Protects the outputs from a position on. Also counts the outputs that were wrapped. -/
def protectFrom (destroyed : List VarId) (inputs : List InputContract)
    (outputs : List OutputContract) :
    List (OutputContract × Nat) → Nat × Dataflow α → Checked GraphError (Nat × Dataflow α)
  | [], result => Except.ok result
  | (contract, index) :: rest, (count, graph) => do
    let root ← Checked.orError (graph.outputRoot? index) (.noSuchOutput index)
    match graph.protection? destroyed inputs outputs index contract root with
    | some view =>
      let wrapped ← graph.wrapOutput index view
      protectFrom destroyed inputs outputs rest (count + 1, wrapped)
    | none => protectFrom destroyed inputs outputs rest (count, graph)

/-- Puts a view or a copy before every output that would hand out storage it has no contract for:
that of another output, an input, a constant or a container. There must be one contract for each
output. Gives the number of outputs that were wrapped and the graph. -/
def protectOutputs (graph : Dataflow α) (inputs : List InputContract)
    (outputs : List OutputContract) : Checked GraphError (Nat × Dataflow α) :=
  if outputs.length = graph.outputs.length then
    protectFrom graph.destroyedRoots inputs outputs outputs.zipIdx (0, graph)
  else Checked.abort .contractCount

end Dataflow

end ArrayGraph
