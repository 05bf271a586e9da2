import ArrayGraph.Graph

/-!
# Errors of dataflow graphs
-/

namespace ArrayGraph

/-- Why a graph could not be captured, changed or ordered. -/
inductive GraphError where
  /-- An output depends on an input that was not declared. -/
  | undeclaredInput (var : VarId) (name : Option String)
  | disconnectedOutput (index : Nat)
  /-- A declared input is computed by a node. -/
  | notARoot (var : VarId)
  | typeMismatch (old new : VarId) (oldType newType : ArrayType)
  /-- A replacement would make a node depend on itself. -/
  | cycle (old new : VarId)
  /-- No order of the nodes meets all constraints. -/
  | cyclicSchedule
  | removedNode (node : NodeId)
  /-- Another operation at a node would have outputs of other types. -/
  | opSignature (old new : String)
  | noSuchOutput (index : Nat)
  | op (cause : OpError)
deriving DecidableEq, Repr

/-- The text of an error. -/
def GraphError.message : GraphError → String
  | .undeclaredInput var name =>
    let known := match name with
      | some text => s!" ({Text.quoted text})"
      | none => ""
    s!"variable {var.text}{known} is required to compute the outputs " ++
      "but was not declared as an input"
  | .disconnectedOutput index => s!"output {index} does not depend on any declared input"
  | .notARoot var => s!"declared input {var.text} is computed by the graph and cannot be an input"
  | .typeMismatch old new oldType newType =>
    s!"cannot replace {old.text} of type {oldType.text} with {new.text} of type {newType.text}"
  | .cycle old new => s!"replacing {old.text} with {new.text} would create a cycle"
  | .cyclicSchedule => "the graph and its ordering constraints are cyclic"
  | .removedNode node => s!"node {node.text} has been removed from the graph"
  | .opSignature old new => s!"op {new} does not produce the same outputs as {old}"
  | .noSuchOutput index => s!"the graph has no output {index}"
  | .op cause => cause.message

end ArrayGraph
