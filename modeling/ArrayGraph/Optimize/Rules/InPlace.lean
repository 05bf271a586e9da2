import ArrayGraph.Optimize.Rule

/-!
# Making nodes destructive

Each node that can safely overwrite one of its inputs is given its destructive form. Nodes are taken
in schedule order and each change is kept before the next node is looked at, so later decisions see
the earlier ones.
-/

namespace ArrayGraph.Edit

variable {α : Type} [Arithmetic α]

/-- Lets a node overwrite the first input it may overwrite. Says whether there was one. -/
def makeNodeInPlace (id : NodeId) : Edit α GraphError Bool := do
  let current ← graph
  match current.node? id with
  | none => pure false
  | some node =>
    if node.op.isDestructive || (node.op.destructiveVariant? 0).isNone then pure false
    else
      let reusable ← ofChecked (current.reusableInputs id)
      match reusable.head?.bind node.op.destructiveVariant? with
      | some variant =>
        setGraph (← ofChecked (current.replaceNodeOp id variant))
        pure true
      | none => pure false

/-- Lets every node that may overwrite an input do so. Says whether anything changed. -/
def makeInPlace : Edit α OptimizeError Bool := mapError OptimizeError.graph do
  let order ← ofChecked ((← graph).order Orderings.empty)
  order.foldlM (fun changed id => return (← makeNodeInPlace id) || changed) false

end ArrayGraph.Edit

namespace ArrayGraph.Rule

/-- Making nodes destructive as a rule. -/
def makeInPlace {α : Type} [Arithmetic α] (tags : List String) : Rule α :=
  ⟨"make_inplace", .ofList tags, .onGraph Edit.makeInPlace⟩

end ArrayGraph.Rule
