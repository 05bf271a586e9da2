import ArrayGraph.Optimize.Rule

/-!
# Merging duplicates

Constants with the same type and the same elements are one constant, and nodes that apply the same
operation to the same variables are one node. Nodes are taken in schedule order, so the operands of
a node have been merged when its turn comes. Two destructive nodes are two writes and are never
merged.
-/

namespace ArrayGraph.Edit

variable {α : Type} [Arithmetic α]

/-- Whether two constants have the same type and are represented by the same elements. -/
def sameConstant (memory : Memory α) (graph : Dataflow α) (left right : VarId) : Bool :=
  match (graph.var left).constant?, (graph.var right).constant? with
  | some first, some second =>
    graph.type left = graph.type right &&
      (memory.contents first).size = (memory.contents second).size &&
      ((memory.contents first).toList.zip (memory.contents second).toList).all fun (x, y) =>
        Arithmetic.identical x y
  | _, _ => false

/-- The constants among some variables that repeat an earlier one, each with the one it repeats. -/
def duplicateConstants (memory : Memory α) (graph : Dataflow α) :
    List VarId → List VarId → List (VarId × VarId)
  | [], _ => []
  | id :: rest, kept =>
    match (graph.var id).constant? with
    | none => duplicateConstants memory graph rest kept
    | some _ =>
      match kept.find? (sameConstant memory graph id) with
      | some survivor => (id, survivor) :: duplicateConstants memory graph rest kept
      | none => duplicateConstants memory graph rest (kept ++ [id])

/-- Merges constants. Gives how many were merged. -/
def mergeConstants : Edit α GraphError Nat := do
  let editing ← get
  let pairs := duplicateConstants editing.memory editing.graph editing.graph.liveVars []
  pairs.foldlM (fun merged pair => do
    if ← replaceValidated [pair] then pure (merged + 1) else pure merged) 0

/-- Lets a node's outputs stand for those of a duplicate, unless that would make the graph
invalid. -/
def mergeNode (duplicate survivor : NodeId) : Edit α GraphError Bool := do
  let current ← graph
  match current.node? duplicate, current.node? survivor with
  | some first, some second => replaceValidated (first.outputs.zip second.outputs)
  | _, _ => pure false

/-- Nodes that have been kept, by the variables they read. -/
abbrev Buckets := List (List VarId × List NodeId)

/-- The nodes kept under a list of variables. -/
def bucket (buckets : Buckets) (inputs : List VarId) : List NodeId :=
  (buckets.lookup inputs).getD []

/-- Keeps one more node under a list of variables. -/
def keep (buckets : Buckets) (inputs : List VarId) (id : NodeId) : Buckets :=
  (inputs, bucket buckets inputs ++ [id]) :: buckets

/-- Merges a node into one that was kept before, if there is one, and else keeps it. Also counts the
merged nodes. -/
def mergeStep (state : Nat × Buckets) (id : NodeId) : Edit α GraphError (Nat × Buckets) := do
  let (merged, buckets) := state
  let current ← graph
  match current.node? id with
  | none => pure state
  | some node =>
    if node.op.isDestructive then pure state
    else
      let survivor? := (bucket buckets node.inputs).find? fun candidate =>
        match current.node? candidate with
        | some other => other.op == node.op
        | none => false
      match survivor? with
      | some survivor =>
        if ← mergeNode id survivor then pure (merged + 1, buckets)
        else pure (merged, keep buckets node.inputs id)
      | none => pure (merged, keep buckets node.inputs id)

/-- Merges constants, then nodes. Says whether anything was merged. -/
def merge : Edit α OptimizeError Bool := mapError OptimizeError.graph do
  let constants ← mergeConstants
  let order ← ofChecked ((← graph).order Orderings.empty)
  let (merged, _) ← order.foldlM mergeStep (constants, [])
  pure (0 < merged)

end ArrayGraph.Edit

namespace ArrayGraph.Rule

/-- Merging as a rule. -/
def merge {α : Type} [Arithmetic α] (tags : List String) : Rule α :=
  ⟨"merge", .ofList tags, .onGraph Edit.merge⟩

end ArrayGraph.Rule
