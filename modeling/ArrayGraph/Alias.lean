import ArrayGraph.Dataflow.Order

/-!
# Alias analysis

A destructive node overwrites the storage of one of its inputs. That is sound only if nobody can
see the old contents afterwards: the storage must not be protected, and every other reader of the
storage must come before the node. `validate` checks both and gives the orderings that the second
condition asks for.
-/

namespace ArrayGraph

/-- Why a graph may not be run in place. -/
inductive AliasError where
  | protectedStorage (node : NodeId) (op : String) (var root : VarId)
  /-- Someone reads the storage after it has been overwritten. -/
  | liveAlias (node : NodeId) (op : String) (var : VarId) (reader : String)
  /-- Two nodes overwrite one storage and neither depends on the other. -/
  | multipleDestroyers (first second : NodeId) (root : VarId)
  | orderingCycle
  | inPlaceNotAccepted (node : NodeId) (op : String)
deriving DecidableEq, Repr

/-- The text of an error. -/
def AliasError.message : AliasError → String
  | .protectedStorage node op var root =>
    s!"{op} (node {node.text}) would overwrite protected storage of {root.text} through {var.text}"
  | .liveAlias node op var reader =>
    s!"{op} (node {node.text}) would overwrite {var.text}, which is still read by {reader}"
  | .multipleDestroyers first second root =>
    s!"nodes {first.text} and {second.text} both overwrite the storage of {root.text}"
  | .orderingCycle => "the orderings required by destructive operations are cyclic"
  | .inPlaceNotAccepted node op =>
    s!"{op} (node {node.text}) is destructive but in-place operations were not accepted"

namespace Dataflow

variable {α : Type}

/-- The input whose storage a variable lives in, if the operation that computes it gives a view of
an input or overwrites one. -/
def storageSource? (graph : Dataflow α) (id : VarId) : Option VarId :=
  match graph.producer? id with
  | some (_, node, index) =>
    match (node.op.viewMap ++ node.op.destroyMap).lookup index with
    | some input => node.inputs[input]?
    | none => none
  | none => none

/-- Follows a variable's storage back for a number of steps. -/
def aliasRootWithin (graph : Dataflow α) : Nat → VarId → VarId
  | 0, id => id
  | steps + 1, id =>
    match graph.storageSource? id with
    | some source => graph.aliasRootWithin steps source
    | none => id

/-- The variable that owns the storage a variable lives in. A chain of views has no repetition, so
it is no longer than the list of variables. -/
def aliasRoot (graph : Dataflow α) (id : VarId) : VarId :=
  graph.aliasRootWithin graph.vars.size id

/-- Every variable in use with the owner of its storage. -/
def storageRoots (graph : Dataflow α) : List (VarId × VarId) :=
  graph.liveVars.map fun id => (id, graph.aliasRoot id)

/-- The variables in use that live in the storage of a variable. -/
def viewTree (graph : Dataflow α) (root : VarId) : List VarId :=
  (graph.storageRoots.filter fun (_, owner) => owner = root).map fun (id, _) => id

/-- Whether a variable's storage is protected whatever has been guarded: a constant, or a root that
is not a declared input. -/
def isFixed (graph : Dataflow α) (root : VarId) : Bool :=
  match (graph.var root).kind with
  | .constant _ => true
  | .shared _ | .input => root ∉ graph.inputs
  | .output _ _ => false

/-- Whether a variable's storage must not be overwritten. -/
def isProtected (graph : Dataflow α) (root : VarId) : Bool :=
  root ∈ graph.guarded || graph.isFixed root

/-- Refuses a graph with a destructive node. -/
def checkNoInPlace [Arithmetic α] (graph : Dataflow α) : Checked AliasError Unit :=
  match graph.liveNodes.find? fun (_, node) => node.op.isDestructive with
  | some (id, node) => Checked.raise (.inPlaceNotAccepted id node.op.name)
  | none => Except.ok ()

/-- The inputs that a node overwrites. -/
def overwritten (node : Node α) : List VarId :=
  node.op.destroyMap.filterMap fun (_, input) => node.inputs[input]?

/-- A destructive node with what the analysis needs to know of it. -/
structure Destroyer (α : Type) where
  id : NodeId
  node : Node α
  descendants : List NodeId
  ancestors : List NodeId

/-- Looks at one reader of a variable whose storage a node overwrites. Gives the reader if it must
come before the node, and nothing if its order does not matter. -/
def checkReader [Arithmetic α] (graph : Dataflow α) (destroyer : Destroyer α) (root member : VarId)
    (client : Client) : Checked AliasError (Option NodeId) :=
  match client with
  | .output index =>
    Checked.raise
      (.liveAlias destroyer.id destroyer.node.op.name member s!"graph output {index}")
  | .node reader _ =>
    match graph.node? reader with
    | none => Except.ok none
    | some node =>
      if reader = destroyer.id || node.op.isPureView then Except.ok none
      else if reader ∈ destroyer.descendants then
        Checked.raise (.liveAlias destroyer.id destroyer.node.op.name member
          s!"{node.op.name} (node {reader.text})")
      else if (overwritten node).any (graph.aliasRoot · = root) &&
          reader ∉ destroyer.ancestors then
        Checked.raise (.multipleDestroyers ⟨min reader.index destroyer.id.index⟩
          ⟨max reader.index destroyer.id.index⟩ root)
      else Except.ok (some reader)

/-- The variables that live in the storage of a root and exist before a node overwrites it. -/
def membersBefore (graph : Dataflow α) (destroyer : Destroyer α) (root : VarId) : List VarId :=
  (graph.viewTree root).filter fun member =>
    match graph.producerId? member with
    | some producer => producer ≠ destroyer.id && producer ∉ destroyer.descendants
    | none => true

/-- Checks that a node may overwrite a variable, and adds the orderings that this asks for. -/
def checkOverwrite [Arithmetic α] (graph : Dataflow α) (destroyer : Destroyer α)
    (orderings : Orderings) (var : VarId) : Checked AliasError Orderings := do
  let root := graph.aliasRoot var
  if graph.isProtected root then
    Checked.raise (.protectedStorage destroyer.id destroyer.node.op.name var root)
  else
    let readers := (graph.membersBefore destroyer root).flatMap fun member =>
      (graph.clients member).map fun client => (member, client)
    readers.foldlM (fun known (member, client) => do
      match ← graph.checkReader destroyer root member client with
      | some reader => Except.ok (known.insert destroyer.id reader)
      | none => Except.ok known) orderings

/-- Checks a node, and adds the orderings that it asks for. -/
def checkDestroyer [Arithmetic α] (graph : Dataflow α) (orderings : Orderings)
    (id : NodeId) (node : Node α) : Checked AliasError Orderings :=
  if node.op.isDestructive then
    let destroyer : Destroyer α :=
      ⟨id, node, graph.descendants id, graph.ancestorsOf node.inputs⟩
    (overwritten node).foldlM (graph.checkOverwrite destroyer) orderings
  else Except.ok orderings

/-- Checks every destructive node of a graph. Gives the orderings under which each of them comes
after all other readers of the storage it overwrites. -/
def validate [Arithmetic α] (graph : Dataflow α) : Checked AliasError Orderings := do
  let orderings ← graph.liveNodes.foldlM (fun known (id, node) =>
    graph.checkDestroyer known id node) Orderings.empty
  match graph.order orderings with
  | Except.ok _ => Except.ok orderings
  | Except.error _ => Checked.raise .orderingCycle

end Dataflow

end ArrayGraph
