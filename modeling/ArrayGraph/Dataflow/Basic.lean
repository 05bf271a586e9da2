import ArrayGraph.Closure
import ArrayGraph.Dataflow.Error

/-!
# Dataflow graphs

A dataflow graph is what a function is compiled from: the variables and nodes of a symbolic graph
with a list of declared inputs and a list of outputs. A node can be removed, which leaves its place
empty, and identifiers are never used twice. A removed node produces nothing, so everything that
follows edges goes through live nodes only.
-/

namespace ArrayGraph

/-- Who reads a variable. -/
inductive Client where
  /-- An input position of a node. -/
  | node (id : NodeId) (position : Nat)
  /-- A position in the list of outputs. -/
  | output (index : Nat)
deriving DecidableEq, Repr

/-- A graph with declared inputs and outputs. -/
structure Dataflow (α : Type) where
  vars : Array Variable
  /-- The nodes; a removed one leaves an empty place. -/
  nodes : Array (Option (Node α))
  inputs : List VarId
  outputs : List VarId
  /-- Variables whose storage must not be overwritten. -/
  guarded : List VarId

namespace Dataflow

variable {α ε : Type}

/-- The variable with an identifier. Identifiers of a graph always have one. -/
def var (graph : Dataflow α) (id : VarId) : Variable :=
  graph.vars[id.index]?.getD default

/-- The type of a variable. -/
def type (graph : Dataflow α) (id : VarId) : ArrayType := (graph.var id).type

/-- The node with an identifier, unless it has been removed. -/
def node? (graph : Dataflow α) (id : NodeId) : Option (Node α) :=
  graph.nodes[id.index]?.join

/-- Whether a node is in the graph. -/
def isLive (graph : Dataflow α) (id : NodeId) : Bool := (graph.node? id).isSome

/-- Checks that an identifier is one of a variable of the graph. -/
def requireVar (graph : Dataflow α) (id : VarId) : Checked ε Unit :=
  if id.index < graph.vars.size then Except.ok ()
  else Checked.abort (.noSuchVariable id.index)

/-- Checks that an identifier is one of a node of the graph, live or removed. -/
def requireNode (graph : Dataflow α) (id : NodeId) : Checked ε Unit :=
  if id.index < graph.nodes.size then Except.ok () else Checked.abort (.noSuchNode id.index)

/-- The node with an identifier; it is an error if the node has been removed. -/
def getNode (graph : Dataflow α) (id : NodeId) : Checked GraphError (Node α) := do
  graph.requireNode id
  Checked.orError (graph.node? id) (.removedNode id)

/-- The identifiers of all nodes, removed ones included. -/
def nodeIds (graph : Dataflow α) : List NodeId := (List.range graph.nodes.size).map NodeId.mk

/-- The identifiers of all variables. -/
def varIds (graph : Dataflow α) : List VarId := (List.range graph.vars.size).map VarId.mk

/-- The nodes that have not been removed, with their identifiers. -/
def liveNodes (graph : Dataflow α) : List (NodeId × Node α) :=
  graph.nodeIds.filterMap fun id => (graph.node? id).map fun node => (id, node)

/-- Whether some node overwrites an input. -/
def hasDestroyers (graph : Dataflow α) : Bool :=
  graph.liveNodes.any fun (_, node) => node.op.isDestructive

/-- The live node that computes a variable, and which of its outputs the variable is. -/
def producer? (graph : Dataflow α) (id : VarId) : Option (NodeId × Node α × Nat) :=
  match (graph.var id).producer? with
  | some (node, index) => (graph.node? node).map fun content => (node, content, index)
  | none => none

/-- The identifier of the live node that computes a variable. -/
def producerId? (graph : Dataflow α) (id : VarId) : Option NodeId :=
  (graph.producer? id).map (·.1)

/-- The variables in use: inputs, outputs, and what live nodes read and compute. -/
def liveVars (graph : Dataflow α) : List VarId :=
  let used := graph.inputs ++ graph.outputs ++
    graph.liveNodes.flatMap fun (_, node) => node.inputs ++ node.outputs
  graph.varIds.filter (· ∈ used)

/-- The positions in a list at which an item stands. -/
def positions {κ : Type} [DecidableEq κ] (items : List κ) (item : κ) : List Nat :=
  items.zipIdx.filterMap fun (other, position) => if other = item then some position else none

/-- The readers of a variable: input positions of nodes first, then outputs. -/
def clients (graph : Dataflow α) (id : VarId) : List Client :=
  (graph.liveNodes.flatMap fun (reader, node) =>
    (positions node.inputs id).map (Client.node reader)) ++
  (positions graph.outputs id).map Client.output

/-- The live nodes that a node reads from. -/
def sources (graph : Dataflow α) (id : NodeId) : List NodeId :=
  match graph.node? id with
  | some node => node.inputs.filterMap graph.producerId?
  | none => []

/-- The live nodes that read from a node. -/
def consumers (graph : Dataflow α) (id : NodeId) : List NodeId :=
  match graph.node? id with
  | some node =>
    graph.liveNodes.filterMap fun (reader, content) =>
      if content.inputs.any (· ∈ node.outputs) then some reader else none
  | none => []

/-- The nodes in a list, in the order of their identifiers. -/
def sortNodes (graph : Dataflow α) (nodes : List NodeId) : List NodeId :=
  graph.nodeIds.filter (· ∈ nodes)

/-- The nodes that a list of variables depends on, the producers of the variables included. -/
def ancestorsOf (graph : Dataflow α) (vars : List VarId) : List NodeId :=
  graph.sortNodes
    (closure graph.sources graph.nodes.size (vars.filterMap graph.producerId?))

/-- The nodes that a variable depends on, its producer included. -/
def ancestors (graph : Dataflow α) (id : VarId) : List NodeId := graph.ancestorsOf [id]

/-- The nodes that depend on a node. -/
def descendants (graph : Dataflow α) (id : NodeId) : List NodeId :=
  graph.sortNodes (closure graph.consumers graph.nodes.size (graph.consumers id))

/-- The variables that a variable is computed from in one step. -/
def operands (graph : Dataflow α) (id : VarId) : List VarId :=
  match graph.producer? id with
  | some (_, node, _) => node.inputs
  | none => []

/-- The variables without a live producer that a variable is or depends on. -/
def rootAncestors (graph : Dataflow α) (id : VarId) : List VarId :=
  let reached := closure graph.operands graph.vars.size [id]
  graph.varIds.filter fun candidate =>
    candidate ∈ reached && (graph.producerId? candidate).isNone

/-- The graph without the nodes that no output depends on. -/
def prune (graph : Dataflow α) : Dataflow α :=
  let reachable := graph.ancestorsOf graph.outputs
  { graph with
    nodes := graph.nodes.mapIdx fun index place =>
      if NodeId.mk index ∈ reachable then place else none }

end Dataflow

end ArrayGraph
