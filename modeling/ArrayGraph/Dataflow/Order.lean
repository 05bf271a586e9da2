import ArrayGraph.Dataflow.Basic

/-!
# Ordering the nodes of a dataflow graph

A node comes after the nodes it reads from, and after those that extra orderings put before it. The
order is the one of a depth-first search: nodes are taken by rising identifier, the nodes that must
come before a node are visited by falling identifier, and a node is appended once they all are.
-/

namespace ArrayGraph

/-- Extra constraints on the order of nodes: for some nodes, the nodes that must come before them.
Nodes and predecessors stand in the order of their identifiers. -/
structure Orderings where
  entries : List (NodeId × List NodeId)
deriving DecidableEq, Repr, Inhabited

namespace Orderings

/-- No constraints. -/
def empty : Orderings := ⟨[]⟩

/-- The nodes that must come before a node. -/
def before (orderings : Orderings) (node : NodeId) : List NodeId :=
  (orderings.entries.lookup node).getD []

/-- A list with an identifier at its place by rising index, unless it is there already. -/
def insertSorted (id : NodeId) : List NodeId → List NodeId
  | [] => [id]
  | head :: rest =>
    if id = head then head :: rest
    else if id.index < head.index then id :: head :: rest
    else head :: insertSorted id rest

/-- Entries with another list of predecessors for a node. -/
def setEntry (node : NodeId) (predecessors : List NodeId) :
    List (NodeId × List NodeId) → List (NodeId × List NodeId)
  | [] => [(node, predecessors)]
  | (head, listed) :: rest =>
    if node = head then (node, predecessors) :: rest
    else if node.index < head.index then (node, predecessors) :: (head, listed) :: rest
    else (head, listed) :: setEntry node predecessors rest

/-- The constraints with one more: `earlier` must come before `node`. -/
def insert (orderings : Orderings) (node earlier : NodeId) : Orderings :=
  ⟨setEntry node (insertSorted earlier (orderings.before node)) orderings.entries⟩

theorem mem_insertSorted {id other : NodeId} {sorted : List NodeId} :
    other ∈ insertSorted id sorted ↔ other = id ∨ other ∈ sorted := by
  induction sorted with
  | nil => simp [insertSorted]
  | cons head rest ih =>
    simp only [insertSorted]
    split
    · next same => simp [same]
    · split
      · simp
      · simp only [List.mem_cons, ih]
        exact or_left_comm

/-- The constraints in a list of nodes with their predecessors. A node's last entry counts. -/
def ofList (entries : List (NodeId × List NodeId)) : Orderings :=
  entries.foldl (fun orderings (node, predecessors) =>
    ⟨setEntry node (predecessors.foldl (fun sorted id => insertSorted id sorted) [])
      orderings.entries⟩) empty

end Orderings

namespace Dataflow

variable {α : Type}

/-- The live nodes that must come before a node, by falling identifier. -/
def dependencies (graph : Dataflow α) (orderings : Orderings) (id : NodeId) : List NodeId :=
  let required := graph.sources id ++ (orderings.before id).filter graph.isLive
  (graph.sortNodes required).reverse

/-- Appends a node to a list of nodes that are done, after everything that must come before it. The
nodes on the path are under way; meeting one of them again closes a cycle, for which there is no
answer. Paths have no repetition, so the number of nodes bounds their length. -/
def visit (dependencies : NodeId → List NodeId) :
    Nat → List NodeId → List NodeId → NodeId → Option (List NodeId)
  | 0, _, _, _ => none
  | fuel + 1, path, done, node =>
    if node ∈ done then some done
    else if node ∈ path then none
    else do
      let before ← (dependencies node).foldlM (visit dependencies fuel (node :: path)) done
      some (before ++ [node])

/-- Checks that the constraints on live nodes speak of nodes of the graph. -/
def checkOrderings (graph : Dataflow α) (orderings : Orderings) : Checked GraphError Unit :=
  graph.liveNodes.forM fun (id, _) => (orderings.before id).forM (graph.requireNode ·)

/-- The live nodes in an order in which every node comes after those it reads from and after those
that the constraints put before it. -/
def order (graph : Dataflow α) (orderings : Orderings) : Checked GraphError (List NodeId) := do
  graph.checkOrderings orderings
  let live := graph.liveNodes.map fun (id, _) => id
  let sorted := live.foldlM
    (visit (graph.dependencies orderings) (graph.nodes.size + 1) []) []
  Checked.orError sorted .cyclicSchedule

end Dataflow

end ArrayGraph
