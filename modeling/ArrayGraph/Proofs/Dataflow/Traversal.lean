import ArrayGraph.Proofs.Worklist
import ArrayGraph.Proofs.Dataflow.Dependence
import ArrayGraph.Proofs.Dataflow.Edit

/-!
# Traversals and the relation they follow

Ancestors are found by going from a variable to its producer and on to the inputs of that, descendants
by going from a node to the readers of its outputs, and roots by going from a variable to what it is
computed from. Each can be found by a search with a stack: the first notes the nodes it meets, the
second the readers, the third the variables. None of them asks whether the graph is acyclic, and none
needs to. However the reads lead back to where they came from, each stack is empty after a number of
rounds that the reads in the graph bound, and what has been met is what the traversal answers.

All three describe one relation between nodes, so ancestors and descendants mirror each other.
-/

namespace ArrayGraph.Dataflow

open Relation

variable {α : Type} {graph : Dataflow α} {id reader : NodeId} {node : Node α} {var root : VarId}

/-- What a node reads, if it is live. -/
def nodeInputs (graph : Dataflow α) (id : NodeId) : List VarId :=
  ((graph.node? id).map (·.inputs)).getD []

/-- What a node computes, if it is live. -/
def nodeOutputs (graph : Dataflow α) (id : NodeId) : List VarId :=
  ((graph.node? id).map (·.outputs)).getD []

/-- The nodes among the clients of a variable. -/
def readers (graph : Dataflow α) (var : VarId) : List NodeId :=
  (graph.clients var).filterMap fun client =>
    match client with
    | .node reader _ => some reader
    | .output _ => none

/-- From a variable to its producer, and on to what that reads. -/
def upward (graph : Dataflow α) : Walk VarId NodeId where
  points var := (graph.producerId? var).toList
  behind := graph.nodeInputs

/-- From a variable to its readers, and on to what these compute. -/
def downward (graph : Dataflow α) : Walk VarId NodeId where
  points := graph.readers
  behind := graph.nodeOutputs

/-- From a variable to itself, and on to what it is computed from. -/
def backward (graph : Dataflow α) : Walk VarId VarId where
  points var := [var]
  behind := graph.operands

theorem mem_readers : reader ∈ graph.readers var ↔
    ∃ node, graph.node? reader = some node ∧ var ∈ node.inputs := by
  simp only [readers, clients, List.filterMap_append, List.mem_append, List.mem_filterMap,
    List.mem_flatMap, List.mem_map, Prod.exists, mem_liveNodes, mem_positions]
  constructor
  · rintro (⟨client, ⟨other, node, live, position, found, rfl⟩, same⟩ | ⟨client, ⟨position, _, rfl⟩, same⟩)
    · cases same
      exact ⟨node, live, List.mem_of_getElem? found⟩
    · cases same
  · rintro ⟨node, live, member⟩
    rcases List.mem_iff_getElem?.mp member with ⟨position, found⟩
    exact Or.inl ⟨_, ⟨reader, node, live, position, found, rfl⟩, rfl⟩

theorem upward_next (id : NodeId) : graph.upward.next id = graph.sources id := by
  simp only [Walk.next, upward, nodeInputs, sources]
  cases graph.node? id with
  | none => rfl
  | some node => exact (List.filterMap_eq_flatMap_toList _ _).symm

theorem mem_downward_next : reader ∈ graph.downward.next id ↔ reader ∈ graph.consumers id := by
  simp only [Walk.next, downward, nodeOutputs, List.mem_flatMap, mem_readers, consumers]
  cases graph.node? id with
  | none => simp
  | some node =>
    simp only [Option.map_some, Option.getD_some, List.mem_filterMap, Prod.exists, mem_liveNodes,
      List.any_eq_true, decide_eq_true_eq, Option.ite_none_right_eq_some, Option.some.injEq]
    constructor
    · rintro ⟨output, listed, content, live, read⟩
      exact ⟨reader, content, live, ⟨output, read, listed⟩, rfl⟩
    · rintro ⟨other, content, live, ⟨output, read, listed⟩, rfl⟩
      exact ⟨output, listed, content, live, read⟩

theorem backward_next (var : VarId) : graph.backward.next var = graph.operands var := by
  simp [Walk.next, backward]

section Reached

theorem upward_reaches_iff : graph.upward.Reaches [var] id ↔ graph.ComputedFrom var id := by
  have steps : Leads graph.upward.next = graph.ReadsFrom := by
    funext reader source
    rw [Leads, upward_next, ReadsFrom]
  rw [Walk.Reaches, steps]
  simp [ComputedFrom, upward]

/-- What is found from the outputs of a node on is what descends from it. -/
theorem WellFormed.downward_reaches_iff [Arithmetic α] (wellFormed : graph.WellFormed) :
    graph.downward.Reaches (graph.nodeOutputs id) reader ↔ reader ∈ graph.descendants id := by
  have steps : Leads graph.downward.next = Function.swap graph.ReadsFrom := by
    funext source reader
    rw [Leads, mem_downward_next]
    exact propext wellFormed.mem_consumers_iff
  rw [wellFormed.mem_descendants_iff, ← transGen_swap, ← steps, TransGen.head'_iff]
  rfl

theorem backward_reaches_iff : graph.backward.Reaches [var] root ↔ graph.DependsOn var root := by
  have steps : Leads graph.backward.next = Leads graph.operands := by
    funext var operand
    rw [Leads, backward_next, Leads]
  rw [Walk.Reaches, steps]
  simp [DependsOn, backward]

end Reached

section Bounded

theorem mem_nodeIds_of_isLive (live : graph.isLive id) : id ∈ graph.nodeIds := by
  rcases isLive_iff.mp live with ⟨node, found⟩
  exact mem_nodeIds.mpr (lt_size_of_node? found)

theorem upward_bounded (id : NodeId) (reads : graph.upward.behind id ≠ []) : id ∈ graph.nodeIds := by
  refine mem_nodeIds_of_isLive ?_
  cases found : graph.node? id with
  | none => simp [upward, nodeInputs, found] at reads
  | some node => simp [isLive, found]

theorem downward_bounded (id : NodeId) (computes : graph.downward.behind id ≠ []) :
    id ∈ graph.nodeIds := by
  refine mem_nodeIds_of_isLive ?_
  cases found : graph.node? id with
  | none => simp [downward, nodeOutputs, found] at computes
  | some node => simp [isLive, found]

theorem backward_bounded (var : VarId) (depends : graph.backward.behind var ≠ []) :
    var ∈ graph.varIds := by
  rcases List.exists_mem_of_ne_nil _ depends with ⟨operand, member⟩
  rcases mem_operands.mp member with ⟨id, node, index, produced, _⟩
  exact mem_varIds.mpr (known_of_kind (producer?_eq_some.mp produced).1)

end Bounded

/-- A node that descends from another depends on it through one of its inputs. -/
theorem WellFormed.mem_descendants_iff_ancestors [Arithmetic α] (wellFormed : graph.WellFormed)
    (live : graph.node? reader = some node) :
    reader ∈ graph.descendants id ↔ ∃ input ∈ node.inputs, id ∈ graph.ancestors input := by
  rw [wellFormed.mem_descendants_iff, TransGen.head'_iff]
  simp only [mem_ancestors, ComputedFrom]
  constructor
  · rintro ⟨source, reads, path⟩
    rcases readsFrom_iff.mp reads with ⟨content, found, input, member, produced⟩
    rw [live] at found
    cases found
    exact ⟨input, member, source, produced, path⟩
  · rintro ⟨input, member, source, produced, path⟩
    exact ⟨source, readsFrom_iff.mpr ⟨node, live, input, member, produced⟩, path⟩

/-- The traversals of a well-formed graph, which may have cycles, are exact. Ancestors are the live
nodes that a variable is computed from, descendants are their mirror image, and root ancestors are the
variables without a live producer that a variable is or depends on. Each of them is what a search with
a stack finds, and the search comes to an end. -/
theorem traversals_exact [Arithmetic α] (wellFormed : graph.WellFormed) :
    (∀ var id, id ∈ graph.ancestors var ↔ graph.ComputedFrom var id) ∧
    (∀ id reader node, graph.node? reader = some node →
      (reader ∈ graph.descendants id ↔ ∃ input ∈ node.inputs, id ∈ graph.ancestors input)) ∧
    (∀ var root, var.index < graph.vars.size → (root ∈ graph.rootAncestors var ↔
      graph.DependsOn var root ∧ graph.producerId? root = none)) ∧
    (∀ var, graph.upward.Finds graph.nodeIds [var] fun id => id ∈ graph.ancestors var) ∧
    (∀ id, graph.downward.Finds graph.nodeIds (graph.nodeOutputs id) fun reader =>
      reader ∈ graph.descendants id) ∧
    ∀ var, graph.backward.Finds graph.varIds [var] (graph.DependsOn var) := by
  refine ⟨fun var id => mem_ancestors, fun id reader node => wellFormed.mem_descendants_iff_ancestors,
    fun var root known => wellFormed.mem_rootAncestors_iff known, ?_, ?_, ?_⟩
  · intro var rounds enough
    rcases Walk.finds_reached upward_bounded rounds enough with ⟨empty, met⟩
    exact ⟨empty, fun id => (met id).trans (upward_reaches_iff.trans mem_ancestors.symm)⟩
  · intro id rounds enough
    rcases Walk.finds_reached downward_bounded rounds enough with ⟨empty, met⟩
    exact ⟨empty, fun reader => (met reader).trans wellFormed.downward_reaches_iff⟩
  · intro var rounds enough
    rcases Walk.finds_reached backward_bounded rounds enough with ⟨empty, met⟩
    exact ⟨empty, fun root => (met root).trans backward_reaches_iff⟩

/-- Two nodes that read from each other, beside an input. -/
def mutualSums : Dataflow Float where
  vars := #[⟨ArrayType.ofRank .float64 1, .input, some "x"⟩,
    ⟨ArrayType.ofRank .float64 1, .output ⟨0⟩ 0, none⟩,
    ⟨ArrayType.ofRank .float64 1, .output ⟨1⟩ 0, none⟩]
  nodes := #[some ⟨.elementwise .add none, [⟨0⟩, ⟨2⟩], [⟨1⟩]⟩,
    some ⟨.elementwise .add none, [⟨1⟩, ⟨0⟩], [⟨2⟩]⟩]
  inputs := [⟨0⟩]
  outputs := [⟨2⟩]
  guarded := []

/-- The search for the ancestors of an output that depends on itself ends after five rounds, and a node
descends from itself. -/
theorem traversals_exact_mutualSums : mutualSums.WellFormed ∧ ¬mutualSums.Acyclic ∧
    (mutualSums.upward.run 5 [⟨2⟩]).stack = [] ∧
    (∀ id, id ∈ (mutualSums.upward.run 5 [⟨2⟩]).met ↔ id ∈ mutualSums.ancestors ⟨2⟩) ∧
    ⟨0⟩ ∈ mutualSums.descendants ⟨0⟩ ∧ ∀ root, root ∈ mutualSums.rootAncestors ⟨2⟩ ↔
      mutualSums.DependsOn ⟨2⟩ root ∧ mutualSums.producerId? root = none := by
  have wellFormed : mutualSums.WellFormed := by decide
  rcases traversals_exact wellFormed with ⟨_, mirrored, roots, upward, _, _⟩
  rcases upward ⟨2⟩ 5 (by decide) with ⟨empty, met⟩
  have descends : ⟨0⟩ ∈ mutualSums.descendants ⟨0⟩ :=
    (mirrored ⟨0⟩ ⟨0⟩ _ rfl).mpr ⟨⟨2⟩, by decide, by decide⟩
  refine ⟨wellFormed, ?_, empty, met, descends, fun root => roots ⟨2⟩ root (by decide)⟩
  exact fun acyclic => acyclic ⟨0⟩ (wellFormed.mem_descendants_iff.mp descends)

end ArrayGraph.Dataflow
