import Mathlib.Data.List.Nodup
import ArrayGraph.Dataflow.Basic
import ArrayGraph.Proofs.Reachability

/-!
# Nodes, variables and dependence in a dataflow graph

The traversals of a dataflow graph are list functions over identifiers. This file says what they
contain in terms of one relation, `ReadsFrom`: a live node reads a variable that another live node
computes. A node descends from another if a chain of such reads leads from the one to the other.

A graph is well formed if its live nodes and the variables they compute point at each other, every
identifier in use is one of the graph, and the types of outputs are those that the operations
infer. This is what every graph has that was captured from a symbolic graph and edited since.
-/

namespace ArrayGraph

namespace Dataflow

open Relation

variable {α : Type} {graph : Dataflow α} {id : NodeId} {node : Node α} {var : VarId}

/-- The identifiers of the nodes that have not been removed. -/
def liveIds (graph : Dataflow α) : List NodeId := graph.liveNodes.map fun (id, _) => id

theorem lt_size_of_node? (live : graph.node? id = some node) : id.index < graph.nodes.size := by
  unfold node? at live
  by_contra outside
  rw [Array.getElem?_eq_none (by omega)] at live
  simp at live

theorem mem_nodeIds : id ∈ graph.nodeIds ↔ id.index < graph.nodes.size := by
  simp only [nodeIds, List.mem_map, List.mem_range]
  constructor
  · rintro ⟨index, known, rfl⟩
    exact known
  · intro known
    exact ⟨id.index, known, rfl⟩

@[simp]
theorem length_nodeIds : graph.nodeIds.length = graph.nodes.size := by simp [nodeIds]

theorem nodup_nodeIds : graph.nodeIds.Nodup := by
  apply List.nodup_range.map
  intro left right same
  exact NodeId.mk.inj same

theorem mem_varIds : var ∈ graph.varIds ↔ var.index < graph.vars.size := by
  simp only [varIds, List.mem_map, List.mem_range]
  constructor
  · rintro ⟨index, known, rfl⟩
    exact known
  · intro known
    exact ⟨var.index, known, rfl⟩

theorem mem_liveNodes : (id, node) ∈ graph.liveNodes ↔ graph.node? id = some node := by
  simp only [liveNodes, List.mem_filterMap, Option.map_eq_some_iff, Prod.mk.injEq]
  constructor
  · rintro ⟨other, _, content, live, rfl, rfl⟩
    exact live
  · intro live
    exact ⟨id, mem_nodeIds.mpr (lt_size_of_node? live), node, live, rfl, rfl⟩

theorem hasDestroyers_eq_false_iff : graph.hasDestroyers = false ↔
    ∀ id node, graph.node? id = some node → node.op.isDestructive = false := by
  simp [hasDestroyers, List.any_eq_false, mem_liveNodes]

theorem mem_liveIds : id ∈ graph.liveIds ↔ ∃ node, graph.node? id = some node := by
  simp only [liveIds, List.mem_map, Prod.exists]
  constructor
  · rintro ⟨other, node, live, rfl⟩
    exact ⟨node, mem_liveNodes.mp live⟩
  · rintro ⟨node, live⟩
    exact ⟨id, node, mem_liveNodes.mpr live, rfl⟩

theorem isLive_iff : graph.isLive id ↔ ∃ node, graph.node? id = some node := by
  simp [isLive, Option.isSome_iff_exists]

theorem liveIds_eq : graph.liveIds = graph.nodeIds.filter graph.isLive := by
  unfold liveIds liveNodes
  rw [List.map_filterMap, ← List.filterMap_eq_filter]
  apply List.filterMap_congr
  intro other _
  cases found : graph.node? other <;> simp [isLive, found, Option.guard]

theorem nodup_liveIds : graph.liveIds.Nodup := by
  rw [liveIds_eq]
  exact nodup_nodeIds.filter _

theorem mem_sortNodes {nodes : List NodeId} :
    id ∈ graph.sortNodes nodes ↔ id.index < graph.nodes.size ∧ id ∈ nodes := by
  simp [sortNodes, mem_nodeIds]

theorem mem_positions {κ : Type} [DecidableEq κ] {items : List κ} {item : κ} {index : Nat} :
    index ∈ positions items item ↔ items[index]? = some item := by
  simp [positions, List.mk_mem_zipIdx_iff_getElem?]

theorem producer?_eq_some {index : Nat} :
    graph.producer? var = some (id, node, index) ↔
      (graph.var var).kind = .output id index ∧ graph.node? id = some node := by
  unfold producer? Variable.producer?
  cases kind : (graph.var var).kind <;> simp
  rename_i other position
  constructor
  · rintro ⟨live, rfl, rfl⟩
    exact ⟨⟨rfl, rfl⟩, live⟩
  · rintro ⟨⟨rfl, rfl⟩, live⟩
    exact ⟨live, rfl, rfl⟩

theorem producerId?_eq_some :
    graph.producerId? var = some id ↔ ∃ node index, graph.producer? var = some (id, node, index) := by
  unfold producerId?
  cases graph.producer? var with
  | none => simp
  | some found =>
    rcases found with ⟨other, content, index⟩
    simp

theorem producerId?_eq_none : graph.producerId? var = none ↔ graph.producer? var = none := by
  simp [producerId?]

theorem producer?_eq_none_of_kind
    (kind : ∀ id index, (graph.var var).kind ≠ .output id index) : graph.producer? var = none := by
  cases found : graph.producer? var with
  | none => rfl
  | some entry =>
    rcases entry with ⟨id, node, index⟩
    exact absurd (producer?_eq_some.mp found).1 (kind id index)

theorem live_of_producerId? (produced : graph.producerId? var = some id) :
    ∃ node, graph.node? id = some node := by
  rcases producerId?_eq_some.mp produced with ⟨node, index, found⟩
  exact ⟨node, (producer?_eq_some.mp found).2⟩

/-- A live node reads a variable that another live node computes. -/
def ReadsFrom (graph : Dataflow α) (reader source : NodeId) : Prop := source ∈ graph.sources reader

theorem readsFrom_iff {reader source : NodeId} :
    graph.ReadsFrom reader source ↔
      ∃ node, graph.node? reader = some node ∧
        ∃ input ∈ node.inputs, graph.producerId? input = some source := by
  unfold ReadsFrom sources
  cases graph.node? reader <;> simp

theorem ReadsFrom.live_reader {reader source : NodeId} (reads : graph.ReadsFrom reader source) :
    ∃ node, graph.node? reader = some node := by
  rcases readsFrom_iff.mp reads with ⟨node, live, _⟩
  exact ⟨node, live⟩

theorem ReadsFrom.live_source {reader source : NodeId} (reads : graph.ReadsFrom reader source) :
    ∃ node, graph.node? source = some node := by
  rcases readsFrom_iff.mp reads with ⟨_, _, input, _, produced⟩
  exact live_of_producerId? produced

/-- No node depends on itself. -/
def Acyclic (graph : Dataflow α) : Prop := ∀ id, ¬TransGen graph.ReadsFrom id id

/-- The node that computes a variable is another one or descends from it. -/
def ComputedFrom (graph : Dataflow α) (var : VarId) (origin : NodeId) : Prop :=
  ∃ producer, graph.producerId? var = some producer ∧ ReflTransGen graph.ReadsFrom producer origin

theorem ComputedFrom.live (computed : graph.ComputedFrom var id) :
    ∃ node, graph.node? id = some node := by
  rcases computed with ⟨producer, produced, path⟩
  rcases ReflTransGen.cases_tail path with rfl | ⟨_, _, reads⟩
  · exact live_of_producerId? produced
  · exact reads.live_source

/-- The variables that are read: by live nodes or as outputs. -/
def IsRead (graph : Dataflow α) (var : VarId) : Prop :=
  var ∈ graph.outputs ∨ ∃ id node, graph.node? id = some node ∧ var ∈ node.inputs

/-- What every captured graph has, whatever edits it has gone through. -/
structure WellFormed [Arithmetic α] (graph : Dataflow α) : Prop where
  /-- The outputs of a live node are variables that name the node and their position. -/
  output_known : ∀ id node, graph.node? id = some node → ∀ index var,
    node.outputs[index]? = some var →
      var.index < graph.vars.size ∧ (graph.var var).kind = .output id index
  /-- A variable that names a live node is its output. -/
  output_listed : ∀ var id index node, var.index < graph.vars.size →
    (graph.var var).kind = .output id index → graph.node? id = some node →
      node.outputs[index]? = some var
  /-- Declared inputs are variables of the graph that no node computes. -/
  input_root : ∀ var ∈ graph.inputs,
    var.index < graph.vars.size ∧ ∀ id index, (graph.var var).kind ≠ .output id index
  read_known : ∀ var, graph.IsRead var → var.index < graph.vars.size
  /-- The outputs of a live node have the types that its operation infers. -/
  typed : ∀ id node, graph.node? id = some node →
    node.op.inferTypes (node.inputs.map graph.type) = Except.ok (node.outputs.map graph.type)

/-- Everything that is read is a declared input, a constant, a shared variable or an output of a live
node. -/
def Closed (graph : Dataflow α) : Prop := ∀ var, graph.IsRead var → var ∈ graph.inputs ∨
  (∃ value, (graph.var var).kind = .constant value) ∨
  (∃ container, (graph.var var).kind = .shared container) ∨
  ∃ id, graph.producerId? var = some id

section Testing

/-- The variables that are read, as a list. -/
def readVars (graph : Dataflow α) : List VarId :=
  graph.outputs ++ graph.liveNodes.flatMap fun (_, node) => node.inputs

theorem mem_readVars : var ∈ graph.readVars ↔ graph.IsRead var := by
  simp [readVars, IsRead, mem_liveNodes]

/-- Whether the node that a variable names, if it is live, has the variable as its output. -/
def isListed (graph : Dataflow α) (var : VarId) : Bool :=
  match graph.producer? var with
  | some (_, node, index) => node.outputs[index]? = some var
  | none => true

theorem isListed_iff : graph.isListed var ↔ ∀ id index node, (graph.var var).kind = .output id index →
    graph.node? id = some node → node.outputs[index]? = some var := by
  unfold isListed
  cases found : graph.producer? var with
  | none =>
    simp only [true_iff]
    intro id index node kind live
    rw [producer?_eq_some.mpr ⟨kind, live⟩] at found
    cases found
  | some entry =>
    rcases entry with ⟨id, node, index⟩
    rcases producer?_eq_some.mp found with ⟨kind, live⟩
    simp only [decide_eq_true_eq]
    constructor
    · intro same id' index' node' kind' live'
      rw [kind] at kind'
      cases kind'
      rw [live] at live'
      cases live'
      exact same
    · intro all
      exact all id index node kind live

theorem isRoot_iff : (graph.var var).isRoot ↔
    ∀ id index, (graph.var var).kind ≠ .output id index := by
  unfold Variable.isRoot Variable.producer?
  cases (graph.var var).kind <;> simp

/-- Whether a graph is well formed can be found out by going through its nodes and variables. -/
theorem wellFormed_iff [Arithmetic α] : graph.WellFormed ↔
    (∀ entry ∈ graph.liveNodes, (∀ output ∈ entry.2.outputs.zipIdx,
      output.1.index < graph.vars.size ∧ (graph.var output.1).kind = .output entry.1 output.2) ∧
      entry.2.op.inferTypes (entry.2.inputs.map graph.type) =
        Except.ok (entry.2.outputs.map graph.type)) ∧
    (∀ var ∈ graph.varIds, graph.isListed var) ∧
    (∀ var ∈ graph.inputs, var.index < graph.vars.size ∧ (graph.var var).isRoot) ∧
    ∀ var ∈ graph.readVars, var.index < graph.vars.size := by
  simp only [mem_varIds, mem_readVars, isListed_iff, isRoot_iff, Prod.forall, mem_liveNodes,
    List.mk_mem_zipIdx_iff_getElem?]
  constructor
  · intro wellFormed
    exact ⟨fun id node live => ⟨fun var index => wellFormed.output_known id node live index var,
        wellFormed.typed id node live⟩,
      fun var known id index node => wellFormed.output_listed var id index node known,
      wellFormed.input_root, wellFormed.read_known⟩
  · rintro ⟨nodes, vars, inputs, reads⟩
    exact ⟨fun id node live index var => (nodes id node live).1 var index,
      fun var id index node known => vars var known id index node, inputs, reads,
      fun id node live => (nodes id node live).2⟩

instance [Arithmetic α] : Decidable graph.WellFormed := decidable_of_iff' _ wellFormed_iff

theorem closed_iff : graph.Closed ↔ ∀ var ∈ graph.readVars, var ∈ graph.inputs ∨
    (graph.var var).constant?.isSome ∨ (graph.var var).container?.isSome ∨
      (graph.producerId? var).isSome := by
  simp only [Closed, mem_readVars, Variable.constant?, Variable.container?,
    Option.isSome_iff_exists]
  refine forall₂_congr fun var _ => or_congr_right ?_
  cases (graph.var var).kind <;> simp

instance : Decidable graph.Closed := decidable_of_iff' _ closed_iff

end Testing

section Traversal

theorem mem_ancestorsOf {vars : List VarId} :
    id ∈ graph.ancestorsOf vars ↔ ∃ var ∈ vars, graph.ComputedFrom var id := by
  have within : ∀ origin, ∀ target ∈ graph.sources origin, target ∈ graph.nodeIds := by
    intro origin target targetMem
    have reads : graph.ReadsFrom origin target := targetMem
    rcases reads.live_source with ⟨node, live⟩
    exact mem_nodeIds.mpr (lt_size_of_node? live)
  have startWithin : ∀ origin ∈ vars.filterMap graph.producerId?, origin ∈ graph.nodeIds := by
    intro origin originMem
    rcases List.mem_filterMap.mp originMem with ⟨var, _, produced⟩
    rcases live_of_producerId? produced with ⟨node, live⟩
    exact mem_nodeIds.mpr (lt_size_of_node? live)
  unfold ancestorsOf
  rw [mem_sortNodes, mem_closure_iff within startWithin (Nat.le_of_eq length_nodeIds)]
  constructor
  · rintro ⟨_, origin, originMem, path⟩
    rcases List.mem_filterMap.mp originMem with ⟨var, varMem, produced⟩
    exact ⟨var, varMem, origin, produced, path⟩
  · rintro ⟨var, varMem, origin, produced, path⟩
    have originMem : origin ∈ vars.filterMap graph.producerId? :=
      List.mem_filterMap.mpr ⟨var, varMem, produced⟩
    refine ⟨?_, origin, originMem, path⟩
    rcases ReflTransGen.cases_tail path with same | ⟨middle, _, reads⟩
    · exact mem_nodeIds.mp (same ▸ startWithin origin originMem)
    · exact mem_nodeIds.mp (within middle id reads)

theorem mem_ancestors : id ∈ graph.ancestors var ↔ graph.ComputedFrom var id := by
  simp [ancestors, mem_ancestorsOf]

variable [Arithmetic α]

/-- In a well-formed graph a variable is an output of a live node exactly if the node is the one
that computes it. -/
theorem WellFormed.mem_outputs_iff (wellFormed : graph.WellFormed)
    (known : var.index < graph.vars.size) (live : graph.node? id = some node) :
    var ∈ node.outputs ↔ graph.producerId? var = some id := by
  rw [producerId?_eq_some]
  constructor
  · intro member
    rcases List.mem_iff_getElem?.mp member with ⟨index, found⟩
    have kind := (wellFormed.output_known id node live index var found).2
    exact ⟨node, index, producer?_eq_some.mpr ⟨kind, live⟩⟩
  · rintro ⟨content, index, found⟩
    rcases producer?_eq_some.mp found with ⟨kind, live'⟩
    exact List.mem_of_getElem? (wellFormed.output_listed var id index node known kind live)

/-- The outputs of a live node are different variables. -/
theorem WellFormed.outputs_nodup (wellFormed : graph.WellFormed)
    (live : graph.node? id = some node) : node.outputs.Nodup := by
  rw [List.nodup_iff_getElem?_ne_getElem?]
  intro first second before known same
  have secondFound := List.getElem?_eq_getElem known
  have firstKind := (wellFormed.output_known id node live first _ (same.trans secondFound)).2
  have secondKind := (wellFormed.output_known id node live second _ secondFound).2
  rw [firstKind] at secondKind
  simp only [VarKind.output.injEq, true_and] at secondKind
  omega

theorem WellFormed.mem_consumers_iff (wellFormed : graph.WellFormed) {reader : NodeId} :
    reader ∈ graph.consumers id ↔ graph.ReadsFrom reader id := by
  rw [readsFrom_iff]
  unfold consumers
  cases source : graph.node? id with
  | none =>
    simp only [List.not_mem_nil, false_iff]
    rintro ⟨node, _, input, _, produced⟩
    rcases live_of_producerId? produced with ⟨content, live⟩
    simp [source] at live
  | some node =>
    simp only [List.mem_filterMap, Prod.exists, mem_liveNodes, List.any_eq_true,
      decide_eq_true_eq, Option.ite_none_right_eq_some, Option.some.injEq]
    constructor
    · rintro ⟨other, content, live, ⟨input, inputMem, outputMem⟩, rfl⟩
      have known := wellFormed.read_known input (Or.inr ⟨other, content, live, inputMem⟩)
      exact ⟨content, live, input, inputMem,
        (wellFormed.mem_outputs_iff known source).mp outputMem⟩
    · rintro ⟨content, live, input, inputMem, produced⟩
      have known := wellFormed.read_known input (Or.inr ⟨reader, content, live, inputMem⟩)
      exact ⟨reader, content, live,
        ⟨input, inputMem, (wellFormed.mem_outputs_iff known source).mpr produced⟩, rfl⟩

/-- The descendants of a node are those that depend on it. -/
theorem WellFormed.mem_descendants_iff (wellFormed : graph.WellFormed) {later : NodeId} :
    later ∈ graph.descendants id ↔ TransGen graph.ReadsFrom later id := by
  have within : ∀ origin, ∀ target ∈ graph.consumers origin, target ∈ graph.nodeIds := by
    intro origin target targetMem
    rcases (wellFormed.mem_consumers_iff.mp targetMem).live_reader with ⟨node, live⟩
    exact mem_nodeIds.mpr (lt_size_of_node? live)
  have backwards : ∀ first last, ReflTransGen (Leads graph.consumers) first last ↔
      ReflTransGen graph.ReadsFrom last first := by
    intro first last
    rw [← reflTransGen_swap]
    have same : Leads graph.consumers = Function.swap graph.ReadsFrom := by
      funext origin target
      exact propext wellFormed.mem_consumers_iff
    rw [same]
  unfold descendants
  rw [mem_sortNodes, mem_closure_iff within (within id) (Nat.le_of_eq length_nodeIds)]
  constructor
  · rintro ⟨_, origin, originMem, path⟩
    exact TransGen.tail' ((backwards origin later).mp path)
      (wellFormed.mem_consumers_iff.mp originMem)
  · intro path
    rcases TransGen.tail'_iff.mp path with ⟨origin, before, reads⟩
    have originMem := wellFormed.mem_consumers_iff.mpr reads
    refine ⟨?_, origin, originMem, (backwards origin later).mpr before⟩
    rcases TransGen.head'_iff.mp path with ⟨middle, first, _⟩
    rcases first.live_reader with ⟨node, live⟩
    exact lt_size_of_node? live

end Traversal

end Dataflow

end ArrayGraph
