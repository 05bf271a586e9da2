import ArrayGraph.Proofs.Dataflow.Capture
import ArrayGraph.Proofs.Optimize.Yields

/-!
# No node depends on itself

A symbolic graph has no cycle, because a node reads variables that were there before it. Adding to a
graph and removing from it makes none. To read one variable in the place of another is the one edit
that could, and it is refused if a reader of the old variable is needed to compute the new one.
-/

namespace ArrayGraph

open Relation

variable {α : Type}

namespace Dataflow

variable {graph later : Dataflow α} {old new : VarId}

theorem Acyclic.mono (acyclic : graph.Acyclic)
    (reads : ∀ reader source, later.ReadsFrom reader source → graph.ReadsFrom reader source) :
    later.Acyclic :=
  fun id cycle => acyclic id (TransGen.mono reads id id cycle)

theorem Acyclic.prune (acyclic : graph.Acyclic) : graph.prune.Acyclic := by
  apply acyclic.mono
  intro reader source readsFrom
  rcases readsFrom_iff.mp readsFrom with ⟨node, live, input, member, produced⟩
  have read : graph.prune.IsRead input := Or.inr ⟨reader, node, live, member⟩
  rw [read.producerId?_prune] at produced
  exact readsFrom_iff.mpr ⟨node, (node?_prune.mp live).1, input, member, produced⟩

section Extend

variable [Arithmetic α]

/-- New nodes that read old variables are read by no node. -/
theorem Acyclic.extend (acyclic : graph.Acyclic) (formed : graph.Formed)
    (extend : graph.Extends later) (known : ∀ id node, later.node? id = some node →
      ∀ input ∈ node.inputs, input.index < graph.vars.size) : later.Acyclic := by
  have sourceLive : ∀ reader source, later.ReadsFrom reader source →
      ∃ node, graph.node? source = some node := by
    intro reader source readsFrom
    rcases readsFrom_iff.mp readsFrom with ⟨node, live, input, member, produced⟩
    rw [extend.producerId?_eq formed (known reader node live input member)] at produced
    exact live_of_producerId? produced
  have old : ∀ reader source node, graph.node? reader = some node →
      later.ReadsFrom reader source → graph.ReadsFrom reader source := by
    intro reader source node live readsFrom
    rcases readsFrom_iff.mp readsFrom with ⟨content, contentLive, input, member, produced⟩
    rw [extend.live live] at contentLive
    cases contentLive
    have inputKnown := formed.read_known input (Or.inr ⟨reader, node, live, member⟩)
    rw [extend.producerId?_eq formed inputKnown] at produced
    exact readsFrom_iff.mpr ⟨node, live, input, member, produced⟩
  intro id cycle
  rcases TransGen.tail'_iff.mp cycle with ⟨reader, _, readsFrom⟩
  rcases sourceLive reader id readsFrom with ⟨node, live⟩
  apply acyclic id
  -- A path from an old node stays among old nodes.
  have path : ∀ last, TransGen later.ReadsFrom id last → TransGen graph.ReadsFrom id last := by
    intro last path
    induction path with
    | single reads => exact TransGen.single (old _ _ node live reads)
    | tail before reads ih =>
      rcases TransGen.tail'_iff.mp before with ⟨_, _, reached⟩
      rcases sourceLive _ _ reached with ⟨content, contentLive⟩
      exact ih.tail (old _ _ content contentLive reads)
  exact path id cycle

theorem Acyclic.adds {op : Op α} {inputs outputs : List VarId} (acyclic : graph.Acyclic)
    (formed : graph.Formed) (adds : graph.Adds later op inputs outputs) : later.Acyclic := by
  refine acyclic.extend formed adds.extend ?_
  intro id node live input member
  rcases adds.live_cases live with live | ⟨_, rfl⟩
  · exact formed.read_known input (Or.inr ⟨id, node, live, member⟩)
  · exact adds.inputs_known input member

theorem Acyclic.addConstant (acyclic : graph.Acyclic) (formed : graph.Formed) (value : Value) :
    (graph.addConstant value).2.Acyclic := by
  refine acyclic.extend formed (extends_addConstant graph value) ?_
  intro id node live input member
  exact formed.read_known input (Or.inr ⟨id, node, live, member⟩)

end Extend

section Redirect

/-- What is read after a redirection was read before, or is the new variable in the place of the old
one. -/
theorem readsFrom_redirect {reader source : NodeId}
    (reads : (graph.redirect old new).ReadsFrom reader source) :
    graph.ReadsFrom reader source ∨ graph.producerId? new = some source ∧
      ∃ node, graph.node? reader = some node ∧ old ∈ node.inputs := by
  rcases readsFrom_iff.mp reads with ⟨node, live, input, member, produced⟩
  rcases node?_redirect_eq_some.mp live with ⟨original, originalLive, rfl⟩
  rw [producerId?_redirect] at produced
  rcases mem_substitute member with ⟨rfl, readsOld⟩ | ⟨_, member⟩
  · exact Or.inr ⟨produced, original, originalLive, readsOld⟩
  · exact Or.inl (readsFrom_iff.mpr ⟨original, originalLive, input, member, produced⟩)

/-- A path after a redirection was there before, or leads to a reader of the old variable first and
from the producer of the new one last. -/
theorem path_redirect (apart : ∀ id node, graph.node? id = some node → old ∈ node.inputs →
      id ∉ graph.ancestors new) {first last : NodeId}
    (path : TransGen (graph.redirect old new).ReadsFrom first last) :
    TransGen graph.ReadsFrom first last ∨ ∃ reader node, graph.node? reader = some node ∧
      old ∈ node.inputs ∧ ReflTransGen graph.ReadsFrom first reader ∧
        graph.ComputedFrom new last := by
  induction path with
  | single reads =>
    rcases readsFrom_redirect reads with reads | ⟨produced, node, live, readsOld⟩
    · exact Or.inl (TransGen.single reads)
    · exact Or.inr ⟨first, node, live, readsOld, ReflTransGen.refl, _, produced, ReflTransGen.refl⟩
  | tail _ reads ih =>
    rcases readsFrom_redirect reads with reads | ⟨produced, node, live, readsOld⟩
    · rcases ih with before | ⟨reader, node, live, readsOld, before, producer, produced, after⟩
      · exact Or.inl (before.tail reads)
      · exact Or.inr ⟨reader, node, live, readsOld, before, producer, produced, after.tail reads⟩
    · rcases ih with before | ⟨_, _, _, _, _, computed⟩
      · exact Or.inr ⟨_, node, live, readsOld, before.to_reflTransGen, _, produced,
          ReflTransGen.refl⟩
      -- The new variable would be computed from a reader of the old one.
      · exact absurd (mem_ancestors.mpr computed) (apart _ node live readsOld)

theorem Acyclic.redirect (acyclic : graph.Acyclic) (apart : ∀ id node,
    graph.node? id = some node → old ∈ node.inputs → id ∉ graph.ancestors new) :
    (graph.redirect old new).Acyclic := by
  intro id cycle
  rcases path_redirect apart cycle with cycle | ⟨reader, node, live, readsOld, before, computed⟩
  · exact acyclic id cycle
  · rcases computed with ⟨producer, produced, after⟩
    apply apart reader node live readsOld
    exact mem_ancestors.mpr ⟨producer, produced, after.trans before⟩

theorem Acyclic.replace (acyclic : graph.Acyclic) (answer : graph.replace old new = Except.ok later) :
    later.Acyclic := by
  rcases replace_eq_ok answer with ⟨_, rfl⟩ | ⟨_, checked, rfl⟩
  · exact acyclic
  · rcases checkReplacement_eq_ok checked with ⟨_, _, _, apart⟩
    apply Acyclic.prune
    exact acyclic.redirect fun id node live readsOld => (apart id node live readsOld).1

theorem Acyclic.replaceOutput {index : Nat} (acyclic : graph.Acyclic)
    (answer : graph.replaceOutput index new = Except.ok later) : later.Acyclic := by
  rcases replaceOutput_eq_ok answer with ⟨_, _, _, _, rfl⟩
  exact Acyclic.prune (acyclic.mono fun _ _ reads => reads)

end Redirect

section SetOp

variable [Arithmetic α] {id : NodeId} {op : Op α}

/-- Another operation at a node leaves what computes a variable as it was. -/
theorem producerId?_replaceNodeOp (answer : graph.replaceNodeOp id op = Except.ok later)
    (var : VarId) : later.producerId? var = graph.producerId? var := by
  rcases replaceNodeOp_eq_ok answer with ⟨node, live, _, rfl⟩
  simp only [producerId?, producer?_setOp live, Option.map_map]
  rfl

/-- Another operation at a node leaves what nodes read from as it was. -/
theorem readsFrom_replaceNodeOp (answer : graph.replaceNodeOp id op = Except.ok later) :
    later.ReadsFrom = graph.ReadsFrom := by
  have producers := producerId?_replaceNodeOp answer
  rcases replaceNodeOp_eq_ok answer with ⟨node, live, _, rfl⟩
  funext reader source
  simp only [ReadsFrom, sources, node?_setOp live]
  by_cases same : reader = id
  · simp [same, live, producers]
  · simp [same, producers]

theorem Acyclic.replaceNodeOp (acyclic : graph.Acyclic)
    (answer : graph.replaceNodeOp id op = Except.ok later) : later.Acyclic := by
  apply acyclic.mono
  rw [readsFrom_replaceNodeOp answer]
  exact fun _ _ reads => reads

end SetOp

end Dataflow

section Capture

variable [Arithmetic α] {source : Graph α}

theorem Graph.acyclic_addRoot (built : source.Built) (acyclic : (source.whole [] []).Acyclic)
    (type : ArrayType) (kind : VarKind) (name : Option String) :
    ((source.addRoot type kind name).2.whole [] []).Acyclic := by
  refine acyclic.extend built.formed (extends_addRoot source type kind name) ?_
  intro id node live input member
  exact built.formed.read_known input (Or.inr ⟨id, node, live, member⟩)

/-- A symbolic graph that was built has no cycle. -/
theorem Graph.Built.acyclic (built : source.Built) : (source.whole [] []).Acyclic := by
  induction built with
  | empty =>
    intro id cycle
    rcases TransGen.head'_iff.mp cycle with ⟨_, reads, _⟩
    rcases reads.live_reader with ⟨node, live⟩
    simp [node?_whole, Graph.empty] at live
  | input built type name ih => exact acyclic_addRoot built ih type .input (some name)
  | constant built value ih => exact acyclic_addRoot built ih value.type (.constant value) none
  | shared built memory container ih => exact acyclic_addRoot built ih _ (.shared container) _
  | apply built applied ih => exact ih.adds built.formed (adds_of_apply applied)

theorem Dataflow.acyclic_of_capture {graph : Dataflow α} {inputs outputs : List VarId}
    {requireDependence : Bool} (built : source.Built)
    (captured : capture source inputs outputs requireDependence = Except.ok graph) :
    graph.Acyclic := by
  rcases capture_eq_ok captured with ⟨rfl, _⟩
  exact Acyclic.prune (built.acyclic.mono fun _ _ reads => reads)

end Capture

end ArrayGraph
