import ArrayGraph.Proofs.Alias.Validate
import ArrayGraph.Proofs.Alias.Storage
import ArrayGraph.Proofs.Schedule

/-!
# Which variables are available, and which of them are current

After some of the nodes of a safe order have run, the variables that have values are the roots and
what those nodes compute. A variable is current as long as every node that has overwritten its
storage is one that it was computed from. In a safe order every node but a view finds its inputs
current, and so does whoever reads the outputs.
-/

namespace ArrayGraph.Dataflow

open Relation

variable {α : Type} {graph : Dataflow α} {order front back : List NodeId} {id : NodeId}
  {node : Node α} {var source : VarId}

/-- A root that a run is supplied with: a declared input, or a constant or a shared variable that is
read. -/
def Supplies (graph : Dataflow α) (var : VarId) : Prop :=
  (var ∈ graph.inputs ∨ graph.IsRead var) ∧ graph.source? var ≠ none

/-- A variable that has a value once some nodes have run. -/
def Available (graph : Dataflow α) (front : List NodeId) (var : VarId) : Prop :=
  graph.Supplies var ∨ ∃ id ∈ front, graph.producerId? var = some id

/-- A variable is computed from every node that has overwritten its storage. -/
def Current (graph : Dataflow α) (front : List NodeId) (var : VarId) : Prop :=
  ∀ destroyer ∈ front, graph.Overwrites destroyer (graph.aliasRoot var) →
    graph.ComputedFrom var destroyer

theorem Topological.acyclic (topological : graph.Topological order) : graph.Acyclic := fun _ cycle =>
  Precedes.irrefl topological.distinct
    (precedes_of_path topological.distinct topological.producers_first cycle)

theorem Safe.acyclic (safe : graph.Safe order) : graph.Acyclic := fun _ cycle =>
  Precedes.irrefl safe.distinct (safe.descendants_after cycle)

theorem Available.mono (available : graph.Available front var) :
    graph.Available (front ++ back) var := by
  rcases available with supplied | ⟨id, member, produced⟩
  · exact Or.inl supplied
  · exact Or.inr ⟨id, by simp [member], produced⟩

theorem Current.of_append (current : graph.Current (front ++ back) var) :
    graph.Current front var := fun destroyer member => current destroyer (by simp [member])

theorem known_of_producerId? (produced : graph.producerId? var = some id) :
    var.index < graph.vars.size := by
  rcases producerId?_eq_some.mp produced with ⟨node, index, found⟩
  by_contra outside
  have kind := (producer?_eq_some.mp found).1
  rw [Dataflow.var, Array.getElem?_eq_none (by omega)] at kind
  cases kind

/-- What lives in an input of its node depends on that input. -/
theorem ComputedFrom.reads {destroyer : NodeId} (live : graph.node? id = some node)
    (produced : graph.producerId? var = some id) (different : destroyer ≠ id)
    (computed : graph.ComputedFrom var destroyer) :
    ∃ input ∈ node.inputs, graph.ComputedFrom input destroyer := by
  rcases computed with ⟨producer, found, path⟩
  rw [produced] at found
  cases found
  rcases ReflTransGen.cases_head path with same | ⟨next, reads, path⟩
  · exact absurd same.symm different
  · rcases readsFrom_iff.mp reads with ⟨content, live', input, inputMem, inputProduced⟩
    rw [live] at live'
    cases live'
    exact ⟨input, inputMem, next, inputProduced, path⟩

section Safe

theorem Topological.notMem_front (topological : graph.Topological order)
    (split : order = front ++ id :: back) : id ∉ front := by
  have distinct := topological.distinct
  rw [split, List.nodup_append] at distinct
  intro member
  exact distinct.2.2 id member id (by simp) rfl

theorem Safe.topological (safe : graph.Safe order) : graph.Topological order :=
  ⟨safe.complete, safe.producers_first⟩

theorem Safe.notMem_front (safe : graph.Safe order) (split : order = front ++ id :: back) :
    id ∉ front := safe.topological.notMem_front split

theorem Safe.computedFrom_front (safe : graph.Safe order) (split : order = front ++ back)
    (available : ∃ id ∈ front, graph.producerId? var = some id) {origin : NodeId}
    (computed : graph.ComputedFrom var origin) : origin ∈ front := by
  rcases available with ⟨id, member, produced⟩
  rcases computed with ⟨producer, found, path⟩
  rw [produced] at found
  cases found
  rcases reflTransGen_iff_eq_or_transGen.mp path with rfl | path
  · exact member
  · rcases List.append_of_mem member with ⟨first, second, rfl⟩
    have before := (safe.descendants_after path).mem_front safe.distinct
      (show order = first ++ id :: (second ++ back) by simp [split])
    simp [before]

/-- Whatever is read is a root that is supplied or an output of a live node. -/
theorem Closed.supplies_or_produced (closed : graph.Closed) (read : graph.IsRead var) :
    graph.Supplies var ∨ ∃ id, graph.producerId? var = some id := by
  rcases closed var read with declared | ⟨value, kind⟩ | ⟨container, kind⟩ | produced
  · exact Or.inl ⟨Or.inl declared, by simp [source?, declared]⟩
  · refine Or.inl ⟨Or.inr read, ?_⟩
    unfold source?
    split <;> simp [kind, SlotTable.rootSource?]
  · refine Or.inl ⟨Or.inr read, ?_⟩
    unfold source?
    split <;> simp [kind, SlotTable.rootSource?]
  · exact Or.inr produced

/-- What a node reads is available once the nodes before it have run. -/
theorem Topological.available_input (closed : graph.Closed) (topological : graph.Topological order)
    (split : order = front ++ id :: back) (live : graph.node? id = some node)
    (input : var ∈ node.inputs) : graph.Available front var := by
  rcases closed.supplies_or_produced (Or.inr ⟨id, node, live, input⟩) with
    supplied | ⟨producer, produced⟩
  · exact Or.inl supplied
  · have reads : graph.ReadsFrom id producer := readsFrom_iff.mpr ⟨node, live, var, input, produced⟩
    exact Or.inr ⟨producer,
      (topological.producers_first id producer reads).mem_front topological.distinct split, produced⟩

theorem Topological.available_of_read (closed : graph.Closed)
    (topological : graph.Topological order) (read : graph.IsRead var) :
    graph.Available order var := by
  rcases closed.supplies_or_produced read with supplied | ⟨producer, produced⟩
  · exact Or.inl supplied
  · rcases live_of_producerId? produced with ⟨_, live⟩
    exact Or.inr ⟨producer, topological.mem_of_live live, produced⟩

theorem Topological.available_output (closed : graph.Closed) (topological : graph.Topological order)
    (output : var ∈ graph.outputs) : graph.Available order var :=
  topological.available_of_read closed (Or.inl output)

theorem Safe.available_input (closed : graph.Closed) (safe : graph.Safe order)
    (split : order = front ++ id :: back) (live : graph.node? id = some node)
    (input : var ∈ node.inputs) : graph.Available front var :=
  safe.topological.available_input closed split live input

theorem Safe.available_output (closed : graph.Closed) (safe : graph.Safe order)
    (output : var ∈ graph.outputs) : graph.Available order var :=
  safe.topological.available_output closed output

/-- Every node but a view finds its inputs current. -/
theorem Safe.current_input (safe : graph.Safe order) (split : order = front ++ id :: back)
    (live : graph.node? id = some node) (more : ¬node.op.isPureView) (input : var ∈ node.inputs) :
    graph.Current front var := by
  intro destroyer member overwrites
  refine safe.readers_current id var ⟨node, live, more, input⟩ destroyer ?_ overwrites
    ⟨front, back, split, member⟩
  rintro rfl
  exact safe.notMem_front split member

/-- A view is current only if its input is. -/
theorem Safe.current_of_view (safe : graph.Safe order) (split : order = front ++ id :: back)
    (live : graph.node? id = some node) (single : node.inputs = [source])
    (produced : graph.producerId? var = some id) (lives : graph.LivesIn var source)
    (current : graph.Current (front ++ [id]) var) : graph.Current front source := by
  intro destroyer member overwrites
  rw [← safe.acyclic.aliasRoot_eq lives] at overwrites
  have different : destroyer ≠ id := by
    rintro rfl
    exact safe.notMem_front split member
  rcases (current destroyer (by simp [member]) overwrites).reads live produced different with
    ⟨input, inputMem, computed⟩
  rw [single, List.mem_singleton] at inputMem
  exact inputMem ▸ computed

variable [Arithmetic α] (wellFormed : graph.WellFormed)
include wellFormed

theorem WellFormed.producer?_of_source? (found : graph.source? var ≠ none) :
    graph.producer? var = none := by
  cases produced : graph.producer? var with
  | none => rfl
  | some entry =>
    rcases entry with ⟨id, node, index⟩
    have kind := (producer?_eq_some.mp produced).1
    exact absurd (wellFormed.source?_of_output kind) found

/-- What a node produces is available only once the node has had its turn. -/
theorem WellFormed.mem_of_available (available : graph.Available front var)
    (produced : graph.producerId? var = some id) : id ∈ front := by
  rcases available with supplied | ⟨other, member, produced'⟩
  · have unproduced := wellFormed.producer?_of_source? supplied.2
    rw [← producerId?_eq_none, produced] at unproduced
    cases unproduced
  · cases produced.symm.trans produced'
    exact member

theorem Topological.available_source (closed : graph.Closed)
    (topological : graph.Topological order) (split : order = front ++ back)
    (available : graph.Available front var) (lives : graph.LivesIn var source) :
    graph.Available front source := by
  rcases lives.producer with ⟨id, node, produced, live, input⟩
  rcases List.append_of_mem (wellFormed.mem_of_available available produced) with ⟨first, second, rfl⟩
  have before := topological.available_input closed
    (show order = first ++ id :: (second ++ back) by simp [split]) live input
  exact before.mono

/-- The owner of the storage of an available variable is available. -/
theorem Topological.available_aliasRoot (closed : graph.Closed)
    (topological : graph.Topological order) (split : order = front ++ back)
    (available : graph.Available front var) : graph.Available front (graph.aliasRoot var) := by
  revert available
  apply topological.acyclic.storage_induction (motive := fun var => graph.Available front var →
    graph.Available front (graph.aliasRoot var))
  · intro var owner available
    rw [aliasRoot_of_none owner]
    exact available
  · intro var source lives ih available
    rw [topological.acyclic.aliasRoot_eq lives]
    exact ih (topological.available_source wellFormed closed split available lives)

theorem Safe.available_aliasRoot (closed : graph.Closed) (safe : graph.Safe order)
    (split : order = front ++ back) (available : graph.Available front var) :
    graph.Available front (graph.aliasRoot var) :=
  safe.topological.available_aliasRoot wellFormed closed split available

theorem WellFormed.not_available_of_output (unfinished : id ∉ front)
    (live : graph.node? id = some node) (output : var ∈ node.outputs) :
    ¬graph.Available front var := by
  rcases List.mem_iff_getElem?.mp output with ⟨index, found⟩
  have known := (wellFormed.output_known id node live index var found).1
  exact fun available => unfinished (wellFormed.mem_of_available available
    ((wellFormed.mem_outputs_iff known live).mp output))

/-- No variable from before has storage that an output owns. -/
theorem Topological.aliasRoot_ne_of_output (closed : graph.Closed)
    (topological : graph.Topological order) (split : order = front ++ id :: back)
    (live : graph.node? id = some node) (output : var ∈ node.outputs) {other : VarId}
    (available : graph.Available front other) : graph.aliasRoot other ≠ var := by
  rintro rfl
  exact wellFormed.not_available_of_output (topological.notMem_front split) live output
    (topological.available_aliasRoot wellFormed closed split available)

/-- A variable that has a value once a node has run had one before, or is one of its outputs. -/
theorem WellFormed.available_concat (live : graph.node? id = some node)
    (available : graph.Available (front ++ [id]) var) :
    graph.Available front var ∨ var ∈ node.outputs := by
  rcases available with supplied | ⟨producer, member, produced⟩
  · exact Or.inl (Or.inl supplied)
  · rcases List.mem_append.mp member with earlier | here
    · exact Or.inl (Or.inr ⟨producer, earlier, produced⟩)
    · cases List.mem_singleton.mp here
      exact Or.inr ((wellFormed.mem_outputs_iff (known_of_producerId? produced) live).mpr produced)

/-- Whatever shares storage with what a node overwrites is out of date afterwards. -/
theorem Safe.not_current_of_overwrites (safe : graph.Safe order)
    (split : order = front ++ id :: back) (available : graph.Available front var)
    (overwrites : graph.Overwrites id (graph.aliasRoot var)) :
    ¬graph.Current (front ++ [id]) var := by
  intro current
  have computed := current id (by simp) overwrites
  have unfinished := safe.notMem_front split
  rcases available with supplied | produced
  · rcases computed with ⟨producer, found, _⟩
    have unproduced := wellFormed.producer?_of_source? supplied.2
    rw [← producerId?_eq_none, found] at unproduced
    cases unproduced
  · exact unfinished (safe.computedFrom_front split produced computed)

end Safe

end ArrayGraph.Dataflow
