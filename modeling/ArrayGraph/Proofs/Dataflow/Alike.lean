import ArrayGraph.Proofs.Agreement
import ArrayGraph.Proofs.Arranged
import ArrayGraph.Proofs.Dataflow.Edit

/-!
# Graphs that differ in the names of variables

Several variables may stand for one container. If some of them are exchanged throughout a graph, the
graph does the same thing under other names: nodes have the same identifiers, depend on the same nodes
and come in the same order, and every change to one graph can be made to the other.

Only the order in which variables are listed is not the same, and neither need the order of the
declared inputs be.
-/

namespace ArrayGraph

variable {α : Type}

/-- A node that reads and computes other variables. -/
def Node.rename (σ : VarId → VarId) (node : Node α) : Node α :=
  { node with inputs := node.inputs.map σ, outputs := node.outputs.map σ }

@[simp]
theorem Node.rename_op (σ : VarId → VarId) (node : Node α) : (node.rename σ).op = node.op := rfl

@[simp]
theorem Node.rename_inputs (σ : VarId → VarId) (node : Node α) :
    (node.rename σ).inputs = node.inputs.map σ := rfl

@[simp]
theorem Node.rename_outputs (σ : VarId → VarId) (node : Node α) :
    (node.rename σ).outputs = node.outputs.map σ := rfl

/-- Orderings with the same constraints. -/
abbrev Orderings.Same (orderings orderings' : Orderings) : Prop :=
  ∀ earlier later, earlier ∈ orderings'.before later ↔ earlier ∈ orderings.before later

namespace Dataflow

/-- An exchange of variables that stand for the same containers. -/
structure Exchanges (graph : Dataflow α) (σ : VarId → VarId) : Prop where
  involutive : ∀ id, σ (σ id) = id
  type : ∀ id, graph.type (σ id) = graph.type id
  kind : ∀ id, (graph.var (σ id)).kind = (graph.var id).kind
  shared : ∀ id, σ id ≠ id → ∃ container, (graph.var id).kind = .shared container

/-- Graphs that differ by an exchange of variables, and in the order of inputs. -/
structure Alike (σ : VarId → VarId) (π : Equiv.Perm Nat) (graph other : Dataflow α) : Prop where
  exchanges : graph.Exchanges σ
  vars : other.vars = graph.vars
  nodes : other.nodes = graph.nodes.map fun place => place.map (Node.rename σ)
  inputs : Arranges π (graph.inputs.map σ) other.inputs
  distinct : graph.inputs.Nodup
  outputs : other.outputs = graph.outputs.map σ
  guarded : ∀ id, σ id ∈ other.guarded ↔ id ∈ graph.guarded

variable {σ : VarId → VarId} {π : Equiv.Perm Nat} {graph other : Dataflow α} {id : NodeId} {var : VarId}

namespace Exchanges

variable (exchanges : graph.Exchanges σ)

include exchanges

theorem injective : Function.Injective σ := by
  intro id id' same
  rw [← exchanges.involutive id, same, exchanges.involutive]

theorem eq_iff {id id' : VarId} : σ id = σ id' ↔ id = id' := exchanges.injective.eq_iff

theorem mem_map_iff {ids : List VarId} : σ var ∈ ids.map σ ↔ var ∈ ids :=
  List.mem_map_of_injective exchanges.injective

/-- A variable that a node computes stays where it is. -/
theorem fixes_of_kind (kind : ∀ container, (graph.var var).kind ≠ .shared container) :
    σ var = var := by
  by_contra moved
  rcases exchanges.shared var moved with ⟨container, shared⟩
  exact kind container shared

theorem fixes_unknown (unknown : graph.vars.size ≤ var.index) : σ var = var := by
  refine exchanges.fixes_of_kind fun container => ?_
  rw [var_default unknown]
  exact VarKind.noConfusion

theorem known_iff : (σ var).index < graph.vars.size ↔ var.index < graph.vars.size := by
  constructor
  · intro known
    by_contra unknown
    rw [exchanges.fixes_unknown (Nat.le_of_not_lt unknown)] at known
    exact unknown known
  · intro known
    by_contra unknown
    have fixed := exchanges.fixes_unknown (Nat.le_of_not_lt unknown)
    rw [exchanges.involutive] at fixed
    rw [← fixed] at unknown
    exact unknown known

theorem extend {extended : Dataflow α} (further : graph.vars.toList <+: extended.vars.toList) :
    extended.Exchanges σ := by
  have var_eq : ∀ id, σ id ≠ id → extended.var id = graph.var id := by
    intro id moved
    refine var_eq_of_further further ?_
    by_contra unknown
    exact moved (exchanges.fixes_unknown (Nat.le_of_not_lt unknown))
  have moved_back : ∀ id, σ id ≠ id → σ (σ id) ≠ σ id := fun id moved =>
    exchanges.injective.ne moved
  refine ⟨exchanges.involutive, fun id => ?_, fun id => ?_, fun id moved => ?_⟩
  · by_cases moved : σ id = id
    · rw [moved]
    · change (extended.var (σ id)).type = (extended.var id).type
      rw [var_eq id moved, var_eq (σ id) (moved_back id moved)]
      exact exchanges.type id
  · by_cases moved : σ id = id
    · rw [moved]
    · rw [var_eq id moved, var_eq (σ id) (moved_back id moved)]
      exact exchanges.kind id
  · rw [var_eq id moved]
    exact exchanges.shared id moved

theorem positions_map {ids : List VarId} : positions (ids.map σ) (σ var) = positions ids var := by
  simp only [positions, List.zipIdx_map, List.filterMap_map, Function.comp_def, Prod.map,
    exchanges.eq_iff, id]

theorem substitute_map {old new : VarId} {ids : List VarId} :
    substitute (σ old) (σ new) (ids.map σ) = (substitute old new ids).map σ := by
  simp only [substitute, List.map_map]
  refine List.map_congr_left fun id _ => ?_
  simp only [Function.comp_apply, exchanges.eq_iff]
  split <;> rfl

end Exchanges

/-- Nothing but a constraint on a node that does not exist is wrong with constraints. -/
theorem checkOrderings_cases (graph : Dataflow α) (orderings : Orderings) :
    graph.checkOrderings orderings = Except.ok () ∨
      ∃ broken, graph.checkOrderings orderings = Except.error (.fault broken) := by
  refine Checked.forM_faults fun entry _ => Checked.forM_faults fun earlier _ => ?_
  unfold requireNode
  split
  · exact Or.inl rfl
  · exact Or.inr ⟨_, rfl⟩

namespace Alike

variable (alike : graph.Alike σ π other)

include alike

section Reading

theorem var_eq (id : VarId) : other.var id = graph.var id := by rw [var, var, alike.vars]

theorem type_eq (id : VarId) : other.type (σ id) = graph.type id := by
  rw [type, alike.var_eq]
  exact alike.exchanges.type id

theorem kind_eq (id : VarId) : (other.var (σ id)).kind = (graph.var id).kind := by
  rw [alike.var_eq, alike.exchanges.kind]

theorem types_eq (ids : List VarId) : (ids.map σ).map other.type = ids.map graph.type := by
  rw [List.map_map]
  exact List.map_congr_left fun id _ => alike.type_eq id

theorem size_nodes : other.nodes.size = graph.nodes.size := by rw [alike.nodes, Array.size_map]

theorem nodeIds_eq : other.nodeIds = graph.nodeIds := by rw [nodeIds, nodeIds, alike.size_nodes]

theorem node?_eq (id : NodeId) : other.node? id = (graph.node? id).map (Node.rename σ) := by
  rw [node?, node?, alike.nodes, Array.getElem?_map]
  cases graph.nodes[id.index]? <;> rfl

theorem isLive_eq : other.isLive = graph.isLive := by
  funext id
  rw [isLive, isLive, alike.node?_eq, Option.isSome_map]

theorem liveNodes_eq :
    other.liveNodes = graph.liveNodes.map fun (id, node) => (id, node.rename σ) := by
  simp only [liveNodes, alike.nodeIds_eq, List.map_filterMap]
  refine List.filterMap_congr fun id _ => ?_
  rw [alike.node?_eq]
  cases graph.node? id <;> rfl

theorem hasDestroyers_eq : other.hasDestroyers = graph.hasDestroyers := by
  simp only [hasDestroyers, alike.liveNodes_eq, List.any_map]
  rfl

theorem producer?_eq (var : VarId) :
    other.producer? (σ var) = (graph.producer? var).map fun (id, node, index) =>
      (id, node.rename σ, index) := by
  have same : (other.var (σ var)).producer? = (graph.var var).producer? := by
    rw [Variable.producer?, alike.kind_eq]
    rfl
  rw [producer?, producer?, same]
  split
  · rw [alike.node?_eq, Option.map_map, Option.map_map]
    rfl
  · rfl

theorem producerId?_eq (var : VarId) : other.producerId? (σ var) = graph.producerId? var := by
  rw [producerId?, producerId?, alike.producer?_eq, Option.map_map]
  rfl

theorem sources_eq : other.sources = graph.sources := by
  funext id
  rw [sources, sources, alike.node?_eq]
  cases graph.node? id with
  | none => rfl
  | some node =>
    simp only [Option.map_some, Node.rename, List.filterMap_map]
    exact List.filterMap_congr fun input _ => alike.producerId?_eq input

theorem consumers_eq : other.consumers = graph.consumers := by
  funext id
  rw [consumers, consumers, alike.node?_eq]
  cases graph.node? id with
  | none => rfl
  | some node =>
    simp only [Option.map_some, alike.liveNodes_eq, List.filterMap_map, Function.comp_def,
      Node.rename, List.any_map, alike.exchanges.mem_map_iff]

theorem sortNodes_eq : other.sortNodes = graph.sortNodes := by
  funext nodes
  rw [sortNodes, sortNodes, alike.nodeIds_eq]

theorem ancestorsOf_eq (ids : List VarId) :
    other.ancestorsOf (ids.map σ) = graph.ancestorsOf ids := by
  rw [ancestorsOf, ancestorsOf, alike.sortNodes_eq, alike.sources_eq, alike.size_nodes,
    List.filterMap_map]
  congr 2
  exact List.filterMap_congr fun id _ => alike.producerId?_eq id

theorem ancestors_eq (var : VarId) : other.ancestors (σ var) = graph.ancestors var :=
  alike.ancestorsOf_eq [var]

theorem descendants_eq : other.descendants = graph.descendants := by
  funext id
  rw [descendants, descendants, alike.sortNodes_eq, alike.consumers_eq, alike.size_nodes]

theorem mem_inputs_iff : σ var ∈ other.inputs ↔ var ∈ graph.inputs := by
  rw [alike.inputs.mem_iff, alike.exchanges.mem_map_iff]

theorem distinct_other : other.inputs.Nodup :=
  alike.inputs.nodup (alike.distinct.map alike.exchanges.injective)

theorem clients_eq (var : VarId) : other.clients (σ var) = graph.clients var := by
  simp only [clients, alike.liveNodes_eq, alike.outputs, List.flatMap_map, Node.rename,
    alike.exchanges.positions_map]

theorem mem_liveVars_iff : σ var ∈ other.liveVars ↔ var ∈ graph.liveVars := by
  simp only [liveVars, List.mem_filter, mem_varIds, decide_eq_true_eq, List.mem_append,
    List.mem_flatMap, alike.vars, alike.exchanges.known_iff, alike.mem_inputs_iff, alike.outputs,
    alike.liveNodes_eq, alike.exchanges.mem_map_iff, List.mem_map]
  refine and_congr_right' (or_congr_right ⟨?_, ?_⟩)
  · rintro ⟨_, ⟨entry, live, rfl⟩, used⟩
    refine ⟨entry, live, ?_⟩
    simpa only [Node.rename, alike.exchanges.mem_map_iff] using used
  · rintro ⟨entry, live, used⟩
    refine ⟨_, ⟨entry, live, rfl⟩, ?_⟩
    simpa only [Node.rename, alike.exchanges.mem_map_iff] using used

theorem operands_eq (var : VarId) : other.operands (σ var) = (graph.operands var).map σ := by
  rw [operands, operands, alike.producer?_eq]
  cases graph.producer? var <;> rfl

theorem mem_rootAncestors_iff {root : VarId} :
    σ root ∈ other.rootAncestors (σ var) ↔ root ∈ graph.rootAncestors var := by
  have reached : closure other.operands graph.vars.size [σ var] =
      (closure graph.operands graph.vars.size [var]).map σ :=
    closure_map alike.exchanges.injective alike.operands_eq [var]
  simp only [rootAncestors, List.mem_filter, mem_varIds, alike.vars, alike.exchanges.known_iff,
    reached, alike.exchanges.mem_map_iff, alike.producerId?_eq]

end Reading

section Ordering

variable {orderings orderings' : Orderings}

theorem dependencies_eq (same : orderings.Same orderings') :
    other.dependencies orderings' = graph.dependencies orderings := by
  funext id
  simp only [dependencies, alike.sources_eq, alike.isLive_eq, alike.nodeIds_eq, sortNodes,
    List.mem_append, List.mem_filter, same]

theorem checkOrderings_eq_ok_iff (same : orderings.Same orderings') :
    other.checkOrderings orderings' = Except.ok () ↔ graph.checkOrderings orderings = Except.ok () := by
  have each : ∀ (orderings : Orderings) (graph : Dataflow α), graph.checkOrderings orderings =
      Except.ok () ↔ ∀ later ∈ graph.liveNodes.map (·.1), ∀ earlier ∈ orderings.before later,
        earlier.index < graph.nodes.size := by
    intro orderings graph
    rw [checkOrderings, Checked.forM_eq_ok_iff, List.forall_mem_map]
    refine forall₂_congr fun entry _ => ?_
    rw [Checked.forM_eq_ok_iff]
    exact forall₂_congr fun earlier _ => by simp [requireNode]
  rw [each, each, alike.liveNodes_eq, List.map_map, alike.size_nodes]
  exact forall₂_congr fun later _ => forall_congr' fun earlier => by rw [same]

/-- The nodes come in the same order. -/
theorem order_alike (same : orderings.Same orderings') :
    (graph.order orderings).Agree Eq (other.order orderings') := by
  have sorted : other.liveNodes.map (·.1) = graph.liveNodes.map (·.1) := by
    rw [alike.liveNodes_eq, List.map_map]
    rfl
  have checked := alike.checkOrderings_eq_ok_iff same
  have checks : (graph.checkOrderings orderings).Agree Eq (other.checkOrderings orderings') := by
    rcases checkOrderings_cases graph orderings with passed | ⟨broken, failed⟩
    · rw [passed, checked.mpr passed]
      exact .ok rfl
    · rcases checkOrderings_cases other orderings' with passed | ⟨broken', failed'⟩
      · rw [checked.mp passed] at failed
        cases failed
      · rw [failed, failed']
        exact .error (.fault broken broken')
  refine checks.bind fun _ _ _ => ?_
  rw [alike.dependencies_eq same, alike.size_nodes, sorted]
  exact Checked.agree_self _

end Ordering

section Changing

theorem prune : graph.prune.Alike σ π other.prune := by
  have reachable : other.ancestorsOf other.outputs = graph.ancestorsOf graph.outputs := by
    rw [alike.outputs, alike.ancestorsOf_eq]
  refine ⟨alike.exchanges.extend (List.prefix_refl _), alike.vars, ?_, alike.inputs,
    alike.distinct, alike.outputs, alike.guarded⟩
  refine Array.ext_getElem? fun index => ?_
  simp only [Dataflow.prune, reachable, alike.nodes, Array.getElem?_mapIdx, Array.getElem?_map]
  cases graph.nodes[index]? with
  | none => rfl
  | some place =>
    simp only [Option.map_some]
    split <;> rfl

theorem addConstant (value : Value) :
    (other.addConstant value).1 = σ (graph.addConstant value).1 ∧
      (graph.addConstant value).2.Alike σ π (other.addConstant value).2 := by
  refine ⟨?_, ⟨?_, ?_, alike.nodes, alike.inputs, alike.distinct,
      alike.outputs, alike.guarded⟩⟩
  · have fixed : σ ⟨graph.vars.size⟩ = ⟨graph.vars.size⟩ :=
      alike.exchanges.fixes_unknown (Nat.le_refl _)
    simp only [Dataflow.addConstant, alike.vars, fixed]
  · exact alike.exchanges.extend (extends_addConstant graph value).vars
  · simp only [Dataflow.addConstant, alike.vars]

theorem requireVar (id : VarId) : (graph.requireVar id : Checked GraphError Unit).Agree Eq
    (other.requireVar (σ id) : Checked GraphError Unit) := by
  unfold Dataflow.requireVar
  rw [alike.vars]
  by_cases known : id.index < graph.vars.size
  · rw [if_pos known, if_pos (alike.exchanges.known_iff.mpr known)]
    exact .ok rfl
  · rw [if_neg known, if_neg (mt alike.exchanges.known_iff.mp known)]
    exact Checked.alike_abort _ _

theorem addNode [Arithmetic α] (op : Op α) (inputs : List VarId) :
    (graph.addNode op inputs).Agree
      (fun added added' => added'.1 = added.1.map σ ∧ added.2.Alike σ π added'.2)
      (other.addNode op (inputs.map σ)) := by
  have checked : (inputs.forM (graph.requireVar ·) : Checked GraphError Unit).Agree Eq
      ((inputs.map σ).forM (other.requireVar ·) : Checked GraphError Unit) := by
    refine .forM (paired_map σ inputs) ?_
    rintro id _ ⟨rfl, -⟩
    exact alike.requireVar id
  refine checked.bind fun _ _ _ => ?_
  rw [alike.types_eq]
  refine Checked.Alike.bind (Checked.agree_self _) ?_
  rintro types _ rfl
  have further : graph.vars.toList <+:
      (graph.vars ++ Graph.outputVariables ⟨graph.nodes.size⟩ types).toList := by
    rw [Array.toList_appendList]
    exact List.prefix_append _ _
  have fixed : ∀ index, σ ⟨graph.vars.size + index⟩ = ⟨graph.vars.size + index⟩ := fun index =>
    alike.exchanges.fixes_unknown (Nat.le_add_right _ _)
  refine .ok ⟨?_, ⟨alike.exchanges.extend further, ?_, ?_, alike.inputs,
    alike.distinct, alike.outputs, alike.guarded⟩⟩
  · simp only [alike.vars, List.map_map, Function.comp_def, fixed]
  · simp only [alike.vars, alike.size_nodes]
  · simp only [alike.nodes, alike.vars, Array.map_push, Option.map_some, Node.rename, List.map_map,
      Function.comp_def, fixed]

theorem addNodeSingle [Arithmetic α] (op : Op α) (inputs : List VarId) :
    (graph.addNodeSingle op inputs).1.Agree (fun id id' => id' = σ id)
        (other.addNodeSingle op (inputs.map σ)).1 ∧
      (graph.addNodeSingle op inputs).2.Alike σ π (other.addNodeSingle op (inputs.map σ)).2 := by
  have added := alike.addNode op inputs
  unfold Dataflow.addNodeSingle
  generalize graph.addNode op inputs = answer at added ⊢
  generalize other.addNode op (inputs.map σ) = answer' at added ⊢
  cases added with
  | error same => exact ⟨.error same, alike⟩
  | @ok answer answer' same =>
    rcases answer with ⟨outputs, extended⟩
    rcases answer' with ⟨_, extended'⟩
    rcases same with ⟨rfl, extended⟩
    refine ⟨?_, extended⟩
    match outputs with
    | [] => exact Checked.alike_raise trivial
    | [output] => exact .ok rfl
    | _ :: _ :: _ => exact Checked.alike_raise trivial

theorem checkReplacement (old new : VarId) :
    (graph.checkReplacement old new).Agree Eq (other.checkReplacement (σ old) (σ new)) := by
  refine (alike.requireVar old).bind fun _ _ _ => (alike.requireVar new).bind fun _ _ _ => ?_
  simp only [alike.type_eq, alike.ancestors_eq, alike.liveNodes_eq, List.any_map,
    Function.comp_def, Node.rename, alike.exchanges.mem_map_iff]
  split
  · exact Checked.alike_raise trivial
  · split
    · exact Checked.alike_raise trivial
    · exact .ok rfl

theorem redirect (old new : VarId) :
    (graph.redirect old new).Alike σ π (other.redirect (σ old) (σ new)) := by
  refine ⟨alike.exchanges.extend (List.prefix_refl _), alike.vars, ?_, alike.inputs,
    alike.distinct, ?_, alike.guarded⟩
  · simp only [Dataflow.redirect, alike.nodes, Array.map_map]
    refine congrArg (graph.nodes.map ·) (funext fun place => ?_)
    simp only [Function.comp_apply, Option.map_map, Node.rename, Function.comp_def,
      alike.exchanges.substitute_map]
  · simp only [Dataflow.redirect, alike.outputs, alike.exchanges.substitute_map]

theorem replace (old new : VarId) :
    (graph.replace old new).Agree (Alike σ π) (other.replace (σ old) (σ new)) := by
  unfold Dataflow.replace
  simp only [alike.exchanges.eq_iff]
  split
  · exact .ok alike
  · exact (alike.checkReplacement old new).bind fun _ _ _ => .ok (alike.redirect old new).prune

omit alike in
theorem replaceAll (pairs : List (VarId × VarId)) (alike : graph.Alike σ π other) :
    (graph.replaceAll pairs).Agree (Alike σ π)
      (other.replaceAll (pairs.map fun (old, new) => (σ old, σ new))) := by
  refine .foldlM (paired_map _ pairs) ?_ alike
  rintro graph other ⟨old, new⟩ _ alike ⟨rfl, -⟩
  exact alike.replace old new

theorem output_agree (index : Nat) :
    (Checked.orError graph.outputs[index]? (GraphError.noSuchOutput index)).Agree
      (fun output output' => output' = σ output)
      (Checked.orError other.outputs[index]? (GraphError.noSuchOutput index)) := by
  refine Checked.alike_orError ?_ (by trivial)
  rw [alike.outputs, List.getElem?_map]
  cases graph.outputs[index]? with
  | none => exact .none
  | some old => exact .some rfl

theorem replaceOutput (index : Nat) (new : VarId) :
    (graph.replaceOutput index new).Agree (Alike σ π) (other.replaceOutput index (σ new)) := by
  refine (alike.output_agree index).bind ?_
  rintro old _ rfl
  refine (alike.requireVar new).bind fun _ _ _ => ?_
  simp only [alike.type_eq]
  split
  · exact Checked.alike_raise trivial
  · refine .ok (Alike.prune ⟨alike.exchanges.extend (List.prefix_refl _), alike.vars, alike.nodes,
      alike.inputs, alike.distinct, ?_, alike.guarded⟩)
    rw [alike.outputs, List.map_set]

theorem getNode (id : NodeId) :
    (graph.getNode id).Agree (fun node node' => node' = node.rename σ) (other.getNode id) := by
  unfold Dataflow.getNode requireNode
  rw [alike.size_nodes, alike.node?_eq]
  split
  · refine Checked.alike_orError ?_ trivial
    cases graph.node? id with
    | none => exact .none
    | some node => exact .some rfl
  · exact Checked.alike_abort _ _

theorem replaceNodeOp [Arithmetic α] (id : NodeId) (op : Op α) :
    (graph.replaceNodeOp id op).Agree (Alike σ π) (other.replaceNodeOp id op) := by
  refine (alike.getNode id).bind ?_
  rintro node _ rfl
  simp only [Node.rename, alike.types_eq]
  refine Checked.Alike.bind (Checked.agree_self _) ?_
  rintro types _ rfl
  split
  · refine .ok ⟨alike.exchanges.extend (List.prefix_refl _), alike.vars, ?_, alike.inputs,
      alike.distinct, alike.outputs, alike.guarded⟩
    rw [alike.nodes, Array.map_setIfInBounds]
    rfl
  · exact Checked.alike_raise trivial

end Changing

end Alike

end Dataflow

end ArrayGraph
