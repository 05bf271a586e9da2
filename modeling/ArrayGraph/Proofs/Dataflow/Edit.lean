import ArrayGraph.Dataflow.Edit
import ArrayGraph.Proofs.Dataflow.Basic
import ArrayGraph.Proofs.Checked

/-!
# Edits keep a graph well formed

Every edit of a well-formed graph gives a well-formed graph. Beside well-formedness the edits need one
more fact: a variable names only nodes that the graph has or had, so the identifier of a new node is
one that no variable names yet.
-/

namespace ArrayGraph

variable {α : Type}

namespace Dataflow

variable {graph extended : Dataflow α} {id : NodeId} {node : Node α} {var : VarId}

/-- A well-formed graph in which no variable names a node that was never there. -/
structure Formed [Arithmetic α] (graph : Dataflow α) : Prop extends graph.WellFormed where
  named : ∀ var id index, (graph.var var).kind = .output id index → id.index < graph.nodes.size

theorem var_default (unknown : graph.vars.size ≤ var.index) : graph.var var = default := by
  rw [Dataflow.var, Array.getElem?_eq_none unknown]
  rfl

theorem known_of_kind {index : Nat} (kind : (graph.var var).kind = .output id index) :
    var.index < graph.vars.size := by
  by_contra unknown
  rw [var_default (by omega)] at kind
  cases kind

theorem known_of_constant {value : Value} (kind : (graph.var var).kind = .constant value) :
    var.index < graph.vars.size := by
  by_contra unknown
  rw [var_default (by omega)] at kind
  cases kind

theorem producer?_var_eq_some {index : Nat} :
    (graph.var var).producer? = some (id, index) ↔ (graph.var var).kind = .output id index := by
  unfold Variable.producer?
  cases (graph.var var).kind <;> simp

/-- Whether a graph is formed can be found out by going through its nodes and variables. -/
theorem formed_iff [Arithmetic α] : graph.Formed ↔ graph.WellFormed ∧ ∀ var ∈ graph.varIds,
    ∀ producer ∈ (graph.var var).producer?, producer.1.index < graph.nodes.size := by
  constructor
  · intro formed
    refine ⟨formed.toWellFormed, ?_⟩
    rintro var _ ⟨id, index⟩ named
    exact formed.named var id index (producer?_var_eq_some.mp named)
  · rintro ⟨wellFormed, named⟩
    refine ⟨wellFormed, fun var id index kind => ?_⟩
    exact named var (mem_varIds.mpr (known_of_kind kind)) (id, index)
      (producer?_var_eq_some.mpr kind)

instance [Arithmetic α] : Decidable graph.Formed := decidable_of_iff' _ formed_iff

theorem requireVar_eq_ok {ε : Type} :
    (graph.requireVar var : Checked ε Unit) = Except.ok () ↔ var.index < graph.vars.size := by
  unfold requireVar
  split <;> simp_all

section Prune

/-- Pruning keeps the nodes that the outputs depend on, as they are. -/
theorem node?_prune :
    graph.prune.node? id = some node ↔
      graph.node? id = some node ∧ id ∈ graph.ancestorsOf graph.outputs := by
  unfold node? prune
  simp only [Array.getElem?_mapIdx]
  cases found : graph.nodes[id.index]? with
  | none => simp
  | some place => by_cases kept : id ∈ graph.ancestorsOf graph.outputs <;> simp [kept]

theorem IsRead.of_prune (read : graph.prune.IsRead var) : graph.IsRead var := by
  rcases read with output | ⟨id, node, live, input⟩
  · exact Or.inl output
  · exact Or.inr ⟨id, node, (node?_prune.mp live).1, input⟩

theorem Formed.prune [Arithmetic α] (formed : graph.Formed) : graph.prune.Formed where
  output_known id node live := formed.output_known id node (node?_prune.mp live).1
  output_listed var id index node known kind live :=
    formed.output_listed var id index node known kind (node?_prune.mp live).1
  input_root := formed.input_root
  read_known var read := formed.read_known var read.of_prune
  typed id node live := formed.typed id node (node?_prune.mp live).1
  named var id index kind := by
    have known := formed.named var id index kind
    simpa [Dataflow.prune] using known

end Prune

section Extend

/-- A graph with further variables and nothing else. -/
structure Extends (graph extended : Dataflow α) : Prop where
  vars : graph.vars.toList <+: extended.vars.toList
  nodes : graph.nodes.toList <+: extended.nodes.toList
  inputs : extended.inputs = graph.inputs
  outputs : extended.outputs = graph.outputs
  guarded : extended.guarded = graph.guarded

theorem Extends.refl (graph : Dataflow α) : graph.Extends graph :=
  ⟨List.prefix_refl _, List.prefix_refl _, rfl, rfl, rfl⟩

theorem Extends.trans {middle : Dataflow α} (first : graph.Extends middle)
    (second : middle.Extends extended) : graph.Extends extended :=
  ⟨first.vars.trans second.vars, first.nodes.trans second.nodes,
    second.inputs.trans first.inputs, second.outputs.trans first.outputs,
    second.guarded.trans first.guarded⟩

theorem Extends.vars_size (extend : graph.Extends extended) :
    graph.vars.size ≤ extended.vars.size := by
  simpa using extend.vars.length_le

theorem Extends.nodes_size (extend : graph.Extends extended) :
    graph.nodes.size ≤ extended.nodes.size := by
  simpa using extend.nodes.length_le

theorem var_eq_of_further (further : graph.vars.toList <+: extended.vars.toList)
    (known : var.index < graph.vars.size) : extended.var var = graph.var var := by
  rcases further with ⟨more, same⟩
  rw [Dataflow.var, Dataflow.var, ← Array.getElem?_toList, ← Array.getElem?_toList, ← same,
    List.getElem?_append_left (by simpa using known)]

theorem Extends.var_eq (extend : graph.Extends extended) (known : var.index < graph.vars.size) :
    extended.var var = graph.var var := var_eq_of_further extend.vars known

theorem Extends.type_eq (extend : graph.Extends extended) (known : var.index < graph.vars.size) :
    extended.type var = graph.type var := by
  rw [Dataflow.type, Dataflow.type, extend.var_eq known]

theorem Extends.node?_eq (extend : graph.Extends extended) (known : id.index < graph.nodes.size) :
    extended.node? id = graph.node? id := by
  rcases extend.nodes with ⟨more, same⟩
  rw [Dataflow.node?, Dataflow.node?, ← Array.getElem?_toList, ← Array.getElem?_toList, ← same,
    List.getElem?_append_left (by simpa using known)]

theorem Extends.live (extend : graph.Extends extended) (live : graph.node? id = some node) :
    extended.node? id = some node := by
  rw [extend.node?_eq (lt_size_of_node? live)]
  exact live

variable [Arithmetic α] {op : Op α} {inputs outputs : List VarId}

/-- What adding a node does: its outputs are the new variables, in their order. -/
structure Adds (graph extended : Dataflow α) (op : Op α) (inputs outputs : List VarId) : Prop where
  extend : graph.Extends extended
  inputs_known : ∀ input ∈ inputs, input.index < graph.vars.size
  inferred : op.inferTypes (inputs.map graph.type) = Except.ok (outputs.map extended.type)
  nodes_size : extended.nodes.size = graph.nodes.size + 1
  live : extended.node? ⟨graph.nodes.size⟩ = some ⟨op, inputs, outputs⟩
  output : ∀ (index : Nat) var, outputs[index]? = some var → graph.vars.size ≤ var.index ∧
    var.index < extended.vars.size ∧ (extended.var var).kind = .output ⟨graph.nodes.size⟩ index
  listed : ∀ var : VarId, graph.vars.size ≤ var.index → var.index < extended.vars.size →
    var ∈ outputs

/-- A node appended to a graph with variables for its outputs. -/
theorem adds_of_eq {types : List ArrayType}
    (known : ∀ input ∈ inputs, input.index < graph.vars.size)
    (inferred : op.inferTypes (inputs.map graph.type) = Except.ok types)
    (outputsEq : outputs =
      (List.range types.length).map fun index => VarId.mk (graph.vars.size + index))
    (extendedEq : extended = { graph with
      vars := graph.vars ++ Graph.outputVariables ⟨graph.nodes.size⟩ types
      nodes := graph.nodes.push (some ⟨op, inputs, outputs⟩) }) :
    graph.Adds extended op inputs outputs := by
  have newVars : ∀ index (inside : index < types.length),
      extended.var ⟨graph.vars.size + index⟩ =
        ⟨types[index], .output ⟨graph.nodes.size⟩ index, none⟩ := by
    intro index inside
    rw [extendedEq, Dataflow.var, ← Array.getElem?_toList]
    simp [Graph.outputVariables, inside]
  have size : extended.vars.size = graph.vars.size + types.length := by
    rw [extendedEq, ← Array.length_toList]
    simp [Graph.outputVariables]
  refine ⟨⟨?_, ?_, ?_, ?_, ?_⟩, known, ?_, ?_, ?_, ?_, ?_⟩
  · simp [extendedEq]
  · simp [extendedEq]
  · rw [extendedEq]
  · rw [extendedEq]
  · rw [extendedEq]
  · rw [inferred, outputsEq]
    congr 1
    apply List.ext_getElem
    · simp
    · intro index inside _
      simp [Dataflow.type, newVars index inside]
  · simp [extendedEq]
  · simp [extendedEq, Dataflow.node?]
  · intro index var found
    rw [outputsEq, List.getElem?_map, Option.map_eq_some_iff] at found
    rcases found with ⟨position, found, rfl⟩
    rcases List.getElem?_eq_some_iff.mp found with ⟨inside, same⟩
    simp only [List.length_range, List.getElem_range] at inside same
    subst same
    refine ⟨Nat.le_add_right _ _, ?_, by rw [newVars index inside]⟩
    rw [size]
    exact Nat.add_lt_add_left inside _
  · intro var old inside
    rw [outputsEq, List.mem_map]
    refine ⟨var.index - graph.vars.size, List.mem_range.mpr (by omega), ?_⟩
    have same : graph.vars.size + (var.index - graph.vars.size) = var.index := by omega
    rw [same]

theorem addNode_eq_ok (added : graph.addNode op inputs = Except.ok (outputs, extended)) :
    graph.Adds extended op inputs outputs := by
  simp only [addNode, Checked.bind_eq_ok_iff, Checked.mapError_eq_ok_iff] at added
  rcases added with ⟨_, known, types, inferred, same⟩
  cases same
  refine adds_of_eq ?_ inferred rfl rfl
  intro input member
  exact requireVar_eq_ok.mp (Checked.forM_eq_ok_iff.mp known input member)

theorem addNodeSingle_eq_ok {new : VarId}
    (added : (graph.addNodeSingle op inputs).1 = Except.ok new) :
    graph.Adds (graph.addNodeSingle op inputs).2 op inputs [new] := by
  simp only [addNodeSingle] at added ⊢
  cases answer : graph.addNode op inputs with
  | error failure =>
    rw [answer] at added
    cases added
  | ok content =>
    rcases content with ⟨outputs, extended⟩
    rw [answer] at added
    simp only [Checked.mapError_eq_ok_iff, Graph.single] at added
    split at added
    · cases added
      exact addNode_eq_ok answer
    · cases added

/-- A node with one output can be added over variables of the graph. -/
theorem exists_addNodeSingle {type : ArrayType}
    (known : ∀ input ∈ inputs, input.index < graph.vars.size)
    (inferred : op.inferTypes (inputs.map graph.type) = Except.ok [type]) :
    ∃ new extended, graph.addNodeSingle op inputs = (Except.ok new, extended) := by
  have required : inputs.forM (graph.requireVar ·) = (Except.ok () : Checked GraphError _) :=
    Checked.forM_eq_ok_iff.mpr fun input member => requireVar_eq_ok.mpr (known input member)
  unfold addNodeSingle addNode
  rw [required, inferred]
  exact ⟨_, _, rfl⟩

omit [Arithmetic α] in
theorem extends_addConstant (graph : Dataflow α) (value : Value) :
    graph.Extends (graph.addConstant value).2 :=
  ⟨by simp [addConstant], List.prefix_refl _, rfl, rfl, rfl⟩

omit [Arithmetic α] in
theorem var_addConstant (graph : Dataflow α) (value : Value) :
    (graph.addConstant value).2.var ⟨graph.vars.size⟩ = ⟨value.type, .constant value, none⟩ := by
  simp [addConstant, Dataflow.var]

omit [Arithmetic α] in
theorem kind_of_addConstant {value content : Value} {var : VarId}
    (kind : ((graph.addConstant value).2.var var).kind = .constant content) :
    var.index < graph.vars.size ∧ (graph.var var).kind = .constant content ∨
      var = ⟨graph.vars.size⟩ ∧ content = value := by
  by_cases old : var.index < graph.vars.size
  · exact Or.inl ⟨old, (extends_addConstant graph value).var_eq old ▸ kind⟩
  · have known := known_of_constant kind
    have same : var = ⟨graph.vars.size⟩ := by
      simp only [addConstant, Array.size_push] at known
      exact congrArg VarId.mk (show var.index = graph.vars.size by omega)
    subst same
    rw [var_addConstant] at kind
    cases kind
    exact Or.inr ⟨rfl, rfl⟩

theorem Adds.live_cases (adds : graph.Adds extended op inputs outputs)
    (live : extended.node? id = some node) :
    graph.node? id = some node ∨ id = ⟨graph.nodes.size⟩ ∧ node = ⟨op, inputs, outputs⟩ := by
  have inside := lt_size_of_node? live
  rw [adds.nodes_size] at inside
  by_cases old : id.index < graph.nodes.size
  · rw [adds.extend.node?_eq old] at live
    exact Or.inl live
  · have same : id = ⟨graph.nodes.size⟩ := by
      rcases id with ⟨index⟩
      simp only [NodeId.mk.injEq]
      simp only at inside old
      omega
    subst same
    rw [adds.live] at live
    exact Or.inr ⟨rfl, (Option.some.inj live).symm⟩

/-- A node that is added reads its inputs, and all else that is read was read before. -/
theorem Adds.isRead_cases (adds : graph.Adds extended op inputs outputs) {var : VarId}
    (read : extended.IsRead var) : graph.IsRead var ∨ var ∈ inputs := by
  rcases read with output | ⟨id, node, live, input⟩
  · rw [adds.extend.outputs] at output
    exact Or.inl (Or.inl output)
  · rcases adds.live_cases live with live | ⟨_, rfl⟩
    · exact Or.inl (Or.inr ⟨id, node, live, input⟩)
    · exact Or.inr input

/-- A node computes no constant. -/
theorem Adds.kind_of_constant (adds : graph.Adds extended op inputs outputs) {var : VarId}
    {value : Value} (kind : (extended.var var).kind = .constant value) :
    var.index < graph.vars.size ∧ (graph.var var).kind = .constant value := by
  by_cases old : var.index < graph.vars.size
  · exact ⟨old, adds.extend.var_eq old ▸ kind⟩
  · rcases List.mem_iff_getElem?.mp (adds.listed var (by omega) (known_of_constant kind)) with
      ⟨index, found⟩
    rw [(adds.output index var found).2.2] at kind
    cases kind

theorem Formed.types_kept (formed : graph.Formed) (extend : graph.Extends extended)
    (live : graph.node? id = some node) :
    node.inputs.map extended.type = node.inputs.map graph.type ∧
      node.outputs.map extended.type = node.outputs.map graph.type := by
  constructor
  · apply List.map_congr_left
    intro input member
    exact extend.type_eq (formed.read_known input (Or.inr ⟨id, node, live, member⟩))
  · apply List.map_congr_left
    intro output member
    rcases List.mem_iff_getElem?.mp member with ⟨index, found⟩
    exact extend.type_eq (formed.output_known id node live index output found).1

/-- A graph stays well formed if the nodes that are new are well formed with the new variables. -/
theorem Formed.extend (formed : graph.Formed) (extend : graph.Extends extended)
    (nodes : ∀ id node, extended.node? id = some node → graph.node? id = some node ∨
      (∀ (index : Nat) var, node.outputs[index]? = some var →
        var.index < extended.vars.size ∧ (extended.var var).kind = .output id index) ∧
      (∀ input ∈ node.inputs, input.index < extended.vars.size) ∧
      node.op.inferTypes (node.inputs.map extended.type) =
        Except.ok (node.outputs.map extended.type))
    (vars : ∀ var id index, graph.vars.size ≤ var.index →
      (extended.var var).kind = .output id index → id.index < extended.nodes.size ∧
        ∀ node, extended.node? id = some node → node.outputs[index]? = some var) :
    extended.Formed := by
  have varsGrown := extend.vars_size
  have nodesGrown := extend.nodes_size
  exact {
    output_known := by
      intro id node live index var found
      rcases nodes id node live with live | ⟨known, _, _⟩
      · rcases formed.output_known id node live index var found with ⟨known, kind⟩
        rw [extend.var_eq known]
        exact ⟨by omega, kind⟩
      · exact known index var found
    output_listed := by
      intro var id index node _ kind live
      by_cases old : var.index < graph.vars.size
      · rw [extend.var_eq old] at kind
        rw [extend.node?_eq (formed.named var id index kind)] at live
        exact formed.output_listed var id index node old kind live
      · exact (vars var id index (by omega) kind).2 node live
    input_root := by
      intro var input
      rw [extend.inputs] at input
      rcases formed.input_root var input with ⟨known, root⟩
      rw [extend.var_eq known]
      exact ⟨by omega, root⟩
    read_known := by
      rintro var (output | ⟨id, node, live, input⟩)
      · rw [extend.outputs] at output
        have known := formed.read_known var (Or.inl output)
        omega
      · rcases nodes id node live with live | ⟨_, known, _⟩
        · have known := formed.read_known var (Or.inr ⟨id, node, live, input⟩)
          omega
        · exact known var input
    typed := by
      intro id node live
      rcases nodes id node live with live | ⟨_, _, typed⟩
      · have kept := formed.types_kept extend live
        rw [kept.1, kept.2]
        exact formed.typed id node live
      · exact typed
    named := by
      intro var id index kind
      by_cases old : var.index < graph.vars.size
      · rw [extend.var_eq old] at kind
        have named := formed.named var id index kind
        omega
      · exact (vars var id index (by omega) kind).1 }

theorem Formed.adds (formed : graph.Formed) (adds : graph.Adds extended op inputs outputs) :
    extended.Formed := by
  have grown := adds.extend.vars_size
  refine formed.extend adds.extend ?_ ?_
  · intro id node live
    rcases adds.live_cases live with live | ⟨rfl, rfl⟩
    · exact Or.inl live
    · refine Or.inr ⟨fun index var found => (adds.output index var found).2, ?_, ?_⟩
      · intro input member
        have known := adds.inputs_known input member
        omega
      · have same : inputs.map extended.type = inputs.map graph.type :=
          List.map_congr_left fun input member => adds.extend.type_eq (adds.inputs_known input member)
        rw [same]
        exact adds.inferred
  · intro var id index new kind
    rcases List.mem_iff_getElem?.mp (adds.listed var new (known_of_kind kind)) with ⟨position, found⟩
    have kind' := (adds.output position var found).2.2
    rw [kind] at kind'
    cases kind'
    refine ⟨by simp [adds.nodes_size], ?_⟩
    intro node live
    rw [adds.live] at live
    cases live
    exact found

theorem Formed.addConstant (formed : graph.Formed) (value : Value) :
    (graph.addConstant value).2.Formed := by
  refine formed.extend (extends_addConstant graph value) (fun _ _ live => Or.inl live) ?_
  intro var id index new kind
  have inside := known_of_kind kind
  simp only [Dataflow.addConstant, Array.size_push] at inside
  have same : var.index = graph.vars.size := by omega
  simp [Dataflow.addConstant, Dataflow.var, same] at kind

end Extend

section Change

variable {old new : VarId}

theorem mem_substitute {vars : List VarId} (member : var ∈ substitute old new vars) :
    var = new ∧ old ∈ vars ∨ var ≠ old ∧ var ∈ vars := by
  rcases List.mem_map.mp member with ⟨original, originalMem, same⟩
  split at same
  · rename_i isOld
    subst isOld
    exact Or.inl ⟨same.symm, originalMem⟩
  · rename_i isOther
    subst same
    exact Or.inr ⟨isOther, originalMem⟩

/-- Redirecting changes nothing but what nodes and outputs read. -/
theorem node?_redirect : (graph.redirect old new).node? id =
    (graph.node? id).map fun node => { node with inputs := substitute old new node.inputs } := by
  unfold node? redirect
  rw [Array.getElem?_map]
  cases graph.nodes[id.index]? with
  | none => rfl
  | some place => rfl

theorem node?_redirect_eq_some : (graph.redirect old new).node? id = some node ↔
    ∃ original, graph.node? id = some original ∧
      node = { original with inputs := substitute old new original.inputs } := by
  rw [node?_redirect, Option.map_eq_some_iff]
  constructor
  · rintro ⟨original, live, rfl⟩
    exact ⟨original, live, rfl⟩
  · rintro ⟨original, live, rfl⟩
    exact ⟨original, live, rfl⟩

theorem map_type_substitute (same : graph.type old = graph.type new) (vars : List VarId) :
    (substitute old new vars).map graph.type = vars.map graph.type := by
  rw [substitute, List.map_map]
  apply List.map_congr_left
  intro var _
  simp only [Function.comp_apply]
  split
  · rename_i isOld
    rw [isOld, same]
  · rfl

theorem map_type_set {vars : List VarId} {index : Nat} (found : vars[index]? = some old)
    (same : graph.type old = graph.type new) :
    (vars.set index new).map graph.type = vars.map graph.type := by
  rcases List.getElem?_eq_some_iff.mp found with ⟨inside, foundOld⟩
  rw [List.map_set, ← same, ← foundOld, ← List.getElem_map graph.type (h := by simpa using inside),
    List.set_getElem_self]

variable [Arithmetic α]

theorem Formed.redirect (formed : graph.Formed) (known : new.index < graph.vars.size)
    (same : graph.type old = graph.type new) : (graph.redirect old new).Formed where
  output_known id node live index var found := by
    rcases node?_redirect_eq_some.mp live with ⟨original, originalLive, rfl⟩
    exact formed.output_known id original originalLive index var found
  output_listed var id index node known kind live := by
    rcases node?_redirect_eq_some.mp live with ⟨original, originalLive, rfl⟩
    exact formed.output_listed var id index original known kind originalLive
  input_root := formed.input_root
  read_known var read := by
    rcases read with output | ⟨id, node, live, input⟩
    · rcases mem_substitute output with ⟨rfl, _⟩ | ⟨_, output⟩
      · exact known
      · exact formed.read_known var (Or.inl output)
    · rcases node?_redirect_eq_some.mp live with ⟨original, originalLive, rfl⟩
      rcases mem_substitute input with ⟨rfl, _⟩ | ⟨_, input⟩
      · exact known
      · exact formed.read_known var (Or.inr ⟨id, original, originalLive, input⟩)
  typed id node live := by
    rcases node?_redirect_eq_some.mp live with ⟨original, originalLive, rfl⟩
    change original.op.inferTypes ((substitute old new original.inputs).map graph.type) =
      Except.ok (original.outputs.map graph.type)
    rw [map_type_substitute same]
    exact formed.typed id original originalLive
  named var id index kind := by
    have named := formed.named var id index kind
    simpa [Dataflow.redirect] using named

omit [Arithmetic α] in
theorem checkReplacement_eq_ok (checked : graph.checkReplacement old new = Except.ok ()) :
    old.index < graph.vars.size ∧ new.index < graph.vars.size ∧ graph.type old = graph.type new ∧
      ∀ id node, graph.node? id = some node → old ∈ node.inputs →
        id ∉ graph.ancestors new ∧ new ∉ node.outputs := by
  simp only [checkReplacement, Checked.bind_eq_ok_iff] at checked
  rcases checked with ⟨_, oldKnown, _, newKnown, checked⟩
  split at checked
  · simp at checked
  · rename_i same
    simp only [ne_eq, not_not] at same
    split at checked
    · simp at checked
    · rename_i acyclic
      refine ⟨requireVar_eq_ok.mp oldKnown, requireVar_eq_ok.mp newKnown, same, ?_⟩
      intro id node live reads
      simp only [Bool.not_eq_true, List.any_eq_false, Prod.forall, mem_liveNodes] at acyclic
      have apart := acyclic id node live
      simpa [reads] using apart

omit [Arithmetic α] in
theorem checkReplacement_of_apart (known : old.index < graph.vars.size)
    (known' : new.index < graph.vars.size) (types : graph.type old = graph.type new)
    (apart : ∀ id node, graph.node? id = some node → old ∈ node.inputs →
      ¬graph.ComputedFrom new id ∧ new ∉ node.outputs) :
    graph.checkReplacement old new = Except.ok () := by
  unfold checkReplacement
  rw [requireVar_eq_ok.mpr known, Checked.ok_bind, requireVar_eq_ok.mpr known', Checked.ok_bind,
    if_neg (not_not.mpr types)]
  refine if_neg ?_
  simp only [Bool.not_eq_true, List.any_eq_false, Prod.forall, mem_liveNodes]
  intro id node live
  by_cases reads : old ∈ node.inputs
  · simp [mem_ancestors, apart id node live reads]
  · simp [reads]

omit [Arithmetic α] in
theorem replace_eq_ok {after : Dataflow α} (answer : graph.replace old new = Except.ok after) :
    old = new ∧ after = graph ∨ old ≠ new ∧ graph.checkReplacement old new = Except.ok () ∧
      after = (graph.redirect old new).prune := by
  unfold replace at answer
  split at answer
  · cases answer
    exact Or.inl ⟨‹_›, rfl⟩
  · rw [Checked.bind_eq_ok_iff] at answer
    rcases answer with ⟨_, checked, same⟩
    cases same
    exact Or.inr ⟨‹_›, checked, rfl⟩

omit [Arithmetic α] in
theorem vars_replace {after : Dataflow α} (answer : graph.replace old new = Except.ok after) :
    after.vars = graph.vars := by
  rcases replace_eq_ok answer with ⟨_, rfl⟩ | ⟨_, _, rfl⟩
  · rfl
  · rfl

theorem Formed.replace {after : Dataflow α} (formed : graph.Formed)
    (answer : graph.replace old new = Except.ok after) : after.Formed := by
  rcases replace_eq_ok answer with ⟨_, rfl⟩ | ⟨_, checked, rfl⟩
  · exact formed
  · rcases checkReplacement_eq_ok checked with ⟨_, known, same, _⟩
    exact (formed.redirect known same).prune

theorem Formed.setOutputs (formed : graph.Formed) {outputs : List VarId}
    (known : ∀ var ∈ outputs, var.index < graph.vars.size) :
    Formed { graph with outputs } where
  output_known := formed.output_known
  output_listed := formed.output_listed
  input_root := formed.input_root
  read_known var read := by
    rcases read with output | reads
    · exact known var output
    · exact formed.read_known var (Or.inr reads)
  typed := formed.typed
  named := formed.named

omit [Arithmetic α] in
theorem replaceOutput_eq_ok {after : Dataflow α} {index : Nat}
    (answer : graph.replaceOutput index new = Except.ok after) :
    ∃ old, graph.outputs[index]? = some old ∧ new.index < graph.vars.size ∧
      graph.type old = graph.type new ∧
      after = { graph with outputs := graph.outputs.set index new }.prune := by
  simp only [replaceOutput, Checked.bind_eq_ok_iff, Checked.orError_eq_ok_iff] at answer
  rcases answer with ⟨old, found, _, known, answer⟩
  split at answer
  · simp at answer
  · rename_i same
    cases answer
    exact ⟨old, found, requireVar_eq_ok.mp known, by simpa using same, rfl⟩

theorem Formed.replaceOutput {after : Dataflow α} {index : Nat} (formed : graph.Formed)
    (answer : graph.replaceOutput index new = Except.ok after) : after.Formed := by
  rcases replaceOutput_eq_ok answer with ⟨old, _, known, _, rfl⟩
  refine (formed.setOutputs ?_).prune
  intro var output
  rcases List.mem_or_eq_of_mem_set output with output | rfl
  · exact formed.read_known var (Or.inl output)
  · exact known

theorem replaceNodeOp_eq_ok {after : Dataflow α} {op : Op α}
    (answer : graph.replaceNodeOp id op = Except.ok after) :
    ∃ node, graph.node? id = some node ∧
      op.inferTypes (node.inputs.map graph.type) = Except.ok (node.outputs.map graph.type) ∧
      after = { graph with nodes := graph.nodes.setIfInBounds id.index (some { node with op }) } := by
  simp only [replaceNodeOp, getNode, Checked.bind_eq_ok_iff, Checked.orError_eq_ok_iff,
    Checked.mapError_eq_ok_iff] at answer
  rcases answer with ⟨node, ⟨_, _, live⟩, types, inferred, answer⟩
  split at answer
  · rename_i same
    cases answer
    exact ⟨node, live, same ▸ inferred, rfl⟩
  · simp at answer

omit [Arithmetic α] in
theorem node?_setOp {other : NodeId} {content : Node α} (live : graph.node? id = some node) :
    node? { graph with nodes := graph.nodes.setIfInBounds id.index (some content) } other =
      if other = id then some content else graph.node? other := by
  have inside := lt_size_of_node? live
  unfold node?
  by_cases same : other = id
  · subst same
    simp [inside]
  · have apart : id.index ≠ other.index := by
      intro sameIndex
      apply same
      cases other
      cases id
      exact congrArg NodeId.mk sameIndex.symm
    simp [same, apart]

omit [Arithmetic α] in
/-- With another operation at a node, every node has the inputs and outputs that it had. -/
theorem original_of_setOp {op : Op α} {other : NodeId} {content : Node α}
    (live : graph.node? id = some node)
    (found : node? { graph with
      nodes := graph.nodes.setIfInBounds id.index (some { node with op }) } other = some content) :
    ∃ original, graph.node? other = some original ∧ content.inputs = original.inputs ∧
      content.outputs = original.outputs ∧
      (content.op = original.op ∨ original = node ∧ content.op = op) := by
  rw [node?_setOp live] at found
  split at found
  · rename_i same
    cases found
    exact ⟨node, same ▸ live, rfl, rfl, Or.inr ⟨rfl, rfl⟩⟩
  · exact ⟨content, found, rfl, rfl, Or.inl rfl⟩

omit [Arithmetic α] in
theorem isRead_of_setOp {op : Op α} {var : VarId} (live : graph.node? id = some node)
    (read : IsRead { graph with
      nodes := graph.nodes.setIfInBounds id.index (some { node with op }) } var) :
    graph.IsRead var := by
  rcases read with output | ⟨other, content, found, input⟩
  · exact Or.inl output
  · rcases original_of_setOp live found with ⟨original, originalLive, inputs, _⟩
    exact Or.inr ⟨other, original, originalLive, inputs ▸ input⟩

theorem WellFormed.replaceNodeOp {after : Dataflow α} {op : Op α} (wellFormed : graph.WellFormed)
    (answer : graph.replaceNodeOp id op = Except.ok after) : after.WellFormed := by
  rcases replaceNodeOp_eq_ok answer with ⟨node, live, typed, rfl⟩
  exact {
    output_known := by
      intro other content live' index var found
      rcases original_of_setOp live live' with ⟨original, originalLive, _, outputs, _⟩
      rw [outputs] at found
      exact wellFormed.output_known other original originalLive index var found
    output_listed := by
      intro var other index content known kind live'
      rcases original_of_setOp live live' with ⟨original, originalLive, _, outputs, _⟩
      rw [outputs]
      exact wellFormed.output_listed var other index original known kind originalLive
    input_root := wellFormed.input_root
    read_known := fun var read => wellFormed.read_known var (isRead_of_setOp live read)
    typed := by
      intro other content live'
      rw [node?_setOp live] at live'
      split at live'
      · cases live'
        exact typed
      · exact wellFormed.typed other content live' }

theorem Formed.replaceNodeOp {after : Dataflow α} {op : Op α} (formed : graph.Formed)
    (answer : graph.replaceNodeOp id op = Except.ok after) : after.Formed where
  toWellFormed := formed.toWellFormed.replaceNodeOp answer
  named := by
    rcases replaceNodeOp_eq_ok answer with ⟨_, _, _, rfl⟩
    intro var other index kind
    simpa using formed.named var other index kind

theorem Formed.guard (formed : graph.Formed) (var : VarId) : (graph.guard var).Formed where
  output_known := formed.output_known
  output_listed := formed.output_listed
  input_root := formed.input_root
  read_known := formed.read_known
  typed := formed.typed
  named := formed.named

end Change

end Dataflow

end ArrayGraph
