import ArrayGraph.Dataflow.Capture
import ArrayGraph.Proofs.Dataflow.Edit

/-!
# Symbolic graphs and what is captured from them

A symbolic graph is built node by node, part of it is captured, and the captured graph is edited.
Every graph that comes about in this way is well formed. The walk that capture makes is bounded by
the number of variables and reads, which is enough for it to see all that the outputs depend on, so a
captured graph is closed: all that it reads is declared, constant, shared or computed.
-/

namespace ArrayGraph

variable {α : Type}

namespace Graph

variable {graph extended : Graph α}

/-- A symbolic graph with declared inputs and outputs, before anything is removed from it. -/
def whole (graph : Graph α) (inputs outputs : List VarId) : Dataflow α where
  vars := graph.vars
  nodes := graph.nodes.map some
  inputs := inputs
  outputs := outputs
  guarded := []

theorem node?_whole {inputs outputs : List VarId} (id : NodeId) :
    (graph.whole inputs outputs).node? id = graph.nodes[id.index]? := by
  unfold Dataflow.node? whole
  rw [Array.getElem?_map]
  cases graph.nodes[id.index]? <;> rfl

variable [Arithmetic α]

/-- The symbolic graphs that can be built. -/
inductive Built : Graph α → Prop
  | empty : Built Graph.empty
  | input {graph : Graph α} (built : Built graph) (type : ArrayType) (name : String) :
      Built (graph.addInput type name).2
  | constant {graph : Graph α} (built : Built graph) (value : Value) :
      Built (graph.addConstant value).2
  | shared {graph : Graph α} (built : Built graph) (memory : Memory α) (container : ContainerId) :
      Built (graph.addShared memory container).2
  | apply {graph extended : Graph α} (built : Built graph) {op : Op α} {inputs outputs : List VarId}
      (applied : graph.apply op inputs = Except.ok (outputs, extended)) : Built extended

omit [Arithmetic α] in
theorem extends_addRoot (graph : Graph α) (type : ArrayType) (kind : VarKind) (name : Option String) :
    (graph.whole [] []).Extends ((graph.addRoot type kind name).2.whole [] []) :=
  ⟨by simp [addRoot, whole], List.prefix_refl _, rfl, rfl, rfl⟩

theorem formed_addRoot (formed : (graph.whole [] []).Formed) {kind : VarKind}
    (root : ∀ id index, kind ≠ .output id index) (type : ArrayType) (name : Option String) :
    ((graph.addRoot type kind name).2.whole [] []).Formed := by
  refine formed.extend (extends_addRoot graph type kind name) (fun _ _ live => Or.inl live) ?_
  intro var id index new kind
  have inside := Dataflow.known_of_kind kind
  simp only [addRoot, whole, Array.size_push] at inside new
  have same : var.index = graph.vars.size := by omega
  simp only [addRoot, whole, Dataflow.var, same, Array.getElem?_push_size, Option.getD_some] at kind
  exact absurd kind (root id index)

omit [Arithmetic α] in
theorem getVar_eq_ok {ε : Type} {var : VarId} {content : Variable} :
    (graph.getVar var : Checked ε Variable) = Except.ok content ↔
      graph.vars[var.index]? = some content := by
  simp [getVar]

/-- Applying an operation adds a node. -/
theorem adds_of_apply {op : Op α} {inputs outputs : List VarId}
    (applied : graph.apply op inputs = Except.ok (outputs, extended)) :
    (graph.whole [] []).Adds (extended.whole [] []) op inputs outputs := by
  simp only [apply, Checked.bind_eq_ok_iff] at applied
  rcases applied with ⟨vars, found, types, inferred, same⟩
  have read := Checked.mapM_eq_ok_iff.mp found
  have varTypes : vars.map (·.type) = inputs.map (graph.whole [] []).type := by
    rw [← List.forall₂_eq_eq_eq, List.forall₂_map_left_iff, List.forall₂_map_right_iff]
    refine read.flip.imp ?_
    intro content var known
    rw [Dataflow.type, Dataflow.var, whole, getVar_eq_ok.mp known]
    rfl
  rw [varTypes] at inferred
  cases same
  refine Dataflow.adds_of_eq ?_ inferred rfl ?_
  · intro input member
    rcases List.mem_iff_getElem?.mp member with ⟨index, position⟩
    rcases forall₂_getElem?_left read position with ⟨content, _, known⟩
    exact (Array.getElem?_eq_some_iff.mp (getVar_eq_ok.mp known)).1
  · simp [whole]

theorem formed_empty : ((Graph.empty : Graph α).whole [] []).Formed := by
  have noNode : ∀ id, ((Graph.empty : Graph α).whole [] []).node? id = none := by
    intro id
    simp [node?_whole, Graph.empty]
  have noOutput : ∀ var id index,
      (((Graph.empty : Graph α).whole [] []).var var).kind ≠ .output id index := by
    intro var id index
    rw [Dataflow.var_default (by simp [whole, Graph.empty])]
    exact VarKind.noConfusion
  refine ⟨⟨?_, ?_, by simp [whole], ?_, ?_⟩, ?_⟩
  · intro id node live
    simp [noNode] at live
  · intro var id index node _ kind
    exact absurd kind (noOutput var id index)
  · rintro var (output | ⟨id, node, live, _⟩)
    · simp [whole] at output
    · simp [noNode] at live
  · intro id node live
    simp [noNode] at live
  · intro var id index kind
    exact absurd kind (noOutput var id index)

/-- A symbolic graph that was built is well formed. -/
theorem Built.formed (built : graph.Built) : (graph.whole [] []).Formed := by
  induction built with
  | empty => exact formed_empty
  | input built type name ih => exact formed_addRoot ih (by simp) type (some name)
  | constant built value ih => exact formed_addRoot ih (by simp) value.type none
  | shared built memory container ih => exact formed_addRoot ih (by simp) _ _
  | apply built applied ih => exact ih.adds (adds_of_apply applied)

end Graph

namespace Dataflow

variable {source : Graph α} {declared : List VarId}

theorem requireRoots_eq_ok {inputs : List VarId} (checked : requireRoots source inputs = Except.ok ())
    (input : VarId) (member : input ∈ inputs) :
    ∃ var, source.vars[input.index]? = some var ∧ var.isRoot := by
  induction inputs with
  | nil => cases member
  | cons head rest ih =>
    simp only [requireRoots, Checked.bind_eq_ok_iff, Graph.getVar_eq_ok] at checked
    rcases checked with ⟨var, found, checked⟩
    split at checked
    · rename_i root
      rcases List.mem_cons.mp member with rfl | member
      · exact ⟨var, found, root⟩
      · exact ih checked member
    · simp at checked

/-- What capture requires of a variable that some output depends on, given the variables that the walk
goes to. -/
def Accepts (source : Graph α) (declared seen : List VarId) (var : VarId) : Prop :=
  ∃ content, source.vars[var.index]? = some content ∧ (content.kind = .input → var ∈ declared) ∧
    ∀ node index, content.kind = .output node index →
      ∃ reader, source.nodes[node.index]? = some reader ∧ ∀ operand ∈ reader.inputs, operand ∈ seen

theorem Accepts.mono {seen more : List VarId} {var : VarId}
    (accepts : Accepts source declared seen var) (within : ∀ var ∈ seen, var ∈ more) :
    Accepts source declared more var := by
  rcases accepts with ⟨content, found, input, output⟩
  refine ⟨content, found, input, ?_⟩
  intro node index kind
  rcases output node index kind with ⟨reader, live, operands⟩
  exact ⟨reader, live, fun operand member => within operand (operands operand member)⟩

theorem Accepts.known {seen : List VarId} {var : VarId} (accepts : Accepts source declared seen var) :
    var.index < source.vars.size := by
  rcases accepts with ⟨content, found, _⟩
  exact (Array.getElem?_eq_some_iff.mp found).1

/-- How many operands a node has at most. -/
def widest (source : Graph α) : Nat :=
  source.nodes.foldl (fun most node => max most node.inputs.length) 0

theorem length_le_widest {id : NodeId} {node : Node α}
    (live : source.nodes[id.index]? = some node) : node.inputs.length ≤ widest source := by
  have bound : ∀ (nodes : List (Node α)) (start : Nat),
      start ≤ nodes.foldl (fun most node => max most node.inputs.length) start ∧
        ∀ node ∈ nodes, node.inputs.length ≤
          nodes.foldl (fun most node => max most node.inputs.length) start := by
    intro nodes
    induction nodes with
    | nil => simp
    | cons head rest ih =>
      intro start
      have further := ih (max start head.inputs.length)
      rw [List.foldl_cons]
      refine ⟨by omega, ?_⟩
      intro node member
      rcases List.mem_cons.mp member with rfl | member
      · omega
      · exact further.2 node member
  rw [widest, ← Array.foldl_toList]
  exact (bound source.nodes.toList 0).2 node (Array.mem_toList_iff.mpr (Array.mem_of_getElem? live))

theorem length_le_of_known {vars : List VarId} (distinct : vars.Nodup) {size : Nat}
    (known : ∀ var ∈ vars, var.index < size) : vars.length ≤ size := by
  have indices : (vars.map VarId.index).Nodup := by
    apply distinct.map
    intro first second same
    cases first
    cases second
    exact congrArg VarId.mk same
  have within : vars.map VarId.index ⊆ List.range size := by
    intro index member
    rcases List.mem_map.mp member with ⟨var, varMem, rfl⟩
    exact List.mem_range.mpr (known var varMem)
  have bound := (indices.subperm within).length_le
  simpa using bound

/-- Visiting a variable that has not been visited leaves enough steps for its operands. -/
theorem walk_bound {size visited width stack operands fuel : Nat} (room : visited < size)
    (few : operands ≤ width)
    (bound : stack + 1 + (size - visited) * (width + 1) ≤ fuel + 1) :
    operands + stack + (size - (visited + 1)) * (width + 1) ≤ fuel := by
  have split : size - visited = size - (visited + 1) + 1 := by omega
  rw [split, Nat.add_mul] at bound
  omega

/-- Where the walk goes on from a variable that it has not visited: it pushes operands that are
enough for the variable to be accepted. -/
theorem requireDeclared_visit {fuel : Nat} {id : VarId} {stack visited : List VarId}
    (first : id ∉ visited)
    (checked : requireDeclared source declared (fuel + 1) (id :: stack) visited = Except.ok ()) :
    ∃ operands : List VarId, operands.length ≤ widest source ∧
      Accepts source declared operands id ∧
      requireDeclared source declared fuel (operands ++ stack) (id :: visited) = Except.ok () := by
  rw [requireDeclared, if_neg first] at checked
  simp only [Checked.bind_eq_ok_iff, Graph.getVar_eq_ok] at checked
  rcases checked with ⟨content, found, checked⟩
  cases kind : content.kind with
  | input =>
    simp only [kind] at checked
    split at checked
    · rename_i isDeclared
      exact ⟨[], by simp, ⟨content, found, fun _ => isDeclared, by simp [kind]⟩, checked⟩
    · simp at checked
  | shared container =>
    simp only [kind] at checked
    exact ⟨[], by simp, ⟨content, found, by simp [kind], by simp [kind]⟩, checked⟩
  | constant value =>
    simp only [kind] at checked
    exact ⟨[], by simp, ⟨content, found, by simp [kind], by simp [kind]⟩, checked⟩
  | output node position =>
    simp only [kind, Checked.bind_eq_ok_iff] at checked
    rcases checked with ⟨reader, live, checked⟩
    have live : source.nodes[node.index]? = some reader := by
      simpa [Graph.getNode] using live
    refine ⟨reader.inputs.reverse, by simpa using length_le_widest live,
      ⟨content, found, by simp [kind], ?_⟩, checked⟩
    intro node' index kind'
    rw [kind] at kind'
    cases kind'
    exact ⟨reader, live, fun operand member => List.mem_reverse.mpr member⟩

/-- If the walk ends well, it has seen all that the variables on the stack depend on. -/
theorem requireDeclared_eq_ok {fuel : Nat} {stack visited : List VarId}
    (bound : stack.length + (source.vars.size - visited.length) * (widest source + 1) ≤ fuel)
    (distinct : visited.Nodup)
    (accepted : ∀ var ∈ visited, Accepts source declared (visited ++ stack) var)
    (checked : requireDeclared source declared fuel stack visited = Except.ok ()) :
    ∃ seen, (∀ var ∈ visited ++ stack, var ∈ seen) ∧
      ∀ var ∈ seen, Accepts source declared seen var := by
  induction fuel generalizing stack visited with
  | zero =>
    cases stack with
    | nil => exact ⟨visited, by simp, by simpa using accepted⟩
    | cons id stack =>
      simp only [List.length_cons] at bound
      omega
  | succ fuel ih =>
    cases stack with
    | nil => exact ⟨visited, by simp, by simpa using accepted⟩
    | cons id stack =>
      simp only [List.length_cons] at bound
      by_cases again : id ∈ visited
      · rw [requireDeclared, if_pos again] at checked
        have within : ∀ var ∈ visited ++ id :: stack, var ∈ visited ++ stack := by
          intro var member
          simp only [List.mem_append, List.mem_cons] at member ⊢
          rcases member with member | rfl | member
          · exact Or.inl member
          · exact Or.inl again
          · exact Or.inr member
        rcases ih (by omega) distinct (fun var member => (accepted var member).mono within)
          checked with ⟨seen, included, accepts⟩
        exact ⟨seen, fun var member => included var (within var member), accepts⟩
      · rcases requireDeclared_visit again checked with ⟨operands, few, self, checked⟩
        have distinct' : (id :: visited).Nodup := List.nodup_cons.mpr ⟨again, distinct⟩
        have room : visited.length < source.vars.size := by
          refine length_le_of_known distinct' ?_
          intro var member
          rcases List.mem_cons.mp member with rfl | member
          · exact self.known
          · exact (accepted var member).known
        have within : ∀ var ∈ visited ++ id :: stack,
            var ∈ id :: visited ++ (operands ++ stack) := by
          intro var member
          simp only [List.mem_append, List.mem_cons] at member ⊢
          tauto
        -- What was accepted stays accepted: nothing that was to be seen is dropped.
        have accepted' : ∀ var ∈ id :: visited,
            Accepts source declared (id :: visited ++ (operands ++ stack)) var := by
          intro var member
          rcases List.mem_cons.mp member with rfl | member
          · exact self.mono fun operand member =>
              List.mem_append_right _ (List.mem_append_left _ member)
          · exact (accepted var member).mono within
        rcases ih (by simpa using walk_bound room few bound) distinct' accepted' checked with
          ⟨seen, included, accepts⟩
        exact ⟨seen, fun var member => included var (within var member), accepts⟩

/-- Either every output depends on a declared input, or the first one that does not is reported. -/
theorem requireConnected_cases (graph : Dataflow α) (outputs : List VarId) (start : Nat) :
    requireConnected graph start outputs = Except.ok () ∧
        (∀ output ∈ outputs, graph.inputs.any (· ∈ graph.rootAncestors output) = true) ∨
      ∃ index output, outputs[index]? = some output ∧
        ¬graph.inputs.any (· ∈ graph.rootAncestors output) = true ∧
        (∀ earlier < index, ∀ other, outputs[earlier]? = some other →
          graph.inputs.any (· ∈ graph.rootAncestors other) = true) ∧
        requireConnected graph start outputs =
          Checked.raise (.disconnectedOutput (start + index)) := by
  induction outputs generalizing start with
  | nil => exact Or.inl ⟨rfl, by simp⟩
  | cons output rest ih =>
    unfold requireConnected
    split
    · rename_i connected
      rcases ih (start + 1) with ⟨passed, all⟩ | ⟨index, other, found, not, first, failed⟩
      · exact Or.inl ⟨passed, List.forall_mem_cons.mpr ⟨connected, all⟩⟩
      · refine Or.inr ⟨index + 1, other, found, not, ?_, ?_⟩
        · intro earlier before other found
          cases earlier with
          | zero =>
            cases found
            exact connected
          | succ earlier => exact first earlier (by omega) other found
        · rw [failed, Nat.add_assoc, Nat.add_comm 1]
    · rename_i disconnected
      exact Or.inr ⟨0, output, rfl, disconnected, by simp, rfl⟩

/-- What capture gives is a part of the symbolic graph in which everything that the outputs depend on
is accepted. -/
theorem capture_eq_ok {graph : Dataflow α} {inputs outputs : List VarId} {requireDependence : Bool}
    (captured : capture source inputs outputs requireDependence = Except.ok graph) :
    graph = (source.whole inputs outputs).prune ∧
      (∀ input ∈ inputs, ∃ var, source.vars[input.index]? = some var ∧ var.isRoot) ∧
      ∃ seen, (∀ var ∈ outputs, var ∈ seen) ∧ ∀ var ∈ seen, Accepts source inputs seen var := by
  simp only [capture, Checked.bind_eq_ok_iff] at captured
  rcases captured with ⟨_, roots, _, declared, captured⟩
  have same : graph = (source.whole inputs outputs).prune := by
    split at captured
    · rw [Checked.bind_eq_ok_iff] at captured
      rcases captured with ⟨_, _, same⟩
      cases same
      rfl
    · cases captured
      rfl
  refine ⟨same, requireRoots_eq_ok roots, ?_⟩
  rcases requireDeclared_eq_ok (by simp [walkLength, widest]) List.nodup_nil (by simp) declared with
    ⟨seen, included, accepts⟩
  exact ⟨seen, fun var output => included var (by simpa using output), accepts⟩

section Captured

variable {inputs outputs seen : List VarId}

/-- The operands of all that the outputs depend on are seen. -/
theorem seen_of_computedFrom (included : ∀ var ∈ outputs, var ∈ seen)
    (accepts : ∀ var ∈ seen, Accepts source inputs seen var) {output : VarId}
    (member : output ∈ outputs) {id : NodeId}
    (computed : (source.whole inputs outputs).ComputedFrom output id) {node : Node α}
    (live : (source.whole inputs outputs).node? id = some node) :
    ∀ operand ∈ node.inputs, operand ∈ seen := by
  have ofSeen : ∀ var ∈ seen, ∀ id, (source.whole inputs outputs).producerId? var = some id →
      ∀ node, (source.whole inputs outputs).node? id = some node →
        ∀ operand ∈ node.inputs, operand ∈ seen := by
    intro var varSeen id produced node live
    rcases producerId?_eq_some.mp produced with ⟨content, index, found⟩
    have kind := (producer?_eq_some.mp found).1
    rcases accepts var varSeen with ⟨entry, entryFound, _, outputAccepted⟩
    have entryKind : entry.kind = .output id index := by
      rw [Dataflow.var, Graph.whole, entryFound] at kind
      exact kind
    rcases outputAccepted id index entryKind with ⟨reader, readerLive, operands⟩
    rw [Graph.node?_whole, readerLive] at live
    cases live
    exact operands
  rcases computed with ⟨producer, produced, path⟩
  induction path generalizing node with
  | refl => exact ofSeen output (included output member) producer produced node live
  | tail _ reads ih =>
    rcases readsFrom_iff.mp reads with ⟨reader, readerLive, input, inputMem, inputProduced⟩
    exact ofSeen input (ih readerLive input inputMem) _ inputProduced node live

/-- A variable that is read once the rest is removed was seen, and what computes it is kept. -/
theorem seen_of_isRead (included : ∀ var ∈ outputs, var ∈ seen)
    (accepts : ∀ var ∈ seen, Accepts source inputs seen var) {var : VarId}
    (read : (source.whole inputs outputs).prune.IsRead var) :
    var ∈ seen ∧ ∀ id, (source.whole inputs outputs).producerId? var = some id →
      id ∈ (source.whole inputs outputs).ancestorsOf outputs := by
  rcases read with output | ⟨reader, node, live, input⟩
  · refine ⟨included var output, fun id produced => mem_ancestorsOf.mpr ?_⟩
    exact ⟨var, output, id, produced, Relation.ReflTransGen.refl⟩
  · rcases node?_prune.mp live with ⟨live, kept⟩
    rcases mem_ancestorsOf.mp kept with ⟨output, outputMem, computed⟩
    refine ⟨seen_of_computedFrom included accepts outputMem computed live var input, ?_⟩
    intro id produced
    rcases computed with ⟨producer, outputProduced, path⟩
    refine mem_ancestorsOf.mpr ⟨output, outputMem, producer, outputProduced, ?_⟩
    exact path.tail (readsFrom_iff.mpr ⟨node, live, var, input, produced⟩)

end Captured

variable [Arithmetic α] {graph : Dataflow α} {inputs outputs : List VarId}
  {requireDependence : Bool}

/-- A captured graph is well formed. -/
theorem formed_of_capture (built : source.Built)
    (captured : capture source inputs outputs requireDependence = Except.ok graph) :
    graph.Formed := by
  rcases capture_eq_ok captured with ⟨rfl, roots, seen, included, accepts⟩
  have formed := built.formed
  have nodeSame : ∀ id, (source.whole inputs outputs).node? id = (source.whole [] []).node? id := by
    intro id
    rw [Graph.node?_whole, Graph.node?_whole]
  have whole : (source.whole inputs outputs).Formed := {
    output_known := fun id node live => formed.output_known id node (nodeSame id ▸ live)
    output_listed := fun var id index node known kind live =>
      formed.output_listed var id index node known kind (nodeSame id ▸ live)
    input_root := by
      intro var input
      rcases roots var input with ⟨content, found, root⟩
      refine ⟨(Array.getElem?_eq_some_iff.mp found).1, ?_⟩
      intro id index kind
      rw [Dataflow.var, Graph.whole, found] at kind
      simp [Variable.isRoot, Variable.producer?, show content.kind = .output id index from kind]
        at root
    read_known := by
      rintro var (output | ⟨id, node, live, input⟩)
      · exact (accepts var (included var output)).known
      · exact formed.read_known var (Or.inr ⟨id, node, nodeSame id ▸ live, input⟩)
    typed := fun id node live => formed.typed id node (nodeSame id ▸ live)
    named := formed.named }
  exact whole.prune

omit [Arithmetic α] in
/-- A captured graph is closed. -/
theorem closed_of_capture
    (captured : capture source inputs outputs requireDependence = Except.ok graph) :
    graph.Closed := by
  rcases capture_eq_ok captured with ⟨rfl, _, seen, included, accepts⟩
  intro var read
  rcases seen_of_isRead included accepts read with ⟨varSeen, kept⟩
  rcases accepts var varSeen with ⟨content, found, input, output⟩
  have kindSame : ((source.whole inputs outputs).prune.var var).kind = content.kind := by
    rw [Dataflow.var, prune, Graph.whole, found]
    rfl
  rw [kindSame]
  cases kind : content.kind with
  | input => exact Or.inl (input kind)
  | constant value => exact Or.inr (Or.inl ⟨value, rfl⟩)
  | shared container => exact Or.inr (Or.inr (Or.inl ⟨container, rfl⟩))
  | output id index =>
    rcases output id index kind with ⟨node, live, _⟩
    have live : (source.whole inputs outputs).node? id = some node := by
      rw [Graph.node?_whole, live]
    have produced : (source.whole inputs outputs).producerId? var = some id :=
      producerId?_eq_some.mpr ⟨node, index, producer?_eq_some.mpr ⟨kindSame.trans kind, live⟩⟩
    refine Or.inr (Or.inr (Or.inr ⟨id, producerId?_eq_some.mpr ⟨node, index, ?_⟩⟩))
    exact producer?_eq_some.mpr ⟨kindSame.trans kind, node?_prune.mpr ⟨live, kept id produced⟩⟩

/-- The graphs that are captured from a symbolic graph and edited. -/
inductive Edited : Dataflow α → Prop
  | capture {source : Graph α} {inputs outputs : List VarId} {requireDependence : Bool}
      {graph : Dataflow α} (built : source.Built)
      (captured : capture source inputs outputs requireDependence = Except.ok graph) : Edited graph
  | addConstant {graph : Dataflow α} (edited : Edited graph) (value : Value) :
      Edited (graph.addConstant value).2
  | addNode {graph extended : Dataflow α} (edited : Edited graph) {op : Op α}
      {inputs outputs : List VarId} (added : graph.addNode op inputs = Except.ok (outputs, extended)) :
      Edited extended
  | replace {graph after : Dataflow α} (edited : Edited graph) {old new : VarId}
      (replaced : graph.replace old new = Except.ok after) : Edited after
  | replaceOutput {graph after : Dataflow α} (edited : Edited graph) {index : Nat} {new : VarId}
      (replaced : graph.replaceOutput index new = Except.ok after) : Edited after
  | replaceNodeOp {graph after : Dataflow α} (edited : Edited graph) {id : NodeId} {op : Op α}
      (replaced : graph.replaceNodeOp id op = Except.ok after) : Edited after
  | prune {graph : Dataflow α} (edited : Edited graph) : Edited graph.prune
  | guard {graph : Dataflow α} (edited : Edited graph) (var : VarId) : Edited (graph.guard var)

/-- Every captured graph is well formed, whatever edits it has gone through. -/
theorem Edited.formed (edited : graph.Edited) : graph.Formed := by
  induction edited with
  | capture built captured => exact formed_of_capture built captured
  | addConstant _ value ih => exact ih.addConstant value
  | addNode _ added ih => exact ih.adds (addNode_eq_ok added)
  | replace _ replaced ih => exact ih.replace replaced
  | replaceOutput _ replaced ih => exact ih.replaceOutput replaced
  | replaceNodeOp _ replaced ih => exact ih.replaceNodeOp replaced
  | prune _ ih => exact ih.prune
  | guard _ var ih => exact ih.guard var

end Dataflow

end ArrayGraph
