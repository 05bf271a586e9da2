import ArrayGraph.Proofs.Dataflow.Edit
import ArrayGraph.Proofs.Evaluation

/-!
# What variables stand for while a graph is changed

A graph is changed by adding to it, by removing what no output depends on, and by letting one
variable be read in the place of another. Each of these keeps what variables stand for, as far as
they are still there: an added variable is read by nothing, a removed node is not needed, and a
variable is read in the place of another one only if it stands for the same array and is not computed
from a reader of that one.
-/

namespace ArrayGraph

theorem Variable.constant?_eq_some {var : Variable} {value : Value} :
    var.constant? = some value ↔ var.kind = .constant value := by
  cases kind : var.kind <;> simp [Variable.constant?, kind]

namespace Dataflow

open Relation

variable {α : Type}

/-- What roots stand for: a constant for its value, any other root for what it is given. -/
def environment (graph : Dataflow α) (memory : Memory α) (given : VarId → Option (Tensor α))
    (var : VarId) : Option (Tensor α) :=
  match (graph.var var).constant? with
  | some value => some (memory.tensor value)
  | none => given var

/-- A variable stands for an array, with constants as they are in the memory. -/
abbrev Yields [Arithmetic α] (graph : Dataflow α) (hosts : Meaning α) (memory : Memory α)
    (given : VarId → Option (Tensor α)) : VarId → Tensor α → Prop :=
  graph.Evaluates hosts (graph.environment memory given)

variable {graph : Dataflow α} {memory : Memory α} {given : VarId → Option (Tensor α)}
  {id : NodeId} {node : Node α} {var old new : VarId}

theorem environment_of_constant {value : Value} (kind : (graph.var var).kind = .constant value) :
    graph.environment memory given var = some (memory.tensor value) := by
  simp [environment, Variable.constant?, kind]

theorem environment_of_not_constant (kind : ∀ value, (graph.var var).kind ≠ .constant value) :
    graph.environment memory given var = given var := by
  cases found : (graph.var var).kind with
  | constant value => exact absurd found (kind value)
  | _ => simp [environment, Variable.constant?, found]

theorem producer?_of_output (kind : (graph.var var).kind = .output id index)
    (live : graph.node? id = some node) : graph.producer? var = some (id, node, index) :=
  producer?_eq_some.mpr ⟨kind, live⟩

variable [Arithmetic α] {hosts : Meaning α} {tensor : Tensor α}

theorem yields_constant {value : Value} (kind : (graph.var var).kind = .constant value) :
    graph.Yields hosts memory given var tensor ↔ memory.tensor value = tensor := by
  have unproduced : graph.producerNode? var = none := by
    apply producerNode?_eq_none.mpr
    apply producer?_eq_none_of_kind
    simp [kind]
  simp only [Yields, Evaluates, Evaluates.root_iff unproduced, environment_of_constant kind,
    Option.some.injEq]

section Extend

variable {extended : Dataflow α}

theorem Extends.producer?_eq (formed : graph.Formed) (extend : graph.Extends extended)
    (known : var.index < graph.vars.size) : extended.producer? var = graph.producer? var := by
  cases kind : (graph.var var).kind with
  | output id index =>
    simp only [Dataflow.producer?, extend.var_eq known, Variable.producer?, kind,
      extend.node?_eq (formed.named var id index kind)]
  | _ => simp [Dataflow.producer?, extend.var_eq known, Variable.producer?, kind]

theorem Extends.producerId?_eq (formed : graph.Formed) (extend : graph.Extends extended)
    (known : var.index < graph.vars.size) : extended.producerId? var = graph.producerId? var := by
  simp only [producerId?, extend.producer?_eq formed known]

theorem Extends.readsFrom {reader source : NodeId} (formed : graph.Formed)
    (extend : graph.Extends extended) (reads : graph.ReadsFrom reader source) :
    extended.ReadsFrom reader source := by
  rcases readsFrom_iff.mp reads with ⟨content, live, input, member, produced⟩
  have known := formed.read_known input (Or.inr ⟨reader, content, live, member⟩)
  refine readsFrom_iff.mpr ⟨content, extend.live live, input, member, ?_⟩
  rw [extend.producerId?_eq formed known, produced]

/-- A node that was there reads from what it read from. -/
theorem Extends.readsFrom_of_live {reader source : NodeId} {node : Node α} (formed : graph.Formed)
    (extend : graph.Extends extended) (live : graph.node? reader = some node)
    (reads : extended.ReadsFrom reader source) : graph.ReadsFrom reader source := by
  rcases readsFrom_iff.mp reads with ⟨content, contentLive, input, member, produced⟩
  cases (extend.live live).symm.trans contentLive
  have known := formed.read_known input (Or.inr ⟨reader, node, live, member⟩)
  rw [extend.producerId?_eq formed known] at produced
  exact readsFrom_iff.mpr ⟨node, live, input, member, produced⟩

theorem Extends.computedFrom (formed : graph.Formed) (extend : graph.Extends extended)
    (known : var.index < graph.vars.size) (computed : graph.ComputedFrom var id) :
    extended.ComputedFrom var id := by
  rcases computed with ⟨producer, produced, path⟩
  refine ⟨producer, by rw [extend.producerId?_eq formed known, produced], ?_⟩
  exact ReflTransGen.mono (fun _ _ reads => extend.readsFrom formed reads) _ _ path

/-- An added variable makes no difference to those that were there. -/
theorem Extends.evaluates_iff {roots roots' : VarId → Option (Tensor α)} (formed : graph.Formed)
    (extend : graph.Extends extended) (known : var.index < graph.vars.size)
    (same : ∀ var : VarId, var.index < graph.vars.size → roots' var = roots var) :
    extended.Evaluates hosts roots' var tensor ↔ graph.Evaluates hosts roots var tensor := by
  refine Evaluates.congr_iff (fun var => var.index < graph.vars.size) ?_ ?_ known
  · intro var known
    exact ⟨by simp only [producerNode?, extend.producer?_eq formed known], same var known⟩
  · intro var node index known produced input member
    rcases producerNode?_eq_some.mp produced with ⟨id, found⟩
    exact formed.read_known input (Or.inr ⟨id, node, (producer?_eq_some.mp found).2, member⟩)

theorem Extends.yields (formed : graph.Formed) (extend : graph.Extends extended)
    (known : var.index < graph.vars.size) (yields : graph.Yields hosts memory given var tensor) :
    extended.Yields hosts memory given var tensor := by
  refine (extend.evaluates_iff formed known fun var known => ?_).mpr yields
  simp only [environment, extend.var_eq known]

end Extend

section Prune

omit [Arithmetic α] in
/-- What is read after pruning is computed by nodes that were kept. -/
theorem IsRead.kept (read : graph.prune.IsRead var) (produced : graph.producerId? var = some id) :
    id ∈ graph.ancestorsOf graph.outputs := by
  apply mem_ancestorsOf.mpr
  rcases read with output | ⟨reader, content, live, input⟩
  · exact ⟨var, output, id, produced, ReflTransGen.refl⟩
  · rcases node?_prune.mp live with ⟨live, kept⟩
    rcases mem_ancestorsOf.mp kept with ⟨output, member, producer, found, path⟩
    exact ⟨output, member, producer, found,
      path.tail (readsFrom_iff.mpr ⟨content, live, var, input, produced⟩)⟩

omit [Arithmetic α] in
theorem producer?_prune (kept : ∀ id, graph.producerId? var = some id →
    id ∈ graph.ancestorsOf graph.outputs) : graph.prune.producer? var = graph.producer? var := by
  cases found : graph.producer? var with
  | none =>
    cases found' : graph.prune.producer? var with
    | none => rfl
    | some content =>
      rcases content with ⟨id, node, index⟩
      rcases producer?_eq_some.mp found' with ⟨kind, live⟩
      have produced : graph.producer? var = some (id, node, index) :=
        producer?_of_output kind (node?_prune.mp live).1
      simp [found] at produced
  | some content =>
    rcases content with ⟨id, node, index⟩
    rcases producer?_eq_some.mp found with ⟨kind, live⟩
    apply producer?_eq_some.mpr
    exact ⟨kind, node?_prune.mpr ⟨live, kept id (producerId?_eq_some.mpr ⟨node, index, found⟩)⟩⟩

omit [Arithmetic α] in
theorem IsRead.producerId?_prune (read : graph.prune.IsRead var) :
    graph.prune.producerId? var = graph.producerId? var := by
  simp only [producerId?, producer?_prune fun id produced => read.kept produced]

/-- Every node is one that an output depends on. -/
def Pruned (graph : Dataflow α) : Prop :=
  ∀ id node, graph.node? id = some node → id ∈ graph.ancestorsOf graph.outputs

omit [Arithmetic α] in
theorem ComputedFrom.prune {output : VarId} (member : output ∈ graph.outputs)
    (computed : graph.ComputedFrom output id) : graph.prune.ComputedFrom output id := by
  rcases computed with ⟨producer, produced, path⟩
  have read : graph.prune.IsRead output := Or.inl member
  refine ⟨producer, by rw [read.producerId?_prune, produced], ?_⟩
  induction path with
  | refl => exact ReflTransGen.refl
  | tail before reads ih =>
    apply ih.tail
    rcases readsFrom_iff.mp reads with ⟨content, live, input, inputMem, inputProduced⟩
    have kept := mem_ancestorsOf.mpr ⟨output, member, producer, produced, before⟩
    have live' := node?_prune.mpr ⟨live, kept⟩
    have inputRead : graph.prune.IsRead input := Or.inr ⟨_, content, live', inputMem⟩
    apply readsFrom_iff.mpr
    exact ⟨content, live', input, inputMem, by rw [inputRead.producerId?_prune, inputProduced]⟩

omit [Arithmetic α] in
theorem pruned_prune : graph.prune.Pruned := by
  intro id node live
  rcases mem_ancestorsOf.mp (node?_prune.mp live).2 with ⟨output, member, computed⟩
  exact mem_ancestorsOf.mpr ⟨output, member, computed.prune member⟩

/-- Without further nodes, every node is still one that an output depends on. -/
theorem Pruned.extend {extended : Dataflow α} (pruned : graph.Pruned) (formed : graph.Formed)
    (extend : graph.Extends extended) (size : extended.nodes.size = graph.nodes.size) :
    extended.Pruned := by
  intro id node live
  have inside := lt_size_of_node? live
  rw [size] at inside
  rw [extend.node?_eq inside] at live
  rcases mem_ancestorsOf.mp (pruned id node live) with ⟨output, member, computed⟩
  apply mem_ancestorsOf.mpr
  refine ⟨output, by rwa [extend.outputs], ?_⟩
  exact extend.computedFrom formed (formed.read_known output (Or.inl member)) computed

/-- Nothing is removed that a variable is computed from whose own producer is kept. -/
theorem evaluates_prune_iff {roots : VarId → Option (Tensor α)}
    (kept : ∀ id, graph.producerId? var = some id → id ∈ graph.ancestorsOf graph.outputs) :
    graph.prune.Evaluates hosts roots var tensor ↔ graph.Evaluates hosts roots var tensor := by
  refine Evaluates.congr_iff (fun var => ∀ id, graph.producerId? var = some id →
    id ∈ graph.ancestorsOf graph.outputs) ?_ ?_ kept
  · intro var kept
    exact ⟨by simp only [producerNode?, producer?_prune kept], rfl⟩
  · intro var node index kept produced input member source sourceProduced
    rcases producerNode?_eq_some.mp produced with ⟨id, found⟩
    have live := (producer?_eq_some.mp found).2
    rcases mem_ancestorsOf.mp (kept id (producerId?_eq_some.mpr ⟨node, index, found⟩)) with
      ⟨output, outputMem, producer, outputProduced, path⟩
    apply mem_ancestorsOf.mpr
    exact ⟨output, outputMem, producer, outputProduced,
      path.tail (readsFrom_iff.mpr ⟨node, live, input, member, sourceProduced⟩)⟩

theorem yields_prune (kept : ∀ id, graph.producerId? var = some id →
      id ∈ graph.ancestorsOf graph.outputs)
    (yields : graph.Yields hosts memory given var tensor) :
    graph.prune.Yields hosts memory given var tensor :=
  (evaluates_prune_iff kept).mpr yields

end Prune

section Redirect

omit [Arithmetic α] in
theorem producer?_redirect : (graph.redirect old new).producer? var =
    (graph.producer? var).map fun (id, node, index) =>
      (id, { node with inputs := substitute old new node.inputs }, index) := by
  cases kind : (graph.var var).kind with
  | output id index =>
    have kind' : ((graph.redirect old new).var var).kind = .output id index := kind
    simp only [Dataflow.producer?, Variable.producer?, kind, kind', node?_redirect, Option.map_map]
    rfl
  | _ =>
    have kind' := kind
    change ((graph.redirect old new).var var).kind = _ at kind'
    simp [Dataflow.producer?, Variable.producer?, kind, kind']

omit [Arithmetic α] in
theorem producerId?_redirect :
    (graph.redirect old new).producerId? var = graph.producerId? var := by
  simp only [producerId?, producer?_redirect, Option.map_map]
  rfl

omit [Arithmetic α] in
theorem producerNode?_redirect : (graph.redirect old new).producerNode? var =
    (graph.producerNode? var).map fun (node, index) =>
      ({ node with inputs := substitute old new node.inputs }, index) := by
  simp only [producerNode?, producer?_redirect, Option.map_map]
  rfl

omit [Arithmetic α] in
/-- Who is read after a redirection: the new variable in the place of the old one, and else who was
read before. -/
theorem IsRead.of_redirect (read : (graph.redirect old new).IsRead var) :
    var = new ∧ graph.IsRead old ∨ var ≠ old ∧ graph.IsRead var := by
  rcases read with output | ⟨id, node, live, input⟩
  · rcases mem_substitute output with ⟨same, member⟩ | ⟨different, member⟩
    · exact Or.inl ⟨same, Or.inl member⟩
    · exact Or.inr ⟨different, Or.inl member⟩
  · rcases node?_redirect_eq_some.mp live with ⟨original, originalLive, rfl⟩
    rcases mem_substitute input with ⟨same, member⟩ | ⟨different, member⟩
    · exact Or.inl ⟨same, Or.inr ⟨id, original, originalLive, member⟩⟩
    · exact Or.inr ⟨different, Or.inr ⟨id, original, originalLive, member⟩⟩

omit [Arithmetic α] in
theorem substitute_of_notMem {vars : List VarId} (absent : old ∉ vars) :
    substitute old new vars = vars := by
  rw [substitute, List.map_congr_left (g := id), List.map_id]
  intro var member
  apply if_neg
  rintro rfl
  exact absent member

omit [Arithmetic α] in
/-- Nothing happens if nobody reads the old variable. -/
theorem redirect_of_not_isRead (unread : ¬graph.IsRead old) : graph.redirect old new = graph := by
  have outputs : substitute old new graph.outputs = graph.outputs :=
    substitute_of_notMem fun member => unread (Or.inl member)
  have nodes : (graph.redirect old new).nodes = graph.nodes := by
    apply Array.ext_getElem?
    intro index
    simp only [redirect, Array.getElem?_map]
    cases place : graph.nodes[index]? with
    | none => rfl
    | some content =>
      cases content with
      | none => rfl
      | some node =>
        have live : graph.node? ⟨index⟩ = some node := by simp [node?, place]
        have absent : old ∉ node.inputs := fun member => unread (Or.inr ⟨⟨index⟩, node, live, member⟩)
        simp [substitute_of_notMem absent]
  simp only [redirect] at nodes ⊢
  rw [nodes, outputs]

/-- What is not computed from a reader of the old variable stands for what it stood for. -/
theorem evaluates_redirect_iff_of_apart {roots : VarId → Option (Tensor α)}
    (apart : ∀ id node, graph.node? id = some node → old ∈ node.inputs →
      ¬graph.ComputedFrom var id) :
    (graph.redirect old new).Evaluates hosts roots var tensor ↔
      graph.Evaluates hosts roots var tensor := by
  refine Evaluates.congr_iff (fun var => ∀ id node, graph.node? id = some node →
    old ∈ node.inputs → ¬graph.ComputedFrom var id) ?_ ?_ apart
  · intro var apart
    refine ⟨?_, rfl⟩
    cases produced : graph.producerNode? var with
    | none => simp [producerNode?_redirect, produced]
    | some content =>
      rcases content with ⟨node, index⟩
      rcases producerNode?_eq_some.mp produced with ⟨id, found⟩
      have absent : old ∉ node.inputs := by
        intro member
        exact apart id node (producer?_eq_some.mp found).2 member
          ⟨id, producerId?_eq_some.mpr ⟨node, index, found⟩, ReflTransGen.refl⟩
      simp [producerNode?_redirect, produced, substitute_of_notMem absent]
  · intro var node index apart produced input member reader content readerLive reads computed
    rcases producerNode?_eq_some.mp produced with ⟨id, found⟩
    rcases computed with ⟨producer, inputProduced, path⟩
    apply apart reader content readerLive reads
    exact ⟨id, producerId?_eq_some.mpr ⟨node, index, found⟩, path.head
      (readsFrom_iff.mpr ⟨node, (producer?_eq_some.mp found).2, input, member, inputProduced⟩)⟩

theorem yields_redirect_of_apart
    (apart : ∀ id node, graph.node? id = some node → old ∈ node.inputs → ¬graph.ComputedFrom var id)
    (yields : graph.Yields hosts memory given var tensor) :
    (graph.redirect old new).Yields hosts memory given var tensor :=
  (evaluates_redirect_iff_of_apart apart).mpr yields

/-- A variable that stands for the array of another one can be read in its place. -/
theorem yields_redirect
    (apart : ∀ id node, graph.node? id = some node → old ∈ node.inputs → ¬graph.ComputedFrom new id)
    (stands : ∀ tensor, graph.Yields hosts memory given old tensor →
      graph.Yields hosts memory given new tensor)
    (yields : graph.Yields hosts memory given var tensor) :
    (graph.redirect old new).Yields hosts memory given (if var = old then new else var) tensor := by
  refine Evaluates.simulate (fun _ => True) (fun var => if var = old then new else var) ?_ ?_
    trivial yields
  · intro var _ unproduced tensor found
    by_cases same : var = old
    · subst same
      rw [if_pos rfl]
      exact yields_redirect_of_apart apart (stands tensor (Evaluates.root unproduced found))
    · rw [if_neg same]
      apply Evaluates.root
      · simp [producerNode?_redirect, unproduced]
      · exact found
  · intro var node index _ produced
    by_cases same : var = old
    · subst same
      left
      intro tensor evaluates
      rw [if_pos rfl]
      exact yields_redirect_of_apart apart (stands tensor evaluates)
    · right
      refine ⟨fun _ _ => trivial, { node with inputs := substitute old new node.inputs }, ?_, rfl,
        fun _ _ computed => computed⟩
      rw [if_neg same]
      simp [producerNode?_redirect, produced]

end Redirect

section SetOp

variable {content : Node α}

omit [Arithmetic α] in
theorem producer?_setOp (live : graph.node? id = some node) :
    producer? { graph with nodes := graph.nodes.setIfInBounds id.index (some content) } var =
      (graph.producer? var).map fun (other, found, index) =>
        (other, if other = id then content else found, index) := by
  have sameVar : Dataflow.var
      { graph with nodes := graph.nodes.setIfInBounds id.index (some content) } var =
        graph.var var := rfl
  simp only [Dataflow.producer?, sameVar]
  cases (graph.var var).producer? with
  | none => rfl
  | some entry =>
    simp only [node?_setOp live]
    by_cases same : entry.1 = id
    · simp [same, live]
    · cases graph.node? entry.1 <;> simp [same]

/-- Another operation at a node that computes the same makes no difference. -/
theorem yields_setOp (live : graph.node? id = some node) (inputs : content.inputs = node.inputs)
    (agree : ∀ operands results, node.op.evaluate hosts operands = Except.ok results →
      content.op.evaluate hosts operands = Except.ok results)
    (yields : graph.Yields hosts memory given var tensor) :
    Yields { graph with nodes := graph.nodes.setIfInBounds id.index (some content) } hosts
      memory given var tensor := by
  refine Evaluates.simulate (fun _ => True) (fun var => var) ?_ ?_ trivial yields
  · intro var _ unproduced tensor found
    apply Evaluates.root
    · simpa [producerNode?, producer?_setOp live] using unproduced
    · exact found
  · intro var found index _ produced
    rcases producerNode?_eq_some.mp produced with ⟨other, produced⟩
    have foundLive := (producer?_eq_some.mp produced).2
    right
    refine ⟨fun _ _ => trivial, if other = id then content else found, ?_, ?_, ?_⟩
    · simp [producerNode?, producer?_setOp live, produced]
    · by_cases same : other = id
      · subst same
        rw [live] at foundLive
        cases foundLive
        simpa using inputs
      · simp [same]
    · by_cases same : other = id
      · subst same
        rw [live] at foundLive
        cases foundLive
        simpa using agree
      · simp [same]

end SetOp

end Dataflow

end ArrayGraph
