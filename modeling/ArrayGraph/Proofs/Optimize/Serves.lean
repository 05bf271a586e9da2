import ArrayGraph.Proofs.Optimize.Yields
import ArrayGraph.Proofs.Perform

/-!
# Graphs that do the same work

A job is one evaluation of a graph: arrays for its declared inputs, and the arrays that its outputs
stand for. Optimization starts from a base graph and must give a graph that does every job of the
base graph, with the same inputs, the same guards and outputs of the same types. `Serves` says that a
graph does. Every way of changing a graph that optimization uses keeps it, under the conditions that
are given here once and for all.

Elements are stored as numbers of their element type. The identities that rules rely on need hold
for such numbers only, so a graph that serves also says that nothing else occurs.
-/

namespace ArrayGraph

variable {α : Type}

section Stored

variable [Arithmetic α]

/-- A number as arrays of an element type store it. -/
def ElementType.Stores (element : ElementType) (x : α) : Prop := ∃ y, x = element.normalize y

/-- All elements of an array are stored as its element type asks for. -/
def Tensor.Normalized (tensor : Tensor α) : Prop := ∀ x ∈ tensor.data, tensor.element.Stores x

/-- A value on a buffer that exists and holds as many elements as the shape asks for, all of them
stored as the element type asks for. -/
structure Memory.Stores (memory : Memory α) (value : Value) : Prop where
  known : memory.Knows value
  count : elementCount? value.shape = some (memory.contents value).size
  normalized : (memory.tensor value).Normalized

theorem Memory.Stores.conforms {memory : Memory α} {value : Value} (stores : memory.Stores value) :
    (memory.tensor value).Conforms value.type :=
  ⟨rfl, ArrayType.acceptsShape_ofShape _ _, stores.count⟩

/-- Whether a value is stored depends on the array that it stands for only. -/
theorem Memory.Stores.of_tensor {memory after : Memory α} {value : Value} (stores : memory.Stores value)
    (known : after.Knows value) (same : after.tensor value = memory.tensor value) :
    after.Stores value where
  known := known
  count := by
    have contents : after.contents value = memory.contents value := congrArg Tensor.data same
    rw [contents]
    exact stores.count
  normalized := by
    rw [same]
    exact stores.normalized

theorem Memory.Stores.later {memory after : Memory α} {value : Value} (stores : memory.Stores value)
    (keeps : memory.Keeps after) : after.Stores value :=
  stores.of_tensor (keeps.knows stores.known) (keeps.tensor stores.known)

end Stored

/-- One evaluation of a graph. -/
structure Job (α : Type) where
  /-- What roots stand for, apart from constants. -/
  given : VarId → Option (Tensor α)
  /-- What the outputs stand for. -/
  results : List (Tensor α)

/-- What an optimization starts from, and the jobs that it has to keep. -/
structure Setting (α : Type) where
  hosts : Meaning α
  base : Dataflow α
  start : Memory α
  jobs : Job α → Prop

/-- An operation that optimization may add to a graph. It is not one that asks for a shape. -/
def Op.IsPlain (op : Op α) : Prop :=
  (∀ function, op ≠ .host function) ∧ ∀ shape, op ≠ .reshape shape

theorem Op.isPlain_ofFunction {function : ScalarFunction} : (Op.ofFunction function : Op α).IsPlain := by
  simp [IsPlain, ofFunction]

namespace Dataflow

/-- A graph with all variables of a base graph, and inputs, guards and types of outputs as the base
graph has them. -/
structure Derives (base graph : Dataflow α) : Prop where
  vars : base.vars.toList <+: graph.vars.toList
  inputs : graph.inputs = base.inputs
  guarded : graph.guarded = base.guarded
  types : graph.outputs.map graph.type = base.outputs.map base.type
  ops : ∀ id node, graph.node? id = some node → node.op.IsPlain ∨
    ∃ origin content, base.node? origin = some content ∧ content.op = node.op

/-- A root that is read. -/
structure RootRead (graph : Dataflow α) (var : VarId) : Prop where
  read : graph.IsRead var
  known : var.index < graph.vars.size
  root : (graph.var var).isRoot

variable [Arithmetic α]

/-- A graph does a job: all of it can be evaluated, and the outputs stand for the results. -/
structure Works (graph : Dataflow α) (hosts : Meaning α) (memory : Memory α) (job : Job α) :
    Prop where
  nodes : graph.AllEvaluate hosts (graph.environment memory job.given)
  reads : ∀ var, graph.IsRead var → ∃ tensor, graph.Yields hosts memory job.given var tensor ∧
    tensor.Conforms (graph.type var) ∧ tensor.Normalized
  outputs : List.Forall₂ (graph.Yields hosts memory job.given) graph.outputs job.results

/-- A graph that can stand for the base graph of a setting. -/
structure Serves (graph : Dataflow α) (setting : Setting α) (memory : Memory α) : Prop
    extends graph.Formed where
  derives : setting.base.Derives graph
  keeps : setting.start.Keeps memory
  /-- What is read without being computed is a root that the base graph reads, or a constant. -/
  roots_known : ∀ var, graph.IsRead var → graph.producerId? var = none →
    setting.base.RootRead var ∨ ∃ value, (graph.var var).kind = .constant value
  constants_stored : ∀ var value, (graph.var var).kind = .constant value →
    memory.Stores value ∧ graph.type var = value.type
  works : ∀ job, setting.jobs job → graph.Works setting.hosts memory job

variable {graph extended after : Dataflow α} {setting : Setting α} {memory : Memory α}
  {id : NodeId} {node : Node α} {var old new : VarId} {value : Value}

namespace Serves

/-- More memory makes no difference. -/
theorem later (serves : graph.Serves setting memory) {more : Memory α}
    (keeps : memory.Keeps more) : graph.Serves setting more := by
  have sameTensor : ∀ var value, (graph.var var).kind = .constant value →
      more.tensor value = memory.tensor value := by
    intro var value kind
    exact keeps.tensor (serves.constants_stored var value kind).1.known
  have sameRoots : ∀ given, graph.environment more given = graph.environment memory given := by
    intro given
    funext var
    cases kind : (graph.var var).kind with
    | constant value =>
      rw [environment_of_constant kind, environment_of_constant kind, sameTensor var value kind]
    | _ =>
      rw [environment_of_not_constant (by simp [kind]), environment_of_not_constant (by simp [kind])]
  refine { serves with keeps := serves.keeps.trans keeps, constants_stored := ?_, works := ?_ }
  · intro var value kind
    rcases serves.constants_stored var value kind with ⟨stores, type⟩
    exact ⟨stores.later keeps, type⟩
  · intro job member
    have works := serves.works job member
    refine ⟨?_, ?_, ?_⟩
    · simpa [sameRoots] using works.nodes
    · simpa [Yields, sameRoots] using works.reads
    · simpa [Yields, sameRoots] using works.outputs

section Extend

theorem yields_extend (serves : graph.Serves setting memory) (extend : graph.Extends extended)
    (read : graph.IsRead var) {given : VarId → Option (Tensor α)} {tensor : Tensor α}
    (yields : graph.Yields setting.hosts memory given var tensor) :
    extended.Yields setting.hosts memory given var tensor :=
  extend.yields serves.toFormed (serves.read_known var read) yields

/-- A node that was there can be evaluated in a larger graph. -/
theorem nodeEvaluates_extend (serves : graph.Serves setting memory)
    (extend : graph.Extends extended) (live : graph.node? id = some node) {job : Job α}
    (member : setting.jobs job) :
    extended.NodeEvaluates setting.hosts (extended.environment memory job.given) node := by
  rcases (serves.works job member).nodes id node live with ⟨values, results, evaluate, computed⟩
  refine ⟨values, results, ?_, computed⟩
  intro input inputMem
  exact serves.yields_extend extend (Or.inr ⟨id, node, live, inputMem⟩) (evaluate input inputMem)

theorem outputs_extend (serves : graph.Serves setting memory) (extend : graph.Extends extended)
    {job : Job α} (member : setting.jobs job) :
    List.Forall₂ (extended.Yields setting.hosts memory job.given) extended.outputs job.results := by
  rw [extend.outputs, List.forall₂_iff_get]
  rcases List.forall₂_iff_get.mp (serves.works job member).outputs with ⟨length, evaluate⟩
  refine ⟨length, ?_⟩
  intro index inside inside'
  exact serves.yields_extend extend (Or.inl (List.get_mem _ _)) (evaluate index inside inside')

theorem derives_extend (serves : graph.Serves setting memory) (extend : graph.Extends extended)
    (ops : ∀ id node, extended.node? id = some node → graph.node? id = some node ∨
      node.op.IsPlain) : setting.base.Derives extended where
  vars := serves.derives.vars.trans extend.vars
  inputs := extend.inputs.trans serves.derives.inputs
  guarded := extend.guarded.trans serves.derives.guarded
  types := by
    rw [← serves.derives.types, extend.outputs]
    apply List.map_congr_left
    intro var output
    exact extend.type_eq (serves.read_known var (Or.inl output))
  ops id node live := by
    rcases ops id node live with live | plain
    · exact serves.derives.ops id node live
    · exact Or.inl plain

/-- A further constant is read by nothing. -/
theorem addConstant (serves : graph.Serves setting memory) (stores : memory.Stores value) :
    (graph.addConstant value).2.Serves setting memory := by
  have extend := extends_addConstant graph value
  have known : ∀ var, graph.IsRead var → var.index < graph.vars.size := serves.read_known
  refine { toFormed := serves.toFormed.addConstant value
           derives := serves.derives_extend extend fun _ _ live => Or.inl live
           keeps := serves.keeps
           roots_known := ?_, constants_stored := ?_, works := ?_ }
  · intro var read unproduced
    rw [extend.producerId?_eq serves.toFormed (known var read)] at unproduced
    rw [extend.var_eq (known var read)]
    exact serves.roots_known var read unproduced
  · intro var content kind
    rcases kind_of_addConstant kind with ⟨inside, old⟩ | ⟨rfl, rfl⟩
    · rw [extend.type_eq inside]
      exact serves.constants_stored var content old
    · rw [Dataflow.type, var_addConstant]
      exact ⟨stores, rfl⟩
  · intro job member
    have works := serves.works job member
    refine ⟨?_, ?_, serves.outputs_extend extend member⟩
    · exact fun id node live => serves.nodeEvaluates_extend extend live member
    · intro var read
      rcases works.reads var read with ⟨tensor, yields, facts⟩
      rw [extend.type_eq (known var read)]
      exact ⟨tensor, serves.yields_extend extend read yields, facts⟩

/-- A node whose inputs are read already, or are constants, and which can be evaluated. -/
theorem adds {op : Op α} {inputs outputs : List VarId} (serves : graph.Serves setting memory)
    (adds : graph.Adds extended op inputs outputs) (plain : op.IsPlain)
    (inputs_read : ∀ input ∈ inputs, graph.IsRead input ∨
      ∃ value, (graph.var input).kind = .constant value)
    (evaluate : ∀ job, setting.jobs job → ∃ operands results,
      List.Forall₂ (graph.Yields setting.hosts memory job.given) inputs operands ∧
        op.evaluate setting.hosts operands = Except.ok results) :
    extended.Serves setting memory := by
  have extend := adds.extend
  have isRead : ∀ var, extended.IsRead var → var.index < graph.vars.size ∧
      (graph.IsRead var ∨ var ∈ inputs) := by
    intro var read
    rcases adds.isRead_cases read with read | input
    · exact ⟨serves.read_known var read, Or.inl read⟩
    · exact ⟨adds.inputs_known var input, Or.inr input⟩
  have ops : ∀ id node, extended.node? id = some node →
      graph.node? id = some node ∨ node.op.IsPlain := by
    intro id node live
    rcases adds.live_cases live with live | ⟨_, rfl⟩
    · exact Or.inl live
    · exact Or.inr plain
  refine { toFormed := serves.toFormed.adds adds
           derives := serves.derives_extend extend ops
           keeps := serves.keeps
           roots_known := ?_, constants_stored := ?_, works := ?_ }
  · intro var read unproduced
    rcases isRead var read with ⟨known, origin⟩
    rw [extend.producerId?_eq serves.toFormed known] at unproduced
    rw [extend.var_eq known]
    rcases origin with read | input
    · exact serves.roots_known var read unproduced
    · rcases inputs_read var input with read | constant
      · exact serves.roots_known var read unproduced
      · exact Or.inr constant
  · intro var value kind
    rcases adds.kind_of_constant kind with ⟨known, old⟩
    rw [extend.type_eq known]
    exact serves.constants_stored var value old
  · intro job member
    have works := serves.works job member
    refine ⟨?_, ?_, serves.outputs_extend extend member⟩
    · intro id node live
      rcases adds.live_cases live with live | ⟨rfl, rfl⟩
      · exact serves.nodeEvaluates_extend extend live member
      · rcases evaluate job member with ⟨operands, results, yields, computed⟩
        apply nodeEvaluates_iff_forall₂.mpr
        refine ⟨operands, results, ?_, computed⟩
        rw [List.forall₂_iff_get] at yields ⊢
        refine ⟨yields.1, ?_⟩
        intro index inside inside'
        exact extend.yields serves.toFormed (adds.inputs_known _ (List.get_mem _ _))
          (yields.2 index inside inside')
    · intro var read
      rcases isRead var read with ⟨known, origin⟩
      rw [extend.type_eq known]
      have reads : graph.IsRead var → ∃ tensor, extended.Yields setting.hosts memory job.given var
          tensor ∧ tensor.Conforms (graph.type var) ∧ tensor.Normalized := by
        intro read
        rcases works.reads var read with ⟨tensor, yields, facts⟩
        exact ⟨tensor, serves.yields_extend extend read yields, facts⟩
      rcases origin with read | input
      · exact reads read
      · rcases inputs_read var input with read | ⟨value, kind⟩
        · exact reads read
        · rcases serves.constants_stored var value kind with ⟨stores, type⟩
          refine ⟨memory.tensor value, ?_, type ▸ stores.conforms, stores.normalized⟩
          exact extend.yields serves.toFormed known ((yields_constant kind).mpr rfl)

end Extend

/-- What no output depends on plays no part. -/
theorem prune (serves : graph.Serves setting memory) : graph.prune.Serves setting memory := by
  have derives := serves.derives
  refine { toFormed := serves.toFormed.prune
           derives := ⟨derives.vars, derives.inputs, derives.guarded, derives.types, ?_⟩
           keeps := serves.keeps
           roots_known := ?_
           constants_stored := serves.constants_stored
           works := ?_ }
  · exact fun id node live => derives.ops id node (node?_prune.mp live).1
  · intro var read unproduced
    rw [read.producerId?_prune] at unproduced
    exact serves.roots_known var read.of_prune unproduced
  · intro job member
    have works := serves.works job member
    refine ⟨?_, ?_, ?_⟩
    · intro id node live
      rcases works.nodes id node (node?_prune.mp live).1 with ⟨values, results, evaluate, computed⟩
      refine ⟨values, results, ?_, computed⟩
      intro input inputMem
      have read : graph.prune.IsRead input := Or.inr ⟨id, node, live, inputMem⟩
      exact yields_prune (fun _ => read.kept) (evaluate input inputMem)
    · intro var read
      rcases works.reads var read.of_prune with ⟨tensor, yields, facts⟩
      exact ⟨tensor, yields_prune (fun _ => read.kept) yields, facts⟩
    · have outputs := works.outputs
      rw [List.forall₂_iff_get] at outputs ⊢
      refine ⟨outputs.1, ?_⟩
      intro index inside inside'
      have read : graph.prune.IsRead (graph.outputs.get ⟨index, inside⟩) :=
        Or.inl (List.get_mem _ _)
      exact yields_prune (fun _ => read.kept) (outputs.2 index inside inside')

/-- A variable stands for the array of another one in every job, and is there to be read. -/
structure Stands (graph : Dataflow α) (setting : Setting α) (memory : Memory α)
    (old new : VarId) : Prop where
  readable : graph.IsRead new ∨ (∃ id, graph.producerId? new = some id) ∨
    ∃ value, (graph.var new).kind = .constant value
  yields : ∀ job, setting.jobs job → ∀ tensor,
    graph.Yields setting.hosts memory job.given old tensor →
      graph.Yields setting.hosts memory job.given new tensor

theorem Stands.roots_known (stands : Stands graph setting memory old new)
    (serves : graph.Serves setting memory) (unproduced : graph.producerId? new = none) :
    setting.base.RootRead new ∨ ∃ value, (graph.var new).kind = .constant value := by
  rcases stands.readable with read | ⟨id, produced⟩ | constant
  · exact serves.roots_known new read unproduced
  · rw [unproduced] at produced
    cases produced
  · exact Or.inr constant

theorem redirect (serves : graph.Serves setting memory)
    (standsIfRead : graph.IsRead old → Stands graph setting memory old new)
    (known : new.index < graph.vars.size) (type : graph.type old = graph.type new)
    (apart : ∀ id node, graph.node? id = some node → old ∈ node.inputs →
      ¬graph.ComputedFrom new id) :
    (graph.redirect old new).Serves setting memory := by
  -- If nothing reads the old variable then nothing is redirected.
  by_cases read : graph.IsRead old
  swap
  · rw [redirect_of_not_isRead read]
    exact serves
  have stands := standsIfRead read
  have derives := serves.derives
  have yields : ∀ job, setting.jobs job → ∀ var tensor,
      graph.Yields setting.hosts memory job.given var tensor →
        (graph.redirect old new).Yields setting.hosts memory job.given
          (if var = old then new else var) tensor :=
    fun job member var tensor => yields_redirect apart (stands.yields job member)
  refine { toFormed := serves.toFormed.redirect known type
           derives := ⟨derives.vars, derives.inputs, derives.guarded, ?_, ?_⟩
           keeps := serves.keeps
           roots_known := ?_
           constants_stored := serves.constants_stored
           works := ?_ }
  · exact (map_type_substitute type graph.outputs).trans derives.types
  · intro id node live
    rcases node?_redirect_eq_some.mp live with ⟨original, originalLive, rfl⟩
    exact derives.ops id original originalLive
  · intro var read unproduced
    rw [producerId?_redirect] at unproduced
    rcases read.of_redirect with ⟨rfl, _⟩ | ⟨_, read⟩
    · exact stands.roots_known serves unproduced
    · exact serves.roots_known var read unproduced
  · intro job member
    have works := serves.works job member
    refine ⟨?_, ?_, ?_⟩
    · intro id node live
      rcases node?_redirect_eq_some.mp live with ⟨original, originalLive, rfl⟩
      rcases nodeEvaluates_iff_forall₂.mp (works.nodes id original originalLive) with
        ⟨operands, results, evaluate, computed⟩
      apply nodeEvaluates_iff_forall₂.mpr
      refine ⟨operands, results, ?_, computed⟩
      rw [substitute, List.forall₂_map_left_iff]
      exact evaluate.imp fun var tensor => yields job member var tensor
    · intro var read
      rcases read.of_redirect with ⟨rfl, oldRead⟩ | ⟨different, read⟩
      · rcases works.reads old oldRead with ⟨tensor, evaluates, conforms, normalized⟩
        have redirected := yields job member old tensor evaluates
        rw [if_pos rfl] at redirected
        exact ⟨tensor, redirected, type ▸ conforms, normalized⟩
      · rcases works.reads var read with ⟨tensor, evaluates, facts⟩
        have redirected := yields job member var tensor evaluates
        rw [if_neg different] at redirected
        exact ⟨tensor, redirected, facts⟩
    · change List.Forall₂ _ (substitute old new graph.outputs) _
      rw [substitute, List.forall₂_map_left_iff]
      exact works.outputs.imp fun var tensor => yields job member var tensor

/-- A variable may be replaced by one that stands for the same. -/
theorem replace (serves : graph.Serves setting memory)
    (stands : graph.IsRead old → Stands graph setting memory old new)
    (answer : graph.replace old new = Except.ok after) : after.Serves setting memory := by
  rcases replace_eq_ok answer with ⟨_, rfl⟩ | ⟨_, checked, rfl⟩
  · exact serves
  · rcases checkReplacement_eq_ok checked with ⟨_, known, type, acyclic⟩
    apply Serves.prune
    apply serves.redirect stands known type
    intro id node live reads computed
    exact (acyclic id node live reads).1 (mem_ancestors.mpr computed)

/-- An operation may be replaced by one that computes the same. -/
theorem replaceNodeOp {op : Op α} (serves : graph.Serves setting memory)
    (live : graph.node? id = some node) (plain : op.IsPlain)
    (agree : ∀ operands results, node.op.evaluate setting.hosts operands = Except.ok results →
      op.evaluate setting.hosts operands = Except.ok results)
    (answer : graph.replaceNodeOp id op = Except.ok after) : after.Serves setting memory := by
  have formed := serves.toFormed.replaceNodeOp answer
  have derives := serves.derives
  rcases replaceNodeOp_eq_ok answer with ⟨content, contentLive, _, rfl⟩
  rw [live] at contentLive
  cases contentLive
  have yields : ∀ job : Job α, ∀ var tensor,
      graph.Yields setting.hosts memory job.given var tensor →
        Yields { graph with nodes := graph.nodes.setIfInBounds id.index (some { node with op }) }
          setting.hosts memory job.given var tensor :=
    fun job var tensor => yields_setOp live rfl agree
  refine { toFormed := formed
           derives := ⟨derives.vars, derives.inputs, derives.guarded, derives.types, ?_⟩
           keeps := serves.keeps
           roots_known := ?_
           constants_stored := serves.constants_stored
           works := ?_ }
  · intro other content contentLive
    rcases original_of_setOp live contentLive with ⟨found, foundLive, _, _, same | ⟨_, same⟩⟩
    · rw [same]
      exact derives.ops other found foundLive
    · exact Or.inl (same ▸ plain)
  · intro var read unproduced
    apply serves.roots_known var (isRead_of_setOp live read)
    simpa [producerId?, producer?_setOp live] using unproduced
  · intro job member
    have works := serves.works job member
    refine ⟨?_, ?_, ?_⟩
    · intro other content contentLive
      rcases original_of_setOp live contentLive with ⟨found, foundLive, inputs, _, same⟩
      rcases works.nodes other found foundLive with ⟨values, results, evaluate, computed⟩
      refine ⟨values, results, ?_, ?_⟩
      · intro input inputMem
        exact yields job input _ (evaluate input (inputs ▸ inputMem))
      · rw [inputs]
        rcases same with same | ⟨rfl, same⟩
        · rw [same]
          exact computed
        · rw [same]
          exact agree _ _ computed
    · intro var read
      rcases works.reads var (isRead_of_setOp live read) with ⟨tensor, evaluates, facts⟩
      exact ⟨tensor, yields job var tensor evaluates, facts⟩
    · exact works.outputs.imp fun var tensor => yields job var tensor

/-- An output may be another variable that stands for the same. -/
theorem replaceOutput {index : Nat} (serves : graph.Serves setting memory)
    (found : graph.outputs[index]? = some old) (stands : Stands graph setting memory old new)
    (answer : graph.replaceOutput index new = Except.ok after) : after.Serves setting memory := by
  rcases replaceOutput_eq_ok answer with ⟨output, found', known, type, rfl⟩
  rw [found] at found'
  cases found'
  have derives := serves.derives
  have isRead : ∀ var, IsRead { graph with outputs := graph.outputs.set index new } var →
      graph.IsRead var ∨ var = new := by
    rintro var (output | inner)
    · rcases List.mem_or_eq_of_mem_set output with output | rfl
      · exact Or.inl (Or.inl output)
      · exact Or.inr rfl
    · exact Or.inl (Or.inr inner)
  have knownOutputs : ∀ var ∈ graph.outputs.set index new, var.index < graph.vars.size := by
    intro var output
    rcases List.mem_or_eq_of_mem_set output with output | rfl
    · exact serves.read_known var (Or.inl output)
    · exact known
  apply Serves.prune
  refine { toFormed := serves.toFormed.setOutputs knownOutputs
           derives := ⟨derives.vars, derives.inputs, derives.guarded, ?_, derives.ops⟩
           keeps := serves.keeps
           roots_known := ?_
           constants_stored := serves.constants_stored
           works := ?_ }
  · rw [← derives.types]
    exact map_type_set found type
  · intro var read unproduced
    rcases isRead var read with read | rfl
    · exact serves.roots_known var read unproduced
    · exact stands.roots_known serves unproduced
  · intro job member
    have works := serves.works job member
    have stood := stands.yields job member
    rcases works.reads old (Or.inl (List.mem_of_getElem? found)) with
      ⟨tensor, evaluates, conforms, normalized⟩
    refine ⟨works.nodes, ?_, forall₂_set_left works.outputs found stood⟩
    intro var read
    rcases isRead var read with read | rfl
    · exact works.reads var read
    · exact ⟨tensor, stood tensor evaluates, type ▸ conforms, normalized⟩

end Serves

end Dataflow

end ArrayGraph
