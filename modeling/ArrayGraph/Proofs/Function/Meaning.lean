import ArrayGraph.Proofs.Function.Compiled

/-!
# What the graph of a function computes

The variables of a symbolic graph stand for arrays by plain evaluation. A compilation keeps what the
outputs and the updates stand for: capture leaves out nothing that they depend on, the variables of
one container stand for one array, so that one of them can be read in the place of all, and from
there on the graph serves. Once the aliases are gone, every container that the graph reads is one of
its inputs.
-/

namespace ArrayGraph

variable {α : Type}

namespace Dataflow

variable [Arithmetic α] {graph : Dataflow α} {hosts : Meaning α} {memory : Memory α}
  {given : VarId → Option (Tensor α)} {results : List (Tensor α)}

/-- Outputs stand for the same arrays when what they do not depend on has been removed. -/
theorem outputs_prune
    (outputs : List.Forall₂ (graph.Yields hosts memory given) graph.outputs results) :
    List.Forall₂ (graph.prune.Yields hosts memory given) graph.prune.outputs results := by
  rcases List.forall₂_iff_get.mp outputs with ⟨length, yields⟩
  refine List.forall₂_iff_get.mpr ⟨length, fun index inside inside' => ?_⟩
  refine yields_prune (fun id produced => ?_) (yields index inside inside')
  exact mem_ancestorsOf.mpr ⟨_, List.get_mem _ _, id, produced, Relation.ReflTransGen.refl⟩

/-- Outputs stand for the same arrays when a variable is read in the place of one that stands for the
same. -/
theorem outputs_replace {after : Dataflow α} {old new : VarId}
    (stands : ∀ tensor, graph.Yields hosts memory given old tensor →
      graph.Yields hosts memory given new tensor)
    (answer : graph.replace old new = Except.ok after)
    (outputs : List.Forall₂ (graph.Yields hosts memory given) graph.outputs results) :
    List.Forall₂ (after.Yields hosts memory given) after.outputs results := by
  rcases replace_eq_ok answer with ⟨_, rfl⟩ | ⟨_, checked, rfl⟩
  · exact outputs
  · rcases checkReplacement_eq_ok checked with ⟨_, _, _, acyclic⟩
    have apart : ∀ id node, graph.node? id = some node → old ∈ node.inputs →
        ¬graph.ComputedFrom new id :=
      fun id node live reads computed => (acyclic id node live reads).1 (mem_ancestors.mpr computed)
    apply outputs_prune
    change List.Forall₂ _ (substitute old new graph.outputs) _
    rw [substitute, List.forall₂_map_left_iff]
    exact outputs.imp fun var tensor yields => yields_redirect apart stands yields

omit [Arithmetic α] in
/-- After variables have been replaced, nobody reads them. -/
theorem IsRead.of_replaceAll {after : Dataflow α} {pairs : List (VarId × VarId)} {var : VarId}
    (answer : graph.replaceAll pairs = Except.ok after) (read : after.IsRead var) :
    (∃ old, (old, var) ∈ pairs) ∨ graph.IsRead var ∧ ∀ new, (var, new) ∉ pairs := by
  unfold replaceAll at answer
  induction pairs generalizing graph with
  | nil =>
    cases answer
    exact Or.inr ⟨read, by simp⟩
  | cons pair rest ih =>
    rcases pair with ⟨old, new⟩
    rw [List.foldlM_cons, Checked.bind_eq_ok_iff] at answer
    rcases answer with ⟨middle, first, others⟩
    rcases ih others with ⟨source, listed⟩ | ⟨read, unlisted⟩
    · exact Or.inl ⟨source, List.mem_cons_of_mem _ listed⟩
    · by_cases target : var = new
      · exact Or.inl ⟨old, by simp [target]⟩
      · have before : var ≠ old ∧ graph.IsRead var := by
          rcases replace_eq_ok first with ⟨rfl, rfl⟩ | ⟨_, _, rfl⟩
          · exact ⟨target, read⟩
          · exact read.of_prune.of_redirect.resolve_left fun same => target same.1
        refine Or.inr ⟨before.2, ?_⟩
        intro other listed
        rcases List.mem_cons.mp listed with same | listed
        · cases same
          exact before.1 rfl
        · exact unlisted other listed

end Dataflow

namespace Graph

variable {source : Graph α}

/-- A variable of a symbolic graph stands for an array. -/
abbrev Evaluates [Arithmetic α] (source : Graph α) (hosts : Meaning α)
    (roots : VarId → Option (Tensor α)) : VarId → Tensor α → Prop :=
  (source.whole [] []).Evaluates hosts roots

theorem kind_whole {id : VarId} {kind : VarKind} (found : source.HasKind id kind)
    (inputs outputs : List VarId) : ((source.whole inputs outputs).var id).kind = kind := by
  rcases found with ⟨var, located, rfl⟩
  rw [Dataflow.var, whole, located]
  rfl

theorem Built.operands_known [Arithmetic α] (built : source.Built) (var : VarId) :
    ∀ operand ∈ source.operands var, operand.index < source.vars.size := by
  intro operand member
  unfold operands at member
  split at member
  · split at member
    · rename_i node _ _ _ content found
      refine built.formed.read_known operand (Or.inr ⟨node, content, ?_, member⟩)
      rw [node?_whole, found]
    · simp at member
  · simp at member

end Graph

namespace Signature

variable [Arithmetic α] {signature : Signature} {source : Graph α} {captured : Dataflow α}
  {requireDependence : Bool} {hosts : Meaning α} {memory : Memory α}
  {given : VarId → Option (Tensor α)} {results : List (Tensor α)}

theorem Captures.var (captures : signature.Captures source captured) (id : VarId) :
    captured.var id = (source.whole [] []).var id := by
  rw [Dataflow.var, Dataflow.var, captures.vars]
  rfl

/-- The captured graph computes what the outputs and the updates stand for, if variables of one
container stand for one array. -/
theorem outputs_captureGraph (lists : signature.Lists source)
    (capturing : Compilation.captureGraph source signature requireDependence = Except.ok captured)
    (alike : ∀ id other container, source.HasKind id (.shared container) →
      source.HasKind other (.shared container) → given id = given other)
    (outputs : List.Forall₂ ((source.whole [] []).Yields hosts memory given) signature.outputVars
      results) :
    List.Forall₂ (captured.Yields hosts memory given) captured.outputs results := by
  simp only [Compilation.captureGraph, Checked.bind_eq_ok_iff] at capturing
  rcases capturing with ⟨whole, capturing, replacing⟩
  have start : whole.vars = source.vars ∧
      List.Forall₂ (whole.Yields hosts memory given) whole.outputs results := by
    rw [(Dataflow.capture_eq_ok capturing).1]
    exact ⟨rfl, Dataflow.outputs_prune outputs⟩
  have finish : captured.vars = source.vars ∧
      List.Forall₂ (captured.Yields hosts memory given) captured.outputs results := by
    refine Checked.foldlM_invariant (fun graph : Dataflow α => graph.vars = source.vars ∧
      List.Forall₂ (graph.Yields hosts memory given) graph.outputs results) ?_ start replacing
    rintro graph ⟨old, new⟩ member next ⟨vars, outputs⟩ answer
    rcases lists.aliases _ member with ⟨slot, slotMem, rfl, oldKind⟩
    have newKind := lists.shared slot slotMem
    -- Both variables are roots, and they stand for what their container holds.
    have root : ∀ {id : VarId}, source.HasKind id (.shared slot.container) →
        ∀ tensor, graph.Yields hosts memory given id tensor ↔ given id = some tensor := by
      intro id kind tensor
      have found : (graph.var id).kind = .shared slot.container := by
        rw [Dataflow.var, vars]
        exact source.kind_whole kind [] []
      have unproduced : graph.producerNode? id = none :=
        Dataflow.producerNode?_eq_none.mpr (Dataflow.producer?_eq_none_of_kind (by simp [found]))
      refine (Evaluates.root_iff unproduced).trans ?_
      rw [Dataflow.environment_of_not_constant (by simp [found])]
    refine ⟨?_, Dataflow.outputs_replace ?_ answer outputs⟩
    · rcases Dataflow.replace_eq_ok answer with ⟨_, rfl⟩ | ⟨_, _, rfl⟩
      · exact vars
      · exact vars
    · intro tensor yields
      rw [root oldKind, alike _ _ _ oldKind newKind] at yields
      exact (root newKind tensor).mpr yields
  exact finish.2

omit [Arithmetic α] in
/-- A search that goes back from the outputs to everything they are computed from comes across all that
the captured graph reads. -/
theorem reached_of_isRead {inputs outputs reached : List VarId}
    (capturing : Dataflow.capture source inputs outputs requireDependence = Except.ok captured)
    (start : ∀ var ∈ outputs, var ∈ reached)
    (closed : ∀ var ∈ reached, ∀ operand ∈ source.operands var, operand ∈ reached)
    {var : VarId} (read : captured.IsRead var) : var ∈ reached := by
  rcases Dataflow.capture_eq_ok capturing with ⟨rfl, _, seen, included, accepts⟩
  -- What the capture has seen of the search is itself closed.
  have both : ∀ var ∈ seen.filter (· ∈ reached),
      Dataflow.Accepts source inputs (seen.filter (· ∈ reached)) var := by
    intro var member
    simp only [List.mem_filter, decide_eq_true_eq] at member
    rcases accepts var member.1 with ⟨content, found, input, output⟩
    refine ⟨content, found, input, ?_⟩
    intro node index kind
    rcases output node index kind with ⟨reader, live, operands⟩
    refine ⟨reader, live, fun operand operandMem => ?_⟩
    simp only [List.mem_filter, decide_eq_true_eq]
    refine ⟨operands operand operandMem, closed var member.2 operand ?_⟩
    simp [Graph.operands, found, Variable.producer?, kind, live, operandMem]
  have varSeen := (Dataflow.seen_of_isRead (fun var output => by
    simpa using ⟨included var output, start var output⟩) both read).1
  rw [List.mem_filter, decide_eq_true_eq] at varSeen
  exact varSeen.2

/-- Every container that the captured graph reads is one of its inputs. -/
theorem declared_of_captureGraph (built : source.Built) {inputs : List InputSpec}
    {outputs : List OutputSpec} {updates : List (VarId × VarId)}
    (collected : collect memory source inputs outputs updates = Except.ok signature)
    (capturing : Compilation.captureGraph source signature requireDependence = Except.ok captured)
    {var : VarId} {container : ContainerId} (read : captured.IsRead var)
    (kind : source.HasKind var (.shared container)) : var ∈ signature.inputVars := by
  have lists := lists_of_collect collected
  simp only [Compilation.captureGraph, Checked.bind_eq_ok_iff] at capturing
  rcases capturing with ⟨whole, capturing, replacing⟩
  rcases Dataflow.IsRead.of_replaceAll replacing read with ⟨old, listed⟩ | ⟨read, unlisted⟩
  · rcases lists.aliases _ listed with ⟨slot, slotMem, rfl, _⟩
    exact slot_mem_inputVars slotMem
  · rcases covers_of_collect built.operands_known collected with ⟨reached, start, closed, covers⟩
    rcases covers var (reached_of_isRead capturing start closed read) container kind with
      ⟨slot, slotMem, rfl⟩ | ⟨input, listed⟩
    · exact slot_mem_inputVars slotMem
    · exact absurd listed (unlisted input)

omit [Arithmetic α] in
/-- The outputs of the captured graph are of the types of the outputs and the updates. -/
theorem types_captureGraph
    (capturing : Compilation.captureGraph source signature requireDependence = Except.ok captured) :
    captured.outputs.map captured.type = signature.outputVars.map (source.whole [] []).type := by
  simp only [Compilation.captureGraph, Checked.bind_eq_ok_iff] at capturing
  rcases capturing with ⟨whole, capturing, replacing⟩
  refine Checked.foldlM_invariant (fun graph : Dataflow α => graph.outputs.map graph.type =
    signature.outputVars.map (source.whole [] []).type) ?_ ?_ replacing
  · rintro graph ⟨old, new⟩ _ next types answer
    rcases Dataflow.replace_eq_ok answer with ⟨_, rfl⟩ | ⟨_, checked, rfl⟩
    · exact types
    · rcases Dataflow.checkReplacement_eq_ok checked with ⟨_, _, type, _⟩
      exact (Dataflow.map_type_substitute type graph.outputs).trans types
  · rw [(Dataflow.capture_eq_ok capturing).1]
    rfl

end Signature

/-- Host functions of a symbolic graph give arrays of the types they declare. -/
def Graph.HostsTyped [Arithmetic α] (source : Graph α) (hosts : Meaning α) : Prop :=
  ∀ node ∈ source.nodes, ∀ function, node.op = .host function →
    function.Typed hosts ∧ function.Normalizes hosts

/-- The graph of a function stands for a symbolic graph: it has its variables, outputs of the right
types, and constants that are stored in the memory. -/
structure Function.Represents [Arithmetic α] (function : Function α) (source : Graph α)
    (start final : Memory α) : Prop where
  types : function.graph.outputs.map function.graph.type =
    function.signature.outputVars.map (source.whole [] []).type
  keeps : start.Keeps final
  var : ∀ id : VarId, id.index < source.vars.size →
    function.graph.var id = (source.whole [] []).var id
  constants : ∀ var value, (function.graph.var var).kind = .constant value →
    final.Stores value ∧ function.graph.type var = value.type
  /-- Every container that is read is an input. -/
  declared : ∀ var container, function.graph.IsRead var →
    (function.graph.var var).kind = .shared container → var ∈ function.graph.inputs

namespace Compiler

variable [Arithmetic α] {compiler : Compiler α} {source : Graph α} {spec : FunctionSpec}
  {state final : Logged α} {function : Function α}

theorem represents_of_compile (standard : compiler.rules = Database.standard)
    (built : source.Built) (stored : source.ConstantsStored state.memory)
    (compiled : compiler.compile source spec state = .ok function final) :
    function.Represents source state.memory final.memory := by
  rcases compile_eq_ok compiled with ⟨_, _, _, _, _, _, _, _, _, _, collected, _⟩
  rcases serves_of_compile standard built stored compiled with
    ⟨_, captured, _, _, _, _, capturing, captures, _, protecting, serves⟩
  have guarded := captures.guardInputs
  have serves := (serves (fun _ _ => Checked.abort (.noSuchOperand 0)) (fun _ => False) (by simp)
    (by simp) (by simp)).protectOutputs protecting
  have sameVar : ∀ id : VarId, id.index < source.vars.size →
      function.graph.var id = (source.whole [] []).var id := by
    intro id known
    rw [Dataflow.var_eq_of_further serves.derives.vars (by simpa [guarded.vars] using known),
      guarded.var]
  refine ⟨?_, serves.keeps, sameVar, serves.constants_stored, ?_⟩
  · have types := Signature.types_captureGraph capturing
    refine serves.derives.types.trans ?_
    rw [Compilation.guardInputs, Dataflow.foldl_guard]
    exact types
  · intro var container read kind
    have unproduced : function.graph.producerId? var = none := by
      rw [Dataflow.producerId?, Dataflow.producer?_eq_none_of_kind (by simp [kind])]
      rfl
    rcases serves.roots_known var read unproduced with known | ⟨value, constant⟩
    · rw [serves.derives.inputs, guarded.inputs]
      have inside := known.known
      rw [guarded.vars] at inside
      rw [sameVar var inside, ← guarded.var] at kind
      have read := known.read
      rw [Compilation.guardInputs, Dataflow.foldl_guard] at read
      exact Signature.declared_of_captureGraph built collected capturing read
        (guarded.hasKind kind (by simp))
    · rw [kind] at constant
      cases constant

/-- A compilation with sound rules gives a function whose graph computes what the outputs and the
updates stand for. -/
theorem works_of_compile {mode : ResolvedMode} {hosts : Meaning α} {job : Job α}
    (standard : compiler.rules = Database.standard) (built : source.Built)
    (stored : source.ConstantsStored state.memory) (typed : source.HostsTyped hosts)
    (compiled : compiler.compile source spec state = .ok function final)
    (resolved : compiler.modes.resolve spec.mode = Except.ok mode)
    (sound : ∀ entry ∈ (Database.standard : Database α).select mode.optimizer, ∀ rule ∈ entry.2,
      rule.tags.contains "unsafe" = false)
    (identities : Identities α ((Database.standard : Database α).Selects mode.optimizer))
    (assigns : (source.whole [] []).Assigns job.given)
    (alike : ∀ id other container, source.HasKind id (.shared container) →
      source.HasKind other (.shared container) → job.given id = job.given other)
    (outputs : List.Forall₂ ((source.whole [] []).Yields hosts state.memory job.given)
      function.signature.outputVars job.results) :
    function.graph.Works hosts final.memory job := by
  rcases compile_eq_ok compiled with ⟨_, _, _, _, _, _, _, _, _, _, collected, _⟩
  rcases serves_of_compile standard built stored compiled with
    ⟨mode', captured, _, _, _, resolved', capturing, captures, _, protecting, serves⟩
  rw [resolved] at resolved'
  cases resolved'
  have guarded := captures.guardInputs
  have lists := Signature.lists_of_collect collected
  have works : (Compilation.guardInputs function.signature captured).Works hosts state.memory job := by
    refine guarded.origin.works (guarded.constantsStored stored) ?_ ?_ ?_
    · intro id node host live same
      rcases guarded.ops id node live with ⟨content, member, sameOp⟩
      exact typed content member host (sameOp.trans same)
    · intro var tensor found
      rw [Dataflow.type, guarded.var]
      exact assigns var tensor found
    · have computed := Signature.outputs_captureGraph lists capturing alike outputs
      rw [Compilation.guardInputs, Dataflow.foldl_guard]
      exact computed
  have serves := (serves hosts (· = job) (fun _ same => same ▸ works) (fun _ _ => sound)
    (fun _ _ => identities)).protectOutputs protecting
  exact serves.works job rfl

end Compiler

end ArrayGraph
