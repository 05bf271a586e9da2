import ArrayGraph.Proofs.Alias.Alike
import ArrayGraph.Proofs.Optimize.Standard

/-!
# Optimizing graphs that differ in the names of variables

No rule looks at the name of a shared variable. So the standard rules do the same thing to two graphs
that differ by an exchange of such variables: they apply to the same nodes, add the same constants and
nodes, and are refused for the same reasons. What the stages come to are again graphs that differ by
the exchange.
-/

namespace ArrayGraph

variable {α : Type}

/-- Graphs under change that differ by an exchange of variables, over the same memory. -/
structure Editing.Alike (σ : VarId → VarId) (π : Equiv.Perm Nat) (editing editing' : Editing α) : Prop where
  graph : editing.graph.Alike σ π editing'.graph
  memory : editing'.memory = editing.memory

variable {σ : VarId → VarId} {π : Equiv.Perm Nat}

namespace Dataflow

variable {graph other : Dataflow α} (alike : graph.Alike σ π other) {memory : Memory α} {id : NodeId}
  {var : VarId}

include alike

theorem Alike.constant?_eq (var : VarId) :
    (other.var (σ var)).constant? = (graph.var var).constant? := by
  rw [Variable.constant?, alike.kind_eq]
  rfl

theorem Alike.elementwiseOperands?_eq (id : NodeId) (function : ScalarFunction) :
    other.elementwiseOperands? id function =
      (graph.elementwiseOperands? id function).map (List.map σ) := by
  rw [elementwiseOperands?, elementwiseOperands?, alike.node?_eq]
  rcases graph.node? id with _ | ⟨op, inputs, outputs⟩
  · rfl
  · cases op with
    | elementwise found target =>
      cases target with
      | none =>
        simp only [Option.map_some, Node.rename]
        split <;> rfl
      | some target => rfl
    | _ => rfl

theorem Alike.producerOperands?_eq (var : VarId) (function : ScalarFunction) :
    other.producerOperands? (σ var) function =
      (graph.producerOperands? var function).map (List.map σ) := by
  rw [producerOperands?, producerOperands?, alike.producerId?_eq]
  cases graph.producerId? var with
  | none => rfl
  | some producer => exact alike.elementwiseOperands?_eq producer function

theorem Alike.standsIn?_eq (id : NodeId) (replacement : VarId) :
    other.standsIn? id (σ replacement) = (graph.standsIn? id replacement).map (List.map σ) := by
  rw [standsIn?, standsIn?, alike.node?_eq]
  rcases graph.node? id with _ | ⟨op, inputs, _ | ⟨output, rest⟩⟩
  · rfl
  · rfl
  · simp only [Option.map_some, Node.rename, List.map_cons, Option.bind_eq_bind, Option.bind_some,
      List.head?_cons, alike.type_eq]
    split <;> rfl

variable [Arithmetic α]

theorem Alike.isUniformly_eq (memory : Memory α) (var : VarId) (number : α) :
    other.isUniformly memory (σ var) number = graph.isUniformly memory var number := by
  rw [isUniformly, isUniformly, uniformConstant?, uniformConstant?, alike.constant?_eq]

end Dataflow

namespace Edit

variable {ε δ β γ κ : Type}

/-- Changes that go the same way. -/
abbrev Alike (σ : VarId → VarId) (π : Equiv.Perm Nat) (related : β → γ → Prop) :
    Edit α ε β → Edit α δ γ → Prop :=
  Parallel (Editing.Alike σ π) (Failure.Alike fun _ _ => True) related

theorem alike_graph : Alike σ π (Dataflow.Alike σ π) (graph : Edit α ε _) (graph : Edit α δ _) :=
  fun _ _ left => .ok left.graph left

theorem alike_get : Alike σ π (Editing.Alike σ π) (get : Edit α ε (Editing α))
    (get : Edit α δ (Editing α)) := Parallel.get

theorem alike_setGraph {changed changed' : Dataflow α} (alike : changed.Alike σ π changed') :
    Alike σ π Eq (setGraph changed : Edit α ε Unit) (setGraph changed' : Edit α δ Unit) :=
  fun _ _ left => .ok rfl ⟨alike, left.memory⟩

theorem alike_ofChecked {related : β → γ → Prop} {computation : Checked ε β}
    {computation' : Checked δ γ} (agree : computation.Agree related computation') :
    Alike (α := α) σ π related (ofChecked computation) (ofChecked computation') := by
  intro editing editing' left
  cases agree with
  | ok same => exact .ok same left
  | error same => exact .error same left

theorem alike_mapError {ε' δ' : Type} {related : β → γ → Prop} {edit : Edit α ε β}
    {edit' : Edit α δ γ} (alike : Alike σ π related edit edit') {f : ε → ε'} {g : δ → δ'} :
    Alike σ π related (edit.mapError f) (edit'.mapError g) := by
  intro editing editing' left
  unfold mapError
  rcases (alike editing editing' left).cases with ⟨_, _, _, _, ran, ran', same, left⟩ |
    ⟨_, _, _, _, ran, ran', same, left⟩
  · rw [ran, ran']
    exact .ok same left
  · rw [ran, ran']
    exact .error (same.map fun _ _ _ => trivial) left

theorem alike_onMemory (action : Action α ε β) :
    Alike σ π Eq (onMemory action : Edit α ε β) (onMemory action : Edit α ε β) := by
  intro editing editing' left
  unfold onMemory
  rw [left.memory]
  cases action editing.memory with
  | ok value memory => exact .ok rfl ⟨left.graph, rfl⟩
  | error failure memory => exact .error (.refl (fun _ => trivial) failure) ⟨left.graph, rfl⟩

theorem alike_log (level level' : LogLevel) (text text' : String) :
    Alike (α := α) σ π Eq (log level text : Edit α ε Unit) (log level' text' : Edit α δ Unit) :=
  fun _ _ left => .ok rfl ⟨left.graph, left.memory⟩

theorem alike_addConstant (value : Value) :
    Alike (α := α) σ π (fun id id' => id' = σ id) (addConstant value : Edit α ε VarId)
      (addConstant value : Edit α δ VarId) := by
  intro editing editing' left
  have added := left.graph.addConstant value
  exact .ok added.1 ⟨added.2, left.memory⟩

theorem alike_prune : Alike (α := α) σ π Eq (prune : Edit α ε Unit) (prune : Edit α δ Unit) :=
  alike_graph.bind fun _ _ alike => alike_setGraph alike.prune

variable [Arithmetic α]

theorem alike_addNodeSingle (op : Op α) (inputs : List VarId) :
    Alike σ π (fun id id' => id' = σ id) (addNodeSingle op inputs)
      (addNodeSingle op (inputs.map σ)) := by
  refine alike_graph.bind fun current current' alike => ?_
  have added := alike.addNodeSingle op inputs
  exact (alike_setGraph added.2).bind fun _ _ _ => alike_ofChecked added.1

theorem alike_offerNode (id : NodeId) (op : Op α) (inputs : List VarId) :
    Alike σ π (fun new new' => new' = new.map (List.map σ)) (offerNode id op inputs)
      (offerNode id op (inputs.map σ)) := by
  refine (alike_addNodeSingle op inputs).bind ?_
  rintro replacement _ rfl
  exact alike_graph.bind fun _ _ alike => .pure (alike.standsIn?_eq id replacement)

/-- The same replacements are refused. -/
theorem alike_replaceValidated (pairs : List (VarId × VarId)) :
    Alike (α := α) σ π Eq (replaceValidated pairs)
      (replaceValidated (pairs.map fun (old, new) => (σ old, σ new))) := by
  refine alike_graph.bind fun current current' alike => ?_
  refine (alike_ofChecked (Dataflow.Alike.replaceAll pairs alike)).bind fun replaced replaced' alike' => ?_
  have settle : Alike (α := α) (ε := GraphError) (δ := GraphError) σ π Eq
      (do setGraph replaced; pure true) (do setGraph replaced'; pure true) :=
    (alike_setGraph alike').bind fun _ _ _ => .pure rfl
  rw [alike.hasDestroyers_eq]
  split
  · have validated := alike'.validate
    generalize replaced.validate = answer at validated ⊢
    generalize replaced'.validate = answer' at validated ⊢
    cases validated with
    | ok => exact settle
    | error same =>
      cases same with
      | error => exact .pure rfl
      | fault broken broken' => exact .throw (.fault broken broken')
  · exact settle

section Merging

/-- Merging constants makes no difference between variables that are none. -/
theorem duplicateConstants_filter (memory : Memory α) (graph : Dataflow α) (vars kept : List VarId) :
    duplicateConstants memory graph vars kept =
      duplicateConstants memory graph
        (vars.filter fun id => (graph.var id).constant?.isSome) kept := by
  induction vars generalizing kept with
  | nil => rfl
  | cons id rest ih =>
    cases constant : (graph.var id).constant? with
    | none =>
      rw [List.filter_cons_of_neg (by simp [constant]), ← ih]
      simp only [duplicateConstants, constant]
    | some value =>
      rw [List.filter_cons_of_pos (by simp [constant])]
      simp only [duplicateConstants, constant, ← ih]

theorem duplicateConstants_congr {graph other : Dataflow α} (same : other.vars = graph.vars)
    (memory : Memory α) (vars kept : List VarId) :
    duplicateConstants memory other vars kept = duplicateConstants memory graph vars kept := by
  have var : other.var = graph.var := by
    funext id
    rw [Dataflow.var, Dataflow.var, same]
  have alike : ∀ id other', sameConstant memory other id other' =
      sameConstant memory graph id other' := by
    intro id other'
    simp only [sameConstant, Dataflow.type, var]
    rfl
  induction vars generalizing kept with
  | nil => rfl
  | cons id rest ih => simp only [duplicateConstants, var, funext (alike id), ih]

omit [Arithmetic α] in
theorem liveVars_eq_filter (graph : Dataflow α) :
    graph.liveVars = graph.varIds.filter (· ∈ graph.liveVars) := by
  refine List.filter_congr fun id known => ?_
  simp only [Dataflow.liveVars, List.mem_filter, known, true_and, decide_eq_true_eq]

/-- The same constants are duplicates. -/
theorem duplicateConstants_eq {graph other : Dataflow α} (alike : graph.Alike σ π other)
    (memory : Memory α) :
    duplicateConstants memory other other.liveVars [] =
      (duplicateConstants memory graph graph.liveVars []).map fun (old, new) => (σ old, σ new) := by
  have fixed : ∀ id, (graph.var id).constant?.isSome → σ id = id := by
    intro id constant
    refine alike.exchanges.fixes_of_kind fun container kind => ?_
    simp [Variable.constant?, kind] at constant
  have live : other.liveVars.filter (fun id => (graph.var id).constant?.isSome) =
      graph.liveVars.filter fun id => (graph.var id).constant?.isSome := by
    have ids : other.varIds = graph.varIds := by
      rw [Dataflow.varIds, Dataflow.varIds, alike.vars]
    rw [liveVars_eq_filter other, liveVars_eq_filter graph, ids, List.filter_filter,
      List.filter_filter]
    refine List.filter_congr fun id _ => ?_
    by_cases constant : (graph.var id).constant?.isSome
    · have used : id ∈ other.liveVars ↔ id ∈ graph.liveVars := by
        have moved : σ id ∈ other.liveVars ↔ id ∈ graph.liveVars := alike.mem_liveVars_iff
        rwa [fixed id constant] at moved
      simp only [used]
    · simp [constant]
  rw [duplicateConstants_congr alike.vars, duplicateConstants_filter, live,
    ← duplicateConstants_filter]
  refine (List.map_id _).symm.trans (List.map_congr_left fun pair member => ?_)
  rcases sameConstant_eq_true (sameConstant_of_mem member) with ⟨first, second, left, right, -, -⟩
  change pair = (σ pair.1, σ pair.2)
  rw [fixed pair.1 (by simp [Variable.constant?, left]), fixed pair.2 (by
    simp [Variable.constant?, right])]

theorem alike_mergeConstants :
    Alike (α := α) σ π Eq mergeConstants mergeConstants := by
  refine alike_get.bind fun editing editing' left => ?_
  rw [left.memory, duplicateConstants_eq left.graph]
  refine .foldlM (paired_map _ _) ?_ rfl
  rintro merged _ pair _ rfl ⟨rfl, -⟩
  refine (alike_replaceValidated [pair]).bind ?_
  rintro replaced _ rfl
  split <;> exact .pure rfl

theorem alike_mergeNode (duplicate survivor : NodeId) :
    Alike (α := α) σ π Eq (mergeNode duplicate survivor) (mergeNode duplicate survivor) := by
  refine alike_graph.bind fun current current' alike => ?_
  simp only [alike.node?_eq]
  cases current.node? duplicate with
  | none => exact .pure rfl
  | some first =>
    cases current.node? survivor with
    | none => exact .pure rfl
    | some second =>
      have zipped : (first.rename σ).outputs.zip (second.rename σ).outputs =
          (first.outputs.zip second.outputs).map fun (old, new) => (σ old, σ new) := by
        simp only [Node.rename, List.zip_map]
        rfl
      simp only [Option.map_some, zipped]
      exact alike_replaceValidated _

/-- Buckets under other names. -/
def Buckets.rename (σ : VarId → VarId) (buckets : Buckets) : Buckets :=
  buckets.map fun (inputs, nodes) => (inputs.map σ, nodes)

theorem bucket_rename (injective : Function.Injective σ) (buckets : Buckets) (inputs : List VarId) :
    bucket (buckets.rename σ) (inputs.map σ) = bucket buckets inputs := by
  have found : (buckets.rename σ).lookup (inputs.map σ) = buckets.lookup inputs := by
    induction buckets with
    | nil => rfl
    | cons entry rest ih =>
      rcases entry with ⟨listed, nodes⟩
      simp only [Buckets.rename, List.map_cons, List.lookup_cons] at ih ⊢
      by_cases same : inputs = listed
      · simp [same]
      · have moved : inputs.map σ ≠ listed.map σ := (List.map_injective_iff.mpr injective).ne same
        rw [beq_false_of_ne same, beq_false_of_ne moved]
        exact ih
  rw [bucket, bucket, found]

omit [Arithmetic α] in
theorem alike_settled (merged : Nat) (buckets : Buckets) :
    Alike (α := α) (ε := GraphError) (δ := GraphError) σ π
      (fun next next' => next' = (next.1, next.2.rename σ)) (pure (merged, buckets))
      (pure (merged, buckets.rename σ)) :=
  .pure rfl

/-- A node is merged into the same survivor, if there is one. -/
theorem alike_survivor {survivor? survivor?' : Option NodeId} (same : survivor?' = survivor?)
    (id : NodeId) (merged : Nat) (buckets kept : Buckets) :
    Alike (α := α) σ π (fun next next' => next' = (next.1, next.2.rename σ))
      (match survivor? with
        | some survivor => do
          if ← mergeNode id survivor then pure (merged + 1, buckets)
          else pure (merged, kept)
        | none => pure (merged, kept))
      (match survivor?' with
        | some survivor => do
          if ← mergeNode id survivor then pure (merged + 1, buckets.rename σ)
          else pure (merged, kept.rename σ)
        | none => pure (merged, kept.rename σ)) := by
  rw [same]
  cases survivor? with
  | none => exact alike_settled merged kept
  | some survivor =>
    refine (alike_mergeNode id survivor).bind ?_
    rintro replaced _ rfl
    split
    · exact alike_settled (merged + 1) buckets
    · exact alike_settled merged kept

theorem alike_mergeStep {state state' : Nat × Buckets}
    (same : state' = (state.1, state.2.rename σ)) (id : NodeId) :
    Alike (α := α) σ π (fun next next' => next' = (next.1, next.2.rename σ)) (mergeStep state id)
      (mergeStep state' id) := by
  subst same
  rcases state with ⟨merged, buckets⟩
  refine alike_graph.bind fun current current' alike => ?_
  have found := alike.node?_eq id
  generalize current'.node? id = node?' at found ⊢
  subst found
  cases current.node? id with
  | none => exact alike_settled merged buckets
  | some node =>
    have named := bucket_rename alike.exchanges.injective buckets node.inputs
    have kept : keep (buckets.rename σ) (node.inputs.map σ) id =
        (keep buckets node.inputs id).rename σ := by
      rw [keep, named]
      rfl
    simp only [Option.map_some, Node.rename_op, Node.rename_inputs, named, kept]
    split
    · exact alike_settled merged buckets
    · refine alike_survivor (congrArg (List.find? · _) (funext fun candidate => ?_)) id merged _ _
      rw [alike.node?_eq]
      cases current.node? candidate <;> rfl

theorem alike_merge : Alike (α := α) σ π Eq merge merge := by
  refine alike_mapError (alike_mergeConstants.bind ?_)
  rintro constants _ rfl
  refine alike_graph.bind fun current current' alike => ?_
  refine (alike_ofChecked (alike.order_alike fun _ _ => Iff.rfl)).bind ?_
  rintro order _ rfl
  have steps : Alike (α := α) σ π (fun next next' => next' = (next.1, next.2.rename σ))
      (order.foldlM mergeStep (constants, [])) (order.foldlM mergeStep (constants, [])) := by
    refine .foldlM (paired_self order) ?_ rfl
    rintro state state' _ id same ⟨rfl, -⟩
    exact alike_mergeStep same id
  refine steps.bind ?_
  rintro ⟨merged, buckets⟩ _ rfl
  exact .pure rfl

end Merging

section InPlace

theorem alike_makeNodeInPlace (id : NodeId) :
    Alike (α := α) σ π Eq (makeNodeInPlace id) (makeNodeInPlace id) := by
  refine alike_graph.bind fun current current' alike => ?_
  simp only [alike.node?_eq]
  cases current.node? id with
  | none => exact .pure rfl
  | some node =>
    simp only [Option.map_some, Node.rename]
    split
    · exact .pure rfl
    · refine (alike_ofChecked (alike.reusableInputs id)).bind ?_
      rintro reusable _ rfl
      cases reusable.head?.bind node.op.destructiveVariant? with
      | none => exact .pure rfl
      | some variant =>
        refine (alike_ofChecked (alike.replaceNodeOp id variant)).bind fun changed changed' alike => ?_
        exact (alike_setGraph alike).bind fun _ _ _ => .pure rfl

theorem alike_makeInPlace : Alike (α := α) σ π Eq makeInPlace makeInPlace := by
  refine alike_mapError (alike_graph.bind fun current current' alike => ?_)
  refine (alike_ofChecked (alike.order_alike fun _ _ => Iff.rfl)).bind ?_
  rintro order _ rfl
  refine .foldlM (paired_self order) ?_ rfl
  rintro changed _ _ id rfl ⟨rfl, -⟩
  refine (alike_makeNodeInPlace id).bind ?_
  rintro made _ rfl
  exact .pure rfl

end InPlace

end Edit

namespace Rule

variable [Arithmetic α]

/-- A rule that does the same thing to graphs that differ by an exchange of variables. -/
def Alike (σ : VarId → VarId) (π : Equiv.Perm Nat) (rule : Rule α) : Prop :=
  match rule.action with
  | .onNode apply => ∀ id, Edit.Alike σ π (fun new new' => new' = new.map (List.map σ)) (apply id)
      (apply id)
  | .onGraph apply => Edit.Alike σ π Eq apply apply

open Edit

theorem alike_merge {tags : List String} : (Rule.merge tags : Rule α).Alike σ π := Edit.alike_merge

theorem alike_makeInPlace {tags : List String} : (Rule.makeInPlace tags : Rule α).Alike σ π :=
  Edit.alike_makeInPlace

theorem alike_printGraph : (Rule.printGraph : Rule α).Alike σ π :=
  alike_get.bind fun _ _ _ => (alike_log _ _ _ _).bind fun _ _ _ => .pure rfl

section Operands

variable {graph other : Dataflow α} (alike : graph.Alike σ π other)

include alike

theorem remainingOperand?_alike (memory : Memory α) (id : NodeId) (function : ScalarFunction)
    (identity : α) : remainingOperand? memory other id function identity =
      (remainingOperand? memory graph id function identity).map (List.map σ) := by
  rw [remainingOperand?, remainingOperand?, alike.elementwiseOperands?_eq]
  rcases graph.elementwiseOperands? id function with _ | _ | ⟨left, _ | ⟨right, _ | ⟨third, rest⟩⟩⟩
  · rfl
  · rfl
  · rfl
  · simp only [Option.map_some, List.map_cons, List.map_nil, alike.isUniformly_eq,
      alike.standsIn?_eq]
    by_cases dropsRight : graph.isUniformly memory right identity <;>
      by_cases dropsLeft : graph.isUniformly memory left identity <;>
      cases graph.standsIn? id left <;> simp [dropsRight, dropsLeft]
  · rfl

omit [Arithmetic α] in
theorem nestedOperand?_alike (id : NodeId) (outer inner : ScalarFunction) :
    nestedOperand? other id outer inner =
      (nestedOperand? graph id outer inner).map (List.map σ) := by
  rw [nestedOperand?, nestedOperand?, alike.elementwiseOperands?_eq]
  rcases graph.elementwiseOperands? id outer with _ | _ | ⟨operand, rest⟩
  · rfl
  · rfl
  · simp only [Option.map_some, List.map_cons, Option.bind_eq_bind, Option.bind_some,
      List.head?_cons, alike.producerOperands?_eq]
    rcases graph.producerOperands? operand inner with _ | _ | ⟨innermost, others⟩
    · rfl
    · rfl
    · exact alike.standsIn?_eq id innermost

theorem besideOne?_alike (memory : Memory α) (operands : List VarId) :
    besideOne? memory other (operands.map σ) = (besideOne? memory graph operands).map σ := by
  rcases operands with _ | ⟨left, _ | ⟨right, _ | ⟨third, rest⟩⟩⟩
  · rfl
  · rfl
  · simp only [besideOne?, List.map_cons, List.map_nil, alike.isUniformly_eq]
    split
    · rfl
    · split <;> rfl
  · rfl

omit [Arithmetic α] in
theorem scalarConstant?_alike (memory : Memory α) (var : VarId) :
    scalarConstant? memory other (σ var) = scalarConstant? memory graph var := by
  rw [scalarConstant?, scalarConstant?, alike.constant?_eq]

end Operands

theorem alike_dropOperand {name : String} {function : ScalarFunction} {identity : α} :
    (dropOperand name function identity).Alike σ π := by
  refine fun id => alike_get.bind fun editing editing' left => .pure ?_
  rw [left.memory]
  exact remainingOperand?_alike left.graph _ id function identity

omit [Arithmetic α] in
theorem alike_nested {outer inner : ScalarFunction} (id : NodeId) :
    Edit.Alike (α := α) (ε := GraphError) (δ := GraphError) σ π
      (fun new new' => new' = new.map (List.map σ))
      (do pure (nestedOperand? (← Edit.graph) id outer inner))
      (do pure (nestedOperand? (← Edit.graph) id outer inner)) :=
  alike_graph.bind fun _ _ alike => .pure (nestedOperand?_alike alike id outer inner)

theorem alike_collapse {name : String} {function : ScalarFunction} {number : α} :
    (collapse name function number).Alike σ π := by
  refine fun id => alike_graph.bind fun current current' alike => ?_
  simp only [alike.elementwiseOperands?_eq]
  rcases current.elementwiseOperands? id function with _ | _ | ⟨left, _ | ⟨right, _ | ⟨third, rest⟩⟩⟩
  · exact .pure rfl
  · exact .pure rfl
  · exact .pure rfl
  · simp only [Option.map_some, List.map_cons, List.map_nil, alike.exchanges.eq_iff,
      alike.standsIn?_eq, Option.isSome_map]
    split
    · refine (alike_addNodeSingle (.fill number) [left]).bind ?_
      rintro replacement _ rfl
      exact .pure rfl
    · exact .pure rfl
  · exact .pure rfl

omit [Arithmetic α] in
theorem alike_removeIdentity : (removeIdentity : Rule α).Alike σ π := by
  refine fun id => alike_graph.bind fun current current' alike => ?_
  simp only [alike.node?_eq]
  rcases current.node? id with _ | ⟨op, inputs, outputs⟩
  · exact .pure rfl
  · cases op with
    | view | copy =>
      cases inputs with
      | nil => exact .pure rfl
      | cons operand rest => exact .pure (alike.standsIn?_eq id operand)
    | _ => exact .pure rfl

theorem alike_log1p : (log1p : Rule α).Alike σ π := by
  refine fun id => alike_get.bind fun editing editing' left => ?_
  simp only [left.memory, left.graph.elementwiseOperands?_eq]
  rcases editing.graph.elementwiseOperands? id .log with _ | _ | ⟨operand, rest⟩
  · exact .pure rfl
  · exact .pure rfl
  · simp only [Option.map_some, List.map_cons, Option.bind_eq_bind, Option.bind_some,
      List.head?_cons, left.graph.producerOperands?_eq]
    cases editing.graph.producerOperands? operand .add with
    | none => exact .pure rfl
    | some operands =>
      simp only [Option.map_some, Option.bind_some, besideOne?_alike left.graph]
      cases besideOne? editing.memory editing.graph operands with
      | none => exact .pure rfl
      | some operand => exact alike_offerNode id (.ofFunction .log1p) [operand]

theorem alike_mulSelf : (mulSelf : Rule α).Alike σ π := by
  refine fun id => alike_graph.bind fun current current' alike => ?_
  simp only [alike.elementwiseOperands?_eq]
  rcases current.elementwiseOperands? id .mul with _ | _ | ⟨left, _ | ⟨right, _ | ⟨third, rest⟩⟩⟩
  · exact .pure rfl
  · exact .pure rfl
  · exact .pure rfl
  · simp only [Option.map_some, List.map_cons, List.map_nil, alike.exchanges.eq_iff]
    split
    · exact alike_offerNode id (.ofFunction .sqr) [left]
    · exact .pure rfl
  · exact .pure rfl

theorem alike_divByConstant : (divByConstant : Rule α).Alike σ π := by
  refine fun id => alike_get.bind fun editing editing' left => ?_
  simp only [left.memory, left.graph.elementwiseOperands?_eq]
  rcases editing.graph.elementwiseOperands? id .div with
    _ | _ | ⟨dividend, _ | ⟨divisor, _ | ⟨third, rest⟩⟩⟩
  · exact .pure rfl
  · exact .pure rfl
  · exact .pure rfl
  · simp only [Option.map_some, List.map_cons, List.map_nil, scalarConstant?_alike left.graph]
    cases scalarConstant? editing.memory editing.graph divisor with
    | none => exact .pure rfl
    | some number =>
      dsimp only
      split
      · exact .pure rfl
      · refine (alike_onMemory _).bind ?_
        rintro reciprocal _ rfl
        refine (alike_addConstant reciprocal).bind ?_
        rintro factor _ rfl
        exact alike_offerNode id (.ofFunction .mul) [dividend, factor]
  · exact .pure rfl

/-- No rule of the standard database makes a difference between variables of one container. -/
theorem alike_of_standard {query : Query} :
    ∀ entry ∈ (Database.standard : Database α).select query, ∀ rule ∈ entry.2, rule.Alike σ π := by
  intro entry member rule selected
  cases isStandard_of_select member selected with
  | merge => exact alike_merge
  | removeIdentity => exact alike_removeIdentity
  | addZero | mulOne => exact alike_dropOperand
  | negNeg | logExp => exact alike_nested
  | subSelf | divSelf => exact alike_collapse
  | log1p => exact alike_log1p
  | mulSelf => exact alike_mulSelf
  | divByConstant => exact alike_divByConstant
  | makeInPlace => exact alike_makeInPlace
  | printGraph => exact alike_printGraph

end Rule

namespace Edit

variable [Arithmetic α] {rules : List (Rule α)} {κ : Type}

theorem replacements_map (injective : Function.Injective σ) (outputs new : List VarId) :
    replacements (outputs.map σ) (new.map σ) =
      (replacements outputs new).map fun (old, other) => (σ old, σ other) := by
  rw [replacements, replacements, List.zip_map, List.filter_map]
  refine congrArg (List.map _) (List.filter_congr fun pair _ => ?_)
  simp [injective.eq_iff]

/-- The same replacements are put in place. -/
theorem alike_commit (pairs : List (VarId × VarId)) :
    Alike (α := α) σ π Eq (commit pairs) (commit (pairs.map fun (old, new) => (σ old, σ new))) := by
  intro before before' left
  unfold commit
  rcases (alike_replaceValidated pairs before before' left).cases with
    ⟨answer, _, _, _, ran, ran', rfl, left⟩ | ⟨failure, failure', _, _, ran, ran', same, left⟩
  · rw [ran, ran']
    cases answer with
    | true => exact .ok rfl left
    | false => exact .ok rfl ⟨left.graph.prune, left.memory⟩
  · rw [ran, ran']
    cases same with
    | error => exact .ok rfl ⟨left.graph.prune, left.memory⟩
    | fault broken broken' => exact .error (.fault broken broken') left

theorem alike_applyLocal {apply : NodeId → Edit α GraphError (Option (List VarId))}
    (applies : ∀ id, Alike σ π (fun new new' => new' = new.map (List.map σ)) (apply id) (apply id))
    (id : NodeId) : Alike σ π Eq (applyLocal apply id) (applyLocal apply id) := by
  refine alike_graph.bind fun before before' alike => ?_
  simp only [alike.node?_eq, alike.size_nodes]
  cases before.node? id with
  | none => exact .pure rfl
  | some node =>
    refine (alike_mapError (applies id)).bind ?_
    rintro new _ rfl
    cases new with
    | none =>
      refine alike_graph.bind fun current current' alike => ?_
      simp only [alike.size_nodes]
      split
      · exact alike_prune.bind fun _ _ _ => .pure rfl
      · exact .pure rfl
    | some new =>
      simp only [Option.map_some, Node.rename_outputs,
        replacements_map alike.exchanges.injective, List.isEmpty_map]
      split
      · exact .pure rfl
      · exact alike_commit _

omit [Arithmetic α] in
theorem alike_sumOver {items : List κ} {change change' : κ → Edit α OptimizeError Nat}
    (each : ∀ item ∈ items, Alike σ π Eq (change item) (change' item)) :
    Alike σ π Eq (sumOver items change) (sumOver items change') := by
  refine .foldlM (paired_self items) ?_ rfl
  rintro total _ _ item rfl ⟨rfl, member⟩
  refine (each item member).bind ?_
  rintro count _ rfl
  exact .pure rfl

theorem alike_iterate (same : ∀ rule ∈ rules, rule.Alike σ π) :
    Alike σ π Eq (iterate rules) (iterate rules) := by
  simp only [iterate]
  refine Parallel.bind (alike_sumOver fun rule member => ?_) ?_
  · have applies := same rule member
    simp only [Rule.Alike] at applies
    cases action : rule.action with
    | onNode apply => exact .pure rfl
    | onGraph apply =>
      rw [action] at applies
      refine applies.bind ?_
      rintro changed _ rfl
      split <;> exact .pure rfl
  rintro global _ rfl
  split
  · exact .pure rfl
  · refine alike_graph.bind fun current current' alike => ?_
    refine (alike_ofChecked ((alike.order_alike fun _ _ => Iff.rfl).mapError
      fun _ _ _ => trivial)).bind ?_
    rintro order _ rfl
    refine Parallel.bind (alike_sumOver fun id _ => alike_sumOver fun rule member => ?_) ?_
    · have applies := same rule (List.mem_of_mem_filter member)
      simp only [Rule.Alike] at applies
      cases action : rule.action with
      | onNode apply =>
        rw [action] at applies
        exact alike_applyLocal applies id
      | onGraph apply => exact .pure rfl
    · rintro changed _ rfl
      exact .pure rfl

theorem alike_repeatRules (same : ∀ rule ∈ rules, rule.Alike σ π) (left iterations applied : Nat) :
    Alike σ π Eq (repeatRules rules left iterations applied)
      (repeatRules rules left iterations applied) := by
  induction left generalizing iterations applied with
  | zero => exact .pure rfl
  | succ left ih =>
    simp only [repeatRules]
    refine (alike_iterate same).bind ?_
    rintro count _ rfl
    split
    · exact .pure rfl
    · exact ih _ _

theorem alike_checkValid :
    Alike (α := α) σ π Orderings.Same checkValid checkValid :=
  alike_graph.bind fun _ _ alike =>
    alike_ofChecked (alike.validate.mapError fun _ _ _ => trivial)

omit [Arithmetic α] in
theorem alike_logAll {ε : Type} (level : LogLevel) (texts : List String) :
    Alike (α := α) σ π Eq
      (forIn texts PUnit.unit fun text _ => do
        log level text
        pure (ForInStep.yield PUnit.unit) : Edit α ε PUnit)
      (forIn texts PUnit.unit fun text _ => do
        log level text
        pure (ForInStep.yield PUnit.unit) : Edit α ε PUnit) := by
  induction texts with
  | nil => exact .pure rfl
  | cons text rest ih =>
    simp only [List.forIn_cons, bind_assoc, pure_bind]
    exact (alike_log level level text text).bind fun _ _ _ => ih

theorem alike_runStage (same : ∀ rule ∈ rules, rule.Alike σ π) (budget : Option Nat)
    (report : OptimizeReport) (stage : Stage α) :
    Alike σ π Eq (runStage budget report stage rules) (runStage budget report stage rules) := by
  simp only [runStage]
  refine (alike_repeatRules same _ 0 0).bind ?_
  rintro outcome _ rfl
  refine (alike_logAll _ _).bind fun _ _ _ => ?_
  split
  · have checked : Alike (α := α) (ε := OptimizeError) (δ := OptimizeError) σ π Eq
        (discard checkValid) (discard checkValid) :=
      alike_checkValid.bind fun _ _ _ => .pure rfl
    exact checked.bind fun _ _ _ => .pure rfl
  · exact .pure rfl

/-- The standard optimization does the same thing to graphs that differ by an exchange of variables. -/
theorem alike_optimize (query : Query) (budget : Option Nat) :
    Alike (α := α) σ π (fun answer answer' => answer'.1 = answer.1 ∧ answer.2.Same answer'.2)
      (optimize Database.standard query budget) (optimize Database.standard query budget) := by
  simp only [optimize]
  refine Parallel.bind (.foldlM (paired_self _) ?_ rfl) ?_
  · rintro report _ _ entry rfl ⟨rfl, member⟩
    exact alike_runStage (Rule.alike_of_standard entry member) budget report entry.1
  · rintro report _ rfl
    exact alike_checkValid.bind fun _ _ same => .pure ⟨rfl, same⟩

end Edit

end ArrayGraph
