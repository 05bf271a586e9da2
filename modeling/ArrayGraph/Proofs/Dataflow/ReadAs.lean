import ArrayGraph.Proofs.Dataflow.Alike
import ArrayGraph.Proofs.Optimize.Ready

/-!
# Reading some variables for others

If variables are read for others throughout a graph then what the graph computes depends on other
roots, but as long as roots are read for roots its nodes depend on each other as before. Replacing
several roots one after the other comes to reading others for them at once.
-/

namespace ArrayGraph

variable {α : Type}

/-- A node that reads other variables. -/
def Node.readAs (f : VarId → VarId) (node : Node α) : Node α :=
  { node with inputs := node.inputs.map f }

@[simp]
theorem Node.readAs_op (f : VarId → VarId) (node : Node α) : (node.readAs f).op = node.op := rfl

@[simp]
theorem Node.readAs_inputs (f : VarId → VarId) (node : Node α) :
    (node.readAs f).inputs = node.inputs.map f := rfl

@[simp]
theorem Node.readAs_outputs (f : VarId → VarId) (node : Node α) :
    (node.readAs f).outputs = node.outputs := rfl

/-- The variable that is read where an old one is replaced by a new one. -/
def VarId.redirect (old new id : VarId) : VarId := if id = old then new else id

/-- The variable that is read after several replacements. -/
def VarId.redirectAll : List (VarId × VarId) → VarId → VarId
  | [], id => id
  | (old, new) :: rest, id => redirectAll rest (redirect old new id)

namespace Dataflow

/-- A graph in which other variables are read. -/
def readAs (f : VarId → VarId) (graph : Dataflow α) : Dataflow α :=
  { graph with
    nodes := graph.nodes.map fun place => place.map (Node.readAs f)
    outputs := graph.outputs.map f }

variable {graph : Dataflow α} {f g : VarId → VarId} {id : NodeId} {node : Node α} {var : VarId}

theorem readAs_readAs : (graph.readAs f).readAs g = graph.readAs (g ∘ f) := by
  simp only [readAs, Array.map_map, List.map_map]
  congr
  funext place
  cases place <;> simp [Node.readAs, Function.comp_def]

theorem readAs_self (same : ∀ id, f id = id) : graph.readAs f = graph := by
  obtain rfl : f = id := funext same
  have unchanged : (Node.readAs id : Node α → Node α) = id := by
    funext node
    simp [Node.readAs]
  simp [readAs, unchanged]

theorem redirect_eq (graph : Dataflow α) (old new : VarId) :
    graph.redirect old new = graph.readAs (VarId.redirect old new) := rfl

theorem node?_readAs : (graph.readAs f).node? id = (graph.node? id).map (Node.readAs f) := by
  simp only [node?, readAs, Array.getElem?_map]
  cases graph.nodes[id.index]? <;> rfl

theorem var_readAs : (graph.readAs f).var = graph.var := rfl

theorem producerId?_readAs : (graph.readAs f).producerId? var = graph.producerId? var := by
  simp only [producerId?, producer?, var_readAs, node?_readAs]
  split
  · simp only [Option.map_map]
    rfl
  · rfl

/-- Variables are read for others that the same node computes, or that no node computes either. -/
def KeepsProducer (f : VarId → VarId) (graph : Dataflow α) : Prop :=
  ∀ var, graph.producerId? (f var) = graph.producerId? var

section Ancestors

variable (keeps : graph.KeepsProducer f)

include keeps

theorem ancestorsOf_readAs (vars : List VarId) :
    (graph.readAs f).ancestorsOf (vars.map f) = graph.ancestorsOf vars := by
  have sources : (graph.readAs f).sources = graph.sources := by
    funext id
    rw [sources, sources, node?_readAs]
    cases graph.node? id with
    | none => rfl
    | some node =>
      simp only [Option.map_some, Node.readAs_inputs, List.filterMap_map]
      exact List.filterMap_congr fun input _ => producerId?_readAs.trans (keeps input)
  have size : (graph.readAs f).nodes.size = graph.nodes.size := by simp [readAs]
  have nodeIds : (graph.readAs f).nodeIds = graph.nodeIds := by rw [nodeIds, nodeIds, size]
  have producers : (vars.map f).filterMap (graph.readAs f).producerId? =
      vars.filterMap graph.producerId? := by
    rw [List.filterMap_map]
    exact List.filterMap_congr fun id _ => producerId?_readAs.trans (keeps id)
  rw [ancestorsOf, ancestorsOf, sortNodes, sortNodes, nodeIds, sources, size, producers]

theorem prune_readAs : (graph.readAs f).prune = graph.prune.readAs f := by
  have reachable : (graph.readAs f).ancestorsOf (graph.readAs f).outputs =
      graph.ancestorsOf graph.outputs := ancestorsOf_readAs keeps graph.outputs
  unfold prune
  rw [reachable]
  simp only [readAs, Dataflow.mk.injEq, true_and, and_true]
  refine Array.ext_getElem? fun index => ?_
  simp only [Array.getElem?_mapIdx, Array.getElem?_map]
  cases graph.nodes[index]? with
  | none => rfl
  | some place =>
    simp only [Option.map_some]
    split <;> rfl

end Ancestors

/-- What live nodes compute are variables that name a node. -/
def OutputsProduced (graph : Dataflow α) : Prop :=
  ∀ id node, graph.node? id = some node → ∀ output ∈ node.outputs,
    ∃ id index, (graph.var output).kind = .output id index

theorem OutputsProduced.readAs (produced : graph.OutputsProduced) :
    (graph.readAs f).OutputsProduced := by
  intro id node live output member
  rw [node?_readAs, Option.map_eq_some_iff] at live
  rcases live with ⟨original, live, rfl⟩
  exact produced id original live output member

/-- A root can be replaced by another one of its type. -/
structure Replaces (graph : Dataflow α) (old new : VarId) : Prop where
  old_known : old.index < graph.vars.size
  new_known : new.index < graph.vars.size
  type : graph.type old = graph.type new
  old_root : ∀ id index, (graph.var old).kind ≠ .output id index
  new_root : ∀ id index, (graph.var new).kind ≠ .output id index

theorem producerId?_eq_none_of_kind (kind : ∀ id index, (graph.var var).kind ≠ .output id index) :
    graph.producerId? var = none :=
  producerId?_eq_none.mpr (producer?_eq_none_of_kind kind)

theorem Replaces.keepsProducer {old new : VarId} (replaces : graph.Replaces old new) :
    graph.KeepsProducer (VarId.redirect old new) := by
  intro var
  unfold VarId.redirect
  split
  · rename_i same
    subst same
    rw [producerId?_eq_none_of_kind replaces.old_root, producerId?_eq_none_of_kind replaces.new_root]
  · rfl

/-- No cycle can come of replacing a root, as nothing computes the new one. -/
theorem Replaces.checkReplacement {old new : VarId} (produced : graph.OutputsProduced)
    (replaces : graph.Replaces old new) : graph.checkReplacement old new = Except.ok () := by
  refine checkReplacement_of_apart replaces.old_known replaces.new_known replaces.type
    fun id node live _ => ⟨?_, ?_⟩
  · rintro ⟨producer, produces, -⟩
    rw [producerId?_eq_none_of_kind replaces.new_root] at produces
    cases produces
  · intro member
    rcases produced id node live new member with ⟨producer, index, kind⟩
    exact replaces.new_root producer index kind

theorem replace_of_replaces {old new : VarId} (pruned : graph.Pruned)
    (produced : graph.OutputsProduced) (replaces : graph.Replaces old new) :
    graph.replace old new = Except.ok (graph.readAs (VarId.redirect old new)) := by
  unfold replace
  by_cases same : old = new
  · rw [if_pos same, readAs_self fun id => ?_]
    unfold VarId.redirect
    split
    · rename_i equal
      rw [← same, equal]
    · rfl
  · rw [if_neg same, replaces.checkReplacement produced, Checked.ok_bind, redirect_eq,
      prune_readAs replaces.keepsProducer, pruned.prune_eq]

theorem Pruned.readAs (pruned : graph.Pruned) (keeps : graph.KeepsProducer f) :
    (graph.readAs f).Pruned := by
  intro id node live
  rw [node?_readAs, Option.map_eq_some_iff] at live
  rcases live with ⟨original, live, rfl⟩
  change id ∈ (graph.readAs f).ancestorsOf (graph.outputs.map f)
  rw [ancestorsOf_readAs keeps]
  exact pruned id original live

theorem IsRead.readAs (read : graph.IsRead var) : (graph.readAs f).IsRead (f var) := by
  rcases read with output | ⟨id, node, live, input⟩
  · exact Or.inl (List.mem_map_of_mem output)
  · exact Or.inr ⟨id, node.readAs f, by rw [node?_readAs, live]; rfl, List.mem_map_of_mem input⟩

/-- A graph read in two ways that differ by an exchange of variables. -/
theorem alike_readAs {σ : VarId → VarId} {π : Equiv.Perm Nat} {inputs : List VarId}
    (exchanges : graph.Exchanges σ) (produced : graph.OutputsProduced)
    (reads : ∀ var, graph.IsRead var → g var = σ (f var))
    (arranges : Arranges π (graph.inputs.map σ) inputs) (distinct : graph.inputs.Nodup)
    (unguarded : graph.guarded = []) :
    (graph.readAs f).Alike σ π ({ graph with inputs }.readAs g) := by
  have all : ∀ ids : List VarId, (∀ id ∈ ids, graph.IsRead id) → ids.map g = (ids.map f).map σ := by
    intro ids read
    rw [List.map_map]
    exact List.map_congr_left fun id member => reads id (read id member)
  refine ⟨exchanges.extend (List.prefix_refl _), rfl, ?_, arranges, distinct,
    all graph.outputs fun _ member => Or.inl member, by simp [Dataflow.readAs, unguarded]⟩
  refine Array.ext_getElem? fun index => ?_
  simp only [Dataflow.readAs, Array.getElem?_map]
  cases place : graph.nodes[index]? with
  | none => rfl
  | some content =>
    cases content with
    | none => rfl
    | some node =>
      have live : graph.node? ⟨index⟩ = some node := by rw [node?, place]; rfl
      have inputs := all node.inputs fun _ member => Or.inr ⟨⟨index⟩, node, live, member⟩
      have outputs : node.outputs.map σ = node.outputs := by
        refine (List.map_congr_left fun output member => ?_).trans (List.map_id _)
        rcases produced ⟨index⟩ node live output member with ⟨id, position, kind⟩
        refine exchanges.fixes_of_kind fun container => ?_
        rw [kind]
        exact VarKind.noConfusion
      simp [Node.readAs, Node.rename, inputs, outputs]

/-- Replacing roots one after the other comes to reading others for them at once. -/
theorem replaceAll_of_replaces {pairs : List (VarId × VarId)} (pruned : graph.Pruned)
    (produced : graph.OutputsProduced) (replaces : ∀ pair ∈ pairs, graph.Replaces pair.1 pair.2) :
    graph.replaceAll pairs = Except.ok (graph.readAs (VarId.redirectAll pairs)) := by
  induction pairs generalizing graph with
  | nil => exact congrArg Except.ok (readAs_self fun _ => rfl).symm
  | cons pair rest ih =>
    rcases pair with ⟨old, new⟩
    have first := replaces (old, new) (by simp)
    have others := ih (pruned.readAs first.keepsProducer) produced.readAs fun pair member => by
      have later := replaces pair (by simp [member])
      exact ⟨later.old_known, later.new_known, later.type, later.old_root, later.new_root⟩
    have replaced : graph.replaceAll ((old, new) :: rest) =
        graph.replace old new >>= fun middle => middle.replaceAll rest := rfl
    rw [replaced, replace_of_replaces pruned produced first, Checked.ok_bind]
    refine others.trans (congrArg Except.ok ?_)
    rw [readAs_readAs]
    rfl

end Dataflow

namespace Graph

variable {source : Graph α} {f : VarId → VarId} {ε : Type}

/-- A symbolic graph in which other variables are read. -/
def readAs (f : VarId → VarId) (source : Graph α) : Graph α :=
  { source with nodes := source.nodes.map (Node.readAs f) }

/-- Variables are read as themselves or as other variables of their containers. -/
def Interchanges (source : Graph α) (f : VarId → VarId) : Prop :=
  ∀ id, f id ≠ id → ∃ var var' container, source.vars[id.index]? = some var ∧
    source.vars[(f id).index]? = some var' ∧ var.kind = .shared container ∧
    var'.kind = .shared container ∧ var'.type = var.type

theorem whole_readAs (source : Graph α) (f : VarId → VarId) (inputs outputs : List VarId) :
    (source.readAs f).whole inputs (outputs.map f) = (source.whole inputs outputs).readAs f := by
  simp only [whole, readAs, Dataflow.readAs, Array.map_map]
  rfl

theorem getNode_readAs (id : NodeId) : ((source.readAs f).getNode id : Checked ε (Node α)) =
    (fun node => node.readAs f) <$> (source.getNode id : Checked ε (Node α)) := by
  simp only [getNode, readAs, Array.getElem?_map]
  cases source.nodes[id.index]? <;> rfl

namespace Interchanges

variable (interchanges : source.Interchanges f)

include interchanges

theorem known_iff (id : VarId) : (f id).index < source.vars.size ↔ id.index < source.vars.size := by
  by_cases moved : f id = id
  · rw [moved]
  · rcases interchanges id moved with ⟨_, _, _, found, found', _⟩
    exact iff_of_true (Array.getElem?_eq_some_iff.mp found').1 (Array.getElem?_eq_some_iff.mp found).1

theorem keepsProducer {graph : Dataflow α} (vars : graph.vars = source.vars) :
    graph.KeepsProducer f := by
  intro id
  have kind : (graph.var (f id)).kind = (graph.var id).kind := by
    by_cases moved : f id = id
    · rw [moved]
    · rcases interchanges id moved with ⟨_, _, _, found, found', kind, kind', _⟩
      simp only [Dataflow.var, vars, found, found', Option.getD_some, kind, kind']
  simp only [Dataflow.producerId?, Dataflow.producer?, Variable.producer?, kind]

end Interchanges

end Graph

namespace Dataflow

variable {source : Graph α} {f : VarId → VarId} {declared declared' : List VarId}

/-- The walk passes by a variable of a container. -/
theorem requireDeclared_shared (source : Graph α) {fuel : Nat} {id : VarId}
    {stack visited : List VarId} {var : Variable} {container : ContainerId}
    (found : source.vars[id.index]? = some var) (kind : var.kind = .shared container) (new : id ∉ visited) :
    requireDeclared source declared (fuel + 1) (id :: stack) visited =
      requireDeclared source declared fuel stack (id :: visited) := by
  have located : (source.getVar id : Checked GraphError Variable) = Except.ok var :=
    Graph.getVar_eq_ok.mpr found
  rw [requireDeclared, if_neg new, located]
  simp only [Checked.ok_bind, kind]

/-- A variable that has not been visited, although what it is read as has been, belongs to a
container, since another variable has been read as the same one. -/
theorem shared_of_visited (interchanges : source.Interchanges f) {id : VarId}
    {visited visited' : List VarId} (seen : ∀ id, id ∈ visited' ↔ ∃ before ∈ visited, f before = id)
    (new : id ∉ visited) (visit : f id ∈ visited') :
    ∃ var container, source.vars[id.index]? = some var ∧ var.kind = .shared container := by
  by_cases moved : f id = id
  · rcases (seen _).mp visit with ⟨before, member, read⟩
    have movedBefore : f before ≠ before := fun still =>
      new ((still.symm.trans (read.trans moved)) ▸ member)
    rcases interchanges before movedBefore with ⟨_, var, container, _, found, _, kind, _⟩
    rw [read, moved] at found
    exact ⟨var, container, found, kind⟩
  · rcases interchanges id moved with ⟨var, _, container, found, _, kind, _⟩
    exact ⟨var, container, found, kind⟩

/-- Capture asks for the same declarations, whichever variable of a container is read. -/
theorem requireDeclared_readAs (interchanges : source.Interchanges f)
    (same : ∀ (id : VarId) var, source.vars[id.index]? = some var → var.kind = .input →
      (id ∈ declared' ↔ id ∈ declared))
    {fuel : Nat} {stack visited visited' : List VarId}
    (seen : ∀ id, id ∈ visited' ↔ ∃ before ∈ visited, f before = id) :
    requireDeclared (source.readAs f) declared' fuel (stack.map f) visited' =
      requireDeclared source declared fuel stack visited := by
  induction fuel generalizing stack visited visited' with
  | zero => cases stack <;> rfl
  | succ fuel ih =>
    rcases stack with _ | ⟨id, stack⟩
    · rfl
    have more : ∀ other, other ∈ f id :: visited' ↔ ∃ before ∈ id :: visited, f before = other := by
      intro other
      simp only [List.mem_cons, seen, exists_eq_or_imp]
      exact or_congr_left eq_comm
    rw [List.map_cons]
    by_cases again : id ∈ visited
    · rw [requireDeclared, requireDeclared, if_pos again, if_pos ((seen _).mpr ⟨id, again, rfl⟩)]
      exact ih seen
    by_cases again' : f id ∈ visited'
    · rcases shared_of_visited interchanges seen again again' with ⟨var, container, found, kind⟩
      rw [requireDeclared_shared source found kind again, requireDeclared, if_pos again']
      refine ih fun other => ?_
      rw [← more, List.mem_cons]
      exact ⟨Or.inr, fun either => either.elim (fun equal => equal ▸ again') fun member => member⟩
    by_cases moved : f id = id
    · rw [moved] at again' more ⊢
      have getVar : ((source.readAs f).getVar id : Checked GraphError Variable) = source.getVar id :=
        rfl
      rw [requireDeclared, requireDeclared, if_neg again, if_neg again', getVar]
      cases located : (source.getVar id : Checked GraphError Variable) with
      | error failure => rfl
      | ok var =>
        simp only [Checked.ok_bind]
        cases kind : var.kind with
        | input =>
          simp only [same id var (Graph.getVar_eq_ok.mp located) kind]
          split
          · exact ih more
          · rfl
        | shared container => exact ih more
        | constant value => exact ih more
        | output node index =>
          dsimp only
          rw [Graph.getNode_readAs]
          cases (source.getNode node : Checked GraphError (Node α)) with
          | error failure => rfl
          | ok content =>
            have pushed : (content.readAs f).inputs.reverse ++ stack.map f =
                (content.inputs.reverse ++ stack).map f := by
              rw [Node.readAs_inputs, List.map_append, List.map_reverse]
            change requireDeclared (source.readAs f) declared' fuel
              ((content.readAs f).inputs.reverse ++ stack.map f) (id :: visited') = _
            rw [pushed]
            exact ih more
    · -- Only variables of containers are interchanged, and those need no declaration.
      rcases interchanges id moved with ⟨_, _, _, found, found', kind, kind', _⟩
      rw [requireDeclared_shared source found kind again,
        requireDeclared_shared (source.readAs f) found' kind' again']
      exact ih more

theorem walkLength_readAs (source : Graph α) (f : VarId → VarId) (outputs : List VarId) :
    walkLength (source.readAs f) (outputs.map f) = walkLength source outputs := by
  simp only [walkLength, Graph.readAs, Array.foldl_map, Node.readAs_inputs, List.length_map]

theorem requireRoots_readAs (source : Graph α) (f : VarId → VarId) (inputs : List VarId) :
    requireRoots (source.readAs f) inputs = requireRoots source inputs := by
  induction inputs with
  | nil => rfl
  | cons id rest ih =>
    unfold requireRoots
    rw [ih]
    rfl

/-- Whichever variable of a container is read, the same part of a symbolic graph is captured, unless
one of the captures is refused because an output depends on no input. -/
theorem capture_readAs (interchanges : source.Interchanges f) (outputs : List VarId)
    (roots : requireRoots source declared = Except.ok ())
    (roots' : requireRoots source declared' = Except.ok ())
    (same : ∀ (id : VarId) var, source.vars[id.index]? = some var → var.kind = .input →
      (id ∈ declared' ↔ id ∈ declared)) (requireDependence : Bool) :
    (capture source declared outputs requireDependence).Agree
        (fun captured captured' => captured = (source.whole declared outputs).prune ∧
          captured' = (source.whole declared' outputs).prune.readAs f)
        (capture (source.readAs f) declared' (outputs.map f) requireDependence) ∨
      requireDependence = true ∧ ∃ position,
        capture source declared outputs requireDependence =
            Checked.raise (.disconnectedOutput position) ∨
          capture (source.readAs f) declared' (outputs.map f) requireDependence =
            Checked.raise (.disconnectedOutput position) := by
  have part : ((source.readAs f).whole declared' (outputs.map f)).prune =
      (source.whole declared' outputs).prune.readAs f := by
    rw [Graph.whole_readAs, prune_readAs (interchanges.keepsProducer rfl)]
  have walk : requireDeclared (source.readAs f) declared' (walkLength (source.readAs f) (outputs.map f))
      (outputs.map f).reverse [] =
        requireDeclared source declared (walkLength source outputs) outputs.reverse [] := by
    rw [walkLength_readAs, ← List.map_reverse]
    exact requireDeclared_readAs interchanges same (by simp)
  unfold capture
  rw [roots, requireRoots_readAs, roots', Checked.ok_bind, Checked.ok_bind, walk]
  cases requireDeclared source declared (walkLength source outputs) outputs.reverse [] with
  | error failure => exact Or.inl (.error (.refl (fun _ => trivial) failure))
  | ok _ =>
    cases requireDependence with
    | false => exact Or.inl (.ok ⟨rfl, part⟩)
    | true =>
      simp only [Checked.ok_bind, if_true, true_and]
      rcases requireConnected_cases (source.whole declared outputs).prune outputs 0 with
        ⟨passed, _⟩ | ⟨index, _, _, _, _, failed⟩
      · rcases requireConnected_cases
          ((source.readAs f).whole declared' (outputs.map f)).prune (outputs.map f) 0 with
          ⟨passed', _⟩ | ⟨index, _, _, _, _, failed'⟩
        · have connected : Checked.Agree Eq
              (requireConnected (source.whole declared outputs).prune 0 outputs)
              (requireConnected ((source.readAs f).whole declared' (outputs.map f)).prune 0
                (outputs.map f)) := by
            rw [passed, passed']
            exact .ok rfl
          exact Or.inl (connected.bind fun _ _ _ => .ok ⟨rfl, part⟩)
        · refine Or.inr ⟨0 + index, Or.inr ?_⟩
          change (requireConnected ((source.readAs f).whole declared' (outputs.map f)).prune 0
            (outputs.map f) >>= _) = _
          rw [failed']
          rfl
      · refine Or.inr ⟨0 + index, Or.inl ?_⟩
        change (requireConnected (source.whole declared outputs).prune 0 outputs >>= _) = _
        rw [failed]
        rfl

end Dataflow

end ArrayGraph
