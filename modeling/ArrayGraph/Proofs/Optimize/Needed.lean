import ArrayGraph.Proofs.Dataflow.Sourced
import ArrayGraph.Proofs.Optimize.Meaning
import ArrayGraph.Proofs.Optimize.Total

/-!
# What outputs depend on

Nodes that no output depends on come after all others, both by identifier and in the order in which a
search takes the nodes: they are added last, and every replacement removes them. Constants have the
types of their values. A captured graph keeps all this whatever changes it goes through.
-/

namespace ArrayGraph

open Relation

variable {α : Type}

namespace Dataflow

variable {graph extended later : Dataflow α} {id : NodeId} {node : Node α} {var old new : VarId}

/-- Some output depends on a node. -/
def Needs (graph : Dataflow α) (id : NodeId) : Prop :=
  ∃ output ∈ graph.outputs, graph.ComputedFrom output id

/-- The nodes that outputs depend on have smaller identifiers than all others. -/
def NeededFirst (graph : Dataflow α) : Prop :=
  ∀ id id' node, graph.Needs id → graph.node? id' = some node → ¬graph.Needs id' →
    id.index < id'.index

/-- Constants have the types of their values. -/
def ConstantsTyped (graph : Dataflow α) : Prop :=
  ∀ var value, (graph.var var).kind = .constant value → graph.type var = value.type

section Needs

theorem Needs.live (needs : graph.Needs id) : ∃ node, graph.node? id = some node := by
  rcases needs with ⟨_, _, computed⟩
  exact computed.live

theorem Needs.of_readsFrom {source : NodeId} (needs : graph.Needs id)
    (reads : graph.ReadsFrom id source) : graph.Needs source := by
  rcases needs with ⟨output, member, producer, produced, path⟩
  exact ⟨output, member, producer, produced, path.tail reads⟩

theorem needs_of_path {source : NodeId} (path : ReflTransGen graph.ReadsFrom id source)
    (needs : graph.Needs id) : graph.Needs source := by
  induction path with
  | refl => exact needs
  | tail _ reads ih => exact ih.of_readsFrom reads

theorem Pruned.needs (pruned : graph.Pruned) (live : graph.node? id = some node) : graph.Needs id :=
  mem_ancestorsOf.mp (pruned id node live)

theorem Pruned.neededFirst (pruned : graph.Pruned) : graph.NeededFirst :=
  fun _ _ _ _ live unneeded => absurd (pruned.needs live) unneeded

/-- What outputs depend on is induced by what they are computed by and what nodes read. -/
theorem needs_iff_of_same (outputs : later.outputs = graph.outputs)
    (producers : ∀ var, later.producerId? var = graph.producerId? var)
    (reads : later.ReadsFrom = graph.ReadsFrom) : later.Needs id ↔ graph.Needs id := by
  simp only [Needs, ComputedFrom, outputs, producers, reads]

theorem needs_extend_iff [Arithmetic α] (formed : graph.Formed) (extend : graph.Extends extended) :
    extended.Needs id ↔ graph.Needs id := by
  constructor
  · rintro ⟨output, member, producer, produced, path⟩
    rw [extend.outputs] at member
    rw [extend.producerId?_eq formed (formed.read_known output (Or.inl member))] at produced
    refine needs_of_path ?_ ⟨output, member, producer, produced, ReflTransGen.refl⟩
    -- What is reached from an old node is old.
    have old : ∀ last, ReflTransGen extended.ReadsFrom producer last →
        ReflTransGen graph.ReadsFrom producer last ∧ ∃ node, graph.node? last = some node := by
      intro last path
      induction path with
      | refl => exact ⟨ReflTransGen.refl, live_of_producerId? produced⟩
      | tail _ reads ih =>
        rcases ih with ⟨before, node, live⟩
        have reads' := extend.readsFrom_of_live formed live reads
        exact ⟨before.tail reads', reads'.live_source⟩
    exact (old id path).1
  · rintro ⟨output, member, computed⟩
    refine ⟨output, by rwa [extend.outputs], ?_⟩
    exact extend.computedFrom formed (formed.read_known output (Or.inl member)) computed

end Needs

section Changes

variable [Arithmetic α]

theorem NeededFirst.extend (first : graph.NeededFirst) (formed : graph.Formed)
    (extend : graph.Extends extended) : extended.NeededFirst := by
  intro id id' node needs live unneeded
  rw [needs_extend_iff formed extend] at needs unneeded
  by_cases old : id'.index < graph.nodes.size
  · rw [extend.node?_eq old] at live
    exact first id id' node needs live unneeded
  · rcases needs.live with ⟨content, contentLive⟩
    have inside := lt_size_of_node? contentLive
    omega

omit [Arithmetic α] in
theorem ConstantsTyped.addConstant (typed : graph.ConstantsTyped) (value : Value) :
    (graph.addConstant value).2.ConstantsTyped := by
  intro var content kind
  rcases kind_of_addConstant kind with ⟨known, old⟩ | ⟨rfl, rfl⟩
  · rw [(extends_addConstant graph value).type_eq known]
    exact typed var content old
  · rw [Dataflow.type, var_addConstant]

theorem ConstantsTyped.adds {op : Op α} {inputs outputs : List VarId} (typed : graph.ConstantsTyped)
    (adds : graph.Adds extended op inputs outputs) : extended.ConstantsTyped := by
  intro var value kind
  rcases adds.kind_of_constant kind with ⟨known, old⟩
  rw [adds.extend.type_eq known]
  exact typed var value old

omit [Arithmetic α] in
theorem ConstantsTyped.of_vars (typed : graph.ConstantsTyped) (vars : later.vars = graph.vars) :
    later.ConstantsTyped := by
  intro var value kind
  simp only [Dataflow.type, Dataflow.var, vars] at kind ⊢
  exact typed var value kind

omit [Arithmetic α] in
theorem vars_replaceOutput {index : Nat} (answer : graph.replaceOutput index new = Except.ok later) :
    later.vars = graph.vars := by
  rcases replaceOutput_eq_ok answer with ⟨_, _, _, _, rfl⟩
  rfl

omit [Arithmetic α] in
theorem NeededFirst.replace (first : graph.NeededFirst)
    (answer : graph.replace old new = Except.ok later) : later.NeededFirst := by
  rcases replace_eq_ok answer with ⟨_, rfl⟩ | ⟨_, _, rfl⟩
  · exact first
  · exact pruned_prune.neededFirst

theorem NeededFirst.replaceNodeOp {op : Op α} (first : graph.NeededFirst)
    (answer : graph.replaceNodeOp id op = Except.ok later) : later.NeededFirst := by
  have outputs : later.outputs = graph.outputs := by
    rcases replaceNodeOp_eq_ok answer with ⟨_, _, _, rfl⟩
    rfl
  have needs : ∀ other, later.Needs other ↔ graph.Needs other := fun other =>
    needs_iff_of_same outputs (producerId?_replaceNodeOp answer) (readsFrom_replaceNodeOp answer)
  intro first' second content needed live unneeded
  rw [needs] at needed unneeded
  rcases replaceNodeOp_eq_ok answer with ⟨node, nodeLive, _, rfl⟩
  rcases original_of_setOp nodeLive live with ⟨original, originalLive, _⟩
  exact first first' second original needed originalLive unneeded

/-- No change breaks what merging relies on. -/
theorem NeededFirst.change (orderly : graph.Orderly) (first : graph.NeededFirst)
    (typed : graph.ConstantsTyped) (change : Change α) :
    (graph.change change).NeededFirst ∧ (graph.change change).ConstantsTyped := by
  unfold Dataflow.change
  split
  · rename_i added later answer
    cases change with
    | addConstant value =>
      cases answer
      exact ⟨first.extend orderly.formed (extends_addConstant graph value), typed.addConstant value⟩
    | addNode op inputs =>
      have adds := addNode_eq_ok answer
      exact ⟨first.extend orderly.formed adds.extend, typed.adds adds⟩
    | replace old new =>
      rcases Checked.bind_eq_ok_iff.mp answer with ⟨_, replaced, same⟩
      cases same
      exact ⟨first.replace replaced, typed.of_vars (vars_replace replaced)⟩
    | replaceAll pairs =>
      rcases Checked.bind_eq_ok_iff.mp answer with ⟨_, replaced, same⟩
      cases same
      refine ⟨?_, typed.of_vars (vars_replaceAll replaced)⟩
      exact Checked.foldlM_invariant NeededFirst (fun _ _ _ _ first replaced => first.replace replaced)
        first replaced
    | replaceOutput index new =>
      rcases Checked.bind_eq_ok_iff.mp answer with ⟨_, replaced, same⟩
      cases same
      refine ⟨?_, typed.of_vars (vars_replaceOutput replaced)⟩
      rcases replaceOutput_eq_ok replaced with ⟨_, _, _, _, rfl⟩
      exact pruned_prune.neededFirst
    | replaceNodeOp id op =>
      rcases Checked.bind_eq_ok_iff.mp answer with ⟨_, replaced, same⟩
      cases same
      refine ⟨first.replaceNodeOp replaced, typed.of_vars ?_⟩
      rcases replaceNodeOp_eq_ok replaced with ⟨_, _, _, rfl⟩
      rfl
    | prune =>
      cases answer
      exact ⟨pruned_prune.neededFirst, typed.of_vars rfl⟩
  · exact ⟨first, typed⟩

/-- A captured graph has what merging relies on, whatever changes it goes through. -/
theorem mergeable_of_changes {source : Graph α} {inputs outputs : List VarId} {requireDependence : Bool}
    (built : source.Built)
    (captured : capture source inputs outputs requireDependence = Except.ok graph)
    (changes : List (Change α)) :
    (graph.changeAll changes).Formed ∧ (graph.changeAll changes).NeededFirst ∧
      (graph.changeAll changes).ConstantsTyped := by
  have start : graph.Captured := .capture built captured
  have holds : ∀ (graph : Dataflow α), graph.Orderly → graph.NeededFirst → graph.ConstantsTyped →
      (graph.changeAll changes).Formed ∧ (graph.changeAll changes).NeededFirst ∧
        (graph.changeAll changes).ConstantsTyped := by
    induction changes with
    | nil => exact fun graph orderly first typed => ⟨orderly.formed, first, typed⟩
    | cons change changes ih =>
      intro graph orderly first typed
      rcases first.change orderly typed change with ⟨first', typed'⟩
      exact ih _ (orderly.change change).1 first' typed'
  exact holds graph ⟨start.formed, acyclic_of_capture built captured⟩ start.pruned.neededFirst
    fun _ _ kind => start.constant_type kind

end Changes

end Dataflow

section Order

variable {dependencies : NodeId → List NodeId} {fuel : Nat} {path done finished : List NodeId}
  {node : NodeId}

theorem prefix_of_foldlM {step : List NodeId → NodeId → Option (List NodeId)}
    (visits : ∀ done node finished, step done node = some finished → done <+: finished)
    {nodes : List NodeId} (answer : nodes.foldlM step done = some finished) : done <+: finished := by
  induction nodes generalizing done with
  | nil =>
    cases answer
    exact List.prefix_refl _
  | cons node rest ih =>
    simp only [List.foldlM_cons, Option.bind_eq_bind, Option.bind_eq_some_iff] at answer
    rcases answer with ⟨middle, first, others⟩
    exact (visits done node middle first).trans (ih others)

/-- The search only appends to the nodes that are done. -/
theorem prefix_of_visit (answer : Dataflow.visit dependencies fuel path done node = some finished) :
    done <+: finished := by
  induction fuel generalizing path done node finished with
  | zero => simp [Dataflow.visit] at answer
  | succ fuel ih =>
    simp only [Dataflow.visit] at answer
    split at answer
    · cases answer
      exact List.prefix_refl _
    · split at answer
      · cases answer
      · simp only [Option.bind_eq_bind, Option.bind_eq_some_iff, Option.some.injEq] at answer
        rcases answer with ⟨before, visited, rfl⟩
        exact (prefix_of_foldlM (fun _ _ _ answer => ih answer) visited).trans (List.prefix_append _ _)

namespace Dataflow

variable {graph : Dataflow α} {order : List NodeId} {id id' : NodeId}

theorem pairwise_liveIds : graph.liveIds.Pairwise fun first second => first.index < second.index := by
  rw [liveIds_eq]
  refine List.Pairwise.filter _ ?_
  rw [nodeIds, List.pairwise_map]
  exact List.pairwise_lt_range

/-- Whatever stands before a needed node in the order is needed: the search comes to it from a node with
a smaller identifier. -/
theorem NeededFirst.needs_of_precedes (first : graph.NeededFirst)
    (ordered : graph.order Orderings.empty = Except.ok order) (needs : graph.Needs id)
    (before : Precedes order id' id) : graph.Needs id' := by
  by_contra unneeded
  have distinct := (respects_of_order ordered).distinct
  simp only [Dataflow.order, Checked.bind_eq_ok_iff, Checked.orError_eq_ok_iff] at ordered
  rcases ordered with ⟨_, _, sorted⟩
  change graph.liveIds.foldlM _ [] = some order at sorted
  rcases List.append_of_mem (mem_liveIds.mpr needs.live) with ⟨front, back, split⟩
  have ascending : graph.liveIds.Pairwise fun first second => first.index < second.index :=
    pairwise_liveIds
  -- The order up to the needed node is settled once the search has started from that node. Whatever
  -- stands there is reached from a start that is no later, and such a start is needed.
  rw [split] at sorted ascending
  rw [List.append_cons, List.foldlM_append] at sorted
  simp only [Option.bind_eq_bind, Option.bind_eq_some_iff] at sorted
  rcases sorted with ⟨middle, visited, rest⟩
  have finishes : Finishes (graph.dependencies .empty) [] [] (front ++ [id]) middle :=
    finishes_of_foldlM (fun _ _ _ answer => finishes_of_visit answer) visited
      (by intro front node back split; simp at split) List.nodup_nil
  rcases prefix_of_foldlM (fun _ _ _ answer => prefix_of_visit answer) rest with ⟨others, rfl⟩
  have done : id' ∈ middle := by
    rcases List.append_of_mem (finishes.included id (by simp)) with ⟨earlier, later, rfl⟩
    have whole : earlier ++ id :: later ++ others = earlier ++ id :: (later ++ others) := by simp
    exact List.mem_append_left _ (before.mem_front distinct whole)
  rcases finishes.needed id' done with impossible | ⟨_, origin, originMem, reached⟩
  · cases impossible
  have reads : ReflTransGen graph.ReadsFrom origin id' := by
    refine ReflTransGen.mono (fun later earlier leads => ?_) _ _ reached
    rcases mem_dependencies.mp leads with reads | ⟨required, _⟩
    · exact reads
    · simp [Orderings.before, Orderings.empty] at required
  have originUnneeded : ¬graph.Needs origin := fun needs => unneeded (needs_of_path reads needs)
  have originLive : origin ∈ graph.liveIds := by
    rw [split]
    simp only [List.mem_append, List.mem_singleton] at originMem
    simp [originMem.imp_right Or.inl]
  rcases mem_liveIds.mp originLive with ⟨_, originLive⟩
  have after := first id origin _ needs originLive originUnneeded
  rcases List.mem_append.mp originMem with inFront | same
  · have smaller := (List.pairwise_append.mp ascending).2.2 origin inFront id List.mem_cons_self
    omega
  · rw [List.mem_singleton.mp same] at after
    omega

end Dataflow

end Order

end ArrayGraph
