import Mathlib
import ArrayGraph.Proofs.Dataflow.Acyclic

/-!
# What holds of a graph whatever is done to it

A graph is captured and then changed, again and again, and some of the changes fail. At any time its
nodes and the variables they compute point at each other, operations and types agree and no node
depends on itself. From one time to another variables stay what they are, a removed node stays
removed, and new nodes and variables get identifiers that were not in use before.

Each change is shown to do this by itself, and a sequence of changes does it because both the
coherence of a graph and the relation between an earlier and a later graph carry over.
-/

namespace ArrayGraph

variable {α : Type}

/-- A change of a dataflow graph. -/
inductive Change (α : Type) where
  | addConstant (value : Value)
  | addNode (op : Op α) (inputs : List VarId)
  | replace (old new : VarId)
  | replaceAll (pairs : List (VarId × VarId))
  | replaceOutput (index : Nat) (new : VarId)
  | replaceNodeOp (id : NodeId) (op : Op α)
  | prune

namespace Change

/-- The variables that a change adds and the graph that it gives. -/
def apply [Arithmetic α] (graph : Dataflow α) :
    Change α → Checked GraphError (List VarId × Dataflow α)
  | .addConstant value =>
    let (var, extended) := graph.addConstant value
    Except.ok ([var], extended)
  | .addNode op inputs => graph.addNode op inputs
  | .replace old new => do Except.ok ([], ← graph.replace old new)
  | .replaceAll pairs => do Except.ok ([], ← graph.replaceAll pairs)
  | .replaceOutput index new => do Except.ok ([], ← graph.replaceOutput index new)
  | .replaceNodeOp id op => do Except.ok ([], ← graph.replaceNodeOp id op)
  | .prune => Except.ok ([], graph.prune)

/-- The change removes what no output depends on. -/
def Prunes : Change α → Prop
  | .replace old new => old ≠ new
  | .replaceOutput _ _ => True
  | .prune => True
  | _ => False

end Change

namespace Dataflow

variable {graph middle later : Dataflow α} {var old new : VarId} {id : NodeId} {node : Node α}

/-- The graph after a change. A change that fails leaves it as it was. -/
def change [Arithmetic α] (graph : Dataflow α) (change : Change α) : Dataflow α :=
  match change.apply graph with
  | Except.ok (_, after) => after
  | Except.error _ => graph

/-- The graph after a sequence of changes. -/
def changeAll [Arithmetic α] (graph : Dataflow α) (changes : List (Change α)) : Dataflow α :=
  changes.foldl change graph

theorem changeAll_append [Arithmetic α] (changes more : List (Change α)) :
    graph.changeAll (changes ++ more) = (graph.changeAll changes).changeAll more :=
  List.foldl_append

/-- What holds of a graph at any time. -/
structure Coherent [Arithmetic α] (graph : Dataflow α) : Prop where
  /-- The outputs of a live node are variables that name the node and their position. -/
  output_kind : ∀ id node, graph.node? id = some node → ∀ index var,
    node.outputs[index]? = some var →
      var.index < graph.vars.size ∧ (graph.var var).kind = .output id index
  /-- No two live nodes share an output. -/
  outputs_apart : ∀ first second node other var, graph.node? first = some node →
    graph.node? second = some other → var ∈ node.outputs → var ∈ other.outputs → first = second
  /-- The outputs of a live node have the types that its operation infers. -/
  typed : ∀ id node, graph.node? id = some node →
    node.op.inferTypes (node.inputs.map graph.type) = Except.ok (node.outputs.map graph.type)
  acyclic : graph.Acyclic

/-- What holds between a graph and what it is later. -/
structure Precursor (graph later : Dataflow α) : Prop where
  inputs : later.inputs = graph.inputs
  /-- Variables stay what they are. -/
  vars : graph.vars.toList <+: later.vars.toList
  nodes : graph.nodes.size ≤ later.nodes.size
  /-- A node that has been removed does not come back. -/
  removed : ∀ id, id.index < graph.nodes.size → graph.node? id = none → later.node? id = none
  /-- A node that is kept computes the same variables. -/
  kept : ∀ id node after, graph.node? id = some node → later.node? id = some after →
    after.outputs = node.outputs
  /-- A node that is new computes new variables. -/
  fresh : ∀ id node, graph.nodes.size ≤ id.index → later.node? id = some node →
    ∀ var ∈ node.outputs, graph.vars.size ≤ var.index
  output_types : later.outputs.map later.type = graph.outputs.map graph.type

/-- The live nodes are those that some output depends on. -/
def LiveExactly (graph : Dataflow α) : Prop :=
  ∀ id, graph.isLive id ↔ ∃ output ∈ graph.outputs, graph.ComputedFrom output id

theorem liveExactly_prune : graph.prune.LiveExactly := by
  intro id
  rw [isLive_iff]
  constructor
  · rintro ⟨node, live⟩
    exact mem_ancestorsOf.mp (pruned_prune id node live)
  · rintro ⟨output, _, computed⟩
    exact computed.live

section Precursor

theorem Precursor.refl (graph : Dataflow α) : graph.Precursor graph where
  inputs := rfl
  vars := List.prefix_refl _
  nodes := Nat.le_refl _
  removed _ _ gone := gone
  kept id node after live live' := by
    rw [live] at live'
    cases live'
    rfl
  fresh id node new live := absurd (lt_size_of_node? live) (Nat.not_lt.mpr new)
  output_types := rfl

theorem Precursor.trans (first : graph.Precursor middle) (second : middle.Precursor later) :
    graph.Precursor later where
  inputs := second.inputs.trans first.inputs
  vars := first.vars.trans second.vars
  nodes := Nat.le_trans first.nodes second.nodes
  removed id known gone :=
    second.removed id (Nat.lt_of_lt_of_le known first.nodes) (first.removed id known gone)
  kept id node after live live' := by
    cases between : middle.node? id with
    | none =>
      have known := Nat.lt_of_lt_of_le (lt_size_of_node? live) first.nodes
      rw [second.removed id known between] at live'
      cases live'
    | some content =>
      rw [second.kept id content after between live', first.kept id node content live between]
  fresh id node new live var output := by
    cases between : middle.node? id with
    | none =>
      -- The node came with the second part.
      have unknown : middle.nodes.size ≤ id.index := by
        by_contra known
        rw [second.removed id (by omega) between] at live
        cases live
      have grown : graph.vars.size ≤ middle.vars.size := by simpa using first.vars.length_le
      exact Nat.le_trans grown (second.fresh id node unknown live var output)
    | some content =>
      rw [second.kept id content node between live] at output
      exact first.fresh id content new between var output
  output_types := second.output_types.trans first.output_types

/-- To remove nodes, let them read other variables or exchange their operations leaves identifiers
as they are. -/
theorem precursor_of_nodes (inputs : later.inputs = graph.inputs) (vars : later.vars = graph.vars)
    (size : later.nodes.size = graph.nodes.size)
    (live : ∀ id after, later.node? id = some after →
      ∃ node, graph.node? id = some node ∧ after.outputs = node.outputs)
    (types : later.outputs.map later.type = graph.outputs.map graph.type) :
    graph.Precursor later where
  inputs := inputs
  vars := vars ▸ List.prefix_refl _
  nodes := Nat.le_of_eq size.symm
  removed id _ gone := by
    cases found : later.node? id with
    | none => rfl
    | some after =>
      rcases live id after found with ⟨node, found', _⟩
      simp [gone] at found'
  kept id node after found found' := by
    rcases live id after found' with ⟨original, found'', same⟩
    rw [found] at found''
    cases found''
    exact same
  fresh id node new found := by
    have known := lt_size_of_node? found
    omega
  output_types := types

theorem precursor_prune (graph : Dataflow α) : graph.Precursor graph.prune :=
  precursor_of_nodes rfl rfl (by simp [prune])
    (fun _ after live => ⟨after, (node?_prune.mp live).1, rfl⟩) rfl

theorem precursor_replace (answer : graph.replace old new = Except.ok later) :
    graph.Precursor later := by
  rcases replace_eq_ok answer with ⟨_, rfl⟩ | ⟨_, checked, rfl⟩
  · exact Precursor.refl _
  · rcases checkReplacement_eq_ok checked with ⟨_, _, same, _⟩
    refine Precursor.trans ?_ (precursor_prune _)
    refine precursor_of_nodes rfl rfl (by simp [redirect]) ?_ (map_type_substitute same graph.outputs)
    intro id after live
    rcases node?_redirect_eq_some.mp live with ⟨original, originalLive, rfl⟩
    exact ⟨original, originalLive, rfl⟩

theorem precursor_replaceOutput {index : Nat}
    (answer : graph.replaceOutput index new = Except.ok later) : graph.Precursor later := by
  rcases replaceOutput_eq_ok answer with ⟨old, found, _, same, rfl⟩
  refine Precursor.trans ?_ (precursor_prune _)
  exact precursor_of_nodes rfl rfl rfl (fun _ after live => ⟨after, live, rfl⟩)
    (map_type_set found same)

variable [Arithmetic α] {op : Op α} {inputs outputs : List VarId}

theorem precursor_replaceNodeOp (answer : graph.replaceNodeOp id op = Except.ok later) :
    graph.Precursor later := by
  rcases replaceNodeOp_eq_ok answer with ⟨node, live, _, rfl⟩
  refine precursor_of_nodes rfl rfl (by simp) ?_ rfl
  intro other after found
  rcases original_of_setOp live found with ⟨original, originalLive, _, outputs, _⟩
  exact ⟨original, originalLive, outputs⟩

/-- An extension keeps all that was there. -/
theorem Extends.precursor (formed : graph.Formed) (extend : graph.Extends later)
    (fresh : ∀ id node, graph.nodes.size ≤ id.index → later.node? id = some node →
      ∀ var ∈ node.outputs, graph.vars.size ≤ var.index) : graph.Precursor later where
  inputs := extend.inputs
  vars := extend.vars
  nodes := extend.nodes_size
  removed id known gone := by rw [extend.node?_eq known, gone]
  kept id node after live live' := by
    rw [extend.live live] at live'
    cases live'
    rfl
  fresh := fresh
  output_types := by
    rw [extend.outputs]
    apply List.map_congr_left
    intro output member
    exact extend.type_eq (formed.read_known output (Or.inl member))

theorem precursor_addConstant (formed : graph.Formed) (value : Value) :
    graph.Precursor (graph.addConstant value).2 := by
  refine (extends_addConstant graph value).precursor formed ?_
  intro id node new live
  have known : id.index < graph.nodes.size := lt_size_of_node? live
  omega

theorem Adds.precursor (formed : graph.Formed) (adds : graph.Adds later op inputs outputs) :
    graph.Precursor later := by
  refine adds.extend.precursor formed ?_
  intro id node new live var output
  rcases adds.live_cases live with live | ⟨_, rfl⟩
  · exact absurd (lt_size_of_node? live) (Nat.not_lt.mpr new)
  · rcases List.mem_iff_getElem?.mp output with ⟨index, found⟩
    exact (adds.output index var found).1

end Precursor

section Changes

variable [Arithmetic α]

/-- A graph that is well formed and in which no node depends on itself. -/
structure Orderly (graph : Dataflow α) : Prop where
  formed : graph.Formed
  acyclic : graph.Acyclic

theorem Orderly.coherent (orderly : graph.Orderly) : graph.Coherent where
  output_kind := orderly.formed.output_known
  outputs_apart first second node other var live live' output output' := by
    rcases List.mem_iff_getElem?.mp output with ⟨index, found⟩
    rcases List.mem_iff_getElem?.mp output' with ⟨index', found'⟩
    have kind := (orderly.formed.output_known first node live index var found).2
    have kind' := (orderly.formed.output_known second other live' index' var found').2
    rw [kind] at kind'
    cases kind'
    rfl
  typed := orderly.formed.typed
  acyclic := orderly.acyclic

theorem Orderly.replace (orderly : graph.Orderly) (answer : graph.replace old new = Except.ok later) :
    later.Orderly :=
  ⟨orderly.formed.replace answer, orderly.acyclic.replace answer⟩

/-- Several replacements do what each of them does. -/
theorem Orderly.replaceAll {pairs : List (VarId × VarId)} (orderly : graph.Orderly)
    (answer : graph.replaceAll pairs = Except.ok later) :
    later.Orderly ∧ graph.Precursor later := by
  induction pairs generalizing graph with
  | nil =>
    cases answer
    exact ⟨orderly, Precursor.refl _⟩
  | cons pair pairs ih =>
    rw [Dataflow.replaceAll, List.foldlM_cons, Checked.bind_eq_ok_iff] at answer
    rcases answer with ⟨middle, replaced, answer⟩
    rcases ih (orderly.replace replaced) answer with ⟨laterOrderly, precursor⟩
    exact ⟨laterOrderly, (precursor_replace replaced).trans precursor⟩

/-- What one change does. -/
theorem Orderly.apply {change : Change α} {added : List VarId} (orderly : graph.Orderly)
    (answer : change.apply graph = Except.ok (added, later)) :
    later.Orderly ∧ graph.Precursor later ∧
      ∀ var ∈ added, graph.vars.size ≤ var.index ∧ var.index < later.vars.size := by
  rcases orderly with ⟨formed, acyclic⟩
  cases change with
  | addConstant value =>
    cases answer
    refine ⟨⟨formed.addConstant value, acyclic.addConstant formed value⟩,
      precursor_addConstant formed value, ?_⟩
    simp
  | addNode op inputs =>
    have adds := addNode_eq_ok answer
    refine ⟨⟨formed.adds adds, acyclic.adds formed adds⟩, adds.precursor formed, ?_⟩
    intro var output
    rcases List.mem_iff_getElem?.mp output with ⟨index, found⟩
    exact ⟨(adds.output index var found).1, (adds.output index var found).2.1⟩
  | replace old new =>
    rcases Checked.bind_eq_ok_iff.mp answer with ⟨_, replaced, same⟩
    cases same
    exact ⟨Orderly.replace ⟨formed, acyclic⟩ replaced, precursor_replace replaced, by simp⟩
  | replaceAll pairs =>
    rcases Checked.bind_eq_ok_iff.mp answer with ⟨_, replaced, same⟩
    cases same
    rcases Orderly.replaceAll ⟨formed, acyclic⟩ replaced with ⟨laterOrderly, precursor⟩
    exact ⟨laterOrderly, precursor, by simp⟩
  | replaceOutput index new =>
    rcases Checked.bind_eq_ok_iff.mp answer with ⟨_, replaced, same⟩
    cases same
    exact ⟨⟨formed.replaceOutput replaced, acyclic.replaceOutput replaced⟩,
      precursor_replaceOutput replaced, by simp⟩
  | replaceNodeOp id op =>
    rcases Checked.bind_eq_ok_iff.mp answer with ⟨_, replaced, same⟩
    cases same
    exact ⟨⟨formed.replaceNodeOp replaced, acyclic.replaceNodeOp replaced⟩,
      precursor_replaceNodeOp replaced, by simp⟩
  | prune =>
    cases answer
    exact ⟨⟨formed.prune, acyclic.prune⟩, precursor_prune graph, by simp⟩

theorem Orderly.change (orderly : graph.Orderly) (change : Change α) :
    (graph.change change).Orderly ∧ graph.Precursor (graph.change change) := by
  unfold Dataflow.change
  split
  · rename_i answer
    rcases orderly.apply answer with ⟨laterOrderly, precursor, _⟩
    exact ⟨laterOrderly, precursor⟩
  · exact ⟨orderly, Precursor.refl graph⟩

theorem Orderly.changeAll (orderly : graph.Orderly) (changes : List (Change α)) :
    (graph.changeAll changes).Orderly ∧ graph.Precursor (graph.changeAll changes) := by
  induction changes generalizing graph with
  | nil => exact ⟨orderly, Precursor.refl graph⟩
  | cons change changes ih =>
    rcases orderly.change change with ⟨changed, precursor⟩
    rcases ih changed with ⟨laterOrderly, rest⟩
    exact ⟨laterOrderly, precursor.trans rest⟩

/-- A change that prunes leaves the nodes that outputs depend on and no others. -/
theorem liveExactly_of_prunes {change : Change α} {added : List VarId} (prunes : change.Prunes)
    (answer : change.apply graph = Except.ok (added, later)) : later.LiveExactly := by
  cases change with
  | replace old new =>
    rcases Checked.bind_eq_ok_iff.mp answer with ⟨_, replaced, same⟩
    cases same
    rcases replace_eq_ok replaced with ⟨same, _⟩ | ⟨_, _, rfl⟩
    · exact absurd same prunes
    · exact liveExactly_prune
  | replaceOutput index new =>
    rcases Checked.bind_eq_ok_iff.mp answer with ⟨_, replaced, same⟩
    cases same
    rcases replaceOutput_eq_ok replaced with ⟨_, _, _, _, rfl⟩
    exact liveExactly_prune
  | prune =>
    cases answer
    exact liveExactly_prune
  | _ => exact prunes.elim

variable {source : Graph α} {inputs outputs : List VarId} {requireDependence : Bool}

/-- A captured graph is coherent and keeps its identifiers whatever changes it goes through, and what
no output depends on is gone after every capture and every change that prunes. -/
theorem coherent_of_changes (built : source.Built)
    (captured : capture source inputs outputs requireDependence = Except.ok graph)
    (changes : List (Change α)) :
    graph.LiveExactly ∧ (graph.changeAll changes).Coherent ∧
      (∀ more, (graph.changeAll changes).Precursor (graph.changeAll (changes ++ more))) ∧
      ∀ (change : Change α) added after, change.apply (graph.changeAll changes) = Except.ok (added, after) →
        (∀ var ∈ added, (graph.changeAll changes).vars.size ≤ var.index ∧
          var.index < after.vars.size) ∧
        (change.Prunes → after.LiveExactly) := by
  have start : graph.Orderly :=
    ⟨formed_of_capture built captured, acyclic_of_capture built captured⟩
  have orderly := (start.changeAll changes).1
  refine ⟨?_, orderly.coherent, ?_, ?_⟩
  · rcases capture_eq_ok captured with ⟨rfl, _⟩
    exact liveExactly_prune
  · intro more
    rw [changeAll_append]
    exact (orderly.changeAll more).2
  · intro change added after answer
    exact ⟨(orderly.apply answer).2.2, fun prunes => liveExactly_of_prunes prunes answer⟩

/-- A symbolic graph that negates a vector and takes exponentials. -/
def negatedExponential : Graph Float where
  vars := #[⟨ArrayType.ofRank .float64 1, .input, some "x"⟩,
    ⟨ArrayType.ofRank .float64 1, .output ⟨0⟩ 0, none⟩,
    ⟨ArrayType.ofRank .float64 1, .output ⟨1⟩ 0, none⟩]
  nodes := #[⟨.elementwise .neg none, [⟨0⟩], [⟨1⟩]⟩, ⟨.elementwise .exp none, [⟨1⟩], [⟨2⟩]⟩]

theorem built_negatedExponential : negatedExponential.Built := by
  have negated : (Graph.empty.addInput (ArrayType.ofRank .float64 1) "x").2.apply
      (Op.elementwise .neg none : Op Float) [⟨0⟩] = Except.ok ([⟨1⟩], ⟨#[⟨ArrayType.ofRank .float64 1,
        .input, some "x"⟩, ⟨ArrayType.ofRank .float64 1, .output ⟨0⟩ 0, none⟩],
        #[⟨.elementwise .neg none, [⟨0⟩], [⟨1⟩]⟩]⟩) := rfl
  have raised : Graph.apply ⟨#[⟨ArrayType.ofRank .float64 1, .input, some "x"⟩,
      ⟨ArrayType.ofRank .float64 1, .output ⟨0⟩ 0, none⟩],
      #[⟨.elementwise .neg none, [⟨0⟩], [⟨1⟩]⟩]⟩ (Op.elementwise .exp none : Op Float) [⟨1⟩] =
        Except.ok ([⟨2⟩], negatedExponential) := rfl
  exact .apply (.apply (.input .empty _ _) negated) raised

/-- What is captured from it. -/
def capturedExponential : Dataflow Float where
  vars := negatedExponential.vars
  nodes := #[some ⟨.elementwise .neg none, [⟨0⟩], [⟨1⟩]⟩,
    some ⟨.elementwise .exp none, [⟨1⟩], [⟨2⟩]⟩]
  inputs := [⟨0⟩]
  outputs := [⟨2⟩]
  guarded := []

/-- Changes of which the second makes a cycle and the fourth is of a node that the third removed. -/
def exponentialChanges : List (Change Float) :=
  [.addNode (.elementwise .neg none) [⟨1⟩], .replace ⟨1⟩ ⟨3⟩, .replace ⟨2⟩ ⟨3⟩,
    .replaceNodeOp ⟨1⟩ (.elementwise .log none), .replaceOutput 0 ⟨2⟩]

/-- In the end the output is a variable of a removed node, and no node is left. -/
theorem coherent_of_changes_capturedExponential :
    (capturedExponential.changeAll exponentialChanges).nodes.toList.map Option.isSome =
        [false, false, false] ∧
      (capturedExponential.changeAll exponentialChanges).Coherent ∧
      capturedExponential.Precursor (capturedExponential.changeAll exponentialChanges) := by
  have captured : capture negatedExponential [⟨0⟩] [⟨2⟩] false =
      Except.ok capturedExponential := by
    cbv
  refine ⟨by cbv, ?_, ?_⟩
  · exact (coherent_of_changes built_negatedExponential captured exponentialChanges).2.1
  · exact (coherent_of_changes built_negatedExponential captured []).2.2.1 exponentialChanges

end Changes

end Dataflow

end ArrayGraph
