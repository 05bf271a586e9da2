import ArrayGraph.Proofs.Dataflow.Dependence
import ArrayGraph.Proofs.Function.Meaning

/-!
# What capture accepts and what it keeps

Capture goes back from the outputs three times: for inputs that were not declared, for the nodes to
keep and, on request, for the roots of every output. Each search keeps its own list of what it has
visited, but all of them follow one relation between the variables of the symbolic graph, which is
stated here without any search. A request is granted exactly if it declares what the outputs depend
on, and what is captured then is exactly what the outputs need. A refusal names a variable or an
output that stands in the way.
-/

namespace ArrayGraph

open Relation

variable {α : Type}

namespace Graph

/-- A variable is another one, or is computed from it in some steps. -/
def DependsOn (source : Graph α) : VarId → VarId → Prop := ReflTransGen (Leads source.operands)

/-- Some output depends on a variable that a node computes. -/
def Needs (source : Graph α) (outputs : List VarId) (id : NodeId) : Prop :=
  ∃ output ∈ outputs, ∃ var index, source.DependsOn output var ∧
    source.HasKind var (.output id index)

/-- A variable depends on a declared input. -/
def Connected (source : Graph α) (inputs : List VarId) (var : VarId) : Prop :=
  ∃ input ∈ inputs, source.DependsOn var input

/-- Declared inputs from which the outputs can be computed. -/
structure Specified (source : Graph α) (inputs outputs : List VarId) (requireDependence : Bool) :
    Prop where
  roots : ∀ input ∈ inputs, ∀ id index, ¬source.HasKind input (.output id index)
  declared : ∀ output ∈ outputs, ∀ var, source.DependsOn output var →
    source.HasKind var .input → var ∈ inputs
  connected : requireDependence = true → ∀ output ∈ outputs, source.Connected inputs output

/-- A captured graph has what the outputs of the symbolic graph need, as it is there, and no more. -/
structure Keeps [Arithmetic α] (source : Graph α) (inputs outputs : List VarId)
    (captured : Dataflow α) : Prop where
  vars_eq : captured.vars = source.vars
  inputs_eq : captured.inputs = inputs
  outputs_eq : captured.outputs = outputs
  nodes : ∀ id node, captured.node? id = some node ↔
    source.nodes[id.index]? = some node ∧ source.Needs outputs id
  evaluates : ∀ hosts roots, ∀ output ∈ outputs, ∀ tensor,
    captured.Evaluates hosts roots output tensor ↔ source.Evaluates hosts roots output tensor

/-- An input that some output depends on has not been declared. -/
structure Undeclared (source : Graph α) (inputs outputs : List VarId) (var : VarId)
    (content : Variable) : Prop where
  needed : ∃ output ∈ outputs, source.DependsOn output var
  found : source.vars[var.index]? = some content
  input : content.kind = .input
  undeclared : var ∉ inputs

/-- What an error says about a request that is refused. -/
inductive Refusal (source : Graph α) (inputs outputs : List VarId) (requireDependence : Bool) :
    GraphError → Prop
  | notARoot {input : VarId} {id : NodeId} {index : Nat} (declared : input ∈ inputs)
      (computed : source.HasKind input (.output id index)) :
      Refusal source inputs outputs requireDependence (.notARoot input)
  | undeclaredInput {var : VarId} {content : Variable}
      (undeclared : source.Undeclared inputs outputs var content) :
      Refusal source inputs outputs requireDependence (.undeclaredInput var content.name)
  | disconnectedOutput {index : Nat} {output : VarId} (required : requireDependence = true)
      (found : outputs[index]? = some output) (disconnected : ¬source.Connected inputs output)
      (first : ∀ earlier < index, ∀ other, outputs[earlier]? = some other →
        source.Connected inputs other) :
      Refusal source inputs outputs requireDependence (.disconnectedOutput index)

variable {source : Graph α} {inputs outputs : List VarId} {var operand : VarId} {id : NodeId}

/-- What is refused is not well specified. -/
theorem Refusal.not_specified {requireDependence : Bool} {cause : GraphError}
    (refusal : source.Refusal inputs outputs requireDependence cause) :
    ¬source.Specified inputs outputs requireDependence := by
  intro specified
  cases refusal with
  | notARoot declared computed => exact specified.roots _ declared _ _ computed
  | undeclaredInput undeclared =>
    rcases undeclared.needed with ⟨output, member, depends⟩
    exact undeclared.undeclared (specified.declared output member _ depends
      ⟨_, undeclared.found, undeclared.input⟩)
  | disconnectedOutput required found disconnected _ =>
    exact disconnected (specified.connected required _ (List.mem_of_getElem? found))

theorem exists_variable (source : Graph α) (known : var.index < source.vars.size) :
    ∃ content, source.vars[var.index]? = some content :=
  ⟨_, Array.getElem?_eq_getElem known⟩

theorem hasKind_output_iff {index : Nat} : source.HasKind var (.output id index) ↔
    ((source.whole inputs outputs).var var).kind = .output id index := by
  constructor
  · intro kind
    exact source.kind_whole kind inputs outputs
  · intro kind
    have known : var.index < source.vars.size := Dataflow.known_of_kind kind
    refine ⟨source.vars[var.index], Array.getElem?_eq_getElem known, ?_⟩
    rwa [Dataflow.var, whole, Array.getElem?_eq_getElem known] at kind

theorem mem_operands : operand ∈ source.operands var ↔
    ∃ id index node, source.HasKind var (.output id index) ∧ source.nodes[id.index]? = some node ∧
      operand ∈ node.inputs := by
  unfold operands HasKind Variable.producer?
  cases source.vars[var.index]? with
  | none => simp
  | some content =>
    cases kind : content.kind with
    | output id index => cases found : source.nodes[id.index]? <;> simp [kind, found]
    | _ => simp [kind]

/-- Declaring inputs and outputs makes no difference to what depends on what. -/
theorem dependsOn_whole (inputs outputs : List VarId) :
    (source.whole inputs outputs).DependsOn = source.DependsOn := by
  unfold Dataflow.DependsOn DependsOn
  congr 1
  funext var operand
  apply propext
  refine Dataflow.mem_operands.trans (Iff.trans ?_ mem_operands.symm)
  simp only [Dataflow.producer?_eq_some, node?_whole, ← hasKind_output_iff]
  constructor
  · rintro ⟨id, node, index, ⟨kind, live⟩, member⟩
    exact ⟨id, index, node, kind, live, member⟩
  · rintro ⟨id, index, node, kind, live, member⟩
    exact ⟨id, node, index, ⟨kind, live⟩, member⟩

theorem Built.node_known [Arithmetic α] (built : source.Built) {index : Nat}
    (computed : source.HasKind var (.output id index)) :
    ∃ node, source.nodes[id.index]? = some node := by
  have inside := built.formed.named var id index (hasKind_output_iff.mp computed)
  rw [whole, Array.size_map] at inside
  exact ⟨_, Array.getElem?_eq_getElem inside⟩

/-- The nodes that the outputs need are those that a search for them would find. -/
theorem needs_iff {node : Node α} (live : source.nodes[id.index]? = some node) :
    source.Needs outputs id ↔ id ∈ (source.whole inputs outputs).ancestorsOf outputs := by
  simp only [Dataflow.mem_ancestorsOf, Dataflow.computedFrom_iff, dependsOn_whole,
    Dataflow.producerId?_eq_some, Dataflow.producer?_eq_some, node?_whole, ← hasKind_output_iff]
  constructor
  · rintro ⟨output, member, var, index, depends, kind⟩
    exact ⟨output, member, var, depends, node, index, kind, live⟩
  · rintro ⟨output, member, var, depends, _, index, kind, _⟩
    exact ⟨output, member, var, index, depends, kind⟩

end Graph

namespace Dataflow

variable {graph : Dataflow α} {source : Graph α} {inputs outputs declared : List VarId}
  {var output : VarId} {requireDependence : Bool}

section Prune

theorem kept_of_dependsOn {id : NodeId} (member : output ∈ graph.outputs)
    (depends : graph.DependsOn output var) (produced : graph.producerId? var = some id) :
    id ∈ graph.ancestorsOf graph.outputs :=
  mem_ancestorsOf.mpr ⟨output, member, computedFrom_iff.mpr ⟨var, depends, produced⟩⟩

/-- An output depends on the same variables when what no output needs has been removed. -/
theorem dependsOn_prune (member : output ∈ graph.outputs) :
    graph.prune.DependsOn output var ↔ graph.DependsOn output var := by
  have same : ∀ {origin : VarId}, graph.DependsOn output origin →
      graph.prune.operands origin = graph.operands origin := by
    intro origin depends
    simp only [operands, producer?_prune fun id => kept_of_dependsOn member depends]
  constructor
  · intro depends
    induction depends with
    | refl => exact ReflTransGen.refl
    | tail _ leads ih =>
      refine ih.tail ?_
      unfold Leads at leads ⊢
      rwa [← same ih]
  · intro depends
    induction depends with
    | refl => exact ReflTransGen.refl
    | tail before leads ih =>
      refine ih.tail ?_
      unfold Leads
      rwa [same before]

end Prune

section Checks

/-- Either all declared inputs are roots, or one that is not is reported. -/
theorem requireRoots_cases (known : ∀ input ∈ inputs, input.index < source.vars.size) :
    requireRoots source inputs = Except.ok () ∧
        (∀ input ∈ inputs, ∀ id index, ¬source.HasKind input (.output id index)) ∨
      ∃ input ∈ inputs, (∃ id index, source.HasKind input (.output id index)) ∧
        requireRoots source inputs = Checked.raise (.notARoot input) := by
  induction inputs with
  | nil => exact Or.inl ⟨rfl, by simp⟩
  | cons input rest ih =>
    rcases source.exists_variable (known input List.mem_cons_self) with ⟨content, found⟩
    rw [requireRoots, Graph.getVar_eq_ok.mpr found, Checked.ok_bind]
    by_cases root : content.isRoot
    · have first : ∀ id index, ¬source.HasKind input (.output id index) := by
        rintro id index ⟨other, otherFound, kind⟩
        cases found.symm.trans otherFound
        simp [Variable.isRoot, Variable.producer?, kind] at root
      rw [if_pos root]
      rcases ih fun input member => known input (List.mem_cons_of_mem _ member) with
        ⟨passed, roots⟩ | ⟨other, member, computed, failed⟩
      · exact Or.inl ⟨passed, List.forall_mem_cons.mpr ⟨first, roots⟩⟩
      · exact Or.inr ⟨other, List.mem_cons_of_mem _ member, computed, failed⟩
    · rw [if_neg root]
      refine Or.inr ⟨input, List.mem_cons_self, ?_, rfl⟩
      cases kind : content.kind with
      | output id index => exact ⟨id, index, content, found, kind⟩
      | _ => simp [Variable.isRoot, Variable.producer?, kind] at root

variable [Arithmetic α]

/-- Either the walk ends well, or it reports an input that has not been declared although a variable
on the stack depends on it. -/
theorem requireDeclared_cases (built : source.Built) (declared : List VarId) (fuel : Nat)
    (stack visited : List VarId)
    (known : ∀ var ∈ stack, var.index < source.vars.size) :
    requireDeclared source declared fuel stack visited = Except.ok () ∨
      ∃ var content, source.Undeclared declared stack var content ∧
        requireDeclared source declared fuel stack visited =
          Checked.raise (.undeclaredInput var content.name) := by
  induction fuel generalizing stack visited with
  | zero => cases stack <;> exact Or.inl rfl
  | succ fuel ih =>
    rcases stack with _ | ⟨id, stack⟩
    · exact Or.inl rfl
    -- The walk goes on with operands of the variable, on which the variable depends.
    have continued : ∀ (operands visited : List VarId),
        (∀ operand ∈ operands, operand ∈ source.operands id) →
        requireDeclared source declared fuel (operands ++ stack) visited = Except.ok () ∨
          ∃ var content, source.Undeclared declared (id :: stack) var content ∧
            requireDeclared source declared fuel (operands ++ stack) visited =
              Checked.raise (.undeclaredInput var content.name) := by
      intro operands visited read
      have knownNext : ∀ var ∈ operands ++ stack, var.index < source.vars.size := by
        intro var member
        rcases List.mem_append.mp member with member | member
        · exact built.operands_known id var (read var member)
        · exact known var (List.mem_cons_of_mem _ member)
      rcases ih _ visited knownNext with passed | ⟨var, content, undeclared, failed⟩
      · exact Or.inl passed
      · refine Or.inr ⟨var, content, { undeclared with needed := ?_ }, failed⟩
        rcases undeclared.needed with ⟨origin, member, depends⟩
        rcases List.mem_append.mp member with member | member
        · exact ⟨id, List.mem_cons_self, ReflTransGen.head (read origin member) depends⟩
        · exact ⟨origin, List.mem_cons_of_mem _ member, depends⟩
    rw [requireDeclared]
    split
    · exact continued [] visited (by simp)
    · rcases source.exists_variable (known id List.mem_cons_self) with ⟨content, found⟩
      rw [Graph.getVar_eq_ok.mpr found, Checked.ok_bind]
      cases kind : content.kind with
      | input =>
        dsimp only
        split
        · exact continued [] _ (by simp)
        · rename_i undeclared
          exact Or.inr ⟨id, content,
            ⟨⟨id, List.mem_cons_self, ReflTransGen.refl⟩, found, kind, undeclared⟩, rfl⟩
      | shared container => exact continued [] _ (by simp)
      | constant value => exact continued [] _ (by simp)
      | output node index =>
        have computed : source.HasKind id (.output node index) := ⟨content, found, kind⟩
        rcases built.node_known computed with ⟨reader, live⟩
        have located : (source.getNode node : Checked GraphError (Node α)) = Except.ok reader := by
          simp [Graph.getNode, live]
        dsimp only
        rw [located, Checked.ok_bind]
        refine continued reader.inputs.reverse _ fun operand member => ?_
        exact Graph.mem_operands.mpr ⟨node, index, reader, computed, live, List.mem_reverse.mp member⟩

/-- Whether a captured graph connects a variable to one of its inputs is seen from the roots that a
search finds. -/
theorem any_rootAncestors_iff (wellFormed : graph.WellFormed)
    (known : var.index < graph.vars.size) :
    graph.inputs.any (· ∈ graph.rootAncestors var) = true ↔
      ∃ input ∈ graph.inputs, graph.DependsOn var input := by
  simp only [List.any_eq_true, decide_eq_true_eq, wellFormed.mem_rootAncestors_iff known]
  refine exists_congr fun input => and_congr_right fun member => and_iff_left ?_
  exact producerId?_eq_none.mpr
    (producer?_eq_none_of_kind (wellFormed.input_root input member).2)

end Checks

variable [Arithmetic α] {captured : Dataflow α}

omit [Arithmetic α] in
/-- If the walk ends well, the inputs that an output depends on are declared. -/
theorem mem_of_capture
    (captures : capture source inputs outputs requireDependence = Except.ok captured)
    (member : output ∈ outputs) (depends : source.DependsOn output var)
    (input : source.HasKind var .input) : var ∈ inputs := by
  rcases capture_eq_ok captures with ⟨_, _, seen, included, accepts⟩
  have allSeen : ∀ var, source.DependsOn output var → var ∈ seen := by
    intro var depends
    induction depends with
    | refl => exact included output member
    | @tail reader operand _ leads ih =>
      rcases Graph.mem_operands.mp leads with ⟨id, index, node, ⟨content, found, kind⟩, live, read⟩
      rcases accepts reader ih with ⟨content', found', _, accepted⟩
      cases found.symm.trans found'
      rcases accepted id index kind with ⟨node', live', operands⟩
      cases live.symm.trans live'
      exact operands operand read
  rcases accepts var (allSeen var depends) with ⟨content, found, declared, _⟩
  rcases input with ⟨content', found', kind⟩
  cases found.symm.trans found'
  exact declared kind

/-- What is captured keeps exactly what the outputs need. -/
theorem keeps_of_capture
    (captures : capture source inputs outputs requireDependence = Except.ok captured) :
    source.Keeps inputs outputs captured := by
  rcases capture_eq_ok captures with ⟨rfl, _⟩
  refine ⟨rfl, rfl, rfl, fun id node => ?_, fun hosts roots output member tensor => ?_⟩
  · rw [node?_prune, Graph.node?_whole]
    exact and_congr_right fun live => (Graph.needs_iff live).symm
  · refine evaluates_prune_iff fun id produced => ?_
    have listed : output ∈ (source.whole inputs outputs).outputs := member
    exact kept_of_dependsOn listed ReflTransGen.refl produced

/-- An output of a captured graph is seen to be connected exactly if it depends on a declared input in
the symbolic graph. -/
theorem connected_iff_of_capture (built : source.Built)
    (captures : capture source inputs outputs requireDependence = Except.ok captured)
    (member : output ∈ outputs) :
    captured.inputs.any (· ∈ captured.rootAncestors output) = true ↔
      source.Connected inputs output := by
  have formed := formed_of_capture built captures
  rcases capture_eq_ok captures with ⟨rfl, _⟩
  have listed : output ∈ (source.whole inputs outputs).outputs := member
  have known := formed.read_known output (Or.inl listed)
  rw [any_rootAncestors_iff formed.toWellFormed known]
  simp only [dependsOn_prune listed, Graph.dependsOn_whole]
  rfl

/-- A request is granted, and then it is well specified, or it is refused for one of the reasons. -/
theorem capture_cases (built : source.Built)
    (inputsKnown : ∀ input ∈ inputs, input.index < source.vars.size)
    (outputsKnown : ∀ output ∈ outputs, output.index < source.vars.size)
    (requireDependence : Bool) :
    source.Specified inputs outputs requireDependence ∧
        capture source inputs outputs requireDependence =
          Except.ok (source.whole inputs outputs).prune ∨
      ∃ cause, source.Refusal inputs outputs requireDependence cause ∧
        capture source inputs outputs requireDependence = Checked.raise cause := by
  rcases requireRoots_cases inputsKnown with
    ⟨rootsPassed, roots⟩ | ⟨input, member, ⟨id, index, computed⟩, failed⟩
  swap
  · exact Or.inr ⟨_, .notARoot member computed, by rw [capture, failed]; rfl⟩
  rcases requireDeclared_cases built inputs (walkLength source outputs) outputs.reverse []
    (by simpa using outputsKnown) with
    walkPassed | ⟨var, content, undeclared, failed⟩
  swap
  · have needed : ∃ output ∈ outputs, source.DependsOn output var := by simpa using undeclared.needed
    refine Or.inr ⟨_, .undeclaredInput { undeclared with needed }, ?_⟩
    rw [capture, rootsPassed, Checked.ok_bind, failed]
    rfl
  have captures : capture source inputs outputs false =
      Except.ok (source.whole inputs outputs).prune := by
    rw [capture, rootsPassed, Checked.ok_bind, walkPassed]
    rfl
  have declared : ∀ output ∈ outputs, ∀ var, source.DependsOn output var →
      source.HasKind var .input → var ∈ inputs :=
    fun output member var => mem_of_capture captures member
  cases requireDependence with
  | false => exact Or.inl ⟨⟨roots, declared, by simp⟩, captures⟩
  | true =>
    have connected : ∀ output ∈ outputs, _ :=
      fun output member => connected_iff_of_capture built captures member
    have checked : capture source inputs outputs true =
        requireConnected (source.whole inputs outputs).prune 0 outputs >>= fun _ =>
          Except.ok (source.whole inputs outputs).prune := by
      rw [capture, rootsPassed, Checked.ok_bind, walkPassed]
      rfl
    rcases requireConnected_cases (source.whole inputs outputs).prune outputs 0 with
      ⟨passed, all⟩ | ⟨index, output, found, not, first, failed⟩
    · refine Or.inl ⟨⟨roots, declared, fun _ output member => ?_⟩, by rw [checked, passed]; rfl⟩
      exact (connected output member).mp (all output member)
    · refine Or.inr ⟨_, .disconnectedOutput rfl found ?_ ?_, by rw [checked, failed, Nat.zero_add]; rfl⟩
      · exact fun depends => not ((connected output (List.mem_of_getElem? found)).mpr depends)
      · intro earlier before other otherFound
        exact (connected other (List.mem_of_getElem? otherFound)).mp
          (first earlier before other otherFound)

/-- Capture grants exactly the requests that are well specified, keeps exactly what the outputs need,
and gives a reason for every refusal. -/
theorem capture_exact (built : source.Built)
    (inputsKnown : ∀ input ∈ inputs, input.index < source.vars.size)
    (outputsKnown : ∀ output ∈ outputs, output.index < source.vars.size)
    (requireDependence : Bool) :
    ((∃ captured, capture source inputs outputs requireDependence = Except.ok captured) ↔
      source.Specified inputs outputs requireDependence) ∧
    (∀ captured, capture source inputs outputs requireDependence = Except.ok captured →
      source.Keeps inputs outputs captured) ∧
    ∀ failure, capture source inputs outputs requireDependence = Except.error failure →
      ∃ cause, failure = .error cause ∧
        source.Refusal inputs outputs requireDependence cause := by
  refine ⟨?_, fun captured captures => keeps_of_capture captures, ?_⟩
  · rcases capture_cases built inputsKnown outputsKnown requireDependence with
      ⟨specified, captures⟩ | ⟨cause, refusal, failed⟩
    · exact iff_of_true ⟨_, captures⟩ specified
    · refine iff_of_false ?_ refusal.not_specified
      rintro ⟨captured, captures⟩
      simp [failed] at captures
  · intro failure failed
    rcases capture_cases built inputsKnown outputsKnown requireDependence with
      ⟨_, captures⟩ | ⟨cause, refusal, raised⟩
    · simp [captures] at failed
    · rw [raised] at failed
      cases failed
      exact ⟨cause, rfl, refusal⟩

/-- The negation of a vector is added to itself, and another vector is negated as well. -/
def doubledNegation : Graph ℚ where
  vars := #[⟨ArrayType.ofRank .float64 1, .input, some "x"⟩,
    ⟨ArrayType.ofRank .float64 1, .input, some "y"⟩,
    ⟨ArrayType.ofRank .float64 1, .output ⟨0⟩ 0, none⟩,
    ⟨ArrayType.ofRank .float64 1, .output ⟨1⟩ 0, none⟩,
    ⟨ArrayType.ofRank .float64 1, .output ⟨2⟩ 0, none⟩]
  nodes := #[⟨.elementwise .neg none, [⟨0⟩], [⟨2⟩]⟩, ⟨.elementwise .add none, [⟨2⟩, ⟨2⟩], [⟨3⟩]⟩,
    ⟨.elementwise .neg none, [⟨1⟩], [⟨4⟩]⟩]

theorem built_doubledNegation : doubledNegation.Built := by
  let inputs : Graph ℚ := ⟨doubledNegation.vars.take 2, #[]⟩
  let first : Graph ℚ := ⟨doubledNegation.vars.take 3, doubledNegation.nodes.take 1⟩
  let second : Graph ℚ := ⟨doubledNegation.vars.take 4, doubledNegation.nodes.take 2⟩
  have applied : inputs.apply (.elementwise .neg none) [⟨0⟩] = Except.ok ([⟨2⟩], first) := rfl
  have applied' : first.apply (.elementwise .add none) [⟨2⟩, ⟨2⟩] = Except.ok ([⟨3⟩], second) := rfl
  have applied'' : second.apply (.elementwise .neg none) [⟨1⟩] =
      Except.ok ([⟨4⟩], doubledNegation) := rfl
  have built : inputs.Built := .input (.input .empty _ "x") _ "y"
  exact .apply (.apply (.apply built applied) applied') applied''

/-- The first vector is enough for the sum, but not for the other negation. -/
theorem capture_exact_doubledNegation :
    doubledNegation.Specified [⟨0⟩] [⟨3⟩] true ∧
    (∃ captured, capture doubledNegation [⟨0⟩] [⟨3⟩] true = Except.ok captured ∧
      doubledNegation.Keeps [⟨0⟩] [⟨3⟩] captured) ∧
    doubledNegation.Refusal [⟨0⟩] [⟨3⟩, ⟨4⟩] true (.undeclaredInput ⟨1⟩ (some "y")) := by
  have captures : capture doubledNegation [⟨0⟩] [⟨3⟩] true =
      Except.ok (doubledNegation.whole [⟨0⟩] [⟨3⟩]).prune := by cbv
  have failed : capture doubledNegation [⟨0⟩] [⟨3⟩, ⟨4⟩] true =
      Checked.raise (.undeclaredInput ⟨1⟩ (some "y")) := by cbv
  have inputsKnown : ∀ input ∈ ([⟨0⟩] : List VarId), input.index < doubledNegation.vars.size := by
    decide
  have outputsKnown : ∀ output ∈ ([⟨3⟩, ⟨4⟩] : List VarId),
      output.index < doubledNegation.vars.size := by decide
  have sumKnown : ∀ output ∈ ([⟨3⟩] : List VarId), output.index < doubledNegation.vars.size := by
    decide
  rcases capture_exact built_doubledNegation inputsKnown sumKnown true with ⟨accepts, keeps, _⟩
  rcases capture_exact built_doubledNegation inputsKnown outputsKnown true with ⟨_, _, refuses⟩
  rcases refuses _ failed with ⟨cause, same, refusal⟩
  cases same
  exact ⟨accepts.mp ⟨_, captures⟩, ⟨_, captures, keeps _ captures⟩, refusal⟩

end Dataflow

end ArrayGraph
