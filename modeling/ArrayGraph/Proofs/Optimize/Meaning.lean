import Mathlib
import ArrayGraph.Proofs.Dataflow.Capture
import ArrayGraph.Proofs.Optimize.Standard

/-!
# Optimization keeps what a graph computes

A captured graph with arrays for its roots is a job for optimization: if the outputs can be
evaluated then so can every node, since no node is left that no output depends on, and all arrays
that occur are of the types that the graph gives. So a captured graph serves, and what becomes of it
under rules that are safe serves as well.
-/

namespace ArrayGraph

open Relation

variable {α : Type} [Arithmetic α]

/-- Host functions store elements as element types ask for. -/
def HostFunction.Normalizes (function : HostFunction α) (hosts : Meaning α) : Prop :=
  ∀ operands results, hosts function.identity operands = Except.ok results →
    ∀ tensor ∈ results, tensor.Normalized

theorem ScalarFunction.compute_normalized {function : ScalarFunction} {name : String}
    {operands : List (Tensor α)} {result : Tensor α}
    (computed : function.compute name operands = Except.ok result) : result.Normalized := by
  rcases compute_eq_ok_iff.mp computed with ⟨_, _, _, each⟩
  intro x member
  rcases Array.mem_iff_getElem?.mp member with ⟨index, found⟩
  rcases each index x found with ⟨y, _, same⟩
  exact ⟨y, same⟩

theorem Op.compute_normalized {op : Op α} {operands : List (Tensor α)} {result : Tensor α}
    (normalized : ∀ operand ∈ operands, operand.Normalized)
    (computed : op.compute operands = Except.ok result) : result.Normalized := by
  unfold compute at computed
  split at computed
  · exact ScalarFunction.compute_normalized computed
  · rename_i operand rest
    cases computed
    intro x member
    exact ⟨operand.total, by simpa using member⟩
  · rename_i shape operand rest
    simp only [Tensor.reshape, Checked.bind_eq_ok_iff] at computed
    rcases computed with ⟨count, _, reshaped⟩
    split at reshaped
    · cases reshaped
      exact normalized operand (by simp)
    · cases reshaped
  · cases computed
    exact normalized result (by simp)
  · cases computed
    exact normalized result (by simp)
  · rename_i number operand rest
    simp only [Tensor.fill, Checked.bind_eq_ok_iff] at computed
    rcases computed with ⟨count, _, filled⟩
    cases filled
    intro x member
    exact ⟨number, (Array.mem_replicate.mp member).2⟩
  · rename_i element operand rest
    cases computed
    intro x member
    rcases Array.mem_map.mp member with ⟨y, _, same⟩
    exact ⟨y, same.symm⟩
  · cases computed
  · cases computed

/-- Whatever an operation computes is stored as element types ask for. -/
theorem Op.evaluate_normalized {op : Op α} {hosts : Meaning α} {operands results : List (Tensor α)}
    (normalizes : ∀ function, op = .host function → function.Normalizes hosts)
    (normalized : ∀ operand ∈ operands, operand.Normalized)
    (evaluated : op.evaluate hosts operands = Except.ok results) :
    ∀ result ∈ results, result.Normalized := by
  by_cases table : ∀ function, op ≠ .host function
  · rw [evaluate_of_table table] at evaluated
    cases computed : op.compute operands with
    | error failure =>
      rw [computed] at evaluated
      cases evaluated
    | ok result =>
      rw [computed] at evaluated
      cases evaluated
      simpa using compute_normalized normalized computed
  · simp only [not_forall, ne_eq, not_not] at table
    rcases table with ⟨function, rfl⟩
    exact normalizes function rfl operands results evaluated

namespace Graph

/-- A constant has the type of its value. -/
theorem Built.constant_type {graph : Graph α} (built : graph.Built) {var : Variable}
    (member : var ∈ graph.vars) {value : Value} (kind : var.kind = .constant value) :
    var.type = value.type := by
  have root : ∀ {graph : Graph α} {type : ArrayType} {origin : VarKind} {name : Option String},
      (var ∈ graph.vars → var.type = value.type) → (origin = .constant value → type = value.type) →
      var ∈ (graph.addRoot type origin name).2.vars → var.type = value.type := by
    intro graph type origin name before new member
    rcases Array.mem_push.mp member with member | rfl
    · exact before member
    · exact new kind
  induction built with
  | empty => simp [Graph.empty] at member
  | input _ type name ih => exact root ih (by simp) member
  | constant _ content ih =>
    refine root ih ?_ member
    intro same
    cases same
    rfl
  | shared _ memory container ih => exact root ih (by simp) member
  | apply _ applied ih =>
    simp only [Graph.apply, Checked.bind_eq_ok_iff] at applied
    rcases applied with ⟨vars, _, types, _, same⟩
    cases same
    rw [Array.mem_def, Array.toList_appendList, List.mem_append] at member
    rcases member with member | output
    · exact ih (Array.mem_def.mpr member)
    · simp only [outputVariables, List.mem_map, Prod.exists] at output
      rcases output with ⟨type, index, _, rfl⟩
      cases kind

end Graph

namespace Dataflow

variable {graph : Dataflow α} {hosts : Meaning α} {memory : Memory α}
  {given : VarId → Option (Tensor α)}

/-- The graphs that are captured from a symbolic graph, with any guards, and with declared inputs in
the place of other variables. -/
inductive Captured : Dataflow α → Prop
  | capture {source : Graph α} {inputs outputs : List VarId} {requireDependence : Bool}
      {graph : Dataflow α} (built : source.Built)
      (captured : capture source inputs outputs requireDependence = Except.ok graph) :
      Captured graph
  | guard {graph : Dataflow α} (captured : Captured graph) (var : VarId) :
      Captured (graph.guard var)
  | replace {graph after : Dataflow α} (captured : Captured graph) {old new : VarId}
      (declared : new ∈ graph.inputs) (answer : graph.replace old new = Except.ok after) :
      Captured after

omit [Arithmetic α] in
/-- With a declared input in the place of a variable, whatever is read still comes from somewhere. -/
theorem Closed.replace {after : Dataflow α} {old new : VarId} (closed : graph.Closed)
    (declared : new ∈ graph.inputs) (answer : graph.replace old new = Except.ok after) :
    after.Closed := by
  rcases replace_eq_ok answer with ⟨_, rfl⟩ | ⟨_, _, rfl⟩
  · exact closed
  · intro var read
    rcases read.of_prune.of_redirect with ⟨rfl, _⟩ | ⟨_, before⟩
    · exact Or.inl declared
    · rcases closed var before with input | constant | shared | ⟨id, produced⟩
      · exact Or.inl input
      · exact Or.inr (Or.inl constant)
      · exact Or.inr (Or.inr (Or.inl shared))
      · refine Or.inr (Or.inr (Or.inr ⟨id, ?_⟩))
        rw [read.producerId?_prune, producerId?_redirect, produced]

namespace Captured

theorem formed (captured : graph.Captured) : graph.Formed := by
  induction captured with
  | capture built captured => exact formed_of_capture built captured
  | guard _ var ih => exact ih.guard var
  | replace _ _ answer ih => exact ih.replace answer

theorem closed (captured : graph.Captured) : graph.Closed := by
  induction captured with
  | capture _ captured => exact closed_of_capture captured
  | guard _ var ih => exact ih
  | replace _ declared answer ih => exact ih.replace declared answer

theorem pruned (captured : graph.Captured) : graph.Pruned := by
  induction captured with
  | capture _ captured =>
    rw [(capture_eq_ok captured).1]
    exact pruned_prune
  | guard _ var ih => exact ih
  | replace _ _ answer ih =>
    rcases replace_eq_ok answer with ⟨_, rfl⟩ | ⟨_, _, rfl⟩
    · exact ih
    · exact pruned_prune

theorem constant_type (captured : graph.Captured) {var : VarId} {value : Value}
    (kind : (graph.var var).kind = .constant value) : graph.type var = value.type := by
  induction captured with
  | capture built captured =>
    rw [(capture_eq_ok captured).1] at kind ⊢
    refine built.constant_type ?_ kind
    by_contra absent
    rw [var_default] at kind
    · cases kind
    · by_contra inside
      apply absent
      simp only [Dataflow.var, Dataflow.prune, Graph.whole] at inside ⊢
      rw [Array.getElem?_eq_getElem (by omega)]
      exact Array.getElem_mem _
  | guard _ var ih => exact ih kind
  | replace _ _ answer ih =>
    rcases replace_eq_ok answer with ⟨_, rfl⟩ | ⟨_, _, rfl⟩
    · exact ih kind
    · exact ih kind

end Captured

/-- All that a variable is computed from can be evaluated if the variable can. -/
theorem ComputedFrom.nodeEvaluates {roots : VarId → Option (Tensor α)} {var : VarId} {id : NodeId}
    {node : Node α} {tensor : Tensor α} (computed : graph.ComputedFrom var id)
    (live : graph.node? id = some node) (evaluates : graph.Evaluates hosts roots var tensor) :
    graph.NodeEvaluates hosts roots node := by
  rcases computed with ⟨producer, produced, path⟩
  induction path using ReflTransGen.head_induction_on generalizing var tensor with
  | refl =>
    rcases producerId?_eq_some.mp produced with ⟨content, index, found⟩
    have same := (producer?_eq_some.mp found).2
    rw [live] at same
    cases same
    rcases (Evaluates.output_iff (producerNode?_eq_some.mpr ⟨_, found⟩)).mp evaluates with
      ⟨values, results, operands, computed, _⟩
    exact ⟨values, results, operands, computed⟩
  | head reads _ ih =>
    rcases producerId?_eq_some.mp produced with ⟨content, index, found⟩
    rcases readsFrom_iff.mp reads with ⟨reader, readerLive, input, member, inputProduced⟩
    have same := (producer?_eq_some.mp found).2
    rw [readerLive] at same
    cases same
    rcases (Evaluates.output_iff (producerNode?_eq_some.mpr ⟨_, found⟩)).mp evaluates with
      ⟨values, _, operands, _⟩
    exact ih (operands input member) inputProduced

/-- The constants of a graph are stored in the memory. -/
def ConstantsStored (graph : Dataflow α) (memory : Memory α) : Prop :=
  ∀ var value, (graph.var var).kind = .constant value → memory.Stores value

/-- The host functions of a graph give arrays of the types they declare. -/
def HostsTyped (graph : Dataflow α) (hosts : Meaning α) : Prop :=
  ∀ id node function, graph.node? id = some node → node.op = .host function →
    function.Typed hosts ∧ function.Normalizes hosts

/-- Arrays for roots, each of the type of its root. -/
def Assigns (graph : Dataflow α) (given : VarId → Option (Tensor α)) : Prop :=
  ∀ var tensor, given var = some tensor → tensor.Conforms (graph.type var) ∧ tensor.Normalized

/-- Variables stand for arrays of their types. -/
theorem Captured.conforms (captured : graph.Captured) (stored : graph.ConstantsStored memory)
    (typed : graph.HostsTyped hosts) (assigns : graph.Assigns given) {var : VarId}
    {tensor : Tensor α} (yields : graph.Yields hosts memory given var tensor) :
    tensor.Conforms (graph.type var) ∧ tensor.Normalized := by
  induction yields with
  | @root var tensor _ found =>
    cases kind : (graph.var var).kind with
    | constant value =>
      rw [environment_of_constant kind] at found
      cases found
      have stores := stored var value kind
      exact ⟨captured.constant_type kind ▸ stores.conforms, stores.normalized⟩
    | _ =>
      rw [environment_of_not_constant (by simp [kind])] at found
      exact assigns var tensor found
  | @output var node index values results tensor produced _ computed selected ih =>
    rcases producerNode?_eq_some.mp produced with ⟨id, found⟩
    rcases producer?_eq_some.mp found with ⟨kind, live⟩
    have conform : List.Forall₂ Tensor.Conforms (node.inputs.map values)
        (node.inputs.map graph.type) := by
      rw [List.forall₂_map_left_iff, List.forall₂_map_right_iff, List.forall₂_same]
      exact fun input member => (ih input member).1
    have results_conform := Op.evaluate_conforms (captured.formed.typed id node live)
      (fun function same => (typed id node function live same).1) conform computed
    rcases forall₂_getElem?_left results_conform selected with ⟨type, typeFound, conforms⟩
    have listed := captured.formed.output_listed var id index node (known_of_kind kind) kind live
    rw [List.getElem?_map, listed] at typeFound
    cases typeFound
    refine ⟨conforms, ?_⟩
    refine Op.evaluate_normalized (fun function same => (typed id node function live same).2) ?_
      computed tensor (List.mem_of_getElem? selected)
    intro operand member
    rcases List.mem_map.mp member with ⟨input, inputMem, rfl⟩
    exact (ih input inputMem).2

/-- The evaluations of a captured graph as jobs for optimization. -/
def jobs (graph : Dataflow α) (hosts : Meaning α) (memory : Memory α) : Setting α where
  hosts := hosts
  base := graph
  start := memory
  jobs job := graph.Assigns job.given ∧
    List.Forall₂ (graph.Yields hosts memory job.given) graph.outputs job.results

/-- A captured graph serves whatever it starts with that it can do. -/
theorem Captured.serves_of_works (captured : graph.Captured) (stored : graph.ConstantsStored memory)
    {jobs : Job α → Prop} (works : ∀ job, jobs job → graph.Works hosts memory job) :
    graph.Serves ⟨hosts, graph, memory, jobs⟩ memory where
  toFormed := captured.formed
  derives := ⟨List.prefix_refl _, rfl, rfl, rfl, fun id node live => Or.inr ⟨id, node, live, rfl⟩⟩
  keeps := Memory.Keeps.refl memory
  roots_known var read unproduced := by
    have formed := captured.formed
    rcases captured.closed var read with input | constant | ⟨container, shared⟩ | ⟨id, produced⟩
    · exact Or.inl ⟨read, formed.read_known var read,
        isRoot_iff.mpr (formed.input_root var input).2⟩
    · exact Or.inr constant
    · exact Or.inl ⟨read, formed.read_known var read, isRoot_iff.mpr (by simp [shared])⟩
    · rw [unproduced] at produced
      cases produced
  constants_stored var value kind := ⟨stored var value kind, captured.constant_type kind⟩
  works := works

/-- A captured graph does a job if its outputs stand for the results. -/
theorem Captured.works (captured : graph.Captured) (stored : graph.ConstantsStored memory)
    (typed : graph.HostsTyped hosts) {job : Job α} (assigns : graph.Assigns job.given)
    (outputs : List.Forall₂ (graph.Yields hosts memory job.given) graph.outputs job.results) :
    graph.Works hosts memory job := by
  have nodes : graph.AllEvaluate hosts (graph.environment memory job.given) := by
    intro id node live
    rcases mem_ancestorsOf.mp (captured.pruned id node live) with ⟨output, member, computed⟩
    rcases List.mem_iff_getElem?.mp member with ⟨index, found⟩
    rcases forall₂_getElem?_left outputs found with ⟨tensor, _, yields⟩
    exact computed.nodeEvaluates live yields
  refine ⟨nodes, ?_, outputs⟩
  intro var read
  have evaluates : ∃ tensor, graph.Yields hosts memory job.given var tensor := by
    rcases read with output | ⟨id, node, live, input⟩
    · rcases List.mem_iff_getElem?.mp output with ⟨index, found⟩
      rcases forall₂_getElem?_left outputs found with ⟨tensor, _, yields⟩
      exact ⟨tensor, yields⟩
    · rcases nodes id node live with ⟨values, _, operands, _⟩
      exact ⟨values var, operands var input⟩
  rcases evaluates with ⟨tensor, yields⟩
  exact ⟨tensor, yields, captured.conforms stored typed assigns yields⟩

/-- A captured graph does its own jobs. -/
theorem Captured.serves (captured : graph.Captured) (stored : graph.ConstantsStored memory)
    (typed : graph.HostsTyped hosts) : graph.Serves (graph.jobs hosts memory) memory :=
  captured.serves_of_works stored fun _ member =>
    captured.works stored typed member.1 member.2

/-- Optimization by standard rules that are not marked as unsafe keeps the inputs and the types of
the outputs of a captured graph, and whatever the outputs stand for. -/
theorem optimize_keeps_meaning (captured : graph.Captured) (stored : graph.ConstantsStored memory)
    (typed : graph.HostsTyped hosts) {query : Query}
    (sound : ∀ entry ∈ (Database.standard : Database α).select query, ∀ rule ∈ entry.2,
      rule.tags.contains "unsafe" = false)
    (identities : Identities α ((Database.standard : Database α).Selects query))
    {budget : Option Nat} {log : List LogEntry} {report : OptimizeReport} {orderings : Orderings}
    {after : Editing α}
    (ran : Edit.optimize Database.standard query budget ⟨graph, memory, log⟩ =
      .ok (report, orderings) after) :
    after.graph.inputs = graph.inputs ∧
      after.graph.outputs.length = graph.outputs.length ∧
      after.graph.outputs.map after.graph.type = graph.outputs.map graph.type ∧
      memory.Keeps after.memory ∧
      ∀ given results, graph.Assigns given →
        List.Forall₂ (graph.Yields hosts memory given) graph.outputs results →
        List.Forall₂ (after.graph.Yields hosts after.memory given) after.graph.outputs results := by
  have safe : Edit.Safe (graph.jobs hosts memory) (Edit.optimize Database.standard query budget) :=
    Edit.safe_optimize (Rule.safe_of_standard (fun _ _ => sound) fun _ _ => identities) budget
  have serves := (safe _ _ after ⟨captured.serves stored typed, captured.pruned⟩ ran).graph
  have types : after.graph.outputs.map after.graph.type = graph.outputs.map graph.type :=
    serves.derives.types
  refine ⟨serves.derives.inputs, ?_, types, serves.keeps, ?_⟩
  · simpa using congrArg List.length types
  · intro given results assigns outputs
    exact (serves.works ⟨given, results⟩ ⟨assigns, outputs⟩).outputs

end Dataflow

/-- Rational numbers as elements. Their logarithm and their exponential are there for the sake of the
identities only. -/
instance : Arithmetic ℚ where
  sumStart := 0
  exp x := x
  log x := x
  log1p x := x + 1
  trunc x := ⌊x⌋
  identical x y := x == y
  write x := toString x

/-- Rational numbers obey all identities. -/
theorem identities_rat (selected : String → Prop) : Identities ℚ selected where
  eq_of_beq x y same := by simpa using same
  eq_of_identical x y same := by simpa [Arithmetic.identical] using same
  add_zero _ element x stores := by
    rcases stores with ⟨y, rfl⟩
    cases element <;> simp [ElementType.normalize, Arithmetic.trunc]
  mul_one _ element x stores := by
    rcases stores with ⟨y, rfl⟩
    cases element <;> simp [ElementType.normalize, Arithmetic.trunc]
  neg_neg _ element x stores := by
    rcases stores with ⟨y, rfl⟩
    cases element with
    | int64 =>
      simp only [ElementType.normalize, Arithmetic.trunc, ← Int.cast_neg, Int.floor_intCast]
      simp
    | _ => simp [ElementType.normalize]
  log1p _ element other x stores := by
    rcases stores with ⟨y, rfl⟩
    cases element <;> cases other <;>
      simp [ElementType.normalize, ElementType.upcast, ElementType.rank, Arithmetic.trunc,
        Arithmetic.log, Arithmetic.log1p, add_comm] <;>
      split_ifs <;> norm_num
  log_exp _ x := rfl
  div_by_constant _ _ _ x number _ _ _ := by simp [div_eq_mul_inv]

namespace Dataflow

/-- A symbolic graph that adds zero to a vector. -/
def zeroAdded : Graph ℚ where
  vars := #[⟨ArrayType.ofRank .float64 1, .input, some "x"⟩,
    ⟨ArrayType.scalar .float64, .constant ⟨.float64, [], ⟨0⟩⟩, none⟩,
    ⟨ArrayType.ofRank .float64 1, .output ⟨0⟩ 0, none⟩]
  nodes := #[⟨.elementwise .add none, [⟨0⟩, ⟨1⟩], [⟨2⟩]⟩]

/-- What is captured from it. -/
def capturedSum : Dataflow ℚ where
  vars := zeroAdded.vars
  nodes := #[some ⟨.elementwise .add none, [⟨0⟩, ⟨1⟩], [⟨2⟩]⟩]
  inputs := [⟨0⟩]
  outputs := [⟨2⟩]
  guarded := []

theorem captured_capturedSum : capturedSum.Captured := by
  have applied : ((Graph.empty.addInput (ArrayType.ofRank .float64 1) "x").2.addConstant
      ⟨.float64, [], ⟨0⟩⟩).2.apply (Op.elementwise .add none : Op ℚ) [⟨0⟩, ⟨1⟩] =
        Except.ok ([⟨2⟩], zeroAdded) := rfl
  have captured : Dataflow.capture zeroAdded [⟨0⟩] [⟨2⟩] false = Except.ok capturedSum := by cbv
  exact .capture (.apply (.constant (.input .empty _ _) _) applied) captured

/-- A query for the rule that drops a zero. -/
def zeroQuery : Query := ⟨.ofList ["add_zero"], .empty, .empty, 1⟩

/-- The query selects that rule alone, unless its stage lies too far back. -/
theorem select_zeroQuery : (Database.standard : Database ℚ).select zeroQuery = [] ∨
    (Database.standard : Database ℚ).select zeroQuery = [(.repeated "canonicalize" 1
      [.addZero, .mulOne, .negNeg, .subSelf, .divSelf], [.addZero])] := by
  have unselected : ∀ stages : List (Stage ℚ),
      (∀ stage ∈ stages, ∀ rule ∈ stage.rules, zeroQuery.selects rule = false) →
        Database.select ⟨stages⟩ zeroQuery = [] := by
    intro stages none
    apply List.filterMap_eq_nil_iff.mpr
    intro stage member
    have empty : stage.rules.filter zeroQuery.selects = [] := by
      simpa using none stage (List.mem_of_mem_filter member)
    rw [empty]
  have split : ∀ front back : List (Stage ℚ), Database.select ⟨front ++ back⟩ zeroQuery =
      Database.select ⟨front⟩ zeroQuery ++ Database.select ⟨back⟩ zeroQuery := by
    intro front back
    simp only [Database.select, List.filter_append, List.filterMap_append]
  have standard : (Database.standard : Database ℚ) = ⟨Database.standard.stages.take 2 ++
      ([.repeated "canonicalize" 1 [.addZero, .mulOne, .negNeg, .subSelf, .divSelf]] ++
        Database.standard.stages.drop 3)⟩ := rfl
  rw [standard, split, split, unselected (Database.standard.stages.take 2) (by decide),
    unselected (Database.standard.stages.drop 3) (by decide), List.nil_append, List.append_nil]
  simp only [Database.select, List.filter_cons, List.filter_nil]
  split
  · exact Or.inr rfl
  · exact Or.inl rfl

/-- The vector is left, with or without the zero. -/
theorem optimize_keeps_meaning_capturedSum :
    ∃ report orderings after, Edit.optimize Database.standard zeroQuery none
        ⟨capturedSum, ⟨#[#[0]], #[]⟩, []⟩ = .ok (report, orderings) after ∧
      List.Forall₂ (after.graph.Yields (fun _ _ => Checked.abort (.noSuchOperand 0)) after.memory
        fun var => if var = ⟨0⟩ then some ⟨.float64, [2], #[3, 5]⟩ else none)
        after.graph.outputs [⟨.float64, [2], #[3, 5]⟩] := by
  have optimized : ∃ report orderings after, Edit.optimize Database.standard zeroQuery none
      ⟨capturedSum, ⟨#[#[0]], #[]⟩, []⟩ = .ok (report, orderings) after := by
    unfold Edit.optimize
    rcases select_zeroQuery with selected | selected
    · rw [selected]
      exact ⟨_, _, _, rfl⟩
    · rw [selected]
      refine ⟨⟨[⟨"canonicalize", 2, 1, true⟩], []⟩, .empty,
        ⟨{ capturedSum with nodes := #[none], outputs := [⟨0⟩] }, ⟨#[#[0]], #[]⟩, []⟩, ?_⟩
      cbv
  rcases optimized with ⟨report, orderings, after, ran⟩
  have kinds : ∀ var ∈ capturedSum.varIds, ∀ value, (capturedSum.var var).constant? = some value →
      value = ⟨.float64, [], ⟨0⟩⟩ := by
    decide
  have stored : capturedSum.ConstantsStored ⟨#[#[0]], #[]⟩ := by
    intro var value kind
    have known : var ∈ capturedSum.varIds := by
      apply mem_varIds.mpr
      by_contra outside
      rw [var_default (by omega)] at kind
      cases kind
    cases kinds var known value (Variable.constant?_eq_some.mpr kind)
    exact ⟨by simp [Memory.Knows], rfl, fun x _ => ⟨x, rfl⟩⟩
  have tables : ∀ entry ∈ capturedSum.liveNodes, entry.2.op.isPlanned := by decide
  have typed : capturedSum.HostsTyped fun _ _ => Checked.abort (.noSuchOperand 0) := by
    intro id node function live same
    have planned := tables (id, node) (mem_liveNodes.mpr live)
    simp [same, Op.isPlanned] at planned
  refine ⟨report, orderings, after, ran, ?_⟩
  apply (optimize_keeps_meaning captured_capturedSum stored typed ?_ (identities_rat _) ran).2.2.2.2
  · intro var tensor given
    by_cases same : var = ⟨0⟩
    · cases (if_pos same).symm.trans given
      exact same ▸ ⟨⟨rfl, rfl, rfl⟩, fun x _ => ⟨x, rfl⟩⟩
    · cases (if_neg same).symm.trans given
  · refine List.Forall₂.cons ?_ List.Forall₂.nil
    have produced : capturedSum.producerNode? ⟨2⟩ =
        some (⟨.elementwise .add none, [⟨0⟩, ⟨1⟩], [⟨2⟩]⟩, 0) := rfl
    apply (Evaluates.output_iff_forall₂ produced).mpr
    refine ⟨[⟨.float64, [2], #[3, 5]⟩, ⟨.float64, [], #[0]⟩], [⟨.float64, [2], #[3, 5]⟩], ?_, ?_, rfl⟩
    · exact .cons (.root rfl rfl) (.cons (.root rfl rfl) .nil)
    · cbv
  · intro entry member rule selected
    rcases select_zeroQuery with none | single
    · simp [none] at member
    · simp only [single, List.mem_singleton] at member
      subst member
      simp only [List.mem_singleton] at selected
      subst selected
      rfl

end Dataflow

end ArrayGraph
