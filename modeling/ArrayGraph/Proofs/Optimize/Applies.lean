import ArrayGraph.Proofs.Optimize.Ready
import ArrayGraph.Proofs.Optimize.Rules

/-!
# Rules on nodes that always apply

No rule of the standard database that looks at single nodes fails on a graph that is ready. A rule
that offers an operand offers something that is read. A rule that adds a node gives it an operation
on operands whose shapes cannot disagree, so its type is always inferred.
-/

namespace ArrayGraph

variable {α : Type} [Arithmetic α]

omit [Arithmetic α] in
theorem ScalarFunction.exists_outputType (function : ScalarFunction) (name : String)
    {types : List ArrayType} (few : (types.filter fun type => !type.isScalar).length ≤ 1) :
    ∃ output, function.outputType name types = Except.ok output := by
  unfold outputType commonType
  generalize types.filter (fun type => !type.isScalar) = dimensioned at few
  match dimensioned, few with
  | [], _ => exact ⟨_, rfl⟩
  | [_], _ => exact ⟨_, rfl⟩

/-- Where one operand at most has dimensions there is nothing to agree on. -/
theorem Op.exists_inferTypes_ofFunction {function : ScalarFunction} {types : List ArrayType}
    (arity : types.length = function.arity)
    (few : (types.filter fun type => !type.isScalar).length ≤ 1) :
    ∃ output, (Op.ofFunction function : Op α).inferTypes types = Except.ok [output] := by
  rcases function.exists_outputType (Op.ofFunction function : Op α).name few with ⟨output, inferred⟩
  refine ⟨output, ?_⟩
  unfold inferTypes
  rw [if_neg (by simpa [Op.ofFunction, Op.arity] using arity)]
  simp only [Op.ofFunction] at inferred ⊢
  rw [inferred]
  rfl

theorem Op.exists_inferTypes_unary {function : ScalarFunction} (unary : function.arity = 1)
    (type : ArrayType) :
    ∃ output, (Op.ofFunction function : Op α).inferTypes [type] = Except.ok [output] := by
  apply exists_inferTypes_ofFunction
  · simp [unary]
  · exact List.length_filter_le _ [type]

theorem Op.exists_inferTypes_scaled (type : ArrayType) : ∃ output,
    (Op.ofFunction .mul : Op α).inferTypes [type, ArrayType.scalar .float64] =
      Except.ok [output] := by
  apply exists_inferTypes_ofFunction rfl
  have dropped : [type, ArrayType.scalar .float64].filter (fun type => !type.isScalar) =
      [type].filter fun type => !type.isScalar := by
    simp [List.filter_cons, ArrayType.scalar, ArrayType.isScalar]
  rw [dropped]
  exact List.length_filter_le _ [type]

namespace Dataflow

variable {graph : Dataflow α} {id : NodeId} {node : Node α}

omit [Arithmetic α] in
theorem eq_singleton_of_standsIn? {replacement : VarId} {new : List VarId}
    (found : graph.standsIn? id replacement = some new) : new = [replacement] := by
  simp only [standsIn?, Option.bind_eq_bind, Option.bind_eq_some_iff] at found
  rcases found with ⟨_, _, _, _, found⟩
  split at found
  · cases found
    rfl
  · cases found

theorem Formed.input_known (formed : graph.Formed) (live : graph.node? id = some node) {input : VarId}
    (member : input ∈ node.inputs) : input.index < graph.vars.size :=
  formed.read_known input (Or.inr ⟨id, node, live, member⟩)

end Dataflow

namespace Edit

open Dataflow Rule

variable {before middle : Editing α} {base : Dataflow α} {id : NodeId} {node : Node α} {op : Op α}
  {inputs : List VarId} {type : ArrayType}

theorem exists_addNodeSingle (known : ∀ input ∈ inputs, input.index < before.graph.vars.size)
    (inferred : op.inferTypes (inputs.map before.graph.type) = Except.ok [type]) :
    ∃ new after, addNodeSingle op inputs before = .ok new after := by
  rcases Dataflow.exists_addNodeSingle known inferred with ⟨new, extended, added⟩
  refine ⟨new, { before with graph := extended }, ?_⟩
  refine (bind_of_ok (graph_run before)).trans ?_
  rw [added]
  rfl

/-- A rule that adds nothing and offers what is read already. -/
theorem proposes_of_read (ready : before.graph.Ready) {answer : Option (List VarId)}
    (read : ∀ new, answer = some new → ∀ var ∈ new, before.graph.IsRead var) :
    Proposes node before.graph before.graph answer where
  extend := Extends.refl _
  orderly := ready.orderly
  known new same var member := ready.formed.read_known var (read new same var member)
  idle _ _ _ := rfl

theorem proposes_none (ready : before.graph.Ready) :
    Proposes node before.graph before.graph none := proposes_of_read ready (by simp)

/-- A rule that adds a node may offer its output, which is another variable than the output it is
offered for. -/
theorem addNode_ends {β : Type} {next : VarId → Edit α GraphError β}
    {good : β → Editing α → Prop} (orderly : middle.graph.Orderly)
    (known : ∀ input ∈ inputs, input.index < middle.graph.vars.size)
    (inferred : op.inferTypes (inputs.map middle.graph.type) = Except.ok [type])
    (rest : ∀ new extended, middle.graph.Adds extended op inputs [new] → extended.Orderly →
      Ends (next new) { middle with graph := extended } good fun _ => False) :
    Ends (addNodeSingle op inputs >>= next) middle good fun _ => False := by
  rcases exists_addNodeSingle known inferred with ⟨new, after, ran⟩
  rcases addNodeSingle_eq_ok ran with ⟨extended, adds, rfl⟩
  refine Ends.after ran (rest new extended adds ?_)
  exact ⟨orderly.formed.adds adds, orderly.acyclic.adds orderly.formed adds⟩

theorem proposes_of_adds {extended : Dataflow α} {new : VarId} {answer : Option (List VarId)}
    (ready : base.Ready) (live : base.node? id = some node)
    (table : ∀ function, node.op ≠ .host function) (extend : base.Extends middle.graph)
    (adds : middle.graph.Adds extended op inputs [new]) (orderly : extended.Orderly)
    (offered : ∀ offer, answer = some offer → offer = [new]) :
    Proposes node base extended answer := by
  have fresh := adds.output 0 new rfl
  refine ⟨extend.trans adds.extend, orderly, ?_, ?_⟩
  · intro offer same var member
    rw [offered offer same, List.mem_singleton] at member
    rw [member]
    exact fresh.2.1
  · intro offer same unchanged
    rcases ready.formed.single_output live table with ⟨output, outputs⟩
    have old := (ready.formed.output_known id node live 0 output (by simp [outputs])).1
    have equal : output = new := by
      simpa [replacements, outputs, offered offer same] using unchanged
    have size := extend.vars_size
    rw [equal] at old
    omega

theorem offerNode_ends (ready : base.Ready) (live : base.node? id = some node)
    (table : ∀ function, node.op ≠ .host function) (extend : base.Extends middle.graph)
    (orderly : middle.graph.Orderly) (known : ∀ input ∈ inputs, input.index < middle.graph.vars.size)
    (inferred : op.inferTypes (inputs.map middle.graph.type) = Except.ok [type]) :
    Ends (offerNode id op inputs) middle
      (fun answer after => Proposes node base after.graph answer) fun _ => False := by
  refine addNode_ends orderly known inferred fun new extended adds extendedOrderly => ?_
  refine Ends.after (graph_run _) (Ends.pure ?_)
  exact proposes_of_adds ready live table extend adds extendedOrderly
    fun offer found => eq_singleton_of_standsIn? found

end Edit

namespace Rule

open Dataflow Edit

variable {id : NodeId} {node : Node α}

theorem total_dropOperand (name : String) (function : ScalarFunction) (identity : α) :
    (Rule.dropOperand name function identity).Total := by
  intro id node before ready live
  refine Ends.after (get_run before) (Ends.pure (proposes_of_read ready ?_))
  intro new found var member
  rcases remainingOperand?_eq_some found with ⟨left, right, operand, outputs, live', beside, stands⟩
  rw [eq_singleton_of_standsIn? stands, List.mem_singleton] at member
  exact Or.inr ⟨id, _, live', member ▸ beside.mem⟩

theorem proposes_nested {before : Editing α} (ready : before.graph.Ready)
    (outer inner : ScalarFunction) :
    Proposes node before.graph before.graph (nestedOperand? before.graph id outer inner) := by
  apply proposes_of_read ready
  intro new found var member
  rcases nestedOperand?_eq_some found with ⟨_, _, _, _, _, _, producer, _, _, produced, stands⟩
  rw [eq_singleton_of_standsIn? stands, List.mem_singleton] at member
  exact Or.inr ⟨producer, _, (producer?_eq_some.mp produced).2, by simp [member]⟩

theorem total_negNeg : (Rule.negNeg : Rule α).Total :=
  fun _ _ before ready _ => Ends.after (graph_run before) (Ends.pure (proposes_nested ready _ _))

theorem total_logExp : (Rule.logExp : Rule α).Total :=
  fun _ _ before ready _ => Ends.after (graph_run before) (Ends.pure (proposes_nested ready _ _))

theorem total_removeIdentity : (Rule.removeIdentity : Rule α).Total := by
  intro id node before ready live
  refine Ends.after (graph_run before) ?_
  have operand_read : ∀ op operand rest outputs,
      before.graph.node? id = some ⟨op, operand :: rest, outputs⟩ →
        Proposes node before.graph before.graph (before.graph.standsIn? id operand) := by
    intro op operand rest outputs live'
    apply proposes_of_read ready
    intro new stands var member
    rw [eq_singleton_of_standsIn? stands, List.mem_singleton] at member
    exact Or.inr ⟨id, _, live', by simp [member]⟩
  split
  · exact Ends.pure (operand_read _ _ _ _ ‹_›)
  · exact Ends.pure (operand_read _ _ _ _ ‹_›)
  · exact Ends.pure (proposes_none ready)

theorem total_collapse (name : String) (function : ScalarFunction) (number : α) :
    (Rule.collapse name function number).Total := by
  intro id node before ready live
  refine Ends.after (graph_run before) ?_
  split
  · rename_i left right operands
    rcases elementwiseOperands?_eq_some operands with ⟨outputs, live'⟩
    cases live.symm.trans live'
    split
    · refine addNode_ends ready.orderly ?_ rfl fun new extended adds orderly => Ends.pure ?_
      · intro input member
        exact ready.formed.input_known live (by simp [List.mem_singleton.mp member])
      · exact proposes_of_adds ready live (by simp) (Extends.refl _) adds orderly
          fun offer same => (Option.some.inj same).symm
    · exact Ends.pure (proposes_none ready)
  · exact Ends.pure (proposes_none ready)

theorem total_mulSelf : (Rule.mulSelf : Rule α).Total := by
  intro id node before ready live
  refine Ends.after (graph_run before) ?_
  split
  · rename_i left right operands
    rcases elementwiseOperands?_eq_some operands with ⟨outputs, live'⟩
    cases live.symm.trans live'
    split
    · rcases Op.exists_inferTypes_unary (α := α) (rfl : ScalarFunction.sqr.arity = 1)
        (before.graph.type left) with ⟨type, inferred⟩
      refine offerNode_ends ready live (by simp) (Extends.refl _) ready.orderly ?_ inferred
      intro input member
      exact ready.formed.input_known live (by simp [List.mem_singleton.mp member])
    · exact Ends.pure (proposes_none ready)
  · exact Ends.pure (proposes_none ready)

theorem total_log1p : (Rule.log1p : Rule α).Total := by
  intro id node before ready live
  refine Ends.after (get_run before) ?_
  dsimp only
  split
  · rename_i operand found
    rcases log1pOperand?_eq_some ready.formed found with
      ⟨sum, outputs, adder, left, right, live', adderLive, beside⟩
    cases live.symm.trans live'
    rcases Op.exists_inferTypes_unary (α := α) (rfl : ScalarFunction.log1p.arity = 1)
      (before.graph.type operand) with ⟨type, inferred⟩
    refine offerNode_ends ready live (by simp) (Extends.refl _) ready.orderly ?_ inferred
    intro input member
    rw [List.mem_singleton.mp member]
    exact ready.formed.input_known adderLive beside.mem
  · exact Ends.pure (proposes_none ready)

/-- A new constant without dimensions, and a product with it. -/
theorem offerFactor_ends {before : Editing α} {dividend : VarId} {value : Value}
    (scalar : value.type = ArrayType.scalar .float64) (ready : before.graph.Ready)
    (live : before.graph.node? id = some node) (table : ∀ function, node.op ≠ .host function)
    (known : dividend.index < before.graph.vars.size) :
    Ends (do
      let factor ← Edit.addConstant value
      offerNode id (.ofFunction .mul) [dividend, factor]) before
      (fun answer after => Proposes node before.graph after.graph answer) fun _ => False := by
  have added : (Edit.addConstant value : Edit α GraphError VarId) before =
      .ok ⟨before.graph.vars.size⟩ { before with graph := (before.graph.addConstant value).2 } := rfl
  have extend := extends_addConstant before.graph value
  have factor : (before.graph.addConstant value).2.type ⟨before.graph.vars.size⟩ = value.type := by
    simp [Dataflow.addConstant, Dataflow.type, Dataflow.var]
  rcases Op.exists_inferTypes_scaled (α := α) (before.graph.type dividend) with ⟨type, inferred⟩
  rw [← scalar, ← factor, ← extend.type_eq known] at inferred
  refine Ends.after added (offerNode_ends ready live table extend ?_ ?_ inferred)
  · exact ⟨ready.formed.addConstant value, ready.acyclic.addConstant ready.formed value⟩
  · intro input member
    rcases List.mem_pair.mp member with rfl | rfl
    · exact Nat.lt_of_lt_of_le known extend.vars_size
    · simp [Dataflow.addConstant]

theorem total_divByConstant : (Rule.divByConstant : Rule α).Total := by
  intro id node before ready live
  refine Ends.after (get_run before) ?_
  split
  · rename_i dividend divisor operands
    rcases elementwiseOperands?_eq_some operands with ⟨outputs, live'⟩
    cases live.symm.trans live'
    split
    · rename_i number _
      split
      · exact Ends.pure (proposes_none ready)
      · refine Ends.after rfl (offerFactor_ends rfl ready live (by simp) ?_)
        exact ready.formed.input_known live (by simp)
    · exact Ends.pure (proposes_none ready)
  · exact Ends.pure (proposes_none ready)

end Rule

end ArrayGraph
