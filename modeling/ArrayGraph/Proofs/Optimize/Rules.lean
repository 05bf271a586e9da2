import ArrayGraph.Optimize.Rules.Refine
import ArrayGraph.Proofs.Elementwise
import ArrayGraph.Proofs.Optimize.Engine

/-!
# Rules on nodes

Each rule on nodes is safe for jobs whose numbers obey the identity that the rule rests on. A graph
does a job with certain arrays at the node and its operands; the identity makes the array of what the
rule offers the same as that of the node's output.
-/

namespace ArrayGraph

variable {α : Type} [Arithmetic α]

/-- A number that the arithmetic takes for another one, possibly by way of a third. -/
def Amounts (x number : α) : Prop := ∃ first, (x = first ∨ x == first) ∧ first == number

namespace Dataflow

/-- A constant all of whose elements amount to one number. -/
def Uniform (graph : Dataflow α) (memory : Memory α) (var : VarId) (number : α) : Prop :=
  ∃ value, (graph.var var).kind = .constant value ∧
    ∀ y ∈ (memory.tensor value).data, Amounts y number

/-- One of two operands, where the other one is such a constant. -/
def Beside (graph : Dataflow α) (memory : Memory α) (number : α) (left right operand : VarId) : Prop :=
  graph.Uniform memory left number ∧ operand = right ∨
    graph.Uniform memory right number ∧ operand = left

variable {graph : Dataflow α} {id : NodeId} {node : Node α} {var : VarId}
  {function : ScalarFunction}

section Patterns

omit [Arithmetic α] in
theorem elementwiseOperands?_eq_some {inputs : List VarId}
    (found : graph.elementwiseOperands? id function = some inputs) :
    ∃ outputs, graph.node? id = some ⟨.elementwise function none, inputs, outputs⟩ := by
  simp only [elementwiseOperands?] at found
  split at found
  · rename_i present inputs' outputs live
    split at found
    · rename_i same
      cases same
      cases found
      exact ⟨outputs, live⟩
    · cases found
  · cases found

omit [Arithmetic α] in
theorem producerOperands?_eq_some {inputs : List VarId}
    (found : graph.producerOperands? var function = some inputs) :
    ∃ id outputs index, graph.producer? var =
      some (id, ⟨.elementwise function none, inputs, outputs⟩, index) := by
  simp only [producerOperands?, Option.bind_eq_bind, Option.bind_eq_some_iff] at found
  rcases found with ⟨id, produced, found⟩
  rcases elementwiseOperands?_eq_some found with ⟨outputs, live⟩
  rcases producerId?_eq_some.mp produced with ⟨node, index, produced⟩
  have same := (producer?_eq_some.mp produced).2
  rw [live] at same
  cases same
  exact ⟨id, outputs, index, produced⟩

omit [Arithmetic α] in
theorem standsIn?_eq_some {replacement : VarId} {new : List VarId}
    (found : graph.standsIn? id replacement = some new) (live : graph.node? id = some node)
    {output : VarId} (outputs : node.outputs = [output]) :
    new = [replacement] ∧ graph.type output = graph.type replacement := by
  simp only [standsIn?, live, outputs, Option.bind_eq_bind, Option.bind_some, List.head?_cons]
    at found
  split at found
  · rename_i same
    cases found
    exact ⟨rfl, same⟩
  · cases found

theorem uniform_of_isUniformly {memory : Memory α} {number : α}
    (uniform : graph.isUniformly memory var number) : graph.Uniform memory var number := by
  simp only [isUniformly, uniformConstant?] at uniform
  split at uniform
  · rename_i found same
    split at same
    · rename_i value constant
      refine ⟨value, Variable.constant?_eq_some.mp constant, ?_⟩
      split at same
      · rename_i first rest contents
        split at same
        · rename_i all
          cases same
          intro y member
          rw [Memory.tensor, Array.mem_def, contents] at member
          rcases List.mem_cons.mp member with rfl | member
          · exact ⟨y, Or.inl rfl, uniform⟩
          · exact ⟨found, Or.inr (List.all_eq_true.mp all y member), uniform⟩
        · cases same
      · cases same
    · cases same
  · cases uniform

theorem Uniform.extends {memory : Memory α} {number : α} {extended : Dataflow α}
    (uniform : graph.Uniform memory var number) (extend : graph.Extends extended)
    (known : var.index < graph.vars.size) : extended.Uniform memory var number := by
  rcases uniform with ⟨value, kind, amounts⟩
  exact ⟨value, by rw [extend.var_eq known, kind], amounts⟩

theorem Beside.extends {memory : Memory α} {number : α} {extended : Dataflow α}
    {left right operand : VarId} (beside : graph.Beside memory number left right operand)
    (extend : graph.Extends extended) (known : ∀ var ∈ [left, right], var.index < graph.vars.size) :
    extended.Beside memory number left right operand := by
  rcases beside with ⟨uniform, same⟩ | ⟨uniform, same⟩
  · exact Or.inl ⟨uniform.extends extend (known left (by simp)), same⟩
  · exact Or.inr ⟨uniform.extends extend (known right (by simp)), same⟩

theorem Beside.mem {memory : Memory α} {number : α} {left right operand : VarId}
    (beside : graph.Beside memory number left right operand) : operand ∈ [left, right] := by
  rcases beside with ⟨_, rfl⟩ | ⟨_, rfl⟩
  · simp
  · simp

end Patterns

section Works

variable {hosts : Meaning α} {memory : Memory α} {job : Job α}

theorem Works.facts (works : graph.Works hosts memory job) (read : graph.IsRead var)
    {tensor : Tensor α} (yields : graph.Yields hosts memory job.given var tensor) :
    tensor.Conforms (graph.type var) ∧ tensor.Normalized := by
  rcases works.reads var read with ⟨found, foundYields, facts⟩
  rw [yields.unique foundYields]
  exact facts

theorem Formed.single_output (formed : graph.Formed) (live : graph.node? id = some node)
    (table : ∀ function, node.op ≠ .host function) : ∃ output, node.outputs = [output] := by
  have length := Op.length_of_inferTypes (formed.typed id node live)
  have single : node.op.resultCount = 1 := by
    cases same : node.op with
    | host function => exact absurd same (table function)
    | _ => rfl
  rw [single, List.length_map] at length
  exact List.length_eq_one_iff.mp length

/-- What a node with an operation of the table does in a job. -/
theorem Works.table (works : graph.Works hosts memory job) (formed : graph.Formed)
    (live : graph.node? id = some node) (table : ∀ function, node.op ≠ .host function) :
    ∃ output operands result, node.outputs = [output] ∧
      List.Forall₂ (graph.Yields hosts memory job.given) node.inputs operands ∧
      List.Forall₂ Tensor.Conforms operands (node.inputs.map graph.type) ∧
      node.op.compute operands = Except.ok result ∧
      graph.Yields hosts memory job.given output result ∧
      node.op.inferTypes (node.inputs.map graph.type) = Except.ok [graph.type output] := by
  have inferred := formed.typed id node live
  rcases formed.single_output live table with ⟨output, outputs⟩
  rcases nodeEvaluates_iff_forall₂.mp (works.nodes id node live) with
    ⟨operands, results, yields, computed⟩
  have conform : List.Forall₂ Tensor.Conforms operands (node.inputs.map graph.type) := by
    rw [List.forall₂_map_right_iff]
    apply List.Forall₂.flip
    rw [List.forall₂_iff_get] at yields ⊢
    refine ⟨yields.1, ?_⟩
    intro index inside inside'
    have read : graph.IsRead (node.inputs.get ⟨index, inside⟩) :=
      Or.inr ⟨id, node, live, List.get_mem _ _⟩
    exact (works.facts read (yields.2 index inside inside')).1
  have computed' := computed
  rw [Op.evaluate_of_table table] at computed
  cases result : node.op.compute operands with
  | error failure =>
    rw [result] at computed
    cases computed
  | ok tensor =>
    rw [result] at computed
    cases computed
    refine ⟨output, operands, tensor, outputs, yields, conform, result, ?_, ?_⟩
    · have known := formed.output_known id node live 0 output (by simp [outputs])
      have produced : graph.producerNode? output = some (node, 0) :=
        producerNode?_eq_some.mpr ⟨id, producer?_of_output known.2 live⟩
      apply (Evaluates.output_iff_forall₂ produced).mpr
      exact ⟨operands, [tensor], yields, computed', rfl⟩
    · rw [inferred, outputs]
      rfl

/-- What a node with a scalar function does in a job. -/
theorem Works.elementwise (works : graph.Works hosts memory job) (formed : graph.Formed)
    {target : Option Nat} {inputs : List VarId} {output : VarId}
    (live : graph.node? id = some ⟨.elementwise function target, inputs, [output]⟩) :
    ∃ operands result name name',
      List.Forall₂ (graph.Yields hosts memory job.given) inputs operands ∧
      List.Forall₂ Tensor.Conforms operands (inputs.map graph.type) ∧
      function.compute name operands = Except.ok result ∧
      (∀ tensor, graph.Yields hosts memory job.given output tensor ↔ tensor = result) ∧
      function.outputType name' (inputs.map graph.type) = Except.ok (graph.type output) := by
  rcases works.table formed live (by simp) with
    ⟨output', operands, result, single, evaluate, conform, computed, yields, inferred⟩
  cases single
  rcases Op.inferTypes_elementwise inferred with ⟨name', type, outputType, same, _⟩
  simp only [List.cons.injEq, and_true] at same
  refine ⟨operands, result, _, name', evaluate, conform, computed, ?_, same ▸ outputType⟩
  intro tensor
  constructor
  · exact fun yields' => yields'.unique yields
  · rintro rfl
    exact yields

theorem Works.unary (works : graph.Works hosts memory job) (formed : graph.Formed)
    {target : Option Nat} {input output : VarId}
    (live : graph.node? id = some ⟨.elementwise function target, [input], [output]⟩) :
    ∃ operand result name, graph.Yields hosts memory job.given input operand ∧
      operand.Conforms (graph.type input) ∧ operand.Normalized ∧
      function.compute name [operand] = Except.ok result ∧
      result.Conforms (graph.type output) ∧
      (∀ tensor, graph.Yields hosts memory job.given output tensor ↔ tensor = result) ∧
      (graph.type output).shape = (graph.type input).shape := by
  rcases works.elementwise formed live with
    ⟨operands, result, name, name', evaluate, conform, computed, yields, inferred⟩
  have resultConforms := ScalarFunction.compute_conforms inferred conform computed
  rcases List.forall₂_cons_left_iff.mp evaluate with ⟨operand, _, operandYields, rest, rfl⟩
  cases rest
  have read : graph.IsRead input := Or.inr ⟨id, _, live, by simp⟩
  rcases works.facts read operandYields with ⟨conforms, normalized⟩
  exact ⟨operand, result, name, operandYields, conforms, normalized, computed, resultConforms, yields,
    ScalarFunction.outputType_singleton inferred⟩

theorem Works.binary (works : graph.Works hosts memory job) (formed : graph.Formed)
    {target : Option Nat} {left right output : VarId}
    (live : graph.node? id = some ⟨.elementwise function target, [left, right], [output]⟩) :
    ∃ first second result name name', graph.Yields hosts memory job.given left first ∧
      first.Normalized ∧ graph.Yields hosts memory job.given right second ∧
      second.Normalized ∧
      List.Forall₂ Tensor.Conforms [first, second] [graph.type left, graph.type right] ∧
      function.compute name [first, second] = Except.ok result ∧
      (∀ tensor, graph.Yields hosts memory job.given output tensor ↔ tensor = result) ∧
      function.outputType name' [graph.type left, graph.type right] =
        Except.ok (graph.type output) := by
  rcases works.elementwise formed live with
    ⟨operands, result, name, name', evaluate, conform, computed, yields, inferred⟩
  rcases List.forall₂_cons_left_iff.mp evaluate with ⟨first, _, firstYields, rest, rfl⟩
  rcases List.forall₂_cons_left_iff.mp rest with ⟨second, _, secondYields, none, rfl⟩
  cases none
  have leftRead : graph.IsRead left := Or.inr ⟨id, _, live, by simp⟩
  have rightRead : graph.IsRead right := Or.inr ⟨id, _, live, by simp⟩
  exact ⟨first, second, result, name, name', firstYields, (works.facts leftRead firstYields).2,
    secondYields, (works.facts rightRead secondYields).2, conform, computed, yields, inferred⟩

/-- What a node computes from a uniform constant and another operand is computed from that operand
alone, wherever the constant stands. -/
theorem Works.beside (works : graph.Works hosts memory job) (formed : graph.Formed)
    {target : Option Nat} {left right operand output : VarId} {number : α} {result : Tensor α}
    {f : α → α → α} {g h : α → α} (value : ∀ x y, function.evaluate? [x, y] = some (f x y))
    (live : graph.node? id = some ⟨.elementwise function target, [left, right], [output]⟩)
    (beside : graph.Beside memory number left right operand)
    (shape : (graph.type operand).shape = (graph.type output).shape)
    (yields : graph.Yields hosts memory job.given output result)
    (law : ∀ (other : ElementType) x y,
      (graph.type output).element =
        function.resultElement ((graph.type operand).element.upcast other) →
      (graph.type operand).element.Stores x → Amounts y number →
        g ((graph.type output).element.normalize (f x y)) = h x ∧
          g ((graph.type output).element.normalize (f y x)) = h x) :
    ∃ x, graph.Yields hosts memory job.given operand x ∧ x.Conforms (graph.type operand) ∧
      result.Conforms (graph.type output) ∧ x.shape = result.shape ∧
      result.data.map g = x.data.map h := by
  rcases works.binary formed live with
    ⟨first, second, result', _, _, firstYields, firstNormalized, secondYields, secondNormalized,
      conform, computed, same, inferred⟩
  cases (same result).mp yields
  have conforms := ScalarFunction.compute_conforms inferred conform computed
  have element := (ScalarFunction.compute_eq_ok computed).1
  rcases List.forall₂_cons.mp conform with ⟨firstConforms, rest⟩
  have secondConforms := (List.forall₂_cons.mp rest).1
  simp only [List.map_cons, List.map_nil, ElementType.upcastAll_pair, conforms.element,
    firstConforms.element, secondConforms.element] at element
  rcases beside with ⟨⟨constant, kind, amounts⟩, rfl⟩ | ⟨⟨constant, kind, amounts⟩, rfl⟩
  · rw [yields_constant kind] at firstYields
    subst firstYields
    rcases ScalarFunction.shape_of_operand inferred conform computed
      (show [_, _][1]? = some _ from rfl) rfl shape with ⟨sameShape, size⟩
    refine ⟨second, secondYields, secondConforms, conforms, sameShape, ?_⟩
    apply ScalarFunction.map_compute_right value computed size
    intro x xMem y yMem
    have stores := secondNormalized x xMem
    rw [secondConforms.element] at stores
    rw [ElementType.upcast_comm] at element
    rw [conforms.element]
    exact (law _ x y element stores (amounts y yMem)).2
  · rw [yields_constant kind] at secondYields
    subst secondYields
    rcases ScalarFunction.shape_of_operand inferred conform computed
      (show [_, _][0]? = some _ from rfl) rfl shape with ⟨sameShape, size⟩
    refine ⟨first, firstYields, firstConforms, conforms, sameShape, ?_⟩
    apply ScalarFunction.map_compute_left value computed size
    intro x xMem y yMem
    have stores := firstNormalized x xMem
    rw [firstConforms.element] at stores
    rw [conforms.element]
    exact (law _ x y element stores (amounts y yMem)).1

/-- The variable that a single output of a node is. -/
theorem Formed.output_of_producer? (formed : graph.Formed) {index : Nat} {output : VarId}
    (produced : graph.producer? var = some (id, node, index)) (outputs : node.outputs = [output]) :
    var = output := by
  rcases producer?_eq_some.mp produced with ⟨kind, live⟩
  have listed := formed.output_listed var id index node (known_of_kind kind) kind live
  rw [outputs] at listed
  cases index with
  | zero => simpa using listed.symm
  | succ index => simp at listed

theorem Formed.single_input (formed : graph.Formed) {target : Option Nat} {input : VarId}
    {rest outputs : List VarId} (unary : function.arity = 1)
    (live : graph.node? id = some ⟨.elementwise function target, input :: rest, outputs⟩) :
    rest = [] := by
  have count := Op.arity_of_inferTypes (formed.typed id _ live)
  simpa [Op.arity, unary] using count

end Works

end Dataflow

namespace Rule

variable {setting : Setting α} {before : Editing α} {id : NodeId} {node : Node α}

open Dataflow Edit

/-- A rule that offers a variable which is read already. -/
theorem offers_of_operand (serves : Editing.Serves before setting)
    (live : before.graph.node? id = some node) {answer : Option (List VarId)}
    (offered : ∀ new, answer = some new → ∃ replacement, (∀ function, node.op ≠ .host function) ∧
      before.graph.standsIn? id replacement = some new ∧ before.graph.IsRead replacement ∧
      ∀ output, node.outputs = [output] → before.graph.type output = before.graph.type replacement →
        ∀ job, setting.jobs job → ∀ tensor,
          before.graph.Yields setting.hosts before.memory job.given output tensor →
            before.graph.Yields setting.hosts before.memory job.given replacement tensor) :
    Offers setting node before answer before where
  serves := serves.graph
  extend := Extends.refl _
  offer new same := by
    rcases offered new same with ⟨replacement, table, stands, read, yields⟩
    rcases serves.graph.toFormed.single_output live table with ⟨output, outputs⟩
    rcases standsIn?_eq_some stands live outputs with ⟨rfl, type⟩
    exact ⟨output, replacement, outputs, rfl, ⟨Or.inl read, yields output outputs type⟩,
      fun _ => rfl⟩

theorem remainingOperand?_eq_some {memory : Memory α} {graph : Dataflow α}
    {function : ScalarFunction} {identity : α} {new : List VarId}
    (found : remainingOperand? memory graph id function identity = some new) :
    ∃ left right operand outputs,
      graph.node? id = some ⟨.elementwise function none, [left, right], outputs⟩ ∧
      graph.Beside memory identity left right operand ∧ graph.standsIn? id operand = some new := by
  simp only [remainingOperand?] at found
  split at found
  · rename_i left right operands
    rcases elementwiseOperands?_eq_some operands with ⟨outputs, live⟩
    split at found
    · rename_i replacement first
      split at first
      · rename_i uniform
        exact ⟨left, right, left, outputs, live, Or.inr ⟨uniform_of_isUniformly uniform, rfl⟩,
          first.trans found⟩
      · cases first
    · split at found
      · rename_i uniform
        exact ⟨left, right, right, outputs, live, Or.inl ⟨uniform_of_isUniformly uniform, rfl⟩, found⟩
      · cases found
  · cases found

/-- A rule that drops an operand is safe if that operand is neutral. -/
theorem safe_dropOperand {name : String} {function : ScalarFunction} {identity : α} {f : α → α → α}
    (value : ∀ x y, function.evaluate? [x, y] = some (f x y))
    (neutral : ∀ job, setting.jobs job → ∀ (element : ElementType) x y, element.Stores x →
      Amounts y identity → element.normalize (f x y) = x ∧ element.normalize (f y x) = x) :
    (Rule.dropOperand name function identity).Safe setting := by
  intro id node before answer after serves live ran
  simp only [bind_of_ok (get_run before), pure_eq_ok_iff] at ran
  rcases ran with ⟨rfl, rfl⟩
  apply offers_of_operand serves live
  intro new found
  rcases remainingOperand?_eq_some found with
    ⟨left, right, operand, outputs, live', beside, stands⟩
  rw [live] at live'
  cases live'
  have read : before.graph.IsRead operand := Or.inr ⟨id, _, live, beside.mem⟩
  refine ⟨operand, by simp, stands, read, ?_⟩
  rintro output rfl type job member tensor yields
  have shape : (before.graph.type operand).shape = (before.graph.type output).shape := by rw [type]
  have law : ∀ x y, (before.graph.type operand).element.Stores x → Amounts y identity →
      (before.graph.type output).element.normalize (f x y) = x ∧
        (before.graph.type output).element.normalize (f y x) = x := by
    rw [type]
    exact neutral job member (before.graph.type operand).element
  rcases (serves.graph.works job member).beside (g := fun x => x) (h := fun x => x)
      serves.graph.toFormed value live beside shape yields (fun _ x y _ => law x y) with
    ⟨x, xYields, xConforms, conforms, sameShape, data⟩
  have same : tensor = x := by
    refine Tensor.ext ?_ sameShape.symm (by simpa using data)
    rw [conforms.element, xConforms.element, type]
  rw [same]
  exact xYields

omit [Arithmetic α] in
theorem nestedOperand?_eq_some {graph : Dataflow α} {outer inner : ScalarFunction}
    {new : List VarId} (found : nestedOperand? graph id outer inner = some new) :
    ∃ operand rest outputs innermost rest' outputs' producer index,
      graph.node? id = some ⟨.elementwise outer none, operand :: rest, outputs⟩ ∧
      graph.producer? operand =
        some (producer, ⟨.elementwise inner none, innermost :: rest', outputs'⟩, index) ∧
      graph.standsIn? id innermost = some new := by
  simp only [nestedOperand?, Option.bind_eq_bind, Option.bind_eq_some_iff] at found
  rcases found with ⟨inputs, operands, operand, head, inputs', operands', innermost, head', stands⟩
  rcases elementwiseOperands?_eq_some operands with ⟨outputs, live⟩
  rcases producerOperands?_eq_some operands' with ⟨producer, outputs', index, produced⟩
  rcases List.head?_eq_some_iff.mp head with ⟨rest, rfl⟩
  rcases List.head?_eq_some_iff.mp head' with ⟨rest', rfl⟩
  exact ⟨operand, rest, outputs, innermost, rest', outputs', producer, index, live, produced, stands⟩

/-- A rule that drops two functions of one operand is safe if they cancel. -/
theorem offers_nested {outer inner : ScalarFunction} {g f : α → α}
    (outerUnary : outer.arity = 1) (innerUnary : inner.arity = 1)
    (outerValue : ∀ x, outer.evaluate? [x] = some (g x))
    (innerValue : ∀ x, inner.evaluate? [x] = some (f x))
    (cancel : ∀ job, setting.jobs job → ∀ (element : ElementType) x, element.Stores x →
      outer.resultElement (inner.resultElement element) = element →
        element.normalize (g ((inner.resultElement element).normalize (f x))) = x)
    (serves : Editing.Serves before setting) (live : before.graph.node? id = some node) :
    Offers setting node before (nestedOperand? before.graph id outer inner) before := by
  have formed := serves.graph.toFormed
  apply offers_of_operand serves live
  intro new found
  rcases nestedOperand?_eq_some found with
    ⟨operand, rest, outputs, innermost, rest', outputs', producer, index, live', produced, stands⟩
  rw [live] at live'
  cases live'
  have innerLive := (producer?_eq_some.mp produced).2
  cases formed.single_input outerUnary live
  cases formed.single_input innerUnary innerLive
  rcases formed.single_output innerLive (by simp) with ⟨middle, single⟩
  cases formed.output_of_producer? produced single
  simp only at single
  subst single
  have read : before.graph.IsRead innermost := Or.inr ⟨producer, _, innerLive, by simp⟩
  refine ⟨innermost, by simp, stands, read, ?_⟩
  rintro output rfl type job member tensor yields
  have works := serves.graph.works job member
  rcases works.unary formed innerLive with
    ⟨x, inside, _, xYields, xConforms, normalized, innerComputed, _, innerSame, _⟩
  rcases works.unary formed live with
    ⟨y, result, _, yYields, _, _, outerComputed, conforms, same, _⟩
  rw [ScalarFunction.compute_unary innerValue xConforms.size] at innerComputed
  cases innerComputed
  cases (innerSame y).mp yYields
  rw [ScalarFunction.compute_unary outerValue (by simpa using xConforms.size)] at outerComputed
  cases outerComputed
  have element : outer.resultElement (inner.resultElement x.element) = x.element := by
    have resultElement := conforms.element
    rw [type, ← xConforms.element] at resultElement
    exact resultElement
  rw [(same tensor).mp yields]
  convert xYields using 1
  refine Tensor.ext element rfl ?_
  simp only [element, Array.map_map]
  apply Array.ext
  · simp
  · intro index inside inside'
    simp only [Array.getElem_map, Function.comp_apply]
    exact cancel job member x.element _ (normalized _ (Array.getElem_mem inside')) element

theorem safe_negNeg (cancel : ∀ job, setting.jobs job → ∀ (element : ElementType) (x : α), element.Stores x →
    element.normalize (-element.normalize (-x)) = x) : (Rule.negNeg : Rule α).Safe setting := by
  intro id node before answer after serves live ran
  simp only [bind_of_ok (graph_run before), pure_eq_ok_iff] at ran
  rcases ran with ⟨rfl, rfl⟩
  refine offers_nested rfl rfl (fun _ => rfl) (fun _ => rfl) ?_ serves live
  intro job member element x occurs same
  have kept : ScalarFunction.neg.resultElement element = element := by
    cases element <;> first | rfl | cases same
  rw [kept]
  exact cancel job member element x occurs

theorem safe_logExp (cancel : ∀ job, setting.jobs job → ∀ x : α,
    Arithmetic.log (Arithmetic.exp x) = x) : (Rule.logExp : Rule α).Safe setting := by
  intro id node before answer after serves live ran
  simp only [bind_of_ok (graph_run before), pure_eq_ok_iff] at ran
  rcases ran with ⟨rfl, rfl⟩
  refine offers_nested rfl rfl (fun _ => rfl) (fun _ => rfl) ?_ serves live
  intro job member element x _ same
  change ElementType.float64 = element at same
  subst same
  exact cancel job member x

/-- Views and copies stand for their operands. -/
theorem safe_removeIdentity : (Rule.removeIdentity : Rule α).Safe setting := by
  intro id node before answer after serves live ran
  have formed := serves.graph.toFormed
  have identity : ∀ op operand rest outputs, (op = .view ∨ op = .copy) →
      before.graph.node? id = some ⟨op, operand :: rest, outputs⟩ →
      Offers setting node before (before.graph.standsIn? id operand) before := by
    intro op operand rest outputs either live'
    rw [live] at live'
    cases live'
    have table : ∀ function, op ≠ .host function := by
      rcases either with rfl | rfl <;> simp
    have none : rest = [] := by
      have count := Op.arity_of_inferTypes (formed.typed id _ live)
      rcases either with rfl | rfl <;> simpa [Op.arity] using count
    subst none
    apply offers_of_operand serves live
    intro new stands
    refine ⟨operand, table, stands, Or.inr ⟨id, _, live, by simp⟩, ?_⟩
    rintro output rfl _ job member tensor yields
    rcases (serves.graph.works job member).table formed live table with
      ⟨output', operands, result, single, evaluate, _, computed, yields', _⟩
    cases single
    rcases List.forall₂_cons_left_iff.mp evaluate with ⟨operandTensor, _, operandYields, rest, rfl⟩
    have same : result = operandTensor := by
      rcases either with rfl | rfl
      · cases computed
        rfl
      · cases computed
        rfl
    rw [yields.unique yields', same]
    exact operandYields
  dsimp only at ran
  rw [bind_of_ok (graph_run before), live] at ran
  have unaffected : Offers setting node before none before := offers_of_operand serves live (by simp)
  rcases node with ⟨op, inputs, outputs⟩
  cases inputs with
  | nil =>
    have answered : answer = none ∧ before = after := by
      cases op <;> simpa [eq_comm] using ran
    rcases answered with ⟨rfl, rfl⟩
    exact unaffected
  | cons operand rest =>
    cases op with
    | view =>
      simp only [pure_eq_ok_iff] at ran
      rcases ran with ⟨rfl, rfl⟩
      exact identity .view operand rest outputs (Or.inl rfl) live
    | copy =>
      simp only [pure_eq_ok_iff] at ran
      rcases ran with ⟨rfl, rfl⟩
      exact identity .copy operand rest outputs (Or.inr rfl) live
    | _ =>
      simp only [pure_eq_ok_iff] at ran
      rcases ran with ⟨rfl, rfl⟩
      exact unaffected

section OfferNode

variable {middle after : Editing α} {answer : Option (List VarId)} {op : Op α}
  {inputs : List VarId}

theorem addNodeSingle_eq_ok {replacement : VarId}
    (ran : Edit.addNodeSingle op inputs middle = .ok replacement after) :
    ∃ extended, middle.graph.Adds extended op inputs [replacement] ∧
      after = { middle with graph := extended } := by
  simp only [Edit.addNodeSingle, bind_eq_ok_iff, graph_run, EStateM.Result.ok.injEq,
    ↓existsAndEq, true_and, setGraph_run, ofChecked_eq_ok_iff] at ran
  rcases ran with ⟨_, single, same⟩
  exact ⟨_, Dataflow.addNodeSingle_eq_ok single, same.symm⟩

/-- A rule that offers the output of a node which it has added. -/
theorem offers_of_adds {extended : Dataflow α} {replacement : VarId}
    (serves : middle.graph.Serves setting middle.memory)
    (extend : before.graph.Extends middle.graph) (live : before.graph.node? id = some node)
    (table : ∀ function, node.op ≠ .host function)
    (adds : middle.graph.Adds extended op inputs [replacement])
    (extendedServes : extended.Serves setting middle.memory)
    (offered : ∀ new, answer = some new → new = [replacement] ∧
      ∀ output, node.outputs = [output] → ∀ job, setting.jobs job → ∀ tensor,
        extended.Yields setting.hosts middle.memory job.given output tensor →
          extended.Yields setting.hosts middle.memory job.given replacement tensor) :
    Offers setting node before answer { middle with graph := extended } := by
  refine ⟨extendedServes, extend.trans adds.extend, ?_⟩
  intro new same
  rcases offered new same with ⟨rfl, yields⟩
  have live' := adds.extend.live (extend.live live)
  rcases extendedServes.toFormed.single_output live' table with ⟨output, outputs⟩
  have known := adds.output 0 replacement rfl
  refine ⟨output, replacement, outputs, rfl,
    ⟨Or.inr (Or.inl ⟨⟨middle.graph.nodes.size⟩, ?_⟩), yields output outputs⟩, ?_⟩
  · exact producerId?_eq_some.mpr ⟨_, 0, producer?_of_output known.2.2 adds.live⟩
  · rintro rfl
    -- The output of a live node was there before, a new variable was not.
    have middleLive := extend.live live
    have old := serves.output_known id node middleLive 0 output (by simp [outputs])
    omega

/-- A rule that offers the output of a node which it adds. The node computes the same in the graph
to which it has been added. -/
theorem offers_of_node (serves : middle.graph.Serves setting middle.memory)
    (extend : before.graph.Extends middle.graph) (live : before.graph.node? id = some node)
    (table : ∀ function, node.op ≠ .host function)
    (ran : offerNode id op inputs middle = .ok answer after) (plain : op.IsPlain)
    (inputs_read : ∀ input ∈ inputs, middle.graph.IsRead input ∨
      ∃ value, (middle.graph.var input).kind = .constant value)
    (evaluate : ∀ job, setting.jobs job → ∃ operands results,
      List.Forall₂ (middle.graph.Yields setting.hosts middle.memory job.given) inputs operands ∧
        op.evaluate setting.hosts operands = Except.ok results)
    (stands : ∀ extended added output replacement, extended.Serves setting middle.memory →
      middle.graph.Extends extended → node.outputs = [output] →
      extended.node? added = some ⟨op, inputs, [replacement]⟩ →
      extended.type output = extended.type replacement → ∀ job, setting.jobs job → ∀ tensor,
        extended.Yields setting.hosts middle.memory job.given output tensor →
          extended.Yields setting.hosts middle.memory job.given replacement tensor) :
    Offers setting node before answer after := by
  simp only [offerNode, bind_eq_ok_iff, graph_run, EStateM.Result.ok.injEq, ↓existsAndEq, true_and,
    pure_eq_ok_iff, and_true] at ran
  rcases ran with ⟨replacement, added, answered⟩
  rcases addNodeSingle_eq_ok added with ⟨extended, adds, rfl⟩
  have extendedServes := serves.adds adds plain inputs_read evaluate
  apply offers_of_adds serves extend live table adds extendedServes
  intro new found
  have live' := adds.extend.live (extend.live live)
  rcases extendedServes.toFormed.single_output live' table with ⟨output, outputs⟩
  rcases standsIn?_eq_some (answered.trans found) live' outputs with ⟨rfl, type⟩
  refine ⟨rfl, fun output' outputs' => ?_⟩
  cases outputs.symm.trans outputs'
  exact stands extended _ output replacement extendedServes adds.extend outputs adds.live type

/-- A rule that puts a constant array in the place of a function of equal operands is safe as long as
nobody asks for the results. -/
theorem safe_collapse {name : String} {function : ScalarFunction} {number : α}
    (idle : ∀ job, ¬setting.jobs job) : (Rule.collapse name function number).Safe setting := by
  intro id node before answer after serves live ran
  have unaffected : Offers setting node before none before := offers_of_operand serves live (by simp)
  dsimp only at ran
  rw [bind_of_ok (graph_run before)] at ran
  cases operands : before.graph.elementwiseOperands? id function with
  | none =>
    rw [operands] at ran
    cases ran
    exact unaffected
  | some operandVars =>
    rcases elementwiseOperands?_eq_some operands with ⟨outputs, live'⟩
    rw [live] at live'
    cases live'
    rw [operands] at ran
    rcases operandVars with _ | ⟨left, _ | ⟨right, _ | ⟨_, _⟩⟩⟩
    · cases ran
      exact unaffected
    · cases ran
      exact unaffected
    · dsimp only at ran
      split at ran
      · simp only [bind_eq_ok_iff, pure_eq_ok_iff] at ran
        rcases ran with ⟨replacement, _, added, rfl, rfl⟩
        rcases addNodeSingle_eq_ok added with ⟨extended, adds, rfl⟩
        have read : before.graph.IsRead left := Or.inr ⟨id, _, live, by simp⟩
        have extendedServes := serves.graph.adds adds (by simp [Op.IsPlain]) (by simp [read])
          fun job member => absurd member (idle job)
        apply offers_of_adds serves.graph (Extends.refl _) live (by simp) adds extendedServes
        intro new same
        cases same
        exact ⟨rfl, fun _ _ job member => absurd member (idle job)⟩
      · cases ran
        exact unaffected
    · cases ran
      exact unaffected

end OfferNode

theorem evaluate_ofFunction {hosts : Meaning α} {function : ScalarFunction}
    {operands : List (Tensor α)} {result : Tensor α}
    (computed : ∀ name, function.compute name operands = Except.ok result) :
    (Op.ofFunction function).evaluate hosts operands = Except.ok [result] := by
  rw [Op.evaluate_of_table (by simp [Op.ofFunction])]
  simp only [Op.ofFunction, Op.compute, computed]
  rfl

/-- A product with itself is a square. -/
theorem safe_mulSelf : (Rule.mulSelf : Rule α).Safe setting := by
  intro id node before answer after serves live ran
  have formed := serves.graph.toFormed
  have unaffected : Offers setting node before none before := offers_of_operand serves live (by simp)
  dsimp only at ran
  rw [bind_of_ok (graph_run before)] at ran
  cases operands : before.graph.elementwiseOperands? id .mul with
  | none =>
    rw [operands] at ran
    cases ran
    exact unaffected
  | some inputs =>
    rcases elementwiseOperands?_eq_some operands with ⟨outputs, live'⟩
    rw [live] at live'
    cases live'
    have count := Op.arity_of_inferTypes (formed.typed id _ live)
    rw [List.length_map] at count
    rcases List.length_eq_two.mp count with ⟨left, right, rfl⟩
    rw [operands] at ran
    dsimp only at ran
    split at ran
    · rename_i same
      subst same
      have read : before.graph.IsRead left := Or.inr ⟨id, _, live, by simp⟩
      refine offers_of_node serves.graph (Extends.refl _) live (by simp) ran
        Op.isPlain_ofFunction (by simp [read]) ?_ ?_
      · intro job member
        rcases formed.single_output live (by simp) with ⟨output, rfl⟩
        rcases (serves.graph.works job member).binary formed live with
          ⟨first, second, result, _, _, firstYields, _, secondYields, _, _, computed, _⟩
        cases firstYields.unique secondYields
        exact ⟨[first], [result], List.Forall₂.cons firstYields List.Forall₂.nil,
          evaluate_ofFunction fun _ => ScalarFunction.compute_square computed⟩
      · rintro extended added output replacement extendedServes extend rfl addedLive type job member
          tensor yields
        have works := extendedServes.works job member
        rcases works.binary extendedServes.toFormed (extend.live live) with
          ⟨first, second, result, _, name, firstYields, _, secondYields, _, conform, computed,
            product, inferred⟩
        rcases works.unary extendedServes.toFormed addedLive with
          ⟨operand, squared, name', operandYields, conforms, _, squareComputed, _, same, _⟩
        cases firstYields.unique secondYields
        cases firstYields.unique operandYields
        have equal : result = squared := by
          rw [ScalarFunction.compute_square computed] at squareComputed
          exact Except.ok.inj squareComputed
        rw [(product tensor).mp yields, equal]
        exact (same squared).mpr rfl
    · cases ran
      exact unaffected

theorem besideOne?_eq_some {memory : Memory α} {graph : Dataflow α} {operands : List VarId}
    {found : VarId} (beside : besideOne? memory graph operands = some found) :
    ∃ left right, operands = [left, right] ∧ graph.Beside memory 1 left right found := by
  simp only [besideOne?] at beside
  split at beside
  · rename_i left right
    refine ⟨left, right, rfl, ?_⟩
    split at beside
    · rename_i uniform
      cases beside
      exact Or.inl ⟨uniform_of_isUniformly uniform, rfl⟩
    · split at beside
      · rename_i uniform
        cases beside
        exact Or.inr ⟨uniform_of_isUniformly uniform, rfl⟩
      · cases beside
  · cases beside

/-- What the rule for logarithms of sums with one looks for. -/
theorem log1pOperand?_eq_some {memory : Memory α} {graph : Dataflow α} (formed : graph.Formed)
    {operand : VarId} (found : (do
      let sum ← (← graph.elementwiseOperands? id .log).head?
      besideOne? memory graph (← graph.producerOperands? sum .add)) = some operand) :
    ∃ sum outputs adder left right,
      graph.node? id = some ⟨.elementwise .log none, [sum], outputs⟩ ∧
      graph.node? adder = some ⟨.elementwise .add none, [left, right], [sum]⟩ ∧
      graph.Beside memory 1 left right operand := by
  simp only [Option.bind_eq_bind, Option.bind_eq_some_iff] at found
  rcases found with ⟨inputs, operands, sum, head, summands, producer, beside⟩
  rcases elementwiseOperands?_eq_some operands with ⟨outputs, live⟩
  rcases producerOperands?_eq_some producer with ⟨adder, sums, index, produced⟩
  rcases List.head?_eq_some_iff.mp head with ⟨rest, rfl⟩
  rcases besideOne?_eq_some beside with ⟨left, right, rfl, one⟩
  have adderLive := (producer?_eq_some.mp produced).2
  rcases formed.single_output adderLive (by simp) with ⟨_, single⟩
  cases formed.output_of_producer? produced single
  simp only at single
  subst single
  cases formed.single_input rfl live
  exact ⟨sum, outputs, adder, left, right, live, adderLive, one⟩

/-- The logarithm of a sum with one. -/
theorem safe_log1p (sumWithOne : ∀ job, setting.jobs job → ∀ (element other : ElementType) (x y : α),
    element.Stores x → Amounts y 1 →
      Arithmetic.log (((element.upcast other).upcast .int64).normalize (x + y)) =
          Arithmetic.log1p x ∧
        Arithmetic.log (((other.upcast element).upcast .int64).normalize (y + x)) =
          Arithmetic.log1p x) : (Rule.log1p : Rule α).Safe setting := by
  intro id node before answer after serves live ran
  dsimp only at ran
  rw [bind_of_ok (get_run before)] at ran
  generalize found : (do
    let operand ← (← before.graph.elementwiseOperands? id .log).head?
    besideOne? before.memory before.graph
      (← before.graph.producerOperands? operand .add) : Option VarId) = operand? at ran
  cases operand? with
  | none =>
    cases ran
    exact offers_of_operand serves live (by simp)
  | some operand =>
    rcases log1pOperand?_eq_some serves.graph.toFormed found with
      ⟨sum, outputs, adder, left, right, live', adderLive, beside⟩
    rw [live] at live'
    cases live'
    have read : before.graph.IsRead operand := Or.inr ⟨adder, _, adderLive, beside.mem⟩
    refine offers_of_node serves.graph (Extends.refl _) live (by simp) ran Op.isPlain_ofFunction
      (by simp [read]) ?_ ?_
    · intro job member
      rcases (serves.graph.works job member).reads operand read with ⟨tensor, yields, conforms, _⟩
      exact ⟨[tensor], _, List.Forall₂.cons yields List.Forall₂.nil,
        evaluate_ofFunction fun _ => ScalarFunction.compute_unary (fun _ => rfl) conforms.size⟩
    · rintro extended added output replacement extendedServes extend rfl addedLive type job member
        tensor yields
      have works := extendedServes.works job member
      have known : ∀ var ∈ [left, right], var.index < before.graph.vars.size := fun var listed =>
        serves.graph.read_known var (Or.inr ⟨adder, _, adderLive, listed⟩)
      rcases works.unary extendedServes.toFormed (extend.live live) with
        ⟨total, result, _, totalYields, totalConforms, _, computed, _, same, shape⟩
      rcases works.unary extendedServes.toFormed addedLive with
        ⟨x, refined, _, xYields, conforms, _, refinedComputed, _, refinedSame, refinedShape⟩
      have sumShape : (extended.type operand).shape = (extended.type sum).shape := by
        rw [← refinedShape, ← type, shape]
      have law : ∀ (other : ElementType) (x y : α),
          (extended.type sum).element = ((extended.type operand).element.upcast other).upcast .int64 →
          (extended.type operand).element.Stores x → Amounts y 1 →
            Arithmetic.log ((extended.type sum).element.normalize (x + y)) = Arithmetic.log1p x ∧
              Arithmetic.log ((extended.type sum).element.normalize (y + x)) = Arithmetic.log1p x := by
        intro other x y element stores amounts
        have both := sumWithOne job member (extended.type operand).element other x y stores amounts
        rw [other.upcast_comm] at both
        rw [element]
        exact both
      rcases works.beside (f := (· + ·)) extendedServes.toFormed (fun _ _ => rfl)
          (extend.live adderLive) (beside.extends extend known) sumShape totalYields law with
        ⟨x', xYields', _, _, sameShape, data⟩
      cases xYields.unique xYields'
      rw [ScalarFunction.compute_unary (fun _ => rfl) totalConforms.size] at computed
      rw [ScalarFunction.compute_unary (fun _ => rfl) conforms.size] at refinedComputed
      cases computed
      cases refinedComputed
      rw [(same tensor).mp yields]
      apply (refinedSame _).mpr
      exact Tensor.ext rfl sameShape.symm data

omit [Arithmetic α] in
theorem scalarConstant?_eq_some {memory : Memory α} {graph : Dataflow α} {var : VarId} {number : α}
    (found : scalarConstant? memory graph var = some number) :
    ∃ value, (graph.var var).kind = .constant value ∧
      memory.tensor value = ⟨value.element, [], #[number]⟩ := by
  simp only [scalarConstant?, Option.bind_eq_bind, Option.bind_eq_some_iff] at found
  rcases found with ⟨value, constant, item⟩
  refine ⟨value, Variable.constant?_eq_some.mp constant, ?_⟩
  split at item
  · rename_i scalar
    simp only [Value.item?] at item
    split at item
    · rename_i x contents
      cases item
      refine Tensor.ext rfl (List.isEmpty_iff.mp scalar) ?_
      exact Array.ext' contents
    · cases item
  · cases item

/-- A division by a number is a product with another number. -/
theorem compute_reciprocal {name name' : String} {dividend : Tensor α} {element : ElementType}
    {number reciprocal : α} {result : Tensor α}
    (computed : ScalarFunction.div.compute name [dividend, ⟨element, [], #[number]⟩] =
      Except.ok result)
    (same : ∀ x ∈ dividend.data, x * reciprocal = x / number) :
    ScalarFunction.mul.compute name' [dividend, ⟨.float64, [], #[reciprocal]⟩] =
      Except.ok result := by
  refine ScalarFunction.compute_congr computed rfl ?_ ?_
  · simp only [List.map_cons, List.map_nil, ElementType.upcastAll_pair]
    cases dividend.element <;> rfl
  · intro index z divided
    rcases (ScalarFunction.elementAt_pair fun _ _ => rfl).mp divided with ⟨x, y, first, second, rfl⟩
    apply (ScalarFunction.elementAt_pair fun _ _ => rfl).mpr
    have isNumber : y = number := by
      simpa using ScalarFunction.mem_of_operandAt second
    refine ⟨x, reciprocal, first, rfl, ?_⟩
    rw [isNumber]
    exact same x (ScalarFunction.mem_of_operandAt first)

/-- A new constant, and a node that reads it. -/
theorem offerFactor_eq_ok {op : Op α} {dividend : VarId} {number : α}
    {answer : Option (List VarId)} {after : Editing α}
    (ran : (do
      let value ← Edit.onMemory (Value.scalar .float64 number)
      let factor ← Edit.addConstant value
      offerNode id op [dividend, factor]) before = .ok answer after) :
    ∃ value memory, before.memory.Keeps memory ∧ memory.Stores value ∧
      memory.tensor value = ⟨.float64, [], #[number]⟩ ∧
      offerNode id op [dividend, ⟨before.graph.vars.size⟩]
        { before with memory, graph := (before.graph.addConstant value).2 } = .ok answer after := by
  refine ⟨⟨.float64, [], (before.memory.allocate #[number]).1⟩, _,
    before.memory.keeps_allocate #[number], ?_, ?_, ran⟩
  · refine ⟨by simp [Memory.Knows, Memory.allocate_fresh], by simp [Memory.contents, elementCount?], ?_⟩
    exact fun x _ => ⟨x, rfl⟩
  · simp [Memory.tensor, Memory.contents]

/-- What a division by a constant and a factor in its place stand for. -/
theorem Works.reciprocal {graph : Dataflow α} {hosts : Meaning α} {memory : Memory α} {job : Job α}
    (works : graph.Works hosts memory job) (formed : graph.Formed)
    {dividend divisor factor output : VarId} {value reciprocal : Value} {number inverse : α}
    (live : graph.node? id = some ⟨.elementwise .div none, [dividend, divisor], [output]⟩)
    (kind : (graph.var divisor).kind = .constant value)
    (contents : memory.tensor value = ⟨value.element, [], #[number]⟩)
    (factorKind : (graph.var factor).kind = .constant reciprocal)
    (factorContents : memory.tensor reciprocal = ⟨.float64, [], #[inverse]⟩)
    (law : ∀ (element : ElementType) x, element.Stores x → x * inverse = x / number) :
    ∃ operands result,
      List.Forall₂ (graph.Yields hosts memory job.given) [dividend, factor] operands ∧
      (∀ name, ScalarFunction.mul.compute name operands = Except.ok result) ∧
      ∀ tensor, graph.Yields hosts memory job.given output tensor ↔ tensor = result := by
  rcases works.binary formed live with
    ⟨first, second, result, _, _, firstYields, normalized, secondYields, _, _, computed, same, _⟩
  rw [yields_constant kind, contents] at secondYields
  subst secondYields
  refine ⟨[first, ⟨.float64, [], #[inverse]⟩], result, ?_, ?_, same⟩
  · refine List.Forall₂.cons firstYields (List.Forall₂.cons ?_ List.Forall₂.nil)
    exact (yields_constant factorKind).mpr factorContents
  · intro name
    exact compute_reciprocal computed fun x member => law _ x (normalized x member)

/-- Offering a product with the reciprocal in the place of a division by a constant. -/
theorem offers_reciprocal (serves : Editing.Serves before setting) {dividend divisor : VarId}
    {outputs : List VarId} {value : Value} {number : α} {answer : Option (List VarId)}
    {after : Editing α}
    (live : before.graph.node? id = some ⟨.elementwise .div none, [dividend, divisor], outputs⟩)
    (kind : (before.graph.var divisor).kind = .constant value)
    (contents : before.memory.tensor value = ⟨value.element, [], #[number]⟩)
    (law : ∀ job, setting.jobs job → ∀ (element : ElementType) x, element.Stores x →
      x * (1 / number) = x / number)
    (ran : (do
      let reciprocal ← Edit.onMemory (Value.scalar .float64 (1 / number))
      let factor ← Edit.addConstant reciprocal
      offerNode id (.ofFunction .mul) [dividend, factor]) before = .ok answer after) :
    Offers setting ⟨.elementwise .div none, [dividend, divisor], outputs⟩ before answer after := by
  rcases offerFactor_eq_ok ran with ⟨reciprocal, memory, keeps, stores, factorContents, offered⟩
  have divisorRead : before.graph.IsRead divisor := Or.inr ⟨id, _, live, by simp⟩
  have divisorKnown := serves.graph.read_known divisor divisorRead
  have stored := (serves.graph.constants_stored divisor value kind).1
  rw [← keeps.tensor stored.known] at contents
  have extend := extends_addConstant before.graph reciprocal
  have factorKind : ((before.graph.addConstant reciprocal).2.var
      ⟨before.graph.vars.size⟩).kind = .constant reciprocal := by
    simp [Dataflow.addConstant, Dataflow.var]
  rcases serves.graph.toFormed.single_output live (by simp) with ⟨output, single⟩
  simp only at single
  subst single
  have middleServes := (serves.graph.later keeps).addConstant stores
  refine offers_of_node middleServes extend live (by simp) offered Op.isPlain_ofFunction ?_ ?_ ?_
  · intro input member
    rcases List.mem_pair.mp member with rfl | rfl
    · exact Or.inl (Or.inr ⟨id, _, extend.live live, by simp⟩)
    · exact Or.inr ⟨reciprocal, factorKind⟩
  · intro job member
    rcases Works.reciprocal (middleServes.works job member) middleServes.toFormed
        (extend.live live) (by rw [extend.var_eq divisorKnown, kind]) contents factorKind
        factorContents (law job member) with ⟨operands, result, yields, computed, _⟩
    exact ⟨operands, [result], yields, evaluate_ofFunction computed⟩
  · rintro extended added _ replacement extendedServes extend' ⟨⟩ addedLive type job member tensor
      yields
    have works := extendedServes.works job member
    have extendedKind : (extended.var ⟨before.graph.vars.size⟩).kind = .constant reciprocal := by
      rw [extend'.var_eq (by simp [Dataflow.addConstant])]
      exact factorKind
    rcases Works.reciprocal works extendedServes.toFormed (extend'.live (extend.live live))
        (by rw [(extend.trans extend').var_eq divisorKnown, kind]) contents
        extendedKind factorContents (law job member) with ⟨operands, result, yields', computed, same⟩
    rw [(same tensor).mp yields]
    rcases works.elementwise extendedServes.toFormed addedLive with
      ⟨operands', result', _, _, operandYields, _, computed', same', _⟩
    cases Evaluates.unique_list yields' operandYields
    rw [computed] at computed'
    cases computed'
    exact (same' result).mpr rfl

/-- A division by a constant. -/
theorem safe_divByConstant (divides : ∀ job, setting.jobs job →
    ∀ (element other : ElementType) (x number : α), element.Stores x → other.Stores number →
      (number == 0) = false → x * (1 / number) = x / number) :
    (Rule.divByConstant : Rule α).Safe setting := by
  intro id node before answer after serves live ran
  have unaffected : Offers setting node before none before := offers_of_operand serves live (by simp)
  dsimp only at ran
  rw [bind_of_ok (get_run before)] at ran
  cases operands : before.graph.elementwiseOperands? id .div with
  | none =>
    rw [operands] at ran
    cases ran
    exact unaffected
  | some inputs =>
    rcases elementwiseOperands?_eq_some operands with ⟨outputs, live'⟩
    rw [live] at live'
    cases live'
    have count := Op.arity_of_inferTypes (serves.graph.toFormed.typed id _ live)
    rw [List.length_map] at count
    rcases List.length_eq_two.mp count with ⟨dividend, divisor, rfl⟩
    rw [operands] at ran
    dsimp only at ran
    cases scalar : scalarConstant? before.memory before.graph divisor with
    | none =>
      rw [scalar] at ran
      cases ran
      exact unaffected
    | some number =>
      rw [scalar] at ran
      dsimp only at ran
      split at ran
      · cases ran
        exact unaffected
      · rename_i nonzero
        rcases scalarConstant?_eq_some scalar with ⟨value, kind, contents⟩
        refine offers_reciprocal serves live kind contents ?_ ran
        intro job member element x stores
        have normalized := (serves.graph.constants_stored divisor value kind).1.normalized
        rw [contents] at normalized
        exact divides job member element _ x number stores (normalized number (by simp))
          (by simpa using nonzero)

end Rule

end ArrayGraph
