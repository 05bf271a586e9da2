import ArrayGraph.Proofs.Optimize.Total

/-!
# What rules on nodes look for

A rule that simplifies or refines looks at a node, at the nodes that compute its operands, and at
constants. It finds a variable that may be read in the place of what the node computes, or a node that
may be added for the purpose, and offers it if the types agree. A rule finds the same as long as what it
looks at is the same. Whatever it offers depends on nothing but what the node itself depends on, and a
node that it has added is one that neither it nor its companions look for.
-/

namespace ArrayGraph

open Relation

variable {α : Type} [Arithmetic α]

namespace Dataflow

variable {graph extended : Dataflow α} {id source : NodeId} {node content : Node α} {var operand : VarId}
  {memory : Memory α}

/-- A node depends on whatever computes a variable. -/
def Upstream (graph : Dataflow α) (id : NodeId) (var : VarId) : Prop :=
  ∀ source, graph.producerId? var = some source → TransGen graph.ReadsFrom id source

/-- The buffers of all constants exist. -/
def ConstantsKnown (graph : Dataflow α) (memory : Memory α) : Prop :=
  ∀ var value, (graph.var var).kind = .constant value → memory.Knows value

omit [Arithmetic α] in
theorem upstream_of_input (live : graph.node? id = some node) (member : var ∈ node.inputs) :
    graph.Upstream id var :=
  fun _ produced => TransGen.single (readsFrom_iff.mpr ⟨node, live, var, member, produced⟩)

omit [Arithmetic α] in
theorem upstream_of_constant {value : Value} (kind : (graph.var var).kind = .constant value) :
    graph.Upstream id var := by
  intro source produced
  rw [producerId?_eq_none.mpr (producer?_eq_none_of_kind (by simp [kind]))] at produced
  cases produced

omit [Arithmetic α] in
theorem upstream_of_producer {index : Nat} (live : graph.node? id = some node)
    (member : operand ∈ node.inputs) (produced : graph.producer? operand = some (source, content, index))
    (inner : var ∈ content.inputs) : graph.Upstream id var := by
  intro origin innerProduced
  have first := upstream_of_input live member source (producerId?_eq_some.mpr ⟨content, index, produced⟩)
  exact first.tail (readsFrom_iff.mpr
    ⟨content, (producer?_eq_some.mp produced).2, var, inner, innerProduced⟩)

theorem Upstream.extend (upstream : graph.Upstream id var) (formed : graph.Formed)
    (extend : graph.Extends extended) (known : var.index < graph.vars.size) :
    extended.Upstream id var := by
  intro source produced
  rw [extend.producerId?_eq formed known] at produced
  exact TransGen.mono (fun _ _ reads => extend.readsFrom formed reads) _ _ (upstream source produced)

theorem ConstantsKnown.adds {op : Op α} {inputs outputs : List VarId}
    (known : graph.ConstantsKnown memory) (adds : graph.Adds extended op inputs outputs) :
    extended.ConstantsKnown memory :=
  fun var value kind => known var value (adds.kind_of_constant kind).2

omit [Arithmetic α] in
theorem ConstantsKnown.addConstant {later : Memory α} {value : Value}
    (known : graph.ConstantsKnown memory) (keeps : memory.Keeps later) (new : later.Knows value) :
    (graph.addConstant value).2.ConstantsKnown later := by
  intro var content kind
  rcases kind_of_addConstant kind with ⟨_, old⟩ | ⟨_, rfl⟩
  · exact keeps.knows (known var content old)
  · exact new

end Dataflow

open Dataflow

/-- What a rule at a node depends on is the same in two states. -/
structure Editing.LooksSame (before after : Editing α) (id : NodeId) : Prop where
  node : after.graph.node? id = before.graph.node? id
  producers : ∀ node, before.graph.node? id = some node → ∀ input ∈ node.inputs,
    after.graph.producer? input = before.graph.producer? input
  vars : ∀ var : VarId, var.index < before.graph.vars.size → after.graph.var var = before.graph.var var
  contents : ∀ var value, (before.graph.var var).kind = .constant value →
    after.memory.contents value = before.memory.contents value

section LooksSame

variable {before after : Editing α} {id : NodeId} {node : Node α} {var : VarId}
  {function : ScalarFunction}

namespace Editing.LooksSame

omit [Arithmetic α] in
theorem type (same : before.LooksSame after id) (known : var.index < before.graph.vars.size) :
    after.graph.type var = before.graph.type var := by
  simp only [Dataflow.type, same.vars var known]

omit [Arithmetic α] in
theorem elementwiseOperands? (same : before.LooksSame after id) :
    after.graph.elementwiseOperands? id function = before.graph.elementwiseOperands? id function := by
  simp only [Dataflow.elementwiseOperands?, same.node]

theorem isUniformly (same : before.LooksSame after id) (known : var.index < before.graph.vars.size)
    (number : α) : after.graph.isUniformly after.memory var number =
      before.graph.isUniformly before.memory var number := by
  simp only [Dataflow.isUniformly, uniformConstant?, same.vars var known]
  cases constant : (before.graph.var var).constant? with
  | none => rfl
  | some value => simp only [same.contents var value (Variable.constant?_eq_some.mp constant)]

omit [Arithmetic α] in
theorem scalarConstant? (same : before.LooksSame after id)
    (known : var.index < before.graph.vars.size) :
    Rule.scalarConstant? after.memory after.graph var =
      Rule.scalarConstant? before.memory before.graph var := by
  simp only [Rule.scalarConstant?, same.vars var known]
  cases constant : (before.graph.var var).constant? with
  | none => rfl
  | some value =>
    simp only [Option.bind_eq_bind, Option.bind_some, Value.item?,
      same.contents var value (Variable.constant?_eq_some.mp constant)]

theorem standsIn? (same : before.LooksSame after id) (formed : before.graph.Formed)
    (known : var.index < before.graph.vars.size) :
    after.graph.standsIn? id var = before.graph.standsIn? id var := by
  simp only [Dataflow.standsIn?, same.node]
  cases live : before.graph.node? id with
  | none => rfl
  | some node =>
    cases head : node.outputs.head? with
    | none => simp [head]
    | some output =>
      have listed : node.outputs[0]? = some output := by rw [← List.head?_eq_getElem?, head]
      have outputKnown := (formed.output_known id node live 0 output listed).1
      simp only [Option.bind_eq_bind, Option.bind_some, head, same.type known, same.type outputKnown]

omit [Arithmetic α] in
theorem producerOperands? (same : before.LooksSame after id) (live : before.graph.node? id = some node)
    (member : var ∈ node.inputs) : after.graph.producerOperands? var function =
      before.graph.producerOperands? var function := by
  have produced := same.producers node live var member
  simp only [Dataflow.producerOperands?, producerId?, produced]
  cases found : before.graph.producer? var with
  | none => rfl
  | some content =>
    rw [found] at produced
    simp only [Option.map_some, Option.bind_eq_bind, Option.bind_some, Dataflow.elementwiseOperands?,
      (producer?_eq_some.mp found).2, (producer?_eq_some.mp produced).2]

end Editing.LooksSame

end LooksSame

/-- What a rule on nodes finds: a variable to read instead, an operation to apply to a variable, or a
variable to multiply by a new constant. -/
inductive Offer (α : Type) where
  | operand (var : VarId)
  | apply (op : Op α) (var : VarId)
  | product (var : VarId)

namespace Offer

/-- The variable that an offer is made of. -/
def source : Offer α → VarId
  | .operand var => var
  | .apply _ var => var
  | .product var => var

/-- The types of what is offered. -/
def types (graph : Dataflow α) : Offer α → Checked OpError (List ArrayType)
  | .operand var => Except.ok [graph.type var]
  | .apply op var => op.inferTypes [graph.type var]
  | .product var => (Op.ofFunction .mul : Op α).inferTypes [graph.type var, ArrayType.scalar .float64]

/-- An offer has the type of what a node computes. -/
def Fits (offer : Offer α) (graph : Dataflow α) (id : NodeId) : Prop :=
  ∃ node, graph.node? id = some node ∧ offer.types graph = Except.ok (node.outputs.map graph.type)

theorem fits_iff_of_same {offer : Offer α} {before after : Editing α} {id : NodeId}
    (same : before.LooksSame after id) (formed : before.graph.Formed)
    (read : before.graph.IsRead offer.source) :
    offer.Fits after.graph id ↔ offer.Fits before.graph id := by
  have sourceType := same.type (formed.read_known _ read)
  have types : offer.types after.graph = offer.types before.graph := by
    cases offer <;> simp only [source] at sourceType <;> simp only [Offer.types, sourceType]
  have outputs : ∀ node, before.graph.node? id = some node →
      node.outputs.map after.graph.type = node.outputs.map before.graph.type := by
    intro node live
    refine List.map_congr_left fun output member => same.type ?_
    rcases List.mem_iff_getElem?.mp member with ⟨index, found⟩
    exact (formed.output_known id node live index output found).1
  simp only [Fits, same.node, types]
  constructor
  · rintro ⟨node, live, agree⟩
    exact ⟨node, live, outputs node live ▸ agree⟩
  · rintro ⟨node, live, agree⟩
    exact ⟨node, live, (outputs node live).symm ▸ agree⟩

end Offer

/-- What a rule on nodes finds at a node. -/
abbrev Search (α : Type) := Memory α → Dataflow α → NodeId → Option (Offer α)

namespace Edit

variable {inert : Node α → Prop} {before middle after : Editing α} {id : NodeId} {node : Node α}
  {op : Op α} {inputs : List VarId}

/-- What has been added to a graph, if anything, rests and depends on what a node depends on, and so does
a variable. -/
structure Proposal (inert : Node α → Prop) (base extended : Dataflow α) (id : NodeId) (new : VarId) :
    Prop where
  known : new.index < extended.vars.size
  added : ∀ other node, extended.node? other = some node → base.node? other = some node ∨
    base.nodes.size ≤ other.index ∧ inert node ∧ ∀ input ∈ node.inputs, extended.Upstream id input
  upstream : ∀ source, extended.producerId? new = some source →
    TransGen extended.ReadsFrom id source ∨ base.nodes.size ≤ source.index

/-- What a rule answers at a node, given what it has found. -/
structure Responds (inert : Node α → Prop) (offer? : Option (Offer α)) (id : NodeId) (node : Node α)
    (before : Editing α) (answer : Option (List VarId)) (after : Editing α) : Prop where
  keeps : before.memory.Keeps after.memory
  known : after.graph.ConstantsKnown after.memory
  declined : answer = none → ∀ offer, offer? = some offer → ¬offer.Fits before.graph id
  offered : ∀ new, answer = some new → ∃ output replacement offer, node.outputs = [output] ∧
    new = [replacement] ∧ offer? = some offer ∧ offer.Fits before.graph id ∧
    after.graph.type output = after.graph.type replacement ∧
    Proposal inert before.graph after.graph id replacement

/-- A rule on nodes that offers what a search finds. What it adds is not looked for. -/
structure Settles (inert : Node α → Prop) (search : Search α)
    (apply : NodeId → Edit α GraphError (Option (List VarId))) : Prop where
  responds : ∀ id node before answer after, before.graph.Formed →
    before.graph.ConstantsKnown before.memory → before.graph.node? id = some node →
    apply id before = .ok answer after →
      Responds inert (search before.memory before.graph id) id node before answer after
  source : ∀ memory graph id offer, graph.Formed → search memory graph id = some offer →
    graph.IsRead offer.source
  same : ∀ before after id, before.graph.Formed → Editing.LooksSame before after id →
    search after.memory after.graph id = search before.memory before.graph id
  rests : ∀ memory graph id node, graph.node? id = some node → inert node →
    search memory graph id = none

theorem responds_none {offer? : Option (Offer α)} (known : before.graph.ConstantsKnown before.memory)
    (unfit : ∀ offer, offer? = some offer → ¬offer.Fits before.graph id) :
    Responds inert offer? id node before none before :=
  ⟨Memory.Keeps.refl _, known, fun _ => unfit, by simp⟩

section Reading

/-- What a rule finds that only reads. -/
def reading (look : Memory α → Dataflow α → NodeId → Option (List VarId)) : Search α :=
  fun memory graph id => ((look memory graph id).bind List.head?).map .operand

/-- A rule settles if it offers a variable that is read somewhere upstream, and whose type fits. -/
theorem settles_of_look {look : Memory α → Dataflow α → NodeId → Option (List VarId)}
    {apply : NodeId → Edit α GraphError (Option (List VarId))}
    (action : ∀ id before, apply id before = .ok (look before.memory before.graph id) before)
    (found : ∀ memory graph id new, graph.Formed → look memory graph id = some new →
      ∃ var node, graph.node? id = some node ∧ (∀ function, node.op ≠ .host function) ∧
        graph.standsIn? id var = some new ∧ graph.IsRead var ∧ graph.Upstream id var)
    (same : ∀ before after id, before.graph.Formed → Editing.LooksSame before after id →
      look after.memory after.graph id = look before.memory before.graph id)
    (rests : ∀ memory graph id node, graph.node? id = some node → inert node →
      look memory graph id = none) : Settles inert (reading look) apply where
  responds id node before answer after formed known live ran := by
    rw [action] at ran
    cases ran
    refine ⟨Memory.Keeps.refl _, known, fun none offer offered => ?_, fun new answered => ?_⟩
    · simp [reading, none] at offered
    · rcases found _ _ _ _ formed answered with ⟨var, content, live', table, stands, read, upstream⟩
      cases live.symm.trans live'
      rcases formed.single_output live table with ⟨output, outputs⟩
      rcases standsIn?_eq_some stands live outputs with ⟨rfl, type⟩
      refine ⟨output, var, .operand var, outputs, rfl, by simp [reading, answered], ?_, type, ?_⟩
      · exact ⟨node, live, by simp [Offer.types, outputs, type]⟩
      · exact ⟨formed.read_known var read, fun _ _ live => Or.inl live,
          fun source produced => Or.inl (upstream source produced)⟩
  source memory graph id offer formed searched := by
    simp only [reading, Option.map_eq_some_iff, Option.bind_eq_some_iff] at searched
    rcases searched with ⟨var, ⟨new, looked, head⟩, rfl⟩
    rcases found _ _ _ _ formed looked with ⟨found, _, _, _, stands, read, _⟩
    rw [eq_singleton_of_standsIn? stands] at head
    cases head
    exact read
  same before after id formed looksSame := by
    simp only [reading, same before after id formed looksSame]
  rests memory graph id node live rest := by
    simp only [reading, rests memory graph id node live rest, Option.bind_none, Option.map_none]

end Reading

section Adding

/-- A node that is added upstream, possibly with a constant that it reads. -/
theorem proposal_of_adds {base graph extended : Dataflow α} {new : VarId}
    (size : graph.nodes = base.nodes) (adds : graph.Adds extended op inputs [new])
    (rest : inert ⟨op, inputs, [new]⟩) (upstream : ∀ input ∈ inputs, extended.Upstream id input) :
    Proposal inert base extended id new where
  known := (adds.output 0 new rfl).2.1
  added other node live := by
    rcases adds.live_cases live with live | ⟨rfl, rfl⟩
    · exact Or.inl (by simpa only [node?, size] using live)
    · exact Or.inr ⟨by simp only [size, Nat.le_refl], rest, upstream⟩
  upstream source produced := by
    right
    rcases producerId?_eq_some.mp produced with ⟨_, _, found⟩
    have kind := (producer?_eq_some.mp found).1
    rw [(adds.output 0 new rfl).2.2] at kind
    cases kind
    simp only [size, Nat.le_refl]

omit [Arithmetic α] in
theorem standsIn?_of_outputs {graph : Dataflow α} {output new : VarId}
    (live : graph.node? id = some node) (outputs : node.outputs = [output]) :
    graph.standsIn? id new = if graph.type output = graph.type new then some [new] else none := by
  simp only [standsIn?, live, outputs, Option.bind_eq_bind, Option.bind_some, List.head?_cons]

omit [Arithmetic α] in
theorem isSome_standsIn?_iff {graph : Dataflow α} {output new : VarId}
    (live : graph.node? id = some node) (outputs : node.outputs = [output]) :
    (graph.standsIn? id new).isSome ↔ graph.type output = graph.type new := by
  rw [standsIn?_of_outputs live outputs]
  split <;> simp [*]

/-- A rule that has added a node and offers its output if the type fits. -/
theorem responds_of_adds {extended : Dataflow α} {new : VarId} {offer : Offer α}
    (formed : before.graph.Formed) (live : before.graph.node? id = some node)
    (table : ∀ function, node.op ≠ .host function) (extend : before.graph.Extends middle.graph)
    (size : middle.graph.nodes = before.graph.nodes) (keeps : before.memory.Keeps middle.memory)
    (known : middle.graph.ConstantsKnown middle.memory)
    (adds : middle.graph.Adds extended op inputs [new]) (rest : inert ⟨op, inputs, [new]⟩)
    (upstream : ∀ input ∈ inputs, extended.Upstream id input)
    (types : offer.types before.graph = op.inferTypes (inputs.map middle.graph.type)) :
    Responds inert (some offer) id node before (extended.standsIn? id new)
      { middle with graph := extended } := by
  rcases formed.single_output live table with ⟨output, outputs⟩
  have outputKnown := (formed.output_known id node live 0 output (by simp [outputs])).1
  have outputType := (extend.trans adds.extend).type_eq outputKnown
  have stands : extended.standsIn? id new =
      if extended.type output = extended.type new then some [new] else none :=
    standsIn?_of_outputs (adds.extend.live (extend.live live)) outputs
  -- What the search judges before anything is added is what the rule judges afterwards.
  have fits : offer.Fits before.graph id ↔ extended.type output = extended.type new := by
    rw [adds.inferred] at types
    simp only [Offer.Fits, live, Option.some.injEq, exists_eq_left', types, outputs, List.map_cons,
      List.map_nil, Except.ok.injEq, List.cons.injEq, and_true, outputType]
    exact eq_comm
  refine ⟨keeps, known.adds adds, fun declined _ same => ?_, fun answer answered => ?_⟩
  · cases same
    intro agree
    rw [stands, if_pos (fits.mp agree)] at declined
    cases declined
  · rw [stands] at answered
    split at answered
    · rename_i agree
      cases answered
      exact ⟨output, new, offer, outputs, rfl, rfl, fits.mpr agree, agree,
        proposal_of_adds size adds rest upstream⟩
    · cases answered

theorem responds_offerNode {answer : Option (List VarId)} {offer : Offer α}
    (formed : before.graph.Formed) (live : before.graph.node? id = some node)
    (table : ∀ function, node.op ≠ .host function) (extend : before.graph.Extends middle.graph)
    (size : middle.graph.nodes = before.graph.nodes) (keeps : before.memory.Keeps middle.memory)
    (known : middle.graph.ConstantsKnown middle.memory)
    (rest : ∀ outputs, inert ⟨op, inputs, outputs⟩)
    (upstream : ∀ extended, middle.graph.Extends extended → ∀ input ∈ inputs,
      extended.Upstream id input)
    (types : offer.types before.graph = op.inferTypes (inputs.map middle.graph.type))
    (ran : offerNode id op inputs middle = .ok answer after) :
    Responds inert (some offer) id node before answer after := by
  rcases bind_eq_ok_iff.mp ran with ⟨new, between, added, answered⟩
  rcases Rule.addNodeSingle_eq_ok added with ⟨extended, adds, rfl⟩
  rw [bind_of_ok (graph_run _)] at answered
  cases answered
  exact responds_of_adds formed live table extend size keeps known adds (rest _)
    (upstream extended adds.extend) types

end Adding

end Edit

/-- A rule on nodes that offers what some search finds. -/
def Rule.Settles (inert : Node α → Prop) (rule : Rule α) : Prop :=
  ∃ search apply, rule.action = .onNode apply ∧ Edit.Settles inert search apply

namespace Rule

open Edit

variable {inert : Node α → Prop} {graph : Dataflow α} {memory : Memory α} {id : NodeId} {node : Node α}
  {function : ScalarFunction} {var : VarId}

omit [Arithmetic α] in
theorem elementwiseOperands?_eq_none (live : graph.node? id = some node)
    (other : node.op ≠ .elementwise function none) : graph.elementwiseOperands? id function = none := by
  cases found : graph.elementwiseOperands? id function with
  | none => rfl
  | some inputs =>
    rcases elementwiseOperands?_eq_some found with ⟨outputs, live'⟩
    cases live.symm.trans live'
    exact absurd rfl other

section Reading

theorem settles_dropOperand (name : String) (function : ScalarFunction) (identity : α)
    (other : ∀ node, inert node → node.op ≠ .elementwise function none) :
    (Rule.dropOperand name function identity).Settles inert := by
  refine ⟨reading fun memory graph id => remainingOperand? memory graph id function identity, _, rfl,
    settles_of_look (fun _ _ => rfl) ?_ ?_ ?_⟩
  · intro memory graph id new formed found
    rcases remainingOperand?_eq_some found with
      ⟨left, right, operand, outputs, live, beside, stands⟩
    exact ⟨operand, _, live, by simp, stands, Or.inr ⟨id, _, live, beside.mem⟩,
      upstream_of_input live beside.mem⟩
  · intro before after id formed same
    simp only [remainingOperand?, same.elementwiseOperands?]
    split
    · rename_i left right operands
      rcases elementwiseOperands?_eq_some operands with ⟨outputs, live⟩
      have leftKnown := formed.input_known live (show left ∈ [left, right] by simp)
      have rightKnown := formed.input_known live (show right ∈ [left, right] by simp)
      simp only [same.isUniformly leftKnown, same.isUniformly rightKnown,
        same.standsIn? formed leftKnown, same.standsIn? formed rightKnown]
    · rfl
  · intro memory graph id node live rest
    simp only [remainingOperand?, elementwiseOperands?_eq_none live (other node rest)]

theorem settles_nested {apply : NodeId → Edit α GraphError (Option (List VarId))}
    (outer inner : ScalarFunction)
    (action : ∀ id before, apply id before = .ok (nestedOperand? before.graph id outer inner) before)
    (other : ∀ node, inert node → node.op ≠ .elementwise outer none) :
    Edit.Settles inert (reading fun _ graph id => nestedOperand? graph id outer inner) apply := by
  refine settles_of_look action ?_ ?_ ?_
  · intro memory graph id new formed found
    rcases nestedOperand?_eq_some found with
      ⟨operand, rest, outputs, innermost, rest', outputs', producer, index, live, produced, stands⟩
    have inside : innermost ∈ innermost :: rest' := List.mem_cons_self
    exact ⟨innermost, _, live, by simp, stands,
      Or.inr ⟨producer, _, (producer?_eq_some.mp produced).2, inside⟩,
      upstream_of_producer live List.mem_cons_self produced inside⟩
  · intro before after id formed same
    simp only [nestedOperand?, same.elementwiseOperands?]
    cases operands : before.graph.elementwiseOperands? id outer with
    | none => rfl
    | some inputs =>
      rcases elementwiseOperands?_eq_some operands with ⟨outputs, live⟩
      rcases inputs with _ | ⟨operand, rest⟩
      · rfl
      simp only [Option.bind_eq_bind, Option.bind_some, List.head?_cons,
        same.producerOperands? live List.mem_cons_self]
      cases innerOperands : before.graph.producerOperands? operand inner with
      | none => rfl
      | some inputs' =>
        rcases producerOperands?_eq_some innerOperands with ⟨producer, _, _, produced⟩
        rcases inputs' with _ | ⟨innermost, rest'⟩
        · rfl
        have known := formed.input_known (producer?_eq_some.mp produced).2
          (show innermost ∈ innermost :: rest' from List.mem_cons_self)
        simp only [Option.bind_some, List.head?_cons, same.standsIn? formed known]
  · intro memory graph id node live rest
    simp only [nestedOperand?, elementwiseOperands?_eq_none live (other node rest)]
    rfl

theorem settles_negNeg (other : ∀ node, inert node → node.op ≠ .elementwise .neg none) :
    (Rule.negNeg : Rule α).Settles inert :=
  ⟨_, _, rfl, settles_nested .neg .neg (fun _ _ => rfl) other⟩

theorem settles_logExp (other : ∀ node, inert node → node.op ≠ .elementwise .log none) :
    (Rule.logExp : Rule α).Settles inert :=
  ⟨_, _, rfl, settles_nested .log .exp (fun _ _ => rfl) other⟩

def identityOperand? (graph : Dataflow α) (id : NodeId) : Option (List VarId) :=
  match graph.node? id with
  | some ⟨.view, operand :: _, _⟩ | some ⟨.copy, operand :: _, _⟩ => graph.standsIn? id operand
  | _ => none

omit [Arithmetic α] in
theorem identityOperand?_eq_some {new : List VarId} (found : identityOperand? graph id = some new) :
    ∃ op operand rest outputs, (op = .view ∨ op = .copy) ∧
      graph.node? id = some ⟨op, operand :: rest, outputs⟩ ∧ graph.standsIn? id operand = some new := by
  unfold identityOperand? at found
  split at found
  · rename_i operand rest outputs live
    exact ⟨.view, operand, rest, outputs, Or.inl rfl, live, found⟩
  · rename_i operand rest outputs live
    exact ⟨.copy, operand, rest, outputs, Or.inr rfl, live, found⟩
  · cases found

theorem settles_removeIdentity (never : ∀ node, ¬inert node) :
    (Rule.removeIdentity : Rule α).Settles inert := by
  refine ⟨reading fun _ graph id => identityOperand? graph id, _, rfl,
    settles_of_look ?_ ?_ ?_ fun _ _ _ node _ rest => absurd rest (never node)⟩
  · intro id before
    rw [bind_of_ok (graph_run before)]
    unfold identityOperand?
    rcases before.graph.node? id with _ | ⟨op, inputs, outputs⟩
    · rfl
    · cases op <;> cases inputs <;> rfl
  · intro memory graph id new formed found
    rcases identityOperand?_eq_some found with ⟨op, operand, rest, outputs, either, live, stands⟩
    have member : operand ∈ operand :: rest := List.mem_cons_self
    refine ⟨operand, _, live, ?_, stands, Or.inr ⟨id, _, live, member⟩, upstream_of_input live member⟩
    rcases either with rfl | rfl <;> simp
  · intro before after id formed same
    simp only [identityOperand?, same.node]
    split
    · rename_i operand rest outputs live
      exact same.standsIn? formed (formed.input_known live List.mem_cons_self)
    · rename_i operand rest outputs live
      exact same.standsIn? formed (formed.input_known live List.mem_cons_self)
    · rfl

end Reading

section Equal

/-- The operand of a node that applies a function to two equal operands. -/
def equalOperand? (graph : Dataflow α) (id : NodeId) (function : ScalarFunction) : Option VarId :=
  match graph.elementwiseOperands? id function with
  | some [left, right] => if left = right then some left else none
  | _ => none

omit [Arithmetic α] in
theorem equalOperand?_eq_some (found : equalOperand? graph id function = some var) :
    ∃ outputs, graph.node? id = some ⟨.elementwise function none, [var, var], outputs⟩ := by
  simp only [equalOperand?] at found
  split at found
  · rename_i left right operands
    rcases elementwiseOperands?_eq_some operands with ⟨outputs, live⟩
    split at found
    · rename_i same
      cases found
      exact ⟨outputs, same ▸ live⟩
    · cases found
  · cases found

omit [Arithmetic α] in
theorem ne_of_equalOperand? {left right : VarId} (unequal : equalOperand? graph id function = none)
    (operands : graph.elementwiseOperands? id function = some [left, right]) : left ≠ right := by
  rintro rfl
  simp only [equalOperand?, operands, if_true, reduceCtorEq] at unequal

/-- A rule settles that applies an operation to the operand of a node with two equal operands. -/
theorem settles_of_equalOperand (function : ScalarFunction) (op : Op α)
    {apply : NodeId → Edit α GraphError (Option (List VarId))}
    (other : ∀ node, inert node → node.op = .elementwise function none → ∀ var, node.inputs ≠ [var, var])
    (declines : ∀ id before, equalOperand? before.graph id function = none →
      apply id before = .ok none before)
    (offers : ∀ id before answer after var outputs, before.graph.Formed →
      before.graph.ConstantsKnown before.memory →
      before.graph.node? id = some ⟨.elementwise function none, [var, var], outputs⟩ →
      apply id before = .ok answer after → Responds inert (some (.apply op var)) id
        ⟨.elementwise function none, [var, var], outputs⟩ before answer after) :
    Edit.Settles inert (fun _ graph id => (equalOperand? graph id function).map (.apply op)) apply where
  responds id node before answer after formed known live ran := by
    cases found : equalOperand? before.graph id function with
    | none =>
      rw [declines id before found] at ran
      cases ran
      exact responds_none known (by simp)
    | some var =>
      rcases equalOperand?_eq_some found with ⟨outputs, live'⟩
      cases live.symm.trans live'
      exact offers id before answer after var outputs formed known live ran
  source memory graph id offer formed searched := by
    rcases Option.map_eq_some_iff.mp searched with ⟨var, found, rfl⟩
    rcases equalOperand?_eq_some found with ⟨outputs, live⟩
    exact Or.inr ⟨id, _, live, List.mem_cons_self⟩
  same before after id formed same := by
    simp only [equalOperand?, same.elementwiseOperands?]
  rests memory graph id node live rest := by
    cases found : equalOperand? graph id function with
    | none => rfl
    | some var =>
      rcases equalOperand?_eq_some found with ⟨outputs, live'⟩
      cases live.symm.trans live'
      exact absurd rfl (other _ rest rfl var)

/-- Where the operands of a node have the type of its output, an array filled with a number fits. -/
theorem responds_fill {before : Editing α} {number : α} {extended : Dataflow α} {new output : VarId}
    (formed : before.graph.Formed) (known : before.graph.ConstantsKnown before.memory)
    (fills : ∀ inputs outputs, inert ⟨.fill number, inputs, outputs⟩)
    (live : before.graph.node? id = some ⟨.elementwise function none, [var, var], [output]⟩)
    (type : before.graph.type output = before.graph.type var)
    (adds : before.graph.Adds extended (.fill number) [var] [new]) :
    Responds inert (some (.apply (.fill number) var)) id
      ⟨.elementwise function none, [var, var], [output]⟩ before (some [new])
      { before with graph := extended } := by
  have newType : extended.type new = before.graph.type var := by
    simpa [Op.inferTypes, Op.arity] using adds.inferred.symm
  have outputKnown := (formed.output_known id _ live 0 output (by simp)).1
  have answered : extended.standsIn? id new = some [new] := by
    rw [standsIn?_of_outputs (adds.extend.live live) rfl, newType,
      adds.extend.type_eq outputKnown, if_pos type]
  rw [← answered]
  refine responds_of_adds formed live (by simp) (Extends.refl _) rfl (Memory.Keeps.refl _) known adds
    (fills _ _) (fun input member => ?_) rfl
  exact upstream_of_input (adds.extend.live live) (by simpa using member)

theorem settles_collapse (name : String) (function : ScalarFunction) (number : α)
    (fills : ∀ inputs outputs, inert ⟨.fill number, inputs, outputs⟩)
    (other : ∀ node, inert node → node.op ≠ .elementwise function none) :
    (Rule.collapse name function number).Settles inert := by
  refine ⟨_, _, rfl, settles_of_equalOperand function (.fill number)
    (fun node rest same => absurd same (other node rest)) ?_ ?_⟩
  · intro id before unequal
    rw [bind_of_ok (graph_run before)]
    rcases operands : before.graph.elementwiseOperands? id function with
      _ | _ | ⟨left, _ | ⟨right, _ | ⟨third, rest⟩⟩⟩
    · rfl
    · rfl
    · rfl
    · dsimp only
      split
      · rename_i equal
        simp only [Bool.and_eq_true, decide_eq_true_eq] at equal
        exact absurd equal.1 (ne_of_equalOperand? unequal operands)
      · rfl
    · rfl
  · intro id before answer after var outputs formed known live ran
    have operands : before.graph.elementwiseOperands? id function = some [var, var] := by
      simp only [elementwiseOperands?, live, if_true]
    rw [bind_of_ok (graph_run before), operands] at ran
    rcases formed.single_output live (by simp) with ⟨output, single⟩
    simp only at single
    subst single
    simp only [decide_true, Bool.true_and] at ran
    split at ran
    · rename_i stands
      simp only [bind_eq_ok_iff, pure_eq_ok_iff] at ran
      rcases ran with ⟨new, middle, added, rfl, rfl⟩
      rcases addNodeSingle_eq_ok added with ⟨extended, adds, rfl⟩
      exact responds_fill formed known fills live ((isSome_standsIn?_iff live rfl).mp stands) adds
    · rename_i unfit
      cases ran
      refine responds_none known fun offer same fits => unfit ((isSome_standsIn?_iff live rfl).mpr ?_)
      cases same
      rcases fits with ⟨node, live', agree⟩
      cases live.symm.trans live'
      simpa [Offer.types, Op.inferTypes, Op.arity] using agree.symm

theorem settles_mulSelf (squares : ∀ inputs outputs, inert ⟨.ofFunction .sqr, inputs, outputs⟩)
    (other : ∀ node, inert node → node.op = .elementwise .mul none → ∀ var, node.inputs ≠ [var, var]) :
    (Rule.mulSelf : Rule α).Settles inert := by
  refine ⟨_, _, rfl, settles_of_equalOperand .mul (.ofFunction .sqr) other ?_ ?_⟩
  · intro id before unequal
    rw [bind_of_ok (graph_run before)]
    rcases operands : before.graph.elementwiseOperands? id .mul with
      _ | _ | ⟨left, _ | ⟨right, _ | ⟨third, rest⟩⟩⟩
    · rfl
    · rfl
    · rfl
    · dsimp only
      rw [if_neg (ne_of_equalOperand? unequal operands)]
      rfl
    · rfl
  · intro id before answer after var outputs formed known live ran
    have operands : before.graph.elementwiseOperands? id .mul = some [var, var] := by
      simp only [elementwiseOperands?, live, if_true]
    rw [bind_of_ok (graph_run before), operands] at ran
    dsimp only at ran
    rw [if_pos rfl] at ran
    refine responds_offerNode formed live (by simp) (Extends.refl _) rfl (Memory.Keeps.refl _) known
      (fun _ => squares _ _) (fun extended extend input member => ?_) rfl ran
    exact upstream_of_input (extend.live live) (by simpa using member)

end Equal

section Constants

/-- The other operand of a sum with one, if a node takes its logarithm. -/
def sumWithOne? (memory : Memory α) (graph : Dataflow α) (id : NodeId) : Option VarId := do
  let sum ← (← graph.elementwiseOperands? id .log).head?
  besideOne? memory graph (← graph.producerOperands? sum .add)

theorem sumWithOne?_eq_some (formed : graph.Formed) (found : sumWithOne? memory graph id = some var) :
    ∃ sum outputs, graph.node? id = some ⟨.elementwise .log none, [sum], outputs⟩ ∧ graph.IsRead var ∧
      graph.Upstream id var := by
  rcases log1pOperand?_eq_some formed found with
    ⟨sum, outputs, adder, left, right, live, adderLive, beside⟩
  have produced := producer?_of_output (formed.output_known adder _ adderLive 0 sum rfl).2 adderLive
  exact ⟨sum, outputs, live, Or.inr ⟨adder, _, adderLive, beside.mem⟩,
    upstream_of_producer live List.mem_cons_self produced beside.mem⟩

theorem besideOne?_congr {before after : Editing α} {operands : List VarId}
    (same : ∀ operand ∈ operands, after.graph.isUniformly after.memory operand 1 =
      before.graph.isUniformly before.memory operand 1) :
    besideOne? after.memory after.graph operands = besideOne? before.memory before.graph operands := by
  unfold besideOne?
  split
  · rename_i left right
    simp only [same left (by simp), same right (by simp)]
  · rfl

theorem sumWithOne?_of_same {before after : Editing α} (formed : before.graph.Formed)
    (same : before.LooksSame after id) :
    sumWithOne? after.memory after.graph id = sumWithOne? before.memory before.graph id := by
  simp only [sumWithOne?, same.elementwiseOperands?]
  cases operands : before.graph.elementwiseOperands? id .log with
  | none => rfl
  | some inputs =>
    rcases elementwiseOperands?_eq_some operands with ⟨outputs, live⟩
    rcases inputs with _ | ⟨sum, rest⟩
    · rfl
    simp only [Option.bind_eq_bind, Option.bind_some, List.head?_cons,
      same.producerOperands? live List.mem_cons_self]
    cases summands : before.graph.producerOperands? sum .add with
    | none => rfl
    | some operands =>
      rcases producerOperands?_eq_some summands with ⟨adder, _, _, produced⟩
      exact besideOne?_congr fun operand member =>
        same.isUniformly (formed.input_known (producer?_eq_some.mp produced).2 member) 1

theorem settles_log1p (logarithms : ∀ inputs outputs, inert ⟨.ofFunction .log1p, inputs, outputs⟩)
    (other : ∀ node, inert node → node.op ≠ .elementwise .log none) :
    (Rule.log1p : Rule α).Settles inert := by
  refine ⟨fun memory graph id => (sumWithOne? memory graph id).map (.apply (.ofFunction .log1p)), _, rfl,
    ?_, ?_, ?_, ?_⟩
  · intro id node before answer after formed known live ran
    have looked : (do
        let sum ← (← before.graph.elementwiseOperands? id .log).head?
        besideOne? before.memory before.graph (← before.graph.producerOperands? sum .add)) =
          sumWithOne? before.memory before.graph id := rfl
    rw [bind_of_ok (get_run before), looked] at ran
    cases found : sumWithOne? before.memory before.graph id with
    | none =>
      rw [found] at ran
      cases ran
      exact responds_none known (by simp)
    | some operand =>
      rw [found] at ran
      rcases sumWithOne?_eq_some formed found with ⟨sum, outputs, live', read, upstream⟩
      cases live.symm.trans live'
      refine responds_offerNode formed live (by simp) (Extends.refl _) rfl (Memory.Keeps.refl _) known
        (fun _ => logarithms _ _) (fun extended extend input member => ?_) rfl ran
      rw [List.mem_singleton.mp member]
      exact upstream.extend formed extend (formed.read_known operand read)
  · intro memory graph id offer formed searched
    rcases Option.map_eq_some_iff.mp searched with ⟨var, found, rfl⟩
    rcases sumWithOne?_eq_some formed found with ⟨_, _, _, read, _⟩
    exact read
  · intro before after id formed same
    simp only [sumWithOne?_of_same formed same]
  · intro memory graph id node live rest
    simp only [sumWithOne?, elementwiseOperands?_eq_none live (other node rest)]
    rfl

/-- The dividend of a division by a constant other than zero, and the constant. -/
def constantDivision? (memory : Memory α) (graph : Dataflow α) (id : NodeId) : Option (VarId × α) :=
  match graph.elementwiseOperands? id .div with
  | some [dividend, divisor] =>
    match scalarConstant? memory graph divisor with
    | some number => if number == 0 then none else some (dividend, number)
    | none => none
  | _ => none

theorem constantDivision?_eq_some {number : α}
    (found : constantDivision? memory graph id = some (var, number)) : ∃ divisor outputs,
      graph.node? id = some ⟨.elementwise .div none, [var, divisor], outputs⟩ := by
  simp only [constantDivision?] at found
  split at found
  · rename_i dividend divisor operands
    rcases elementwiseOperands?_eq_some operands with ⟨outputs, live⟩
    split at found
    · split at found
      · cases found
      · cases found
        exact ⟨divisor, outputs, live⟩
    · cases found
  · cases found

/-- A product with a new constant is offered in the place of a division. -/
theorem responds_offerFactor {before after : Editing α} {dividend divisor : VarId} {outputs : List VarId}
    {number : α} {answer : Option (List VarId)} (formed : before.graph.Formed)
    (known : before.graph.ConstantsKnown before.memory)
    (live : before.graph.node? id = some ⟨.elementwise .div none, [dividend, divisor], outputs⟩)
    (products : ∀ left right outputs, left ≠ right → inert ⟨.ofFunction .mul, [left, right], outputs⟩)
    (ran : (do
      let reciprocal ← Edit.onMemory (Value.scalar .float64 number)
      let factor ← Edit.addConstant reciprocal
      offerNode id (.ofFunction .mul) [dividend, factor]) before = .ok answer after) :
    Responds inert (some (.product dividend)) id ⟨.elementwise .div none, [dividend, divisor], outputs⟩
      before answer after := by
  rcases offerFactor_eq_ok ran with ⟨reciprocal, memory, keeps, stores, contents, offered⟩
  have dividendKnown := formed.input_known live (show dividend ∈ [dividend, divisor] by simp)
  have extend := extends_addConstant before.graph reciprocal
  have factor := var_addConstant before.graph reciprocal
  have scalar : reciprocal.type = ArrayType.scalar .float64 := by
    have element := congrArg Tensor.element contents
    have shape := congrArg Tensor.shape contents
    simp only [Memory.tensor] at element shape
    simp only [Value.type, element, shape]
    rfl
  refine responds_offerNode formed live (by simp) ?_ ?_ ?_ ?_ ?_ ?_ ?_ offered
  · exact extend
  · rfl
  · exact keeps
  · exact known.addConstant keeps stores.known
  · refine fun outputs => products _ _ outputs ?_
    rintro rfl
    exact absurd dividendKnown (Nat.lt_irrefl _)
  · intro extended later input member
    rcases List.mem_pair.mp member with rfl | rfl
    · exact upstream_of_input (later.live (extend.live live)) (by simp)
    · have inside : before.graph.vars.size < (before.graph.addConstant reciprocal).2.vars.size := by
        simp [Dataflow.addConstant]
      exact upstream_of_constant (congrArg Variable.kind ((later.var_eq inside).trans factor))
  · have factorType : (before.graph.addConstant reciprocal).2.type ⟨before.graph.vars.size⟩ =
        ArrayType.scalar .float64 := (congrArg Variable.type factor).trans scalar
    simp only [Offer.types, List.map_cons, List.map_nil, extend.type_eq dividendKnown, factorType]

theorem settles_divByConstant
    (products : ∀ left right outputs, left ≠ right → inert ⟨.ofFunction .mul, [left, right], outputs⟩)
    (other : ∀ node, inert node → node.op ≠ .elementwise .div none) :
    (Rule.divByConstant : Rule α).Settles inert := by
  refine ⟨fun memory graph id => (constantDivision? memory graph id).map fun found => .product found.1,
    _, rfl, ?_, ?_, ?_, ?_⟩
  · intro id node before answer after formed known live ran
    rw [bind_of_ok (get_run before)] at ran
    rcases operands : before.graph.elementwiseOperands? id .div with
      _ | _ | ⟨dividend, _ | ⟨divisor, _ | ⟨third, rest⟩⟩⟩
    all_goals simp only [constantDivision?, operands]; rw [operands] at ran
    · cases ran
      exact responds_none known (by simp)
    · cases ran
      exact responds_none known (by simp)
    · cases ran
      exact responds_none known (by simp)
    · rcases elementwiseOperands?_eq_some operands with ⟨outputs, live'⟩
      cases live.symm.trans live'
      dsimp only at ran ⊢
      cases scalar : scalarConstant? before.memory before.graph divisor with
      | none =>
        rw [scalar] at ran
        cases ran
        exact responds_none known (by simp)
      | some number =>
        rw [scalar] at ran
        dsimp only at ran ⊢
        split at ran
        · rename_i zero
          cases ran
          exact responds_none known (by simp [zero])
        · rename_i nonzero
          rw [if_neg nonzero]
          exact responds_offerFactor formed known live products ran
    · cases ran
      exact responds_none known (by simp)
  · intro memory graph id offer formed searched
    rcases Option.map_eq_some_iff.mp searched with ⟨⟨dividend, number⟩, found, rfl⟩
    rcases constantDivision?_eq_some found with ⟨divisor, outputs, live⟩
    exact Or.inr ⟨id, _, live, List.mem_cons_self⟩
  · intro before after id formed same
    simp only [constantDivision?, same.elementwiseOperands?]
    congr 1
    split
    · rename_i dividend divisor operands
      rcases elementwiseOperands?_eq_some operands with ⟨outputs, live⟩
      have known := formed.input_known live (show divisor ∈ [dividend, divisor] by simp)
      simp only [same.scalarConstant? known]
    · rfl
  · intro memory graph id node live rest
    simp only [constantDivision?, elementwiseOperands?_eq_none live (other node rest), Option.map_none]

end Constants

/-- Rules that settle together: none of them looks for a node that any of them adds. -/
def SettleTogether (rules : List (Rule α)) : Prop :=
  ∃ inert : Node α → Prop, (∀ node, inert node → node.op.isDestructive = false) ∧
    ∀ rule ∈ rules, rule.Settles inert

theorem settleTogether_useless : SettleTogether [(removeIdentity : Rule α)] := by
  refine ⟨fun _ => False, fun _ rest => rest.elim, fun rule selected => ?_⟩
  rw [List.mem_singleton.mp selected]
  exact settles_removeIdentity fun _ => id

theorem settleTogether_canonicalize :
    SettleTogether [(addZero : Rule α), mulOne, negNeg, subSelf, divSelf] := by
  have other : ∀ function (node : Node α), (∃ number, node.op = .fill number) →
      node.op ≠ .elementwise function none := by
    rintro function node ⟨number, fill⟩
    simp [fill]
  refine ⟨fun node => ∃ number, node.op = .fill number, ?_, fun rule selected => ?_⟩
  · rintro node ⟨number, fill⟩
    rw [fill]
    rfl
  · simp only [List.mem_cons, List.not_mem_nil, or_false] at selected
    rcases selected with rfl | rfl | rfl | rfl | rfl
    · exact settles_dropOperand _ _ _ (other _)
    · exact settles_dropOperand _ _ _ (other _)
    · exact settles_negNeg (other _)
    · exact settles_collapse _ _ _ (fun _ _ => ⟨_, rfl⟩) (other _)
    · exact settles_collapse _ _ _ (fun _ _ => ⟨_, rfl⟩) (other _)

theorem settleTogether_stabilize : SettleTogether [(log1p : Rule α), logExp] := by
  have other : ∀ node : Node α, node.op = .ofFunction .log1p → node.op ≠ .elementwise .log none := by
    intro node logarithm
    simp [logarithm, Op.ofFunction]
  refine ⟨fun node => node.op = .ofFunction .log1p, ?_, fun rule selected => ?_⟩
  · intro node logarithm
    rw [logarithm]
    rfl
  · simp only [List.mem_cons, List.not_mem_nil, or_false] at selected
    rcases selected with rfl | rfl
    · exact settles_log1p (fun _ _ => rfl) other
    · exact settles_logExp other

/-- A product that replaces a division has two different operands, so it is not a square. -/
theorem settleTogether_specialize : SettleTogether [(mulSelf : Rule α), divByConstant] := by
  refine ⟨fun node => node.op = .ofFunction .sqr ∨ node.op = .ofFunction .mul ∧
    ∀ var, node.inputs ≠ [var, var], ?_, fun rule selected => ?_⟩
  · rintro node (square | ⟨product, _⟩)
    · rw [square]
      rfl
    · rw [product]
      rfl
  · simp only [List.mem_cons, List.not_mem_nil, or_false] at selected
    rcases selected with rfl | rfl
    · refine settles_mulSelf (fun _ _ => Or.inl rfl) ?_
      rintro node (square | ⟨_, different⟩) product
      · simp [square, Op.ofFunction] at product
      · exact different
    · refine settles_divByConstant (fun left right outputs different => Or.inr ⟨rfl, ?_⟩) ?_
      · rintro var same
        simp only [List.cons.injEq, and_true] at same
        exact different (same.1.trans same.2.symm)
      · rintro node (square | ⟨product, _⟩)
        · simp [square, Op.ofFunction]
        · simp [product, Op.ofFunction]

/-- The rules that a query selects from a repeated stage of the standard database settle together. -/
theorem settleTogether_of_standard {query : Query} {entry : Stage α × List (Rule α)}
    (member : entry ∈ (Database.standard : Database α).select query)
    (repeated : entry.1.name ∈ ["useless", "canonicalize", "stabilize", "specialize"]) :
    SettleTogether entry.2 := by
  rcases Database.mem_select member with ⟨stage, rules⟩
  have together : SettleTogether entry.1.rules := by
    simp only [Database.standard, List.mem_cons, List.not_mem_nil, or_false] at stage
    rcases stage with same | same | same | same | same | same | same | same | same <;>
      simp only [same, Stage.merging, Stage.repeated, Stage.inPlace, Stage.printing, List.mem_cons,
        List.not_mem_nil, or_false, String.reduceEq, or_self] at repeated ⊢
    · exact settleTogether_useless
    · exact settleTogether_canonicalize
    · exact settleTogether_stabilize
    · exact settleTogether_specialize
  rcases together with ⟨inert, harmless, settles⟩
  exact ⟨inert, harmless, fun rule selected => settles rule (rules rule selected)⟩

end Rule

end ArrayGraph
