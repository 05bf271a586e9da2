import ArrayGraph.Proofs.Function.Owners

/-!
# Returned values are isolated

A caller keeps values that a function has returned, and goes on calling it, with other arguments and
with other values in its containers. As long as the buffer of a returned value is not handed back, the
function has no way to it: it is in none of its containers, and a planned executable that still has a
handle on it in a slot asks whether anybody else holds it before it writes there.
-/

namespace ArrayGraph

variable {α : Type}

namespace Container

variable {memory : Memory α} {container : ContainerId} {value : Value} {borrow : Bool}

theorem getValue_keeps : Ends (getValue container borrow) memory (fun _ after => memory.Keeps after)
    (fun after => after = memory) := by
  refine Ends.after rfl ?_
  dsimp only
  cases held : (memory.container container).value with
  | none => exact Ends.throw rfl
  | some value =>
    cases borrow with
    | true => exact Ends.pure (Memory.Keeps.refl memory)
    | false => exact memory.keeps_allocate (memory.contents value)

/-- A container that is set is given the value or a copy of it in a new buffer. -/
theorem setValue_ends : Ends (setValue container value borrow) memory
    (fun _ after => memory.buffers.size ≤ after.buffers.size ∧ ∀ id held,
      (after.container id).value = some held → (memory.container id).value = some held ∨
        memory.buffers.size ≤ held.buffer.index ∨ borrow = true ∧ held = value)
    (fun after => after = memory) := by
  refine Ends.after rfl ?_
  dsimp only
  by_cases released : (memory.container container).value.isNone = true
  · rw [if_pos released]
    exact Ends.throw rfl
  by_cases refused : (!(memory.container container).accepts value) = true
  · rw [if_neg released, if_pos refused]
    exact Ends.throw rfl
  rw [if_neg released, if_neg refused]
  cases borrow with
  | true =>
    refine ⟨Nat.le_refl _, fun id held found => ?_⟩
    rcases Memory.value_of_setContainer found with before | ⟨_, same⟩
    · exact Or.inl before
    · exact Or.inr (Or.inr ⟨rfl, (Option.some.inj same).symm⟩)
  | false =>
    have keeps := memory.keeps_allocate (memory.contents value)
    refine ⟨keeps.size, fun id held found => ?_⟩
    rcases Memory.value_of_setContainer found with before | ⟨_, same⟩
    · exact Or.inl (Memory.container_of_containers keeps.containers id ▸ before)
    · cases same
      exact Or.inr (Or.inl (Nat.le_refl _))

end Container

variable [Arithmetic α]

namespace Function

variable {function compiled : Function α} {source : Graph α} {heldOutside : BufferId → Bool}
  {arguments : List Value} {memory after : Memory α}

/-- Some handle on a buffer comes for a mutable input that the compiled graph overwrites. -/
def Passes (function : Function α) (arguments : List Value) (buffer : BufferId) : Prop :=
  ∃ (index : Nat) (argument : Argument) (value : Value) (id : NodeId),
    function.signature.arguments[index]? = some argument ∧ argument.mutable = true ∧
      function.graph.Overwrites id argument.var ∧ arguments[index]? = some value ∧
        value.buffer = buffer

/-- A buffer is held by no argument, by no container and by no constant. -/
structure Unheld (function : Function α) (arguments : List Value) (memory : Memory α)
    (buffer : BufferId) : Prop where
  argument : ∀ value ∈ arguments, value.buffer ≠ buffer
  container : ∀ id value, (memory.container id).value = some value → value.buffer ≠ buffer
  constant : ∀ value, function.HasConstant value → value.buffer ≠ buffer

/-- A function together with the memory, some time after its compilation, and values that it has
returned since and that the caller still has, without having put their buffers into a container.
Whoever says who holds a buffer knows of these values. Between calls containers may have been read and
set, and anything else may have been done that puts nothing into the containers of the function. -/
inductive Session (compiled : Function α) : Function α → Memory α → List Value → Prop
  | compiled (memory : Memory α) : Session compiled compiled memory []
  | call {function : Function α} {memory : Memory α} {kept left : List Value}
      (before : Session compiled function memory kept) (heldOutside : BufferId → Bool)
      (arguments : List Value) (trusts : function.Trusts heldOutside arguments memory)
      (held : ∀ value ∈ kept, heldOutside value.buffer = true)
      (since : ∀ value ∈ left, value ∈ kept ∨ ∃ values,
        (function.call heldOutside arguments memory).result = Except.ok values ∧ value ∈ values) :
      Session compiled (function.call heldOutside arguments memory).function
        (function.call heldOutside arguments memory).memory left
  | set {function : Function α} {memory after : Memory α} {kept left : List Value}
      {container : ContainerId} {value : Value} {borrow : Bool}
      (before : Session compiled function memory kept)
      (ran : Container.setValue container value borrow memory = .ok () after)
      (apart : ∀ other ∈ left, other ∈ kept ∧ (borrow = true → value.buffer ≠ other.buffer)) :
      Session compiled function after left
  | get {function : Function α} {memory after : Memory α} {kept : List Value}
      {container : ContainerId} {value : Value} {borrow : Bool}
      (before : Session compiled function memory kept)
      (ran : Container.getValue container borrow memory = .ok value after) :
      Session compiled function after kept
  | refused {function : Function α} {memory after : Memory α} {kept : List Value}
      {container : ContainerId} {value : Value} {borrow : Bool} {failure : Failure ContainerError}
      (before : Session compiled function memory kept)
      (ran : Container.setValue container value borrow memory = .error failure after ∨
        Container.getValue container borrow memory = .error failure after) :
      Session compiled function after kept
  | elsewhere {function : Function α} {memory after : Memory α} {kept left : List Value}
      (before : Session compiled function memory kept)
      (size : memory.buffers.size ≤ after.buffers.size)
      (containers : ∀ slot ∈ function.signature.shared, ∀ value,
        (after.container slot.container).value = some value →
          (memory.container slot.container).value = some value)
      (included : ∀ value ∈ left, value ∈ kept) : Session compiled function after left

theorem Session.reached {kept : List Value} (session : compiled.Session function memory kept) :
    compiled.Reached function := by
  induction session with
  | compiled => exact .compiled
  | @call function memory _ _ _ heldOutside arguments _ _ _ ih =>
    exact ih.call heldOutside arguments memory
  | set _ _ _ ih => exact ih
  | get _ _ ih => exact ih
  | refused _ _ ih => exact ih
  | elsewhere _ _ _ _ ih => exact ih

/-- What a function has no way to: values that exist and are in none of its containers. -/
structure Isolates (function : Function α) (memory : Memory α) (kept : List Value) : Prop where
  slots : memory.KnowsSlots function.executable.slots
  known : ∀ value ∈ kept, memory.Knows value
  apart : ∀ slot ∈ function.signature.shared, ∀ held,
    (memory.container slot.container).value = some held → ∀ value ∈ kept, held.buffer ≠ value.buffer

omit [Arithmetic α] in
theorem Isolates.later {kept left : List Value} (isolates : function.Isolates memory kept)
    (size : memory.buffers.size ≤ after.buffers.size) (included : ∀ value ∈ left, value ∈ kept)
    (containers : ∀ slot ∈ function.signature.shared, ∀ held,
      (after.container slot.container).value = some held →
        (memory.container slot.container).value = some held ∨
          ∀ value ∈ left, held.buffer ≠ value.buffer) : function.Isolates after left where
  slots := isolates.slots.within (.refl _) size
  known value member := Nat.lt_of_lt_of_le (isolates.known value (included value member)) size
  apart slot member held found value kept := by
    rcases containers slot member held found with before | apart
    · exact isolates.apart slot member held before value (included value kept)
    · exact apart value kept

omit [Arithmetic α] in
theorem Grants.container_ne {buffer : BufferId}
    (grants : function.Grants heldOutside memory arguments buffer)
    (vouches : memory.Vouches heldOutside arguments) {slot : SharedSlot}
    (member : slot ∈ function.signature.shared) {held : Value}
    (found : (memory.container slot.container).value = some held) : held.buffer ≠ buffer := by
  rcases grants with spares | ⟨position, argument, _, listed, _, _, exposes⟩
  · exact spares.ne (vouches.container found)
  · -- Of all inputs with this buffer the last one is exposed, and containers come after arguments.
    intro same
    have inside := (List.getElem?_eq_some_iff.mp listed).1
    rcases List.mem_iff_getElem?.mp member with ⟨place, listed'⟩
    rcases Signature.slot_input memory arguments listed' with ⟨_, _, handle, intact⟩
    rcases exposes.others _ held (handle.trans found) (intact held) same with equal | ⟨before, _⟩
    · omega
    · omega

section Step

variable {kept left : List Value} (origin : function.CompiledFrom source)
  (detached : function.Detached) (fresh : ∀ node ∈ source.nodes, node.op.Fresh)
  (trusts : function.Trusts heldOutside arguments memory) (isolates : function.Isolates memory kept)
include origin detached fresh trusts isolates

theorem concludes_call : function.Concludes heldOutside arguments memory
    (function.call heldOutside arguments memory).result
    (function.call heldOutside arguments memory).memory :=
  concludes_of_ended origin detached fresh trusts isolates.slots
    (ended_call function heldOutside arguments memory)

/-- A call isolates what it returns and leaves isolated what was so before. -/
theorem isolates_call (held : ∀ value ∈ kept, heldOutside value.buffer = true)
    (since : ∀ value ∈ left, value ∈ kept ∨ ∃ values,
      (function.call heldOutside arguments memory).result = Except.ok values ∧ value ∈ values) :
    (function.call heldOutside arguments memory).function.Isolates
      (function.call heldOutside arguments memory).memory left := by
  have concludes := concludes_call origin detached fresh trusts isolates
  rcases knowsSlots_call origin detached fresh trusts isolates.slots with ⟨size, slots⟩
  refine ⟨slots, ?_, ?_⟩
  · intro value member
    rcases since value member with old | ⟨values, answer, returned⟩
    · exact Nat.lt_of_lt_of_le (isolates.known value old) size
    · exact concludes.known values answer value returned
  · rcases function_call function heldOutside arguments memory with ⟨_, _, same⟩
    intro slot slotMem content found value member
    rw [same] at slotMem
    -- What was kept is held by the caller, and no container has its buffer. A new result is on none of
    -- the buffers that containers have been given, nor on one that they had.
    rcases since value member with old | ⟨values, answer, returned⟩
    · rcases concludes.container _ content found with ⟨before, had, sameBuffer⟩ | spares
      · exact sameBuffer ▸ isolates.apart slot slotMem before had value old
      · exact (spares.ne ⟨isolates.known value old, held value old⟩).symm
    · rcases concludes.apart values answer value returned _ content found with before | apart
      · exact (concludes.grants values answer value returned).container_ne trusts.toVouches slotMem
          before
      · exact apart

omit detached in
theorem tensor_of_isolates (held : ∀ value ∈ kept, heldOutside value.buffer = true) {value : Value}
    (member : value ∈ kept) (apart : ∀ argument ∈ arguments, argument.buffer ≠ value.buffer) :
    (function.call heldOutside arguments memory).memory.tensor value = memory.tensor value := by
  have framed := origin.framed (fun node member => (fresh node member).quiet) trusts.toVouches
    (ended_call function heldOutside arguments memory)
  refine congrArg (Tensor.mk _ _) (framed.read value.buffer (isolates.known value member) ?_)
  rintro (⟨index, var, listed, _, exposes⟩ | unheld)
  · rcases exposes.handle with ⟨handle, given, same⟩
    rcases Signature.inputVars_cases listed with ⟨_, found, _, _⟩ | ⟨position, slot, rfl, found, _, _⟩
    · rw [Signature.handle?_argument (List.getElem?_eq_some_iff.mp found).1] at given
      exact apart handle (List.mem_of_getElem? given) same
    · rw [(Signature.slot_input memory arguments found).2.2.1] at given
      exact isolates.apart slot (List.mem_of_getElem? found) handle given value member same
  · rw [held value member] at unheld
    cases unheld

/-- Right after a call, a result is on the buffer of a mutable argument that the graph overwrites, or
on one that nothing else of the function holds. -/
theorem unheld_of_returned {values : List Value} {value : Value}
    (answer : (function.call heldOutside arguments memory).result = Except.ok values)
    (member : value ∈ values) : function.Passes arguments value.buffer ∨
      function.Unheld arguments (function.call heldOutside arguments memory).memory
        value.buffer := by
  have concludes := concludes_call origin detached fresh trusts isolates
  rcases concludes.grants values answer value member with
    spares | ⟨position, argument, id, listed, isMutable, overwrites, exposes⟩
  · refine Or.inr ⟨fun argument given => spares.ne (trusts.arguments argument given), ?_, ?_⟩
    · intro container held found
      rcases concludes.apart values answer value member container held found with before | apart
      · exact spares.ne (trusts.toVouches.container before)
      · exact apart
    · intro constant isConstant
      rcases isConstant.elim id origin.kind_of_constant with ⟨var, kind⟩
      exact spares.ne (trusts.constants var constant kind)
  · rcases exposes.handle with ⟨handle, given, same⟩
    rw [Signature.handle?_argument (List.getElem?_eq_some_iff.mp listed).1] at given
    exact Or.inl ⟨position, argument, handle, id, listed, isMutable, overwrites, given, same⟩

end Step

theorem isolates_of_compile {compiler : Compiler α} {spec : FunctionSpec} {state final : Logged α}
    (compilation : compiler.compile source spec state = .ok compiled final) (memory : Memory α) :
    compiled.Isolates memory [] := by
  rcases Compiler.compile_eq_ok compilation with ⟨_, _, _, _, _, _, _, _, _, _, _, _, _, _, _, link⟩
  exact ⟨fun slot value held => absurd held (Executable.link_empty link slot value), by simp, by simp⟩

/-- Whatever happens in between, returned values that have not been put into a container stay
isolated. -/
theorem Session.isolates {kept : List Value} (session : compiled.Session function memory kept)
    (origin : compiled.CompiledFrom source) (detached : compiled.Detached)
    (fresh : ∀ node ∈ source.nodes, node.op.Fresh) (start : ∀ memory, compiled.Isolates memory []) :
    function.Detached ∧ function.Isolates memory kept := by
  induction session with
  | compiled memory => exact ⟨detached, start memory⟩
  | @call function memory kept left before heldOutside arguments trusts held since ih =>
    rcases ih with ⟨detached, isolates⟩
    refine ⟨?_, isolates_call (before.reached.compiledFrom origin) detached fresh trusts isolates held
      since⟩
    rcases function_call function heldOutside arguments memory with ⟨_, _, same⟩
    rw [same]
    exact { detached with }
  | set _ ran apart ih =>
    rcases ih with ⟨detached, isolates⟩
    rcases Container.setValue_ends.of_ok ran with ⟨size, contents⟩
    refine ⟨detached, isolates.later size (fun value member => (apart value member).1) ?_⟩
    intro slot member held found
    rcases contents slot.container held found with before | new | ⟨borrowed, rfl⟩
    · exact Or.inl before
    · right
      rintro value kept same
      exact absurd (isolates.known value (apart value kept).1) (by rw [Memory.Knows, ← same]; omega)
    · exact Or.inr fun value kept => (apart value kept).2 borrowed
  | get _ ran ih =>
    rcases ih with ⟨detached, isolates⟩
    have keeps := Container.getValue_keeps.of_ok ran
    refine ⟨detached, isolates.later keeps.size (fun _ member => member) ?_⟩
    intro slot _ held found
    rw [Memory.container_of_containers keeps.containers] at found
    exact Or.inl found
  | refused _ ran ih =>
    rcases ran with ran | ran
    · cases Container.setValue_ends.of_error ran
      exact ih
    · cases Container.getValue_keeps.of_error ran
      exact ih
  | elsewhere _ size containers included ih =>
    exact ⟨ih.1, ih.2.later size included fun slot member held found =>
      Or.inl (containers slot member held found)⟩

/-- Values that a function returns are isolated if none of its outputs borrows. Right after a call they
are on buffers of their own, each of which was passed for a mutable input that the compiled graph
overwrites or is held by nothing else of the function; and as long as a buffer is not put into a
container, no later call that is not given it as an argument changes its contents. -/
theorem isolated_of_session {compiler : Compiler α} {spec : FunctionSpec} {state final : Logged α}
    {kept : List Value} (standard : compiler.rules = Database.standard) (built : source.Built)
    (stored : source.ConstantsStored state.memory) (fresh : ∀ node ∈ source.nodes, node.op.Fresh)
    (compilation : compiler.compile source spec state = .ok compiled final)
    (strict : ∀ output ∈ spec.outputs, output.borrow = false)
    (session : compiled.Session function memory kept)
    (trusts : function.Trusts heldOutside arguments memory)
    (held : ∀ value ∈ kept, heldOutside value.buffer = true) :
    (∀ values, (function.call heldOutside arguments memory).result = Except.ok values →
      (values.map (·.buffer)).Nodup ∧ ∀ value ∈ values,
        function.Passes arguments value.buffer ∨
          function.Unheld arguments (function.call heldOutside arguments memory).memory
            value.buffer) ∧
    ∀ value ∈ kept, (∀ argument ∈ arguments, argument.buffer ≠ value.buffer) →
      (function.call heldOutside arguments memory).memory.tensor value = memory.tensor value := by
  have start := compiledFrom_of_compile standard built stored compilation
  have origin := session.reached.compiledFrom start
  rcases session.isolates start (detached_of_compile standard built stored compilation strict) fresh
    (isolates_of_compile compilation) with ⟨detached, isolates⟩
  have concludes := concludes_call origin detached fresh trusts isolates
  refine ⟨fun values answer => ⟨concludes.distinct values answer, fun value member => ?_⟩, ?_⟩
  · exact unheld_of_returned origin detached fresh trusts isolates answer member
  · exact fun value member apart =>
      tensor_of_isolates origin fresh trusts isolates held member apart

/-- A symbolic graph that negates a vector. -/
def negatedVector : Graph ℚ where
  vars := #[⟨ArrayType.ofRank .float64 1, .input, some "x"⟩,
    ⟨ArrayType.ofRank .float64 1, .output ⟨0⟩ 0, none⟩]
  nodes := #[⟨.elementwise .neg none, [⟨0⟩], [⟨1⟩]⟩]

/-- The negated vector, from a plan that keeps its buffers. -/
def negatedVectorSpec : FunctionSpec where
  inputs := [⟨⟨0⟩, none, false, false, false, none⟩]
  outputs := [⟨⟨1⟩, false⟩]
  updates := []
  mode := .given ⟨Query.none, "plan", false⟩
  options := ⟨.raise, false, true, none, false⟩
  link := ⟨false, false⟩

def negatedVectorFunction : Function ℚ where
  executable := ⟨⟨2, 1, [(0, .argument 0)], [⟨⟨0⟩, .elementwise .neg none, [0], [1], [0]⟩], [1]⟩,
    .plan, ⟨false, false⟩, #[none, none]⟩
  signature := ⟨[⟨⟨0⟩, some "x", ArrayType.ofRank .float64 1, false, false, false⟩], [], [],
    [⟨⟨1⟩, false⟩]⟩
  graph := ⟨negatedVector.vars, negatedVector.nodes.map some, [⟨0⟩], [⟨1⟩], [⟨0⟩]⟩
  report := ⟨[], []⟩
  profile := none

theorem built_negatedVector : negatedVector.Built := by
  let inputs : Graph ℚ := ⟨negatedVector.vars.take 1, #[]⟩
  have applied : inputs.apply (.elementwise .neg none) [⟨0⟩] =
      Except.ok ([⟨1⟩], negatedVector) := rfl
  exact .apply (.input .empty _ "x") applied

theorem compile_negatedVector (memory : Memory ℚ) :
    ∃ final, Compiler.standard.compile negatedVector negatedVectorSpec ⟨memory, []⟩ =
      .ok negatedVectorFunction final := by
  let captured := negatedVector.whole [⟨0⟩] [⟨1⟩]
  have resolved : (Compiler.standard : Compiler ℚ).modes.resolve negatedVectorSpec.mode =
      Except.ok ⟨Query.none, .plan, false⟩ := rfl
  have collected : Signature.collect memory negatedVector negatedVectorSpec.inputs
      negatedVectorSpec.outputs negatedVectorSpec.updates =
        Except.ok negatedVectorFunction.signature := rfl
  have capturing : Compilation.captureGraph negatedVector negatedVectorFunction.signature false =
      Except.ok captured := by
    unfold captured
    cbv
  have used : Compilation.checkUnused .raise negatedVectorFunction.signature captured
      ⟨memory, []⟩ = .ok () ⟨memory, []⟩ := by
    unfold captured
    cbv
  have guarding : Compilation.guardInputs negatedVectorFunction.signature captured =
      negatedVectorFunction.graph := by
    unfold captured
    cbv
  have protecting : negatedVectorFunction.graph.protectOutputs
      negatedVectorFunction.signature.inputContracts
      negatedVectorFunction.signature.outputContracts =
        Except.ok (0, negatedVectorFunction.graph) := by cbv
  have validated : negatedVectorFunction.graph.validate = Except.ok Orderings.empty := by cbv
  have link : Executable.link .plan ⟨false, false⟩ negatedVectorFunction.graph .empty =
      Except.ok (negatedVectorFunction.executable, []) := by cbv
  exact Compiler.compile_of_no_rules resolved collected capturing used rfl (guarding ▸ validated)
    (guarding ▸ protecting) validated link

def negatedVectorOutcome : CallOutcome ℚ :=
  negatedVectorFunction.call (·.index = 0) [⟨.float64, [2], ⟨0⟩⟩] ⟨#[#[1, 2]], #[]⟩

/-- The first call leaves its result in a slot. The second one writes to another buffer, for the
caller still has that result. -/
theorem isolated_of_session_negatedVector :
    negatedVectorOutcome.result = Except.ok [⟨.float64, [2], ⟨1⟩⟩] ∧
    (negatedVectorOutcome.function.call (·.index < 2) [⟨.float64, [2], ⟨0⟩⟩]
      negatedVectorOutcome.memory).memory.tensor ⟨.float64, [2], ⟨1⟩⟩ =
        ⟨.float64, [2], #[-1, -2]⟩ := by
  have answer : negatedVectorOutcome.result = Except.ok [⟨.float64, [2], ⟨1⟩⟩] := by cbv
  have memory : negatedVectorOutcome.memory = ⟨#[#[1, 2], #[-1, -2]], #[]⟩ := by cbv
  have graph : negatedVectorOutcome.function.graph = negatedVectorFunction.graph := by cbv
  have unfixed : ∀ var value, (negatedVectorFunction.graph.var var).kind ≠ .constant value := by
    rintro ⟨_ | _ | index⟩ value kind
    · cases kind
    · cases kind
    · cases kind
  rcases compile_negatedVector ⟨#[#[1, 2]], #[]⟩ with ⟨final, compilation⟩
  have stored : negatedVector.ConstantsStored ⟨#[#[1, 2]], #[]⟩ :=
    Graph.constantsStored_of_forall_ne (by simp [negatedVector]) _
  have fresh : ∀ node ∈ negatedVector.nodes, node.op.Fresh := by
    simp [negatedVector, Op.Fresh]
  have session : negatedVectorFunction.Session negatedVectorOutcome.function
      negatedVectorOutcome.memory [⟨.float64, [2], ⟨1⟩⟩] :=
    .call (.compiled ⟨#[#[1, 2]], #[]⟩) (·.index = 0) [⟨.float64, [2], ⟨0⟩⟩]
      ⟨⟨by simp [Memory.Knows], by simp⟩, fun var value kind => absurd kind (unfixed var value)⟩
      (by simp) fun value member => Or.inr ⟨_, answer, member⟩
  have trusts : negatedVectorOutcome.function.Trusts (·.index < 2) [⟨.float64, [2], ⟨0⟩⟩]
      negatedVectorOutcome.memory := by
    rw [memory]
    exact ⟨⟨by simp [Memory.Knows], by simp⟩,
      fun var value kind => absurd (graph ▸ kind) (unfixed var value)⟩
  have kept := (isolated_of_session rfl built_negatedVector stored fresh compilation
    (by simp [negatedVectorSpec]) session trusts (by simp)).2 _ List.mem_cons_self (by simp)
  refine ⟨answer, kept.trans ?_⟩
  rw [memory]
  rfl

end Function

end ArrayGraph
