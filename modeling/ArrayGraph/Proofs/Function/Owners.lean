import ArrayGraph.Proofs.Alias.Contracts
import ArrayGraph.Proofs.Function.Constants
import ArrayGraph.Proofs.Run.Sharing

/-!
# Storage that calls hand out

If no output of a function borrows then the outputs of its compiled graph live in storage of their
own, with two exceptions: a result may live in a mutable argument that the graph overwrites, and an
update in the container that it is for. In a call these inputs have buffers to themselves, so that
everything a call computes is on a buffer of its own.
-/

namespace ArrayGraph

variable {α : Type} [Arithmetic α]

namespace Signature

variable {signature : Signature} {index : Nat}

theorem outputContracts_update {slot : SharedSlot} {expression : VarId}
    (listed : signature.updated[index]? = some (slot, expression)) :
    signature.outputContracts[signature.outputs.length + index]? = some ⟨false, some slot.var⟩ := by
  rw [outputContracts, List.getElem?_append_right (by simp)]
  simp [listed]

/-- The contracts of a function of which no output borrows. -/
theorem outputContracts_strict (strict : ∀ output ∈ signature.outputs, output.borrow = false) :
    (∀ contract ∈ signature.outputContracts, contract.borrow = false) ∧
      ∀ index < signature.outputs.length,
        signature.outputContracts[index]? = some ⟨false, none⟩ := by
  constructor
  · intro contract member
    rcases List.mem_append.mp member with member | member
    · rcases List.mem_map.mp member with ⟨output, outputMem, rfl⟩
      exact strict output outputMem
    · rcases List.mem_map.mp member with ⟨entry, _, rfl⟩
      rfl
  · intro index inside
    rw [outputContracts, List.getElem?_append_left (by simpa using inside), List.getElem?_map,
      List.getElem?_eq_getElem inside]
    simp [strict _ (List.getElem_mem inside)]

omit [Arithmetic α] in
/-- The position of an argument among the inputs. -/
theorem argument_input {argument : Argument} (listed : signature.arguments[index]? = some argument) :
    signature.inputVars[index]? = some argument.var ∧
      signature.writable[index]? = some argument.mutable := by
  have inside := (List.getElem?_eq_some_iff.mp listed).1
  constructor
  · rw [inputVars, List.getElem?_append_left (by simpa using inside)]
    simp [listed]
  · rw [writable, List.getElem?_append_left (by simpa using inside)]
    simp [listed]

end Signature

namespace Function

variable {compiler : Compiler α} {source : Graph α} {spec : FunctionSpec} {state final : Logged α}
  {function : Function α}

/-- The outputs of a function have different owners. If one of them is a root then it is a mutable
argument that the graph overwrites, or the container that is updated. -/
structure Detached (function : Function α) : Prop where
  length : function.graph.outputs.length =
    function.signature.outputs.length + function.signature.updated.length
  distinct : ∀ (index other : Nat) root, function.graph.outputRoot? index = some root →
    function.graph.outputRoot? other = some root → index = other
  result : ∀ (index : Nat) root, index < function.signature.outputs.length →
    function.graph.outputRoot? index = some root → function.graph.Supplies root →
      ∃ argument ∈ function.signature.arguments, argument.var = root ∧
        ∃ id, function.graph.Overwrites id root
  update : ∀ (index : Nat) slot expression root,
    function.signature.updated[index]? = some (slot, expression) →
      function.graph.outputRoot? (function.signature.outputs.length + index) = some root →
        function.graph.Supplies root → root = slot.var

/-- If the contracts of a function are kept, and none of its outputs borrows, then its outputs live in
storage of their own. -/
theorem Detached.of_honours {start after : Memory α}
    (represents : function.Represents source start after) (wellFormed : function.graph.WellFormed)
    (lists : function.signature.Lists source)
    (strict : ∀ output ∈ function.signature.outputs, output.borrow = false)
    (honours : function.graph.Honours function.signature.inputContracts
      function.signature.outputContracts) : function.Detached := by
  rcases Signature.outputContracts_strict strict with ⟨unborrowed, plain⟩
  have length : function.graph.outputs.length =
      function.signature.outputs.length + function.signature.updated.length := by
    simpa [Signature.outputVars] using congrArg List.length represents.types
  have agreed : ∀ {index root}, function.graph.outputRoot? index = some root →
      ∃ contract, function.signature.outputContracts[index]? = some contract ∧
        contract.borrow = false := by
    intro index root found
    rcases Dataflow.outputRoot?_eq_some.mp found with ⟨output, listed, _⟩
    have inside := (List.getElem?_eq_some_iff.mp listed).1
    have sized : index < function.signature.outputContracts.length := by
      simpa [Signature.outputContracts, length] using inside
    exact ⟨_, List.getElem?_eq_getElem sized, unborrowed _ (List.getElem_mem sized)⟩
  have unsupplied : ∀ {root id position}, (function.graph.var root).kind = .output id position →
      ¬function.graph.Supplies root :=
    fun kind supplies => supplies.2 (wellFormed.source?_of_output kind)
  refine ⟨length, ?_, ?_, ?_⟩
  · intro index other root found found'
    by_contra different
    rcases agreed found with ⟨contract, listed, borrow⟩
    rcases agreed found' with ⟨contract', listed', _⟩
    have shared := honours.apart index contract other contract' listed listed' different
      (found.trans found'.symm)
    simp [borrow] at shared
  · intro index root inside found supplies
    have allows := honours.owners index _ root (plain index inside) found
    cases kind : (function.graph.var root).kind with
    | shared container => exact absurd kind (allows.shared rfl container)
    | constant value => simpa using allows.constant rfl value kind
    | output id position => exact absurd supplies (unsupplied kind)
    | input =>
      rcases allows.input rfl kind with ⟨input, listed, borrow⟩
      have sameVar : input.var = root := by simpa using List.find?_some listed
      rcases List.mem_append.mp (List.mem_of_find?_eq_some listed) with member | member
      · rcases List.mem_map.mp member with ⟨argument, argumentMem, rfl⟩
        refine ⟨argument, argumentMem, sameVar, Dataflow.mem_destroyedRoots.mp ?_⟩
        by_contra unwritten
        simpa using (borrow rfl unwritten).2
      · -- Variables of containers are of another kind.
        rcases List.mem_map.mp member with ⟨slot, slotMem, rfl⟩
        have shared := lists.shared slot slotMem
        have known : slot.var.index < source.vars.size :=
          (Array.getElem?_eq_some_iff.mp shared.choose_spec.1).1
        rw [← sameVar, represents.var slot.var known, Graph.kind_whole shared] at kind
        cases kind
  · intro index slot expression root listed found supplies
    have allows := honours.owners _ _ root (Signature.outputContracts_update listed) found
    rcases allows.update slot.var rfl with same | ⟨id, position, kind⟩
    · exact same
    · exact absurd supplies (unsupplied kind)

theorem detached_of_compile (standard : compiler.rules = Database.standard) (built : source.Built)
    (stored : source.ConstantsStored state.memory)
    (compiled : compiler.compile source spec state = .ok function final)
    (strict : ∀ output ∈ spec.outputs, output.borrow = false) : function.Detached := by
  have represents := Compiler.represents_of_compile standard built stored compiled
  have origin := compiledFrom_of_compile standard built stored compiled
  rcases Compiler.serves_of_compile standard built stored compiled with
    ⟨_, _, optimized, _, _, _, _, _, validated, protecting, serves⟩
  rcases Compiler.compile_eq_ok compiled with ⟨_, _, _, _, _, _, _, _, _, _, collected, _⟩
  have formed := (serves (fun _ _ => Checked.abort (.noSuchOperand 0)) (fun _ => False) (by simp)
    (by simp) (by simp)).toFormed
  rw [← (Signature.declares_of_collect collected).outputs] at strict
  exact .of_honours represents origin.formed.toWellFormed origin.lists strict
    (Dataflow.honours_of_strict formed validated (Signature.outputContracts_strict strict).1 protecting)

variable {heldOutside : BufferId → Bool} {memory prepared after : Memory α}
  {arguments inputs outputs : List Value}

/-- An input comes with the value at its position. -/
theorem CompiledFrom.rootValue?_eq (origin : function.CompiledFrom source) {index : Nat}
    {root : VarId} (listed : function.signature.inputVars[index]? = some root) :
    function.graph.rootValue? memory inputs root = inputs[index]? := by
  have declared : root ∈ function.graph.inputs := origin.inputs ▸ List.mem_of_getElem? listed
  rcases origin.position_of_input declared with ⟨position, listed', same⟩
  have inside := (List.getElem?_eq_some_iff.mp listed).1
  cases (List.getElem?_inj inside origin.lists.nodup_inputVars).mp (listed.trans listed'.symm)
  exact same memory inputs

/-- Storage that a call gives for a result: it has it for itself, or it is that of a mutable argument
that the graph overwrites. -/
def Grants (function : Function α) (heldOutside : BufferId → Bool) (memory : Memory α)
    (arguments : List Value) (buffer : BufferId) : Prop :=
  memory.Spares heldOutside buffer ∨ ∃ (position : Nat) (argument : Argument) (id : NodeId),
    function.signature.arguments[position]? = some argument ∧ argument.mutable = true ∧
      function.graph.Overwrites id argument.var ∧
        function.signature.Exposes memory arguments position buffer

/-- What a call computes: its results and then its updates, each on a buffer of its own. An update
may be on the buffer of its container. -/
structure Computed (function : Function α) (heldOutside : BufferId → Bool) (memory : Memory α)
    (arguments outputs : List Value) (after : Memory α) : Prop where
  length : outputs.length = function.signature.outputs.length + function.signature.updated.length
  known : ∀ value ∈ outputs, after.Knows value
  distinct : (outputs.map (·.buffer)).Nodup
  result : ∀ (index : Nat) value, index < function.signature.outputs.length →
    outputs[index]? = some value → function.Grants heldOutside memory arguments value.buffer
  update : ∀ (index : Nat) slot expression value,
    function.signature.updated[index]? = some (slot, expression) →
      outputs[function.signature.outputs.length + index]? = some value →
        memory.Spares heldOutside value.buffer ∨ ∃ held,
          (memory.container slot.container).value = some held ∧ held.buffer = value.buffer

section Outputs

variable (origin : function.CompiledFrom source) (detached : function.Detached)
include origin detached

/-- A result that lives in a root lives in a mutable argument that the graph overwrites. -/
theorem Detached.argument {index : Nat} {root : VarId}
    (inside : index < function.signature.outputs.length)
    (found : function.graph.outputRoot? index = some root)
    (supplies : function.graph.Supplies root) :
    ∃ (position : Nat) (argument : Argument) (id : NodeId),
      function.signature.arguments[position]? = some argument ∧ argument.mutable = true ∧
        argument.var = root ∧ function.graph.Overwrites id root := by
  rcases detached.result index root inside found supplies with ⟨argument, member, rfl, id, overwrites⟩
  rcases List.mem_iff_getElem?.mp member with ⟨position, listed⟩
  rcases Signature.argument_input listed with ⟨input, writable⟩
  rcases origin.writable_of_overwrites supplies overwrites with ⟨other, input', writable', _⟩
  have known := (List.getElem?_eq_some_iff.mp input).1
  cases (List.getElem?_inj known origin.lists.nodup_inputVars).mp (input.trans input'.symm)
  exact ⟨position, argument, id, listed, Option.some.inj (writable.symm.trans writable'), rfl,
    overwrites⟩

omit [Arithmetic α] origin in
/-- An update that lives in a root lives in its container. -/
theorem Detached.slot {index : Nat} {slot : SharedSlot} {expression root : VarId}
    (listed : function.signature.updated[index]? = some (slot, expression))
    (found : function.graph.outputRoot? (function.signature.outputs.length + index) = some root)
    (supplies : function.graph.Supplies root) :
    ∃ position : Nat, function.signature.shared[position]? = some slot ∧
      function.signature.inputVars[function.signature.arguments.length + position]? = some root ∧
      function.signature.writable[function.signature.arguments.length + position]? = some true := by
  rcases Signature.mem_updated.mp (List.mem_of_getElem? listed) with ⟨member, updated⟩
  rcases List.mem_iff_getElem?.mp member with ⟨position, found'⟩
  rcases Signature.slot_input (Memory.empty : Memory α) [] found' with ⟨input, writable, _⟩
  rw [detached.update index slot expression root listed found supplies]
  exact ⟨position, found', input, by simpa [updated] using writable⟩

/-- An output that lives in a root lives in an input that may be overwritten. -/
theorem Detached.writable {index : Nat} {root : VarId}
    (found : function.graph.outputRoot? index = some root)
    (supplies : function.graph.Supplies root) :
    ∃ position : Nat, function.signature.inputVars[position]? = some root ∧
      function.signature.writable[position]? = some true := by
  by_cases inside : index < function.signature.outputs.length
  · rcases detached.argument origin inside found supplies with
      ⟨position, argument, _, listed, isMutable, rfl, _⟩
    rcases Signature.argument_input listed with ⟨input, writable⟩
    exact ⟨position, input, writable.trans (congrArg some isMutable)⟩
  · rcases Dataflow.outputRoot?_eq_some.mp found with ⟨_, output, _⟩
    have below := (List.getElem?_eq_some_iff.mp output).1
    rcases Nat.exists_eq_add_of_le (Nat.le_of_not_lt inside) with ⟨later, rfl⟩
    rw [detached.length, Nat.add_lt_add_iff_left] at below
    rcases detached.slot (List.getElem?_eq_getElem below) found supplies with ⟨_, _, place⟩
    exact ⟨_, place⟩

variable (prepares : function.signature.Prepares memory arguments inputs prepared)
  (handsOut : function.graph.HandsOut heldOutside prepared inputs outputs after)

omit detached in
include handsOut in
/-- An output that lives in an input is on the buffer of the input. -/
theorem CompiledFrom.input_of_output {index position : Nat} {root : VarId} {value : Value}
    (given : outputs[index]? = some value) (found : function.graph.outputRoot? index = some root)
    (supplies : function.graph.Supplies root)
    (listed : function.signature.inputVars[position]? = some root) :
    ∃ input : Value, inputs[position]? = some input ∧ input.buffer = value.buffer := by
  rcases handsOut.rooted index root value found given supplies with ⟨input, rooted, same⟩
  exact ⟨input, origin.rootValue?_eq listed ▸ rooted, same⟩

include prepares handsOut

/-- Outputs of different owners are on different buffers: inputs that may be overwritten are on buffers
of their own. -/
theorem Detached.distinct_buffers : (outputs.map (·.buffer)).Nodup := by
  rw [List.Nodup, List.pairwise_map, List.pairwise_iff_getElem]
  intro index other inside inside' before same
  have given := List.getElem?_eq_getElem inside
  have given' := List.getElem?_eq_getElem inside'
  rcases handsOut.exists_root given with ⟨first, found⟩
  rcases handsOut.exists_root given' with ⟨second, found'⟩
  have different : first ≠ second := by
    rintro rfl
    exact absurd (detached.distinct index other first found found') (Nat.ne_of_lt before)
  rcases handsOut.apart index other first second _ _ found found' given given' same with
    equal | ⟨supplies, supplies'⟩
  · exact different equal
  · rcases detached.writable origin found supplies with ⟨position, listed, writable⟩
    rcases detached.writable origin found' supplies' with ⟨position', listed', _⟩
    rcases origin.input_of_output handsOut given found supplies listed with
      ⟨input, atFirst, sameInput⟩
    rcases origin.input_of_output handsOut given' found' supplies' listed' with
      ⟨input', atSecond, sameInput'⟩
    refine prepares.apart position position' input input' writable ?_ atFirst atSecond
      (sameInput.trans (same.trans sameInput'.symm))
    rintro rfl
    exact different (Option.some.inj (listed.symm.trans listed'))

theorem Detached.grants {index : Nat} {value : Value}
    (inside : index < function.signature.outputs.length) (given : outputs[index]? = some value) :
    function.Grants heldOutside memory arguments value.buffer := by
  rcases handsOut.exists_root given with ⟨root, found⟩
  by_cases supplies : function.graph.Supplies root
  · rcases detached.argument origin inside found supplies with
      ⟨position, argument, id, listed, isMutable, rfl, overwrites⟩
    rcases Signature.argument_input listed with ⟨input, writable⟩
    rcases origin.input_of_output handsOut given found supplies input with ⟨input, listedInput, same⟩
    rw [isMutable] at writable
    rcases prepares.own position input writable listedInput with new | exposes
    · exact Or.inl (Or.inr (same ▸ new))
    · exact Or.inr ⟨position, argument, id, listed, isMutable, overwrites, same ▸ exposes⟩
  · exact Or.inl ((handsOut.owned index root value found given supplies).imp_right
      (Nat.le_trans prepares.keeps.size))

theorem Detached.update_buffer {index : Nat} {slot : SharedSlot} {expression : VarId} {value : Value}
    (listed : function.signature.updated[index]? = some (slot, expression))
    (given : outputs[function.signature.outputs.length + index]? = some value) :
    memory.Spares heldOutside value.buffer ∨ ∃ held,
      (memory.container slot.container).value = some held ∧ held.buffer = value.buffer := by
  rcases handsOut.exists_root given with ⟨root, found⟩
  by_cases supplies : function.graph.Supplies root
  · rcases detached.slot listed found supplies with ⟨position, listedSlot, input, writable⟩
    rcases origin.input_of_output handsOut given found supplies input with ⟨input, listedInput, same⟩
    rcases prepares.own _ input writable listedInput with new | exposes
    · exact Or.inl (Or.inr (same ▸ new))
    · rcases exposes.handle with ⟨held, handled, sameHeld⟩
      rw [(Signature.slot_input memory arguments listedSlot).2.2.1] at handled
      exact Or.inr ⟨held, handled, sameHeld.trans same⟩
  · exact Or.inl ((handsOut.owned _ root value found given supplies).imp_right
      (Nat.le_trans prepares.keeps.size))

theorem computed_of_handsOut : function.Computed heldOutside memory arguments outputs after where
  length := handsOut.length.trans detached.length
  known := handsOut.known
  distinct := detached.distinct_buffers origin prepares handsOut
  result _ _ inside given := detached.grants origin prepares handsOut inside given
  update _ _ _ _ listed given := detached.update_buffer origin prepares handsOut listed given

end Outputs

variable {result : Checked FunctionError (List Value)}

/-- What comes of a call. A container is left with a buffer that it had or with one that nobody else
holds. Results are on buffers of their own, which are given to no container. -/
structure Concludes (function : Function α) (heldOutside : BufferId → Bool) (arguments : List Value)
    (memory : Memory α) (result : Checked FunctionError (List Value)) (after : Memory α) : Prop where
  container : ∀ id held, (after.container id).value = some held →
    (∃ before, (memory.container id).value = some before ∧ before.buffer = held.buffer) ∨
      memory.Spares heldOutside held.buffer
  distinct : ∀ values, result = Except.ok values → (values.map (·.buffer)).Nodup
  known : ∀ values, result = Except.ok values → ∀ value ∈ values, after.Knows value
  grants : ∀ values, result = Except.ok values → ∀ value ∈ values,
    function.Grants heldOutside memory arguments value.buffer
  apart : ∀ values, result = Except.ok values → ∀ value ∈ values, ∀ id held,
    (after.container id).value = some held →
      (memory.container id).value = some held ∨ held.buffer ≠ value.buffer

omit [Arithmetic α] in
theorem concludes_of_failed {failure : Failure FunctionError}
    (containers : after.containers = memory.containers) :
    function.Concludes heldOutside arguments memory (Except.error failure) after where
  container id held found :=
    Or.inl ⟨held, Memory.container_of_containers containers id ▸ found, rfl⟩
  distinct := by simp
  known := by simp
  grants := by simp
  apart := by simp

omit [Arithmetic α] in
/-- A call that has computed its outputs may have put some of the updates into their containers. -/
theorem concludes_of_computed {outputs : List Value}
    (computed : function.Computed heldOutside memory arguments outputs after)
    (results : ∀ values, result = Except.ok values →
      values = outputs.take function.signature.outputs.length)
    (containers : ∀ id held, (after.container id).value = some held →
      (memory.container id).value = some held ∨ ∃ (index : Nat) (slot : SharedSlot)
        (expression : VarId), function.signature.updated[index]? = some (slot, expression) ∧
          slot.container = id ∧ outputs[function.signature.outputs.length + index]? = some held) :
    function.Concludes heldOutside arguments memory result after := by
  have listed : ∀ {value}, value ∈ outputs.take function.signature.outputs.length →
      ∃ index : Nat, index < function.signature.outputs.length ∧ outputs[index]? = some value := by
    intro value member
    rcases List.mem_take_iff_getElem.mp member with ⟨index, inside, same⟩
    exact ⟨index, by omega, List.getElem?_eq_some_iff.mpr ⟨by omega, same⟩⟩
  refine ⟨?_, ?_, ?_, ?_, ?_⟩
  · intro id held found
    rcases containers id held found with before | ⟨index, slot, expression, updated, rfl, given⟩
    · exact Or.inl ⟨held, before, rfl⟩
    · exact (computed.update index slot expression held updated given).symm
  · intro values answer
    rw [results values answer, List.map_take]
    exact computed.distinct.sublist (List.take_sublist _ _)
  · intro values answer value member
    rw [results values answer] at member
    exact computed.known value (List.mem_of_mem_take member)
  · intro values answer value member
    rw [results values answer] at member
    rcases listed member with ⟨index, inside, given⟩
    exact computed.result index value inside given
  · intro values answer value member id held found
    rw [results values answer] at member
    rcases listed member with ⟨index, inside, given⟩
    rcases containers id held found with before | ⟨other, _, _, _, _, given'⟩
    · exact Or.inl before
    · right
      intro same
      have equal := Op.index_eq_of_buffer computed.distinct given given' same.symm
      omega

omit [Arithmetic α] in
theorem Computed.later {outputs : List Value} {later : Memory α}
    (computed : function.Computed heldOutside memory arguments outputs after)
    (size : after.buffers.size ≤ later.buffers.size) :
    function.Computed heldOutside memory arguments outputs later :=
  { computed with
    known := fun value member => Nat.lt_of_lt_of_le (computed.known value member) size }

section Call

variable (origin : function.CompiledFrom source) (detached : function.Detached)
  (fresh : ∀ node ∈ source.nodes, node.op.Fresh)
  (trusts : function.Trusts heldOutside arguments memory)
  (known : memory.KnowsSlots function.executable.slots)
include origin detached fresh trusts known

theorem computed_of_run
    (prepares : function.signature.Prepares memory arguments inputs prepared) :
    (function.executable.run heldOutside inputs prepared).memory.KnowsSlots
        (function.executable.run heldOutside inputs prepared).executable.slots ∧
      ∀ outputs, (function.executable.run heldOutside inputs prepared).result = Except.ok outputs →
        function.Computed heldOutside memory arguments outputs
          (function.executable.run heldOutside inputs prepared).memory := by
  have freshOps : ∀ id node, function.graph.node? id = some node → node.op.Fresh := by
    intro id node live
    rcases origin.ops id node live with plain | ⟨content, member, same⟩
    · exact fun host isHost => absurd isHost (plain.1 host)
    · exact same ▸ fresh content member
  rcases origin.laysOut_sound with ⟨order, vars, safe, laysOut, sound⟩
  have framed := Dataflow.framed_of_run origin.formed.toWellFormed origin.closed safe laysOut sound
    (fun id node live => (freshOps id node live).quiet) origin.size_slots heldOutside inputs prepared
  rcases Dataflow.handsOut_of_ran origin.formed.toWellFormed safe origin.closed laysOut freshOps
    (trusts.executable origin prepares) (known.within (.refl _) prepares.keeps.size)
    (function.executable.ran_run heldOutside inputs prepared) framed.size with ⟨slots, handsOut⟩
  exact ⟨slots, fun outputs ran => computed_of_handsOut origin detached prepares (handsOut outputs ran)⟩

/-- However a call ends, it leaves handles on existing buffers in the slots. -/
theorem knowsSlots_call :
    memory.buffers.size ≤ (function.call heldOutside arguments memory).memory.buffers.size ∧
      (function.call heldOutside arguments memory).memory.KnowsSlots
        (function.call heldOutside arguments memory).function.executable.slots := by
  have quiet : ∀ node ∈ source.nodes, node.op.Quiet := fun node member => (fresh node member).quiet
  rcases origin.call_cases quiet trusts.toVouches with
    ⟨keeps, same⟩ | ⟨inputs, prepared, prepares, same, stores⟩
  · rw [same]
    exact ⟨keeps.size, known.within (.refl _) keeps.size⟩
  · have size := (origin.framed_run quiet heldOutside prepares).size
    have slots := (computed_of_run origin detached fresh trusts known prepares).1
    have sameSize := congrArg Array.size stores.buffers
    rw [same]
    exact ⟨size.trans_eq sameSize.symm, slots.within (.refl _) sameSize.ge⟩

/-- Whichever updates have been put into their containers by the end, they are outputs of the run. -/
theorem concludes_of_written {outputs : List Value} {entries : List (ContainerId × Value)}
    (prepares : function.signature.Prepares memory arguments inputs prepared)
    (ran : (function.executable.run heldOutside inputs prepared).result = Except.ok outputs)
    (included : ∀ entry ∈ entries, entry ∈ updateEntries function.signature
      (outputs.drop function.signature.outputs.length))
    (results : ∀ values, result = Except.ok values →
      values = outputs.take function.signature.outputs.length) :
    function.Concludes heldOutside arguments memory result
      ((function.executable.run heldOutside inputs prepared).memory.store entries) := by
  have frame := origin.framed_run (fun node member => (fresh node member).quiet) heldOutside prepares
  have computed := (computed_of_run origin detached fresh trusts known prepares).2 outputs ran
  refine concludes_of_computed (computed.later (by rw [Memory.buffers_store])) results ?_
  intro id value held
  rcases Memory.value_of_store held with before | member
  · rw [Memory.container_of_containers frame.containers] at before
    exact Or.inl before
  · rcases getElem?_of_mem_updateEntries (included _ member) with
      ⟨index, slot, expression, listed, same, given⟩
    exact Or.inr ⟨index, slot, expression, listed, same, by simpa using given⟩

theorem concludes_of_ended (ended : function.Ended heldOutside arguments memory result after) :
    function.Concludes heldOutside arguments memory result after := by
  have quiet : ∀ node ∈ source.nodes, node.op.Quiet := fun node member => (fresh node member).quiet
  cases ended with
  | unprepared failed =>
    exact concludes_of_failed ((prepare_ends trusts.toVouches).of_error failed).1.containers
  | unfinished ready failed =>
    have prepares := (prepare_ends trusts.toVouches).of_ok ready
    exact concludes_of_failed (origin.framed_run quiet heldOutside prepares).containers
  | unwritten ready ran failed =>
    have prepares := (prepare_ends trusts.toVouches).of_ok ready
    rcases (writeBack_stores _ _ (origin.held_run quiet heldOutside prepares)).of_error failed with
      ⟨entries, included, same⟩
    rw [same]
    exact concludes_of_written origin detached fresh trusts known prepares ran included (by simp)
  | finished ready ran wrote =>
    have prepares := (prepare_ends trusts.toVouches).of_ok ready
    rcases (writeBack_stores _ _ (origin.held_run quiet heldOutside prepares)).of_ok wrote with
      ⟨entries, included, same⟩
    rw [same]
    exact concludes_of_written origin detached fresh trusts known prepares ran included (by simp)

end Call

end Function

end ArrayGraph
