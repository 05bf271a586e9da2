import ArrayGraph.Proofs.Function.Protected

/-!
# What a failed call leaves behind

Containers are given their new values at the end of a call only, one after the other. So a call that
fails before has given none of them another value, and if a container refuses its update, then this
container and those after it are as they were. The contents of what a container holds have changed only
if they are on the buffer that the run was given for an updated container, and a node that was run before
the failure overwrites it.
-/

namespace ArrayGraph

variable {α : Type}

/-- Writing back has stopped at the update that has a certain position, since its container refuses the
value. The containers of this update and of all later ones are as they were. Those of earlier updates
hold what they held or the value that their update has come to. -/
structure Signature.Interrupted (signature : Signature) (memory : Memory α) (values : List Value)
    (position : Nat) (failure : Failure FunctionError) (after : Memory α) : Prop where
  refused : ∃ slot expression value, signature.updated[position]? = some (slot, expression) ∧
    values[position]? = some value ∧ ¬(memory.container slot.container).accepts value ∧
    failure = Failure.error (.container (.typeMismatch (memory.container slot.container).name
      (memory.container slot.container).type value.type))
  later : ∀ index slot expression, position ≤ index →
    signature.updated[index]? = some (slot, expression) →
      after.container slot.container = memory.container slot.container
  earlier : ∀ index slot expression value, index < position →
    signature.updated[index]? = some (slot, expression) → values[index]? = some value →
      after.container slot.container = memory.container slot.container ∨
      after.container slot.container = { memory.container slot.container with value := some value }

namespace Function

/-- A failure to write back leaves the containers from the refused one on as they were. -/
theorem interrupted_of_writeBack {signature : Signature} {values : List Value}
    {state final : Logged α} {failure : Failure FunctionError}
    (distinct : (signature.shared.map (·.container)).Nodup)
    (held : ∀ slot ∈ signature.shared, (state.memory.container slot.container).value ≠ none)
    (failed : writeBack signature values state = .error failure final) :
    ∃ position, signature.Interrupted state.memory values position failure final.memory := by
  rcases writeBack_cases values state held with
    ⟨_, wrote⟩ | ⟨done, container, value, rest, split, _, refusal, stopped⟩
  · rw [failed] at wrote
    cases wrote
  rw [failed] at stopped
  cases stopped
  have entries : ∀ {index : Nat} {entry}, index < done.length →
      ((updateEntries signature values)[index]? = some entry ↔ done[index]? = some entry) := by
    intro index entry inside
    rw [split, List.getElem?_append_left inside]
  have doneHeld : ∀ entry ∈ done, (state.memory.container entry.1).value ≠ none := by
    rintro ⟨other, content⟩ member
    have listed : (other, content) ∈ updateEntries signature values := by
      rw [split]
      exact List.mem_append_left _ member
    rcases mem_updateEntries listed with ⟨slot, slotMem, _, rfl⟩
    exact held slot slotMem
  have doneDistinct : (done.map (·.1)).Nodup := by
    have whole := nodup_updateEntries distinct values
    rw [split, List.map_append] at whole
    exact (List.nodup_append.mp whole).1
  refine ⟨done.length, ?_, ?_, ?_⟩
  · have found : (updateEntries signature values)[done.length]? = some (container, value) := by
      simp [split]
    rcases getElem?_updateEntries.mp found with ⟨slot, expression, listed, rfl, given⟩
    exact ⟨slot, expression, value, listed, given, refusal, rfl⟩
  · intro index slot expression late listed
    apply Memory.container_store_of_notMem
    intro content member
    -- An earlier update of the same container would be the same update.
    rcases List.mem_iff_getElem?.mp member with ⟨index', found⟩
    have inside := (List.getElem?_eq_some_iff.mp found).1
    rcases getElem?_updateEntries.mp ((entries inside).mpr found) with ⟨slot', _, listed', same, _⟩
    have sameIndex : index' = index := by
      refine (List.getElem?_inj ?_ (Signature.nodup_updated distinct)).mp ?_
      · simpa using (List.getElem?_eq_some_iff.mp listed').1
      · simp [listed, listed', same]
    omega
  · intro index slot expression content before listed given
    right
    refine Memory.container_store_of_mem doneDistinct doneHeld (List.mem_of_getElem? (i := index) ?_)
    rw [← entries before]
    exact getElem?_updateEntries.mpr ⟨slot, expression, listed, rfl, given⟩

variable [Arithmetic α] {compiler : Compiler α} {source : Graph α} {spec : FunctionSpec}
  {state final : Logged α} {compiled function : Function α} {heldOutside : BufferId → Bool}
  {arguments : List Value} {memory after : Memory α} {failure : Failure FunctionError}

/-- A call that fails has given no container another value, unless its graph has been run to the end
and a container has refused its update. -/
theorem CompiledFrom.containers_of_failed (compiled : function.CompiledFrom source)
    (quiet : ∀ node ∈ source.nodes, node.op.Quiet) (vouches : memory.Vouches heldOutside arguments)
    (ended : function.Ended heldOutside arguments memory (Except.error failure) after) :
    after.containers = memory.containers ∨
    ∃ inputs prepared outputs position,
      prepare function.signature arguments ⟨memory, []⟩ = .ok inputs prepared ∧
      (function.executable.run heldOutside inputs prepared.memory).result = Except.ok outputs ∧
      function.signature.Interrupted memory (outputs.drop function.signature.outputs.length) position
        failure after := by
  cases ended with
  | unprepared failed => exact Or.inl ((prepare_ends vouches).of_error failed).1.containers
  | unfinished ready _ =>
    exact Or.inl (compiled.framed_run quiet heldOutside ((prepare_ends vouches).of_ok ready)).containers
  | @unwritten inputs outputs prepared _ _ ready ran failed =>
    have prepares := (prepare_ends vouches).of_ok ready
    rcases interrupted_of_writeBack compiled.lists.containers_distinct
      (compiled.held_run quiet heldOutside prepares) failed with ⟨position, refused, later, earlier⟩
    have same := Memory.container_of_containers
      (compiled.framed_run quiet heldOutside prepares).containers
    simp only [same] at refused later earlier
    exact Or.inr ⟨inputs, prepared, outputs, position, ready, ran, refused, later, earlier⟩

/-- However a call ends, what a container held has the same contents, unless its buffer is passed on for
a container that a node of the run overwrites. -/
theorem Framed.contents_kept (framed : function.Framed heldOutside memory arguments after)
    (vouches : memory.Vouches heldOutside arguments) {slot : SharedSlot}
    (member : slot ∈ function.signature.shared) {value : Value}
    (held : (memory.container slot.container).value = some value)
    (apart : ∀ (position : Nat) other, function.signature.shared[position]? = some other →
      (∃ id ∈ function.executed heldOutside arguments memory,
        function.graph.Overwrites id other.var) →
      ¬function.signature.Exposes memory arguments (function.signature.arguments.length + position)
        value.buffer) :
    after.tensor value = memory.tensor value := by
  have known := vouches.container held
  refine congrArg (Tensor.mk _ _) (framed.read value.buffer known.1 ?_)
  rcases List.mem_iff_getElem?.mp member with ⟨position, listed⟩
  rcases Signature.slot_input memory arguments listed with ⟨_, _, handle, intact⟩
  rintro (⟨index, var, input, overwritten, exposes⟩ | unheld)
  · -- Of all inputs with this buffer the last one is exposed, so it is a container as well.
    have beyond : function.signature.arguments.length + position ≤ index := by
      rcases exposes.others _ value (handle.trans held) (intact value) rfl with same | ⟨before, _⟩
      · exact Nat.le_of_eq same
      · exact Nat.le_of_lt before
    rcases Signature.inputVars_cases input with ⟨argument, found, _⟩ |
      ⟨position', slot', rfl, listed', rfl, _⟩
    · have inside := (List.getElem?_eq_some_iff.mp found).1
      omega
    · exact apart position' slot' listed' overwritten exposes
  · rw [known.2] at unheld
    cases unheld

/-- A call that fails leaves alone the containers that are not updated, and it leaves everything alone
if it was refused. No container is given another value, unless one of them has refused its update: then
this one and those of later updates keep what they hold. In any case contents change only in buffers
that are passed on for updated containers and that a node which has been run overwrites. -/
theorem failed_call_leaves_containers (standard : compiler.rules = Database.standard)
    (built : source.Built) (stored : source.ConstantsStored state.memory)
    (quiet : ∀ node ∈ source.nodes, node.op.Quiet)
    (compilation : compiler.compile source spec state = .ok compiled final)
    (reached : compiled.Reached function) (vouches : memory.Vouches heldOutside arguments)
    {failure : Failure FunctionError}
    (failed : (function.call heldOutside arguments memory).result = Except.error failure) :
    (∀ slot ∈ function.signature.shared, slot.update = none →
      (function.call heldOutside arguments memory).memory.container slot.container =
        memory.container slot.container ∧
      ∀ value, (memory.container slot.container).value = some value →
        (function.call heldOutside arguments memory).memory.tensor value = memory.tensor value) ∧
    (¬function.signature.Accepts memory arguments →
      memory.Keeps (function.call heldOutside arguments memory).memory) ∧
    ((function.call heldOutside arguments memory).memory.containers = memory.containers ∨
      ∃ inputs prepared outputs position,
        prepare function.signature arguments ⟨memory, []⟩ = .ok inputs prepared ∧
        (function.executable.run heldOutside inputs prepared.memory).result = Except.ok outputs ∧
        function.signature.Interrupted memory (outputs.drop function.signature.outputs.length) position
          failure (function.call heldOutside arguments memory).memory) ∧
    ∀ slot ∈ function.signature.shared, ∀ value,
      (memory.container slot.container).value = some value →
      (∀ (position : Nat) other, function.signature.shared[position]? = some other →
        (∃ id ∈ function.executed heldOutside arguments memory,
          function.graph.Overwrites id other.var) →
        ¬function.signature.Exposes memory arguments (function.signature.arguments.length + position)
          value.buffer) →
      (function.call heldOutside arguments memory).memory.tensor value = memory.tensor value := by
  have origin := reached.compiledFrom (compiledFrom_of_compile standard built stored compilation)
  have ended := ended_call function heldOutside arguments memory
  have framed := origin.framed quiet vouches ended
  rw [failed] at ended
  exact ⟨fun slot member fixed =>
      framed.container_kept vouches origin.lists.containers_distinct member fixed, framed.refused,
    origin.containers_of_failed quiet vouches ended,
    fun slot member value held apart => framed.contents_kept vouches member held apart⟩

/-- A symbolic graph that adds a vector to a container, in place, and gives another container the
shape of three elements, which fails on two. -/
def failingUpdate : Graph ℚ where
  vars := #[⟨ArrayType.ofRank .float64 1, .input, some "x"⟩,
    ⟨ArrayType.ofRank .float64 1, .shared ⟨0⟩, some "w"⟩,
    ⟨ArrayType.ofRank .float64 1, .shared ⟨1⟩, some "v"⟩,
    ⟨ArrayType.ofRank .float64 1, .output ⟨0⟩ 0, none⟩,
    ⟨⟨.float64, [some 3]⟩, .output ⟨1⟩ 0, none⟩]
  nodes := #[⟨.elementwise .add (some 0), [⟨1⟩, ⟨0⟩], [⟨3⟩]⟩, ⟨.reshape [3], [⟨2⟩], [⟨4⟩]⟩]

/-- Only the first container is updated. -/
def failingUpdateSpec : FunctionSpec where
  inputs := [⟨⟨0⟩, none, false, false, false, none⟩]
  outputs := [⟨⟨4⟩, false⟩]
  updates := [(⟨1⟩, ⟨3⟩)]
  mode := .given ⟨Query.none, "perform", false⟩
  options := ⟨.raise, false, true, none, false⟩
  link := ⟨true, false⟩

/-- What the graph is compiled to: the reshaped container is copied. -/
def failingUpdateFunction : Function ℚ where
  executable := ⟨⟨6, 3, [(0, .argument 0), (1, .argument 1), (2, .argument 2)],
    [⟨⟨0⟩, .elementwise .add (some 0), [1, 0], [3], [1, 0]⟩, ⟨⟨1⟩, .reshape [3], [2], [4], [2]⟩,
      ⟨⟨2⟩, .copy, [4], [5], [4]⟩], [5, 3]⟩, .perform, ⟨true, false⟩, #[]⟩
  signature := ⟨[⟨⟨0⟩, some "x", ArrayType.ofRank .float64 1, false, false, false⟩],
    [⟨⟨1⟩, ⟨0⟩, false, some ⟨3⟩⟩, ⟨⟨2⟩, ⟨1⟩, false, none⟩], [], [⟨⟨4⟩, false⟩]⟩
  graph := ⟨failingUpdate.vars.push ⟨⟨.float64, [some 3]⟩, .output ⟨2⟩ 0, none⟩,
    (failingUpdate.nodes.push ⟨.copy, [⟨4⟩], [⟨5⟩]⟩).map some, [⟨0⟩, ⟨1⟩, ⟨2⟩], [⟨5⟩, ⟨3⟩],
    [⟨2⟩, ⟨0⟩]⟩
  report := ⟨[], []⟩
  profile := none

/-- The containers hold the first and the last buffer. -/
def failingUpdateMemory : Memory ℚ :=
  ⟨#[#[1, 2], #[5, 7], #[3, 4]], #[⟨"w", ArrayType.ofRank .float64 1, some ⟨.float64, [2], ⟨0⟩⟩⟩,
    ⟨"v", ArrayType.ofRank .float64 1, some ⟨.float64, [2], ⟨2⟩⟩⟩]⟩

theorem built_failingUpdate : failingUpdate.Built := by
  let roots : Graph ℚ := ⟨failingUpdate.vars.take 3, #[]⟩
  let added : Graph ℚ := ⟨failingUpdate.vars.take 4, failingUpdate.nodes.take 1⟩
  have applied : roots.apply (.elementwise .add (some 0)) [⟨1⟩, ⟨0⟩] =
      Except.ok ([⟨3⟩], added) := rfl
  have applied' : added.apply (.reshape [3]) [⟨2⟩] = Except.ok ([⟨4⟩], failingUpdate) := rfl
  have built : roots.Built :=
    .shared (.shared (.input .empty _ "x") failingUpdateMemory ⟨0⟩) failingUpdateMemory ⟨1⟩
  exact .apply (.apply built applied) applied'

theorem compile_failingUpdate : ∃ final,
    Compiler.standard.compile failingUpdate failingUpdateSpec ⟨failingUpdateMemory, []⟩ =
      .ok failingUpdateFunction final := by
  let captured := failingUpdate.whole [⟨0⟩, ⟨1⟩, ⟨2⟩] [⟨4⟩, ⟨3⟩]
  let guarded := { captured with guarded := [⟨2⟩, ⟨0⟩] }
  have resolved : (Compiler.standard : Compiler ℚ).modes.resolve failingUpdateSpec.mode =
      Except.ok ⟨Query.none, .perform, false⟩ := rfl
  have collected : Signature.collect failingUpdateMemory failingUpdate failingUpdateSpec.inputs
      failingUpdateSpec.outputs failingUpdateSpec.updates =
        Except.ok failingUpdateFunction.signature := rfl
  have capturing : Compilation.captureGraph failingUpdate failingUpdateFunction.signature false =
      Except.ok captured := by
    unfold captured
    cbv
  have used : Compilation.checkUnused .raise failingUpdateFunction.signature captured
      ⟨failingUpdateMemory, []⟩ = .ok () ⟨failingUpdateMemory, []⟩ := by
    unfold captured
    cbv
  have guarding : Compilation.guardInputs failingUpdateFunction.signature captured = guarded := by
    unfold guarded captured
    cbv
  have valid : guarded.validate = Except.ok Orderings.empty := by
    unfold guarded captured
    cbv
  have protecting : guarded.protectOutputs failingUpdateFunction.signature.inputContracts
      failingUpdateFunction.signature.outputContracts =
        Except.ok (1, failingUpdateFunction.graph) := by
    unfold guarded captured
    cbv
  have validated : failingUpdateFunction.graph.validate = Except.ok Orderings.empty := by cbv
  have link : Executable.link .perform ⟨true, false⟩ failingUpdateFunction.graph .empty =
      Except.ok (failingUpdateFunction.executable, []) := by cbv
  exact Compiler.compile_of_no_rules resolved collected capturing used rfl (guarding ▸ valid)
    (guarding ▸ protecting) validated link

theorem call_failingUpdate :
    (failingUpdateFunction.call (fun _ => true) [⟨.float64, [2], ⟨1⟩⟩]
      failingUpdateMemory).result = Except.error (.error (.run (.op ⟨1⟩ "reshape{[3]}"
        (.badReshape ⟨.float64, [some 2]⟩ [3])))) := by
  cbv

/-- A host function that answers with a number where it has declared a vector. -/
def scalarAnswer : HostFunction ℚ where
  name := "answer"
  inputTypes := [ArrayType.ofRank .float64 1]
  outputTypes := [ArrayType.ofRank .float64 1]
  identity := 0
  run _ := do pure [← Value.scalar .float64 42]

theorem quiet_scalarAnswer : scalarAnswer.Quiet where
  ok := by
    intro inputs memory outputs after ran
    cases ran
    exact ⟨memory.keeps_allocate _, by simp⟩
  error := by
    intro inputs memory failure after ran
    cases ran

/-- A symbolic graph that negates a vector and asks a host function for another one. -/
def refusedUpdate : Graph ℚ where
  vars := #[⟨ArrayType.ofRank .float64 1, .input, some "x"⟩,
    ⟨ArrayType.ofRank .float64 1, .shared ⟨0⟩, some "v"⟩,
    ⟨ArrayType.ofRank .float64 1, .shared ⟨1⟩, some "w"⟩,
    ⟨ArrayType.ofRank .float64 1, .output ⟨0⟩ 0, none⟩,
    ⟨ArrayType.ofRank .float64 1, .output ⟨1⟩ 0, none⟩]
  nodes := #[⟨.elementwise .neg none, [⟨0⟩], [⟨3⟩]⟩, ⟨.host scalarAnswer, [⟨0⟩], [⟨4⟩]⟩]

/-- Both vectors are put into containers. -/
def refusedUpdateSpec : FunctionSpec where
  inputs := [⟨⟨0⟩, none, false, false, false, none⟩]
  outputs := []
  updates := [(⟨1⟩, ⟨3⟩), (⟨2⟩, ⟨4⟩)]
  mode := .given ⟨Query.none, "perform", false⟩
  options := ⟨.raise, false, true, none, false⟩
  link := ⟨true, false⟩

/-- What the graph is compiled to. -/
def refusedUpdateFunction : Function ℚ where
  executable := ⟨⟨5, 3, [(0, .argument 0), (1, .argument 1), (2, .argument 2)],
    [⟨⟨0⟩, .elementwise .neg none, [0], [3], []⟩, ⟨⟨1⟩, .host scalarAnswer, [0], [4], [0]⟩], [3, 4]⟩,
    .perform, ⟨true, false⟩, #[]⟩
  signature := ⟨[⟨⟨0⟩, some "x", ArrayType.ofRank .float64 1, false, false, false⟩],
    [⟨⟨1⟩, ⟨0⟩, false, some ⟨3⟩⟩, ⟨⟨2⟩, ⟨1⟩, false, some ⟨4⟩⟩], [], []⟩
  graph := ⟨refusedUpdate.vars, refusedUpdate.nodes.map some, [⟨0⟩, ⟨1⟩, ⟨2⟩], [⟨3⟩, ⟨4⟩], [⟨0⟩]⟩
  report := ⟨[], []⟩
  profile := none

/-- The containers hold the first two buffers. -/
def refusedUpdateMemory : Memory ℚ :=
  ⟨#[#[1, 2], #[3, 4], #[2, 3]], #[⟨"v", ArrayType.ofRank .float64 1, some ⟨.float64, [2], ⟨0⟩⟩⟩,
    ⟨"w", ArrayType.ofRank .float64 1, some ⟨.float64, [2], ⟨1⟩⟩⟩]⟩

theorem built_refusedUpdate : refusedUpdate.Built := by
  let roots : Graph ℚ := ⟨refusedUpdate.vars.take 3, #[]⟩
  let negated : Graph ℚ := ⟨refusedUpdate.vars.take 4, refusedUpdate.nodes.take 1⟩
  have applied : roots.apply (.elementwise .neg none) [⟨0⟩] = Except.ok ([⟨3⟩], negated) := rfl
  have applied' : negated.apply (.host scalarAnswer) [⟨0⟩] = Except.ok ([⟨4⟩], refusedUpdate) := rfl
  have built : roots.Built :=
    .shared (.shared (.input .empty _ "x") refusedUpdateMemory ⟨0⟩) refusedUpdateMemory ⟨1⟩
  exact .apply (.apply built applied) applied'

theorem compile_refusedUpdate : ∃ final,
    Compiler.standard.compile refusedUpdate refusedUpdateSpec ⟨refusedUpdateMemory, []⟩ =
      .ok refusedUpdateFunction final := by
  let captured := refusedUpdate.whole [⟨0⟩, ⟨1⟩, ⟨2⟩] [⟨3⟩, ⟨4⟩]
  have resolved : (Compiler.standard : Compiler ℚ).modes.resolve refusedUpdateSpec.mode =
      Except.ok ⟨Query.none, .perform, false⟩ := rfl
  have collected : Signature.collect refusedUpdateMemory refusedUpdate refusedUpdateSpec.inputs
      refusedUpdateSpec.outputs refusedUpdateSpec.updates =
        Except.ok refusedUpdateFunction.signature := rfl
  have capturing : Compilation.captureGraph refusedUpdate refusedUpdateFunction.signature false =
      Except.ok captured := by
    unfold captured
    cbv
  have used : Compilation.checkUnused .raise refusedUpdateFunction.signature captured
      ⟨refusedUpdateMemory, []⟩ = .ok () ⟨refusedUpdateMemory, []⟩ := by
    unfold captured
    cbv
  have guarding : Compilation.guardInputs refusedUpdateFunction.signature captured =
      refusedUpdateFunction.graph := by
    unfold captured
    cbv
  have valid : refusedUpdateFunction.graph.validate = Except.ok Orderings.empty := by cbv
  have protecting : refusedUpdateFunction.graph.protectOutputs
      refusedUpdateFunction.signature.inputContracts
      refusedUpdateFunction.signature.outputContracts =
        Except.ok (0, refusedUpdateFunction.graph) := by
    cbv
  have link : Executable.link .perform ⟨true, false⟩ refusedUpdateFunction.graph .empty =
      Except.ok (refusedUpdateFunction.executable, []) := by cbv
  exact Compiler.compile_of_no_rules resolved collected capturing used rfl (guarding ▸ valid)
    (guarding ▸ protecting) valid link

theorem call_refusedUpdate :
    (refusedUpdateFunction.call (fun _ => true) [⟨.float64, [2], ⟨2⟩⟩]
      refusedUpdateMemory).result = Except.error (.error (.container (.typeMismatch "w"
        (ArrayType.ofRank .float64 1) (ArrayType.scalar .float64)))) := by
  cbv

/-- When an operation fails, the container that it has read is left alone, and no container is given
another value. A container that refuses its update keeps its value, and since nothing is overwritten,
what both containers held keeps its contents. -/
theorem failed_call_leaves_containers_failingUpdate_refusedUpdate :
    ((failingUpdateFunction.call (fun _ => true) [⟨.float64, [2], ⟨1⟩⟩]
        failingUpdateMemory).memory.tensor ⟨.float64, [2], ⟨2⟩⟩ = ⟨.float64, [2], #[3, 4]⟩ ∧
      (failingUpdateFunction.call (fun _ => true) [⟨.float64, [2], ⟨1⟩⟩]
        failingUpdateMemory).memory.containers = failingUpdateMemory.containers) ∧
    (refusedUpdateFunction.call (fun _ => true) [⟨.float64, [2], ⟨2⟩⟩]
      refusedUpdateMemory).memory.container ⟨1⟩ = refusedUpdateMemory.container ⟨1⟩ ∧
    (refusedUpdateFunction.call (fun _ => true) [⟨.float64, [2], ⟨2⟩⟩]
      refusedUpdateMemory).memory.tensor ⟨.float64, [2], ⟨0⟩⟩ = ⟨.float64, [2], #[1, 2]⟩ ∧
    (refusedUpdateFunction.call (fun _ => true) [⟨.float64, [2], ⟨2⟩⟩]
      refusedUpdateMemory).memory.tensor ⟨.float64, [2], ⟨1⟩⟩ = ⟨.float64, [2], #[3, 4]⟩ := by
  constructor
  · rcases compile_failingUpdate with ⟨final, compiled⟩
    have stored : failingUpdate.ConstantsStored failingUpdateMemory :=
      Graph.constantsStored_of_forall_ne (by simp [failingUpdate]) _
    have quiet : ∀ node ∈ failingUpdate.nodes, node.op.Quiet := by
      simp [failingUpdate, Op.Quiet]
    have vouches : failingUpdateMemory.Vouches (fun _ => true) [⟨.float64, [2], ⟨1⟩⟩] :=
      ⟨by simp [Memory.Knows, failingUpdateMemory], by simp [Memory.Knows, failingUpdateMemory]⟩
    rcases failed_call_leaves_containers rfl built_failingUpdate stored quiet compiled .compiled
      vouches call_failingUpdate with ⟨read, _, same | ⟨_, _, _, _, _, _, interrupted⟩, _⟩
    · exact ⟨(read ⟨⟨2⟩, ⟨1⟩, false, none⟩ (by simp [failingUpdateFunction]) rfl).2 _ rfl, same⟩
    · rcases interrupted.refused with ⟨_, _, _, _, _, _, other⟩
      cases other
  · rcases compile_refusedUpdate with ⟨final, compiled⟩
    have stored : refusedUpdate.ConstantsStored refusedUpdateMemory :=
      Graph.constantsStored_of_forall_ne (by simp [refusedUpdate]) _
    have quiet : ∀ node ∈ refusedUpdate.nodes, node.op.Quiet := by
      simp [refusedUpdate, Op.Quiet, quiet_scalarAnswer]
    have vouches : refusedUpdateMemory.Vouches (fun _ => true) [⟨.float64, [2], ⟨2⟩⟩] :=
      ⟨by simp [Memory.Knows, refusedUpdateMemory], by simp [Memory.Knows, refusedUpdateMemory]⟩
    have calm : ∀ (nodes : List NodeId) var,
        ¬∃ id ∈ nodes, refusedUpdateFunction.graph.Overwrites id var := by
      have none : ∀ entry ∈ refusedUpdateFunction.graph.liveNodes,
          Dataflow.overwritten entry.2 = [] := by
        decide +kernel
      rintro nodes var ⟨id, _, node, live, target, member, _⟩
      rw [none (id, node) (Dataflow.mem_liveNodes.mpr live)] at member
      cases member
    rcases failed_call_leaves_containers rfl built_refusedUpdate stored quiet compiled .compiled
      vouches call_refusedUpdate with ⟨_, _, containers, contents⟩
    refine ⟨?_, contents ⟨⟨1⟩, ⟨0⟩, false, some ⟨3⟩⟩ (by simp [refusedUpdateFunction]) _ rfl
        fun _ _ _ overwritten => absurd overwritten (calm _ _),
      contents ⟨⟨2⟩, ⟨1⟩, false, some ⟨4⟩⟩ (by simp [refusedUpdateFunction]) _ rfl
        fun _ _ _ overwritten => absurd overwritten (calm _ _)⟩
    rcases containers with same | ⟨_, _, _, position, _, _, interrupted⟩
    · exact Memory.container_of_containers same ⟨1⟩
    · rcases interrupted.refused with ⟨slot, expression, _, listed, _⟩
      have inside := (List.getElem?_eq_some_iff.mp listed).1
      have last : refusedUpdateFunction.signature.updated.length = 2 := rfl
      exact interrupted.later 1 ⟨⟨2⟩, ⟨1⟩, false, some ⟨4⟩⟩ ⟨4⟩ (by omega) rfl

/-- An operation fails after the buffer of an updated container was overwritten, and a container refuses
its update after the one before has been given another value. -/
theorem not_leaves_containers_failingUpdate_refusedUpdate :
    ((∃ final, Compiler.standard.compile failingUpdate failingUpdateSpec ⟨failingUpdateMemory, []⟩ =
        .ok failingUpdateFunction final) ∧
      (∃ failure, (failingUpdateFunction.call (fun _ => true) [⟨.float64, [2], ⟨1⟩⟩]
        failingUpdateMemory).result = Except.error failure) ∧
      (failingUpdateMemory.container ⟨0⟩).value.map failingUpdateMemory.tensor =
        some ⟨.float64, [2], #[1, 2]⟩ ∧
      ((failingUpdateFunction.call (fun _ => true) [⟨.float64, [2], ⟨1⟩⟩]
          failingUpdateMemory).memory.container ⟨0⟩).value.map
        (failingUpdateFunction.call (fun _ => true) [⟨.float64, [2], ⟨1⟩⟩]
          failingUpdateMemory).memory.tensor = some ⟨.float64, [2], #[6, 9]⟩) ∧
    (∃ final, Compiler.standard.compile refusedUpdate refusedUpdateSpec ⟨refusedUpdateMemory, []⟩ =
      .ok refusedUpdateFunction final) ∧
    (∃ failure, (refusedUpdateFunction.call (fun _ => true) [⟨.float64, [2], ⟨2⟩⟩]
      refusedUpdateMemory).result = Except.error failure) ∧
    (refusedUpdateMemory.container ⟨0⟩).value.map refusedUpdateMemory.tensor =
      some ⟨.float64, [2], #[1, 2]⟩ ∧
    ((refusedUpdateFunction.call (fun _ => true) [⟨.float64, [2], ⟨2⟩⟩]
        refusedUpdateMemory).memory.container ⟨0⟩).value.map
      (refusedUpdateFunction.call (fun _ => true) [⟨.float64, [2], ⟨2⟩⟩]
        refusedUpdateMemory).memory.tensor = some ⟨.float64, [2], #[-2, -3]⟩ := by
  refine ⟨⟨compile_failingUpdate, ⟨_, call_failingUpdate⟩, rfl, ?_⟩, compile_refusedUpdate,
    ⟨_, call_refusedUpdate⟩, rfl, ?_⟩
  · cbv
  · cbv

end Function

end ArrayGraph
