import ArrayGraph.Proofs.Function.Frame

/-!
# What calls of compiled functions leave alone

However a call ends, containers that a function reads without updating keep what they hold, and so do
arguments for inputs that are not mutable. There is one exception: an argument that needs a cast is
not compared with the other inputs, so that its buffer is overwritten if an input that may be
overwritten comes with the same one.
-/

namespace ArrayGraph

variable {α : Type} [Arithmetic α]

namespace Function

/-- The functions that a function becomes by being called, on whatever memory. -/
inductive Reached (compiled : Function α) : Function α → Prop
  | compiled : Reached compiled compiled
  | call {function : Function α} (before : Reached compiled function)
      (heldOutside : BufferId → Bool) (arguments : List Value) (memory : Memory α) :
      Reached compiled (function.call heldOutside arguments memory).function

variable {function compiled : Function α} {source : Graph α} {heldOutside : BufferId → Bool}
  {arguments : List Value} {memory : Memory α}

/-- A call changes nothing of a function but the slots of its executable and its profile. -/
theorem function_call (function : Function α) (heldOutside : BufferId → Bool)
    (arguments : List Value) (memory : Memory α) :
    ∃ slots profile, (function.call heldOutside arguments memory).function =
      { function with executable := { function.executable with slots }, profile } := by
  unfold call
  split
  · exact ⟨function.executable.slots, function.profile, rfl⟩
  · rename_i inputs prepared _
    dsimp only
    rw [Executable.run_kept]
    split
    · exact ⟨_, _, rfl⟩
    · split <;> exact ⟨_, _, rfl⟩

/-- The executable after a call is the one before it, or what a run has made of that. -/
theorem executable_call (function : Function α) (heldOutside : BufferId → Bool)
    (arguments : List Value) (memory : Memory α) :
    (∃ failure state, prepare function.signature arguments ⟨memory, []⟩ = .error failure state ∧
      (function.call heldOutside arguments memory).function.executable = function.executable) ∨
    ∃ inputs prepared, prepare function.signature arguments ⟨memory, []⟩ = .ok inputs prepared ∧
      (function.call heldOutside arguments memory).function.executable =
        (function.executable.run heldOutside inputs prepared.memory).executable := by
  unfold call
  cases prepare function.signature arguments ⟨memory, []⟩ with
  | error failure state => exact Or.inl ⟨failure, state, rfl, rfl⟩
  | ok inputs prepared =>
    refine Or.inr ⟨inputs, prepared, rfl, ?_⟩
    dsimp only
    split
    · rfl
    · split <;> rfl

theorem CompiledFrom.call (compiled : function.CompiledFrom source) (heldOutside : BufferId → Bool)
    (arguments : List Value) (memory : Memory α) :
    (function.call heldOutside arguments memory).function.CompiledFrom source := by
  rcases compiled.linked with ⟨linker, options, orderings, linked, log, validated, link, used⟩
  have later : linked.Used (function.call heldOutside arguments memory).function.executable := by
    rcases executable_call function heldOutside arguments memory with
      ⟨_, _, _, same⟩ | ⟨inputs, prepared, _, same⟩
    · exact same ▸ used
    · exact same ▸ used.run heldOutside inputs prepared.memory
  rcases function_call function heldOutside arguments memory with ⟨slots, profile, same⟩
  rw [same] at later ⊢
  exact { compiled with linked := ⟨linker, options, orderings, linked, log, validated, link, later⟩ }

theorem Reached.compiledFrom (reached : compiled.Reached function)
    (start : compiled.CompiledFrom source) : function.CompiledFrom source := by
  induction reached with
  | compiled => exact start
  | call _ heldOutside arguments memory ih => exact ih.call heldOutside arguments memory

end Function

namespace Signature

variable {signature : Signature} {memory : Memory α} {arguments : List Value} {buffer : BufferId}

/-- A call may overwrite a buffer: that of an argument for a mutable input, or of a container that is
updated. -/
def Opens (signature : Signature) (memory : Memory α) (arguments : List Value) (buffer : BufferId) :
    Prop :=
  ∃ index value, signature.writable[index]? = some true ∧
    signature.handle? memory arguments index = some value ∧ value.buffer = buffer

omit [Arithmetic α] in
theorem Exposes.opens {index : Nat} (exposes : signature.Exposes memory arguments index buffer) :
    signature.Opens memory arguments buffer := by
  rcases exposes.handle with ⟨value, found, same⟩
  exact ⟨index, value, exposes.writable, found, same⟩

omit [Arithmetic α] in
/-- The position of a container among the inputs. -/
theorem slot_input {position : Nat} {slot : SharedSlot} (memory : Memory α) (arguments : List Value)
    (listed : signature.shared[position]? = some slot) :
    signature.inputVars[signature.arguments.length + position]? = some slot.var ∧
      signature.writable[signature.arguments.length + position]? = some slot.update.isSome ∧
      signature.handle? memory arguments (signature.arguments.length + position) =
        (memory.container slot.container).value ∧
      ∀ value, signature.Intact (signature.arguments.length + position) value := by
  refine ⟨?_, ?_, by simp [handle?_shared, listed], ?_⟩
  · rw [inputVars, List.getElem?_append_right (by simp)]
    simp [listed]
  · rw [writable, List.getElem?_append_right (by simp)]
    simp [listed]
  · intro value argument found
    rw [List.getElem?_eq_none (by omega)] at found
    cases found

end Signature

namespace Function

variable {compiler : Compiler α} {source : Graph α} {spec : FunctionSpec} {state final : Logged α}
  {compiled function : Function α} {heldOutside : BufferId → Bool} {arguments : List Value}
  {memory : Memory α}

omit [Arithmetic α] in
/-- An input that may not be overwritten and is not cast is not touched. -/
theorem not_touches_of_intact {nodes : List NodeId} {index : Nat} {value : Value}
    (found : function.signature.handle? memory arguments index = some value)
    (intact : function.signature.Intact index value)
    (fixed : function.signature.writable[index]? ≠ some true)
    (held : heldOutside value.buffer = true) :
    ¬function.Touches nodes heldOutside memory arguments value.buffer := by
  rintro (⟨other, _, _, _, exposes⟩ | unheld)
  · rcases exposes.others index value found intact rfl with rfl | ⟨_, writable⟩
    · exact fixed exposes.writable
    · exact fixed writable
  · rw [held] at unheld
    cases unheld

/-- However a call ends, a container that is not updated is as it was. -/
theorem Framed.container_kept {after : Memory α}
    (framed : function.Framed heldOutside memory arguments after)
    (vouches : memory.Vouches heldOutside arguments)
    (distinct : (function.signature.shared.map (·.container)).Nodup) {slot : SharedSlot}
    (member : slot ∈ function.signature.shared) (fixed : slot.update = none) :
    after.container slot.container = memory.container slot.container ∧
      ∀ value, (memory.container slot.container).value = some value →
        after.tensor value = memory.tensor value := by
  constructor
  · apply framed.container
    intro other otherMem updated same
    cases List.inj_on_of_nodup_map distinct otherMem member same
    simp [fixed] at updated
  · intro value held
    rcases List.mem_iff_getElem?.mp member with ⟨position, listed⟩
    rcases Signature.slot_input memory arguments listed with
      ⟨_, writable, handle, intact⟩
    have known := vouches.container held
    exact congrArg (Tensor.mk _ _) (framed.read value.buffer known.1
      (not_touches_of_intact (handle.trans held) (intact value) (by simp [writable, fixed]) known.2))

/-- However calls of a compiled function end, they leave alone the containers that it does not update
and the arguments for inputs that are not mutable. An argument that needs a cast must not be on a
buffer that the call may overwrite. -/
theorem call_leaves_protected (standard : compiler.rules = Database.standard) (built : source.Built)
    (stored : source.ConstantsStored state.memory) (quiet : ∀ node ∈ source.nodes, node.op.Quiet)
    (compilation : compiler.compile source spec state = .ok compiled final)
    (reached : compiled.Reached function) (vouches : memory.Vouches heldOutside arguments) :
    (∀ slot ∈ function.signature.shared, slot.update = none →
      (function.call heldOutside arguments memory).memory.container slot.container =
        memory.container slot.container ∧
      ∀ value, (memory.container slot.container).value = some value →
        (function.call heldOutside arguments memory).memory.tensor value = memory.tensor value) ∧
    ∀ (index : Nat) argument value, function.signature.arguments[index]? = some argument →
      argument.mutable = false → arguments[index]? = some value →
      value.element = argument.type.element ∨
        ¬function.signature.Opens memory arguments value.buffer →
      (function.call heldOutside arguments memory).memory.tensor value = memory.tensor value := by
  have origin := reached.compiledFrom (compiledFrom_of_compile standard built stored compilation)
  have framed := origin.framed quiet vouches (ended_call function heldOutside arguments memory)
  refine ⟨fun slot member fixed =>
    framed.container_kept vouches origin.lists.containers_distinct member fixed, ?_⟩
  intro index argument value listed fixed given safe
  have known := vouches.arguments value (List.mem_of_getElem? given)
  refine congrArg (Tensor.mk _ _) (framed.read value.buffer known.1 ?_)
  have inside := (List.getElem?_eq_some_iff.mp listed).1
  rcases safe with same | closed
  · refine not_touches_of_intact ((Signature.handle?_argument inside).trans given) ?_ ?_ known.2
    · intro other listed'
      rw [listed] at listed'
      cases listed'
      exact same
    · rw [Signature.writable, List.getElem?_append_left (by simpa using inside), List.getElem?_map,
        listed]
      simp [fixed]
  · rintro (⟨_, _, _, _, exposes⟩ | unheld)
    · exact closed exposes.opens
    · rw [known.2] at unheld
      cases unheld

/-- A symbolic graph that negates three vectors, the second one in place. -/
def negatedVectors : Graph ℚ where
  vars := #[⟨ArrayType.ofRank .float64 1, .input, some "x"⟩,
    ⟨ArrayType.ofRank .int64 1, .input, some "y"⟩, ⟨ArrayType.ofRank .int64 1, .input, some "z"⟩,
    ⟨ArrayType.ofRank .float64 1, .output ⟨0⟩ 0, none⟩,
    ⟨ArrayType.ofRank .int64 1, .output ⟨1⟩ 0, none⟩,
    ⟨ArrayType.ofRank .int64 1, .output ⟨2⟩ 0, none⟩]
  nodes := #[⟨.elementwise .neg none, [⟨0⟩], [⟨3⟩]⟩, ⟨.elementwise .neg (some 0), [⟨1⟩], [⟨4⟩]⟩,
    ⟨.elementwise .neg none, [⟨2⟩], [⟨5⟩]⟩]

/-- The second vector is mutable, the others are not. -/
def negatedVectorsSpec : FunctionSpec where
  inputs := [⟨⟨0⟩, none, false, false, false, none⟩, ⟨⟨1⟩, none, true, false, false, none⟩,
    ⟨⟨2⟩, none, false, false, false, none⟩]
  outputs := [⟨⟨3⟩, false⟩, ⟨⟨4⟩, false⟩, ⟨⟨5⟩, false⟩]
  updates := []
  mode := .given ⟨Query.none, "perform", false⟩
  options := ⟨.raise, false, true, none, false⟩
  link := ⟨true, false⟩

/-- What the graph is compiled to. -/
def negatedVectorsFunction : Function ℚ where
  executable := ⟨⟨6, 3, [(0, .argument 0), (1, .argument 1), (2, .argument 2)],
    [⟨⟨0⟩, .elementwise .neg none, [0], [3], [0]⟩, ⟨⟨1⟩, .elementwise .neg (some 0), [1], [4], [1]⟩,
      ⟨⟨2⟩, .elementwise .neg none, [2], [5], [2]⟩], [3, 4, 5]⟩, .perform, ⟨true, false⟩, #[]⟩
  signature := ⟨[⟨⟨0⟩, some "x", ArrayType.ofRank .float64 1, false, false, false⟩,
    ⟨⟨1⟩, some "y", ArrayType.ofRank .int64 1, true, false, false⟩,
    ⟨⟨2⟩, some "z", ArrayType.ofRank .int64 1, false, false, false⟩], [], [],
    [⟨⟨3⟩, false⟩, ⟨⟨4⟩, false⟩, ⟨⟨5⟩, false⟩]⟩
  graph := ⟨negatedVectors.vars, negatedVectors.nodes.map some, [⟨0⟩, ⟨1⟩, ⟨2⟩], [⟨3⟩, ⟨4⟩, ⟨5⟩],
    [⟨2⟩, ⟨0⟩]⟩
  report := ⟨[], []⟩
  profile := none

theorem built_negatedVectors : negatedVectors.Built := by
  let inputs : Graph ℚ := ⟨negatedVectors.vars.take 3, #[]⟩
  let first : Graph ℚ := ⟨negatedVectors.vars.take 4, negatedVectors.nodes.take 1⟩
  let second : Graph ℚ := ⟨negatedVectors.vars.take 5, negatedVectors.nodes.take 2⟩
  have applied : inputs.apply (.elementwise .neg none) [⟨0⟩] = Except.ok ([⟨3⟩], first) := rfl
  have applied' : first.apply (.elementwise .neg (some 0)) [⟨1⟩] = Except.ok ([⟨4⟩], second) := rfl
  have applied'' : second.apply (.elementwise .neg none) [⟨2⟩] =
      Except.ok ([⟨5⟩], negatedVectors) := rfl
  have built : inputs.Built := .input (.input (.input .empty _ "x") _ "y") _ "z"
  exact .apply (.apply (.apply built applied) applied') applied''

theorem compile_negatedVectors (memory : Memory ℚ) :
    ∃ final, Compiler.standard.compile negatedVectors negatedVectorsSpec ⟨memory, []⟩ =
      .ok negatedVectorsFunction final := by
  let captured := negatedVectors.whole [⟨0⟩, ⟨1⟩, ⟨2⟩] [⟨3⟩, ⟨4⟩, ⟨5⟩]
  have resolved : (Compiler.standard : Compiler ℚ).modes.resolve negatedVectorsSpec.mode =
      Except.ok ⟨Query.none, .perform, false⟩ := rfl
  have collected : Signature.collect memory negatedVectors negatedVectorsSpec.inputs
      negatedVectorsSpec.outputs negatedVectorsSpec.updates =
        Except.ok negatedVectorsFunction.signature := rfl
  have capturing : Compilation.captureGraph negatedVectors negatedVectorsFunction.signature false =
      Except.ok captured := by
    unfold captured
    cbv
  have used : Compilation.checkUnused .raise negatedVectorsFunction.signature captured
      ⟨memory, []⟩ = .ok () ⟨memory, []⟩ := by
    unfold captured
    cbv
  have guarding : Compilation.guardInputs negatedVectorsFunction.signature captured =
      negatedVectorsFunction.graph := by
    unfold captured
    cbv
  have protecting : negatedVectorsFunction.graph.protectOutputs
      negatedVectorsFunction.signature.inputContracts
      negatedVectorsFunction.signature.outputContracts =
        Except.ok (0, negatedVectorsFunction.graph) := by cbv
  have validated : negatedVectorsFunction.graph.validate = Except.ok Orderings.empty := by cbv
  have link : Executable.link .perform ⟨true, false⟩ negatedVectorsFunction.graph .empty =
      Except.ok (negatedVectorsFunction.executable, []) := by cbv
  exact Compiler.compile_of_no_rules resolved collected capturing used rfl (guarding ▸ validated)
    (guarding ▸ protecting) validated link

/-- The second and the third argument share a buffer, and it is left alone. -/
theorem call_leaves_protected_negatedVectors :
    (negatedVectorsFunction.call (fun _ => true)
      [⟨.float64, [1], ⟨0⟩⟩, ⟨.int64, [2], ⟨1⟩⟩, ⟨.int64, [2], ⟨1⟩⟩]
      ⟨#[#[4], #[1, 2]], #[]⟩).memory.tensor ⟨.int64, [2], ⟨1⟩⟩ = ⟨.int64, [2], #[1, 2]⟩ := by
  rcases compile_negatedVectors ⟨#[#[4], #[1, 2]], #[]⟩ with ⟨final, compiled⟩
  have stored : negatedVectors.ConstantsStored ⟨#[#[4], #[1, 2]], #[]⟩ :=
    Graph.constantsStored_of_forall_ne (by simp [negatedVectors]) _
  have quiet : ∀ node ∈ negatedVectors.nodes, node.op.Quiet := by
    simp [negatedVectors, Op.Quiet]
  exact (call_leaves_protected rfl built_negatedVectors stored quiet compiled .compiled
    ⟨by simp [Memory.Knows], by simp⟩).2 2 _ _ rfl rfl rfl (Or.inl rfl)

/-- An argument that is cast is not compared with the others, so that it is overwritten if a mutable
argument has its buffer. -/
theorem not_leaves_protected_negatedVectors :
    (∃ final, Compiler.standard.compile negatedVectors negatedVectorsSpec ⟨.empty, []⟩ =
      .ok negatedVectorsFunction final) ∧
    (negatedVectorsFunction.signature.arguments.map (·.mutable)) = [false, true, false] ∧
    ((negatedVectorsFunction.call (fun _ => true)
      [⟨.int64, [2], ⟨1⟩⟩, ⟨.int64, [2], ⟨1⟩⟩, ⟨.int64, [1], ⟨0⟩⟩]
      ⟨#[#[4], #[1, 2]], #[]⟩).memory.tensor ⟨.int64, [2], ⟨1⟩⟩ = ⟨.int64, [2], #[-1, -2]⟩) := by
  refine ⟨compile_negatedVectors .empty, rfl, ?_⟩
  cbv

end Function

end ArrayGraph
