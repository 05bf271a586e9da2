import ArrayGraph.Proofs.Function.Meaning
import ArrayGraph.Proofs.Function.Protected

/-!
# Calls of compiled functions are plain evaluation

The roots of a symbolic graph stand for what a call comes with, and the outputs and updates for what
plain evaluation makes of that. Compilation keeps what they stand for, a run of the compiled graph
computes it in whatever buffers it finds convenient, and writing back puts the updates where they
belong. So the results of a call are those of plain evaluation, after any number of earlier calls.

An input that is overwritten must not come on the buffer of a constant: inputs are compared with one
another before a run, but not with the constants, and the constant would be overwritten with it.
-/

namespace ArrayGraph

variable {α : Type} [Arithmetic α]

/-- An argument that is accepted is an array of the type of its input. -/
theorem Argument.read_conforms {argument : Argument} {memory : Memory α} {value : Value}
    (accepts : argument.Accepts value)
    (count : elementCount? value.shape = some (memory.contents value).size) :
    (argument.read (memory.tensor value)).Conforms argument.type := by
  unfold Argument.read
  split
  · rename_i same
    exact ⟨same, accepts.1, count⟩
  · refine ⟨rfl, accepts.1, ?_⟩
    simpa [Memory.tensor] using count

theorem Argument.read_normalized (argument : Argument) {tensor : Tensor α}
    (normalized : tensor.Normalized) : (argument.read tensor).Normalized := by
  unfold Argument.read
  split
  · exact normalized
  · intro x member
    rcases Array.mem_map.mp member with ⟨y, _, same⟩
    exact ⟨y, same.symm⟩

/-- The containers of a symbolic graph are of the types of their variables, which leave the
dimensions open, and hold arrays of these types. -/
def Graph.ContainersStored (source : Graph α) (memory : Memory α) : Prop :=
  ∀ (id : VarId) var container, source.vars[id.index]? = some var → var.kind = .shared container →
    (memory.container container).type = var.type ∧
      var.type = ArrayType.ofRank var.type.element var.type.rank ∧
      ∀ value, (memory.container container).value = some value →
        memory.Stores value ∧ (memory.container container).accepts value

namespace Signature

variable {signature : Signature} {source : Graph α} {memory : Memory α} {arguments : List Value}

/-- What the roots of a symbolic graph stand for in a call: constants and containers for what they
hold at its beginning, and inputs for the arguments at their positions, brought to their types. -/
def roots (signature : Signature) (source : Graph α) (memory : Memory α) (arguments : List Value)
    (id : VarId) : Option (Tensor α) :=
  source.vars[id.index]?.bind fun var =>
    match var.kind with
    | .input =>
      let index := signature.inputVars.idxOf id
      (signature.handle? memory arguments index).map fun value =>
        signature.read index (memory.tensor value)
    | .constant value => some (memory.tensor value)
    | .shared container => (memory.container container).value.map memory.tensor
    | .output _ _ => none

theorem roots_constant {id : VarId} {value : Value} (kind : source.HasKind id (.constant value)) :
    signature.roots source memory arguments id = some (memory.tensor value) := by
  rcases kind with ⟨var, found, kind⟩
  simp [roots, found, kind]

theorem roots_shared {id : VarId} {container : ContainerId}
    (kind : source.HasKind id (.shared container)) :
    signature.roots source memory arguments id =
      (memory.container container).value.map memory.tensor := by
  rcases kind with ⟨var, found, kind⟩
  simp [roots, found, kind]

/-- An input stands for what a call comes with at its position. -/
theorem roots_input (lists : signature.Lists source) {index : Nat} {id : VarId}
    (listed : signature.inputVars[index]? = some id) :
    signature.roots source memory arguments id = (signature.handle? memory arguments index).map
      fun value => signature.read index (memory.tensor value) := by
  rcases inputVars_cases listed with ⟨argument, found, rfl, _⟩ | ⟨position, slot, rfl, found, rfl, _⟩
  · rcases lists.arguments argument (List.mem_of_getElem? found) with ⟨var, located, kind, _⟩
    have position : signature.inputVars.idxOf argument.var = index := by
      rcases List.getElem?_eq_some_iff.mp listed with ⟨inside, same⟩
      rw [← same]
      exact lists.nodup_inputVars.idxOf_getElem index inside
    simp [roots, located, kind, position]
  · rw [roots_shared (lists.shared slot (List.mem_of_getElem? found)), handle?_shared, found]
    simp [read]

/-- Roots stand for arrays of their types. -/
theorem assigns_roots (built : source.Built) (lists : signature.Lists source)
    (accepts : signature.Accepts memory arguments)
    (stored : ∀ value ∈ arguments, memory.Stores value)
    (constants : source.ConstantsStored memory) (containers : source.ContainersStored memory) :
    (source.whole [] []).Assigns (signature.roots source memory arguments) := by
  intro id tensor found
  rcases Option.bind_eq_some_iff.mp found with ⟨var, located, given⟩
  have type : (source.whole [] []).type id = var.type := by
    rw [Dataflow.type, Dataflow.var, Graph.whole, located]
    rfl
  rw [type]
  split at given
  · rename_i kind
    rcases Option.map_eq_some_iff.mp given with ⟨value, handled, rfl⟩
    have inside := handle?_lt handled
    have listed := List.getElem?_eq_getElem inside
    rw [List.getElem_idxOf] at listed
    rcases inputVars_cases listed with ⟨argument, argumentFound, same, _⟩ | ⟨_, slot, _, slotFound, same, _⟩
    · have argumentInside := (List.getElem?_eq_some_iff.mp argumentFound).1
      rw [handle?_argument argumentInside] at handled
      rcases lists.arguments argument (List.mem_of_getElem? argumentFound) with ⟨var', located', _, type'⟩
      rw [same, located] at located'
      cases located'
      rw [type', read, argumentFound]
      have stores := stored value (List.mem_of_getElem? handled)
      exact ⟨Argument.read_conforms (accepts.argument _ _ _ argumentFound handled) stores.count,
        argument.read_normalized stores.normalized⟩
    · cases (same ▸ lists.shared slot (List.mem_of_getElem? slotFound)).unique ⟨var, located, kind⟩
  · rename_i value kind
    cases given
    have stores := constants id value ⟨var, located, kind⟩
    rw [built.constant_type (Array.mem_of_getElem? located) kind]
    exact ⟨stores.conforms, stores.normalized⟩
  · rename_i container kind
    rcases Option.map_eq_some_iff.mp given with ⟨value, held, rfl⟩
    rcases containers id var container located kind with ⟨sameType, _, holds⟩
    rcases holds value held with ⟨stores, accepted⟩
    simp only [Container.accepts, Bool.and_eq_true, decide_eq_true_eq, sameType] at accepted
    exact ⟨⟨accepted.1, accepted.2, stores.count⟩, stores.normalized⟩
  · cases given

end Signature

/-- Host functions of a symbolic graph are functions of the contents of arrays: they write nothing and
give arrays that are stored as the types that they declare ask for. -/
structure Graph.HostsPure (source : Graph α) (hosts : Meaning α) : Prop where
  computes : ∀ node ∈ source.nodes, node.op.Computes hosts
  quiet : ∀ node ∈ source.nodes, node.op.Quiet
  normalizes : ∀ node ∈ source.nodes, ∀ function, node.op = .host function →
    function.Normalizes hosts

theorem Graph.HostsPure.hostsTyped {source : Graph α} {hosts : Meaning α}
    (pure : source.HostsPure hosts) : source.HostsTyped hosts :=
  fun node member function same =>
    ⟨(pure.computes node member function same).typed, pure.normalizes node member function same⟩

namespace Function

variable {function compiled : Function α} {source : Graph α} {heldOutside : BufferId → Bool}
  {arguments inputs : List Value} {memory prepared : Memory α}

/-- What a call relies on: whoever says who holds a buffer knows of the arguments, of the containers
and of the constants, and these are on buffers that exist. -/
structure Trusts (function : Function α) (heldOutside : BufferId → Bool) (arguments : List Value)
    (memory : Memory α) : Prop extends memory.Vouches heldOutside arguments where
  constants : ∀ var value, (function.graph.var var).kind = .constant value →
    memory.Knows value ∧ heldOutside value.buffer = true

/-- A function together with the memory, some time after its compilation: calls may have gone before,
and between calls anything may have been written, as long as no buffer has changed its size. -/
inductive Evolves (compiled : Function α) : Function α → Memory α → Prop
  | compiled (memory : Memory α) : Evolves compiled compiled memory
  | call {function : Function α} {memory : Memory α} (before : Evolves compiled function memory)
      (heldOutside : BufferId → Bool) (arguments : List Value)
      (trusts : function.Trusts heldOutside arguments memory) :
      Evolves compiled (function.call heldOutside arguments memory).function
        (function.call heldOutside arguments memory).memory
  | elsewhere {function : Function α} {memory after : Memory α}
      (before : Evolves compiled function memory)
      (size : memory.buffers.size ≤ after.buffers.size)
      (kept : ∀ buffer : BufferId, buffer.index < memory.buffers.size →
        (after.read buffer).size = (memory.read buffer).size) : Evolves compiled function after

/-- Calls change neither the signature nor the graph of a function. -/
theorem Evolves.same (evolves : compiled.Evolves function memory) :
    function.signature = compiled.signature ∧ function.graph = compiled.graph := by
  induction evolves with
  | compiled => exact ⟨rfl, rfl⟩
  | @call function memory _ heldOutside arguments _ ih =>
    rcases function_call function heldOutside arguments memory with ⟨_, _, same⟩
    rw [same]
    exact ih
  | elsewhere _ _ _ ih => exact ih

theorem Evolves.reached (evolves : compiled.Evolves function memory) : compiled.Reached function := by
  induction evolves with
  | compiled => exact .compiled
  | @call function memory _ heldOutside arguments _ ih => exact ih.call heldOutside arguments memory
  | elsewhere _ _ _ ih => exact ih

/-- The constants of the schedule are constants of the graph. -/
theorem CompiledFrom.kind_of_constant (origin : function.CompiledFrom source) {value : Value}
    (member : value ∈ function.executable.schedule.constants) :
    ∃ var, (function.graph.var var).kind = .constant value := by
  rcases origin.laysOut with ⟨order, vars, _, laysOut⟩
  rcases List.mem_filterMap.mp member with ⟨⟨slot, root⟩, rootMem, found⟩
  cases root with
  | constant constant =>
    cases found
    rcases laysOut.mem_roots.mp rootMem with ⟨var, _, sourced, _⟩
    exact ⟨var, Dataflow.kind_of_source? sourced⟩
  | _ => cases found

/-- The run of a call relies on what the call relies on. -/
theorem Trusts.executable (trusts : function.Trusts heldOutside arguments memory)
    (origin : function.CompiledFrom source)
    (prepares : function.signature.Prepares memory arguments inputs prepared) :
    function.executable.Trusts heldOutside inputs prepared where
  arguments value given := by
    rcases List.mem_iff_getElem?.mp given with ⟨index, found⟩
    rcases prepares.origin index value found with ⟨_, _, known, _⟩
    exact known
  containers container member value held := by
    rw [prepares.keeps.containers] at member
    rcases trusts.containers container member value held with ⟨known, outside⟩
    exact ⟨prepares.keeps.knows known, outside⟩
  constants value member := by
    rcases origin.kind_of_constant member with ⟨var, kind⟩
    rcases trusts.constants var value kind with ⟨known, outside⟩
    exact ⟨prepares.keeps.knows known, outside⟩

/-- Whatever comes of a call, the executable has been run once at most. -/
theorem Trusts.reached (trusts : function.Trusts heldOutside arguments memory)
    (origin : function.CompiledFrom source) (quiet : ∀ node ∈ source.nodes, node.op.Quiet)
    {linked : Executable α} (before : linked.Reached function.executable memory) :
    linked.Reached (function.call heldOutside arguments memory).function.executable
      (function.call heldOutside arguments memory).memory := by
  have later : ∀ {after : Memory α}, memory.Keeps after → linked.Reached function.executable after :=
    fun keeps => before.elsewhere keeps.size fun buffer known => by rw [keeps.read buffer known]
  rcases origin.call_cases quiet trusts.toVouches with
    ⟨keeps, same⟩ | ⟨inputs, prepared, prepares, same, stores⟩
  · rw [same]
    exact later keeps
  · rw [same]
    refine ((later prepares.keeps).run heldOutside inputs (trusts.executable origin prepares)).elsewhere
      (by rw [stores.buffers]) fun buffer _ => by rw [stores.read]

/-- Calls come down to runs of the executable. -/
theorem Evolves.executable (evolves : compiled.Evolves function memory)
    (origin : compiled.CompiledFrom source) (quiet : ∀ node ∈ source.nodes, node.op.Quiet) :
    compiled.executable.Reached function.executable memory := by
  induction evolves with
  | compiled memory => exact .linked memory
  | call before _ _ trusts ih => exact trusts.reached (before.reached.compiledFrom origin) quiet ih
  | elsewhere _ size kept ih => exact ih.elsewhere size kept

/-- The constants of a function hold what its compilation has left there, and no input that its graph
overwrites comes with the buffer of one. -/
structure ConstantsKept (function : Function α) (final memory : Memory α) (arguments : List Value) :
    Prop where
  read : ∀ var value, (function.graph.var var).kind = .constant value →
    memory.read value.buffer = final.read value.buffer
  apart : ∀ var value, (function.graph.var var).kind = .constant value →
    ¬function.Overwrites memory arguments value.buffer

section Call

variable {final start : Memory α}
  (origin : function.CompiledFrom source) (trusts : function.Trusts heldOutside arguments memory)
  (constants : function.ConstantsKept final memory arguments)
  (prepares : function.signature.Prepares memory arguments inputs prepared)
  (represents : function.Represents source start final)

include origin prepares in
/-- An input comes with a value for the array that it stands for. -/
theorem value_of_input {var : VarId} (declared : var ∈ function.graph.inputs) :
    ∃ (index : Nat) (value : Value), function.signature.inputVars[index]? = some var ∧
      inputs[index]? = some value ∧ prepared.Knows value ∧
      function.graph.rootValue? prepared inputs var = some value ∧
      function.signature.roots source memory arguments var = some (prepared.tensor value) := by
  rcases origin.position_of_input declared with ⟨index, listed, same⟩
  have inside := (List.getElem?_eq_some_iff.mp listed).1
  rw [← prepares.length] at inside
  have given := List.getElem?_eq_getElem inside
  rcases prepares.origin index _ given with ⟨handle, handled, known, tensor⟩
  refine ⟨index, inputs[index], listed, given, known, by rw [same, given], ?_⟩
  rw [Signature.roots_input origin.lists listed, handled, tensor]
  rfl

include trusts constants prepares in
/-- The constants are as the compilation left them when a run begins. -/
theorem tensor_of_constant {var : VarId} {value : Value}
    (kind : (function.graph.var var).kind = .constant value) :
    prepared.Knows value ∧ prepared.tensor value = final.tensor value := by
  have known := (trusts.constants var value kind).1
  refine ⟨prepares.keeps.knows known, (prepares.keeps.tensor known).trans ?_⟩
  exact congrArg (Tensor.mk _ _) (constants.read var value kind)

include origin represents in
/-- The inputs of a function are variables of the symbolic graph, and no constants. -/
theorem kind_of_input {var : VarId} (declared : var ∈ function.graph.inputs) :
    var.index < source.vars.size ∧ ∀ value, (function.graph.var var).kind ≠ .constant value := by
  rw [origin.inputs] at declared
  have located : ∃ content, source.vars[var.index]? = some content ∧
      ∀ value, content.kind ≠ .constant value := by
    rcases List.mem_append.mp declared with member | member
    · rcases List.mem_map.mp member with ⟨argument, argumentMem, rfl⟩
      rcases origin.lists.arguments argument argumentMem with ⟨content, found, kind, _⟩
      exact ⟨content, found, by simp [kind]⟩
    · rcases List.mem_map.mp member with ⟨slot, slotMem, rfl⟩
      rcases origin.lists.shared slot slotMem with ⟨content, found, kind⟩
      exact ⟨content, found, by simp [kind]⟩
  rcases located with ⟨content, found, kind⟩
  have inside := (Array.getElem?_eq_some_iff.mp found).1
  refine ⟨inside, ?_⟩
  rw [represents.var var inside, Dataflow.var, Graph.whole, found]
  exact kind

include origin trusts constants prepares represents in
/-- A run finds the arrays that plain evaluation starts from. -/
theorem rootTensor?_of_environment {var : VarId} {tensor : Tensor α}
    (found : function.graph.environment final (function.signature.roots source memory arguments) var =
      some tensor) : function.graph.rootTensor? prepared inputs var = some tensor := by
  by_cases declared : var ∈ function.graph.inputs
  · rcases value_of_input origin prepares declared with ⟨_, value, _, _, _, rooted, given⟩
    rw [Dataflow.environment_of_not_constant (kind_of_input origin represents declared).2, given] at found
    rw [Dataflow.rootTensor?, rooted]
    exact found
  · have rooted : function.graph.rootValue? prepared inputs var =
        (SlotTable.rootSource? (function.graph.var var).kind).bind (Source.value? prepared inputs) := by
      rw [Dataflow.rootValue?, Dataflow.source?, if_neg declared]
    by_cases constant : ∃ value, (function.graph.var var).kind = .constant value
    · rcases constant with ⟨value, kind⟩
      rw [Dataflow.environment_of_constant kind] at found
      rw [kind] at rooted
      rw [Dataflow.rootTensor?, rooted, ← found,
        ← (tensor_of_constant trusts constants prepares kind).2]
      rfl
    · rw [Dataflow.environment_of_not_constant fun value kind => constant ⟨value, kind⟩] at found
      rcases Option.bind_eq_some_iff.mp found with ⟨content, located, given⟩
      have same : (function.graph.var var).kind = content.kind := by
        rw [represents.var var (Array.getElem?_eq_some_iff.mp located).1, Dataflow.var, Graph.whole,
          located]
        rfl
      rw [same] at rooted
      split at given
      · -- An input that is not listed comes with nothing.
        rcases Option.map_eq_some_iff.mp given with ⟨value, handled, _⟩
        have listed := List.idxOf_lt_length_iff.mp (Signature.handle?_lt handled)
        exact absurd (origin.inputs ▸ listed) declared
      · rename_i value kind
        exact absurd ⟨value, same.trans kind⟩ constant
      · rename_i container kind
        rcases Option.map_eq_some_iff.mp given with ⟨value, held, rfl⟩
        have rootedAt : function.graph.rootValue? prepared inputs var = some value := by
          rw [rooted, kind]
          exact (congrArg _ (Memory.container_of_containers prepares.keeps.containers container)).trans
            held
        rw [Dataflow.rootTensor?, rootedAt]
        exact congrArg some (prepares.keeps.tensor (trusts.container held).1)
      · cases given

include represents in
/-- A root that is no input is a constant. -/
theorem constant_of_supplies {var : VarId} (supplies : function.graph.Supplies var)
    (undeclared : var ∉ function.graph.inputs) :
    ∃ value, (function.graph.var var).kind = .constant value ∧
      function.graph.rootValue? prepared inputs var = some value := by
  rcases supplies with ⟨used, sourced⟩
  rw [Dataflow.source?, if_neg undeclared] at sourced
  cases kind : (function.graph.var var).kind with
  | constant value =>
    refine ⟨value, rfl, ?_⟩
    rw [Dataflow.rootValue?, Dataflow.source?, if_neg undeclared, kind]
    rfl
  | shared container =>
    exact absurd (represents.declared var container (used.resolve_left undeclared) kind) undeclared
  | input =>
    rw [kind] at sourced
    exact absurd rfl sourced
  | output id index =>
    rw [kind] at sourced
    exact absurd rfl sourced

include origin trusts constants prepares represents in
/-- A run is supplied with arrays of the types of its roots, and inputs that are overwritten have
buffers to themselves. -/
theorem supplied (assigns : (source.whole [] []).Assigns
      (function.signature.roots source memory arguments)) :
    function.graph.Supplied prepared inputs where
  count := by rw [prepares.length, origin.inputs]
  value var supplies := by
    by_cases declared : var ∈ function.graph.inputs
    · rcases value_of_input origin prepares declared with ⟨_, value, _, _, known, rooted, given⟩
      refine ⟨value, rooted, known, ?_⟩
      rw [Dataflow.type, represents.var var (kind_of_input origin represents declared).1]
      exact (assigns var _ given).1
    · rcases constant_of_supplies represents supplies declared with ⟨value, kind, rooted⟩
      rcases tensor_of_constant trusts constants prepares kind with ⟨known, tensor⟩
      rcases represents.constants var value kind with ⟨stores, type⟩
      refine ⟨value, rooted, known, ?_⟩
      rw [tensor, type]
      exact stores.conforms
  apart var other supplies supplies' different overwritten value value' found found' := by
    rcases overwritten with ⟨id, overwrites⟩
    have free := origin.not_protected overwrites
    rcases value_of_input origin prepares (supplies.declared free) with
      ⟨index, own, listed, given, _, rooted, _⟩
    rw [rooted] at found
    cases found
    have writable := origin.writable_of_not_protected listed free
    by_cases declared : other ∈ function.graph.inputs
    · rcases value_of_input origin prepares declared with ⟨index', own', listed', given', _, rooted', _⟩
      rw [rooted'] at found'
      cases found'
      refine prepares.apart index index' value value' writable ?_ given given'
      rintro rfl
      rw [listed] at listed'
      exact different (Option.some.inj listed')
    · rcases constant_of_supplies represents supplies' declared with ⟨constant, kind, rooted'⟩
      rw [rooted'] at found'
      cases found'
      intro same
      have known := (trusts.constants other value' kind).1
      rcases prepares.own index value writable given with new | exposes
      · rw [same] at new
        exact absurd known (Nat.not_lt.mpr new)
      · rcases exposes.handle with ⟨handle, handled, onBuffer⟩
        exact constants.apart other value' kind
          ⟨index, var, id, handle, listed, overwrites, handled, onBuffer.trans same⟩

include trusts constants represents in
/-- The constants of the symbolic graph stand for what they stood for when it was compiled. -/
theorem stores_constant (stored : source.ConstantsStored start) {id : VarId} {value : Value}
    (kind : source.HasKind id (.constant value)) :
    memory.tensor value = start.tensor value ∧ memory.Stores value := by
  have found : (function.graph.var id).kind = .constant value := by
    have inside := (Array.getElem?_eq_some_iff.mp kind.choose_spec.1).1
    rw [represents.var id inside]
    exact source.kind_whole kind [] []
  have before := stored id value kind
  have same : memory.tensor value = start.tensor value :=
    (congrArg (Tensor.mk _ _) (constants.read id value found)).trans
      (represents.keeps.tensor before.known)
  exact ⟨same, before.of_tensor (trusts.constants id value found).1 same⟩

include trusts constants represents in
theorem environment_of_roots (stored : source.ConstantsStored start) {var : VarId} {tensor : Tensor α}
    (found : function.signature.roots source memory arguments var = some tensor) :
    (source.whole [] []).environment start (function.signature.roots source memory arguments) var =
      some tensor := by
  by_cases constant : ∃ value, source.HasKind var (.constant value)
  · rcases constant with ⟨value, kind⟩
    rw [Signature.roots_constant kind,
      (stores_constant trusts constants represents stored kind).1] at found
    rw [Dataflow.environment_of_constant (source.kind_whole kind [] []), found]
  · rw [Dataflow.environment_of_not_constant, found]
    intro value kind
    rcases Option.bind_eq_some_iff.mp found with ⟨content, located, _⟩
    rw [Dataflow.var, Graph.whole, located] at kind
    exact constant ⟨value, content, located, kind⟩

end Call

/-- A run gives values for the outputs and the updates of a function. -/
def Answers (function : Function α) (source : Graph α) (hosts : Meaning α)
    (roots : VarId → Option (Tensor α)) (memory : Memory α) (values : List Value) : Prop :=
  List.Forall₂ (fun var value => memory.Knows value ∧
    (memory.tensor value).Conforms ((source.whole [] []).type var) ∧
    source.Evaluates hosts roots var (memory.tensor value)) function.signature.outputVars values

theorem Answers.later {hosts : Meaning α} {roots : VarId → Option (Tensor α)} {after : Memory α}
    {values : List Value} (answers : function.Answers source hosts roots memory values)
    (same : after.buffers = memory.buffers) : function.Answers source hosts roots after values := by
  refine answers.imp fun _ value facts => ?_
  rw [Memory.Knows, Memory.tensor_of_buffers same, same]
  exact facts

/-- What the compiled graph computes answers for the symbolic graph, if both stand for the same. -/
theorem answers_of_delivers {hosts : Meaning α} {roots roots' : VarId → Option (Tensor α)}
    {results : List (Tensor α)} {values : List Value} {after : Memory α}
    (types : function.graph.outputs.map function.graph.type =
      function.signature.outputVars.map (source.whole [] []).type)
    (expected : List.Forall₂ (source.Evaluates hosts roots) function.signature.outputVars results)
    (computed : List.Forall₂ (function.graph.Evaluates hosts roots') function.graph.outputs results)
    (delivers : function.graph.Delivers hosts roots' after values) :
    function.Answers source hosts roots after values := by
  have same : results = values.map after.tensor := by
    refine Evaluates.unique_list computed ?_
    rw [List.forall₂_map_right_iff]
    exact delivers.imp fun _ _ facts => facts.2.2
  have conform : List.Forall₂ (fun type value => after.Knows value ∧
      (after.tensor value).Conforms type) (function.graph.outputs.map function.graph.type) values := by
    rw [List.forall₂_map_left_iff]
    exact delivers.imp fun _ _ facts => ⟨facts.1, facts.2.1⟩
  rw [types, List.forall₂_map_left_iff] at conform
  rw [same, List.forall₂_map_right_iff] at expected
  exact conform.mp (fun _ _ facts evaluates => ⟨facts.1, facts.2, evaluates⟩) expected

section WriteBack

variable {start after : Memory α} {inputs : List InputSpec} {outputs : List OutputSpec}
  {updates : List (VarId × VarId)} {values : List Value}

omit [Arithmetic α] in
/-- Containers accept what they are updated to. -/
theorem accepts_updateEntries {signature : Signature}
    (collected : Signature.collect start source inputs outputs updates = Except.ok signature)
    (same : ∀ slot ∈ signature.shared,
      (after.container slot.container).type = (start.container slot.container).type)
    (opened : ∀ slot ∈ signature.shared, (start.container slot.container).type = ArrayType.ofRank
      (start.container slot.container).type.element (start.container slot.container).type.rank)
    (conform : List.Forall₂ (fun entry value =>
      (after.tensor value).Conforms ((source.whole [] []).type entry.2)) signature.updated values) :
    ∀ entry ∈ updateEntries signature values, (after.container entry.1).accepts entry.2 := by
  intro entry member
  rcases List.mem_map.mp member with ⟨⟨⟨slot, expression⟩, value⟩, both, rfl⟩
  rcases Signature.mem_updated.mp (List.of_mem_zip both).1 with ⟨slotMem, updated⟩
  have conforms := List.forall₂_zip conform both
  rcases Signature.update_typed_of_collect collected slotMem updated with
    ⟨var, located, element, rank⟩
  have type : (source.whole [] []).type expression = var.type := by
    rw [Dataflow.type, Dataflow.var, Graph.whole, located]
    rfl
  rw [type] at conforms
  simp only [Container.accepts, Bool.and_eq_true, decide_eq_true_eq]
  rw [same slot slotMem]
  refine ⟨conforms.element.trans element, ?_⟩
  have length := ArrayType.rank_of_acceptsShape conforms.shape
  rw [opened slot slotMem, ← rank, length]
  exact ArrayType.acceptsShape_ofRank _ _

/-- Writing answers back puts the values of the updates into their containers. -/
theorem writeBack_of_answers {hosts : Meaning α} {roots : VarId → Option (Tensor α)}
    (collected : Signature.collect start source inputs outputs updates =
      Except.ok function.signature)
    (before : source.ContainersStored start) (now : source.ContainersStored memory)
    (containers : after.containers = memory.containers)
    (held : ∀ slot ∈ function.signature.shared, (after.container slot.container).value ≠ none)
    (answers : function.Answers source hosts roots after values) (log : List LogEntry) :
    ∃ written : Memory α, function.Answers source hosts roots written values ∧
      writeBack function.signature (values.drop function.signature.outputs.length) ⟨after, log⟩ =
        .ok () ⟨written, log⟩ ∧
      ∀ slot ∈ function.signature.shared, ∀ expression, slot.update = some expression →
        ∃ value, (written.container slot.container).value = some value ∧
          source.Evaluates hosts roots expression (written.tensor value) := by
  have updated := List.forall₂_drop function.signature.outputs.length answers
  rw [Signature.outputVars, List.drop_left' (by simp), List.forall₂_map_left_iff] at updated
  have typed : ∀ slot ∈ function.signature.shared,
      (after.container slot.container).type = (start.container slot.container).type ∧
      (start.container slot.container).type = ArrayType.ofRank
        (start.container slot.container).type.element
        (start.container slot.container).type.rank := by
    intro slot slotMem
    rcases (Signature.lists_of_collect collected).shared slot slotMem with ⟨var, found, kind⟩
    rcases before slot.var var slot.container found kind with ⟨typeBefore, opened, _⟩
    rcases now slot.var var slot.container found kind with ⟨typeNow, _, _⟩
    rw [Memory.container_of_containers containers, typeNow, typeBefore]
    exact ⟨rfl, opened⟩
  have accepted := accepts_updateEntries collected (fun slot member => (typed slot member).1)
    (fun slot member => (typed slot member).2) (updated.imp fun _ _ facts => facts.2.1)
  have distinct := (Signature.lists_of_collect collected).containers_distinct
  have tensor := Memory.tensor_of_buffers (Memory.buffers_store (updateEntries function.signature
    (values.drop function.signature.outputs.length)) : (after.store _).buffers = after.buffers)
  refine ⟨_, answers.later (Memory.buffers_store _), writeBack_of_accepts held accepted, ?_⟩
  intro slot slotMem expression found
  rcases List.mem_iff_getElem?.mp (Signature.mem_updated.mpr ⟨slotMem, found⟩) with ⟨index, listed⟩
  rcases forall₂_getElem?_left updated listed with ⟨value, given, facts⟩
  refine ⟨value, ?_, tensor value ▸ facts.2.2⟩
  rw [Memory.container_store_of_mem (nodup_updateEntries distinct _)]
  · rintro ⟨container, content⟩ member
    rcases mem_updateEntries member with ⟨other, otherMem, _, rfl⟩
    exact held other otherMem
  · refine List.mem_map.mpr ⟨((slot, expression), value), ?_, rfl⟩
    refine List.mem_of_getElem? (i := index) ?_
    exact List.getElem?_zip_eq_some.mpr ⟨listed, given⟩

end WriteBack

/-- A function is asked for something that it can answer: it is called as its signature asks for, on
arrays that are stored as their types ask for, with nobody else's hands on its constants. -/
structure Admits (function : Function α) (source : Graph α) (final : Memory α)
    (heldOutside : BufferId → Bool) (arguments : List Value) (memory : Memory α) : Prop where
  trusts : function.Trusts heldOutside arguments memory
  accepts : function.signature.Accepts memory arguments
  arguments_stored : ∀ value ∈ arguments, memory.Stores value
  containers_stored : source.ContainersStored memory
  constants_kept : function.ConstantsKept final memory arguments

theorem Evolves.represents (evolves : compiled.Evolves function memory) {start final : Memory α}
    (represents : compiled.Represents source start final) :
    function.Represents source start final := by
  rcases evolves.same with ⟨signature, graph⟩
  refine ⟨?_, represents.keeps, ?_, ?_, ?_⟩
  · rw [signature, graph]
    exact represents.types
  · rw [graph]
    exact represents.var
  · rw [graph]
    exact represents.constants
  · rw [graph]
    exact represents.declared

/-- The run of a call is evaluation of the compiled graph. -/
theorem Evolves.runsPurely (evolves : compiled.Evolves function memory)
    (origin : compiled.CompiledFrom source) {hosts : Meaning α} (pure : source.HostsPure hosts)
    {linker : Linker} {options : LinkOptions} {orderings : Orderings} {log : List LogEntry}
    (validated : compiled.graph.validate = Except.ok orderings)
    (link : Executable.link linker options compiled.graph orderings =
      Except.ok (compiled.executable, log))
    (trusts : function.Trusts heldOutside arguments memory)
    (prepares : function.signature.Prepares memory arguments inputs prepared)
    (supplied : function.graph.Supplied prepared inputs) :
    function.graph.RunsPurely hosts prepared inputs
      (function.executable.run heldOutside inputs prepared) := by
  rcases Executable.link_eq_ok link with ⟨laid, rfl, _, empty⟩
  rcases Schedule.laysOut_of_ofGraph origin.nodup_inputs laid with ⟨order, vars, ordered, laysOut⟩
  have wellFormed := origin.formed.toWellFormed
  have safe := Dataflow.safe_of_validate wellFormed validated ordered
  have sound := laysOut.sound wellFormed origin.nodup_inputs (Dataflow.respects_of_order ordered)
  have reached := (evolves.executable origin pure.quiet).elsewhere prepares.keeps.size
    fun buffer known => by rw [prepares.keeps.read buffer known]
  have ready := trusts.executable (evolves.reached.compiledFrom origin) prepares
  rw [evolves.same.2] at supplied ⊢
  exact Dataflow.runsPurely_of_reached wellFormed origin.closed safe
    (fun id node live => origin.computes pure.computes live) supplied laysOut sound empty reached ready

/-- A call whose run answers ends well, with the values of the outputs as its result and those of the
updates in their containers. -/
theorem Ended.answers {hosts : Meaning α} {roots : VarId → Option (Tensor α)}
    {result : Checked FunctionError (List Value)} {start after : Memory α} {inputs : List InputSpec}
    {outputs : List OutputSpec} {updates : List (VarId × VarId)}
    (ended : function.Ended heldOutside arguments memory result after)
    (origin : function.CompiledFrom source) (pure : source.HostsPure hosts)
    (vouches : memory.Vouches heldOutside arguments)
    (collected : Signature.collect start source inputs outputs updates =
      Except.ok function.signature)
    (before : source.ContainersStored start) (accepts : function.signature.Accepts memory arguments)
    (now : source.ContainersStored memory)
    (runs : ∀ {inputs prepared}, function.signature.Prepares memory arguments inputs prepared →
      ∃ values, (function.executable.run heldOutside inputs prepared).result = Except.ok values ∧
        function.Answers source hosts roots
          (function.executable.run heldOutside inputs prepared).memory values) :
    ∃ values, result = Except.ok values ∧
      List.Forall₂ (fun output value => after.Knows value ∧
        source.Evaluates hosts roots output.var (after.tensor value)) function.signature.outputs
        values ∧
      ∀ slot ∈ function.signature.shared, ∀ expression, slot.update = some expression →
        ∃ value, (after.container slot.container).value = some value ∧
          source.Evaluates hosts roots expression (after.tensor value) := by
  have writes : ∀ {inputs prepared values}, function.signature.Prepares memory arguments inputs
      prepared → function.Answers source hosts roots
        (function.executable.run heldOutside inputs prepared).memory values → ∀ log, _ :=
    fun prepares answers log => writeBack_of_answers collected before now
      (origin.framed_run pure.quiet heldOutside prepares).containers
      (origin.held_run pure.quiet heldOutside prepares) answers log
  cases ended with
  | unprepared failed => exact absurd accepts ((prepare_ends vouches).of_error failed).2
  | unfinished ready failed =>
    rcases runs ((prepare_ends vouches).of_ok ready) with ⟨_, ran, _⟩
    rw [failed] at ran
    cases ran
  | unwritten ready ran failed =>
    rcases runs ((prepare_ends vouches).of_ok ready) with ⟨_, ran', answers⟩
    rw [ran] at ran'
    cases ran'
    rcases writes ((prepare_ends vouches).of_ok ready) answers _ with ⟨_, _, wrote, _⟩
    rw [failed] at wrote
    cases wrote
  | finished ready ran wrote =>
    rcases runs ((prepare_ends vouches).of_ok ready) with ⟨_, ran', answers⟩
    rw [ran] at ran'
    cases ran'
    rcases writes ((prepare_ends vouches).of_ok ready) answers _ with ⟨written, answers, wrote', updates⟩
    rw [wrote] at wrote'
    cases wrote'
    have taken := List.forall₂_take function.signature.outputs.length answers
    rw [Signature.outputVars, List.take_left' (by simp), List.forall₂_map_left_iff] at taken
    exact ⟨_, rfl, taken.imp fun _ _ facts => ⟨facts.1, facts.2.2⟩, updates⟩

/-- What came of a call is what plain evaluation says, with containers standing for what they held
before the call: its results are the arrays of the outputs, every updated container holds the array of
its update, and the other containers that the function reads and its constants are as they were. -/
structure CallsPurely (function : Function α) (source : Graph α) (spec : FunctionSpec)
    (hosts : Meaning α) (arguments : List Value) (memory : Memory α)
    (result : Checked FunctionError (List Value)) (after : Memory α) : Prop where
  outputs : ∃ values, result = Except.ok values ∧
    List.Forall₂ (fun output value => after.Knows value ∧
      source.Evaluates hosts (function.signature.roots source memory arguments) output.var
        (after.tensor value)) spec.outputs values
  updates : ∀ pair ∈ Signature.updatePairs spec.inputs spec.updates, ∀ container,
    source.HasKind pair.1 (.shared container) → ∃ value,
      (after.container container).value = some value ∧
        source.Evaluates hosts (function.signature.roots source memory arguments) pair.2
          (after.tensor value)
  others : ∀ slot ∈ function.signature.shared, slot.update = none →
    after.container slot.container = memory.container slot.container ∧
      ∀ value, (memory.container slot.container).value = some value →
        after.tensor value = memory.tensor value
  constants : ∀ var value, (function.graph.var var).kind = .constant value →
    after.tensor value = memory.tensor value

section Correct

variable {compiler : Compiler α} {spec : FunctionSpec} {state final : Logged α} {mode : ResolvedMode}
  {hosts : Meaning α} (standard : compiler.rules = Database.standard) (built : source.Built)
  (stored : source.ConstantsStored state.memory) (pure : source.HostsPure hosts)
  (compilation : compiler.compile source spec state = .ok compiled final)
  (resolved : compiler.modes.resolve spec.mode = Except.ok mode)
  (sound : ∀ entry ∈ (Database.standard : Database α).select mode.optimizer, ∀ rule ∈ entry.2,
    rule.tags.contains "unsafe" = false)
  (identities : Identities α ((Database.standard : Database α).Selects mode.optimizer))
  (evolves : compiled.Evolves function memory)
  (admits : function.Admits source final.memory heldOutside arguments memory)
include standard built stored pure compilation resolved sound identities evolves admits

/-- The run of a call is plain evaluation of the outputs and the updates. -/
theorem run_answers {results : List (Tensor α)}
    (expected : List.Forall₂ (source.Evaluates hosts
      (function.signature.roots source memory arguments)) function.signature.outputVars results)
    (prepares : function.signature.Prepares memory arguments inputs prepared) :
    ∃ values, (function.executable.run heldOutside inputs prepared).result = Except.ok values ∧
      function.Answers source hosts (function.signature.roots source memory arguments)
        (function.executable.run heldOutside inputs prepared).memory values := by
  rcases Compiler.compile_eq_ok compilation with
    ⟨_, _, _, _, _, orderings, _, _, _, _, _, _, _, _, validated, link⟩
  have start := compiledFrom_of_compile standard built stored compilation
  have origin := evolves.reached.compiledFrom start
  have represents := evolves.represents
    (Compiler.represents_of_compile standard built stored compilation)
  rcases evolves.same with ⟨sameSignature, sameGraph⟩
  have trusts := admits.trusts
  have kept := admits.constants_kept
  have assigns : (source.whole [] []).Assigns (function.signature.roots source memory arguments) :=
    Signature.assigns_roots built origin.lists admits.accepts admits.arguments_stored
      (fun id value kind => (stores_constant trusts kept represents stored kind).2)
      admits.containers_stored
  have works : function.graph.Works hosts final.memory
      ⟨function.signature.roots source memory arguments, results⟩ := by
    rw [sameGraph]
    refine Compiler.works_of_compile standard built stored pure.hostsTyped compilation resolved sound
      identities assigns ?_ ?_
    · intro id other container kind kind'
      exact (Signature.roots_shared kind).trans (Signature.roots_shared kind').symm
    · rw [← sameSignature]
      exact expected.imp fun _ _ evaluates =>
        evaluates.mono fun _ _ => environment_of_roots trusts kept represents stored
  have included : ∀ var tensor, function.graph.environment final.memory
      (function.signature.roots source memory arguments) var = some tensor →
        function.graph.rootTensor? prepared inputs var = some tensor :=
    fun _ _ => rootTensor?_of_environment origin trusts kept prepares represents
  have runsPurely := evolves.runsPurely start pure validated link trusts prepares
    (supplied origin trusts kept prepares represents assigns)
  rcases runsPurely.succeeds.mpr (works.nodes.mono included) with ⟨values, ran⟩
  refine ⟨values, ran, answers_of_delivers represents.types expected ?_
    (runsPurely.delivers values ran)⟩
  exact works.outputs.imp fun _ _ yields => yields.mono included

/-- A call of a compiled function is plain evaluation, with any linker and after any number of earlier
calls, as long as what it overwrites is not a constant. -/
theorem callsPurely_of_compile (containers : source.ContainersStored state.memory)
    (evaluate : ∀ var ∈ spec.outputs.map (·.var) ++
        (Signature.updatePairs spec.inputs spec.updates).map (·.2),
      ∃ tensor, source.Evaluates hosts (function.signature.roots source memory arguments) var
        tensor) :
    function.CallsPurely source spec hosts arguments memory
      (function.call heldOutside arguments memory).result
      (function.call heldOutside arguments memory).memory := by
  rcases Compiler.compile_eq_ok compilation with ⟨_, _, _, _, _, _, _, _, _, _, collected, _⟩
  rw [← evolves.same.1] at collected
  have origin := evolves.reached.compiledFrom
    (compiledFrom_of_compile standard built stored compilation)
  have vouches := admits.trusts.toVouches
  have declares := Signature.declares_of_collect collected
  have ended := ended_call function heldOutside arguments memory
  have framed := origin.framed pure.quiet vouches ended
  rcases exists_forall₂ fun var member => evaluate var (declares.of_mem_outputVars member) with
    ⟨results, expected⟩
  rcases ended.answers origin pure vouches collected containers admits.accepts admits.containers_stored
    fun prepares => run_answers standard built stored pure compilation resolved sound identities
      evolves admits expected prepares with ⟨values, answered, outputs, updates⟩
  refine ⟨⟨values, answered, declares.outputs ▸ outputs⟩, ?_, ?_, ?_⟩
  · intro pair listed container kind
    rcases declares.listed pair listed with ⟨slot, slotMem, slotKind, updated⟩
    cases kind.unique slotKind
    exact updates slot slotMem pair.2 updated
  · exact fun slot member fixed =>
      framed.container_kept vouches origin.lists.containers_distinct member fixed
  · intro var value kind
    rcases admits.trusts.constants var value kind with ⟨known, outside⟩
    exact congrArg (Tensor.mk _ _) (framed.read value.buffer known fun touches =>
      admits.constants_kept.apart var value kind (touches.overwrites outside))

end Correct

/-- A symbolic graph that negates a vector in place and adds a constant to it. -/
def shiftedNegation : Graph ℚ where
  vars := #[⟨ArrayType.ofRank .float64 1, .input, some "x"⟩,
    ⟨⟨.float64, [some 2]⟩, .constant ⟨.float64, [2], ⟨0⟩⟩, none⟩,
    ⟨ArrayType.ofRank .float64 1, .output ⟨0⟩ 0, none⟩,
    ⟨⟨.float64, [some 2]⟩, .output ⟨1⟩ 0, none⟩]
  nodes := #[⟨.elementwise .neg (some 0), [⟨0⟩], [⟨2⟩]⟩,
    ⟨.elementwise .add none, [⟨2⟩, ⟨1⟩], [⟨3⟩]⟩]

/-- The vector is mutable. -/
def shiftedNegationSpec : FunctionSpec where
  inputs := [⟨⟨0⟩, none, true, false, false, none⟩]
  outputs := [⟨⟨3⟩, false⟩]
  updates := []
  mode := .given ⟨Query.none, "perform", false⟩
  options := ⟨.raise, false, true, none, false⟩
  link := ⟨true, false⟩

/-- What the graph is compiled to. -/
def shiftedNegationFunction : Function ℚ where
  executable := ⟨⟨4, 1, [(0, .argument 0), (2, .constant ⟨.float64, [2], ⟨0⟩⟩)],
    [⟨⟨0⟩, .elementwise .neg (some 0), [0], [1], [0]⟩,
      ⟨⟨1⟩, .elementwise .add none, [1, 2], [3], [1, 2]⟩], [3]⟩, .perform, ⟨true, false⟩, #[]⟩
  signature := ⟨[⟨⟨0⟩, some "x", ArrayType.ofRank .float64 1, true, false, false⟩], [], [],
    [⟨⟨3⟩, false⟩]⟩
  graph := ⟨shiftedNegation.vars, shiftedNegation.nodes.map some, [⟨0⟩], [⟨3⟩], []⟩
  report := ⟨[], []⟩
  profile := none

/-- The constant is on the first buffer. -/
def shiftedNegationMemory : Memory ℚ := ⟨#[#[1, 2], #[5, 7]], #[]⟩

theorem built_shiftedNegation : shiftedNegation.Built := by
  let roots : Graph ℚ := ⟨shiftedNegation.vars.take 2, #[]⟩
  let negated : Graph ℚ := ⟨shiftedNegation.vars.take 3, shiftedNegation.nodes.take 1⟩
  have applied : roots.apply (.elementwise .neg (some 0)) [⟨0⟩] = Except.ok ([⟨2⟩], negated) := rfl
  have applied' : negated.apply (.elementwise .add none) [⟨2⟩, ⟨1⟩] =
      Except.ok ([⟨3⟩], shiftedNegation) := rfl
  have built : roots.Built := .constant (.input .empty _ "x") ⟨.float64, [2], ⟨0⟩⟩
  exact .apply (.apply built applied) applied'

theorem compile_shiftedNegation : ∃ final, Compiler.standard.compile shiftedNegation
    shiftedNegationSpec ⟨shiftedNegationMemory, []⟩ = .ok shiftedNegationFunction final ∧
      final.memory = shiftedNegationMemory := by
  have resolved : (Compiler.standard : Compiler ℚ).modes.resolve shiftedNegationSpec.mode =
      Except.ok ⟨Query.none, .perform, false⟩ := rfl
  have collected : Signature.collect (Logged.mk shiftedNegationMemory []).memory shiftedNegation
      shiftedNegationSpec.inputs shiftedNegationSpec.outputs shiftedNegationSpec.updates =
        Except.ok shiftedNegationFunction.signature := rfl
  have capturing : Compilation.captureGraph shiftedNegation shiftedNegationFunction.signature false =
      Except.ok shiftedNegationFunction.graph := by
    cbv
  have used : Compilation.checkUnused .raise shiftedNegationFunction.signature
      shiftedNegationFunction.graph ⟨shiftedNegationMemory, []⟩ =
        .ok () ⟨shiftedNegationMemory, []⟩ := by
    cbv
  have valid : shiftedNegationFunction.graph.validate = Except.ok Orderings.empty := by cbv
  have protecting : shiftedNegationFunction.graph.protectOutputs
      shiftedNegationFunction.signature.inputContracts
      shiftedNegationFunction.signature.outputContracts =
        Except.ok (0, shiftedNegationFunction.graph) := by
    cbv
  have link : Executable.link .perform ⟨true, false⟩ shiftedNegationFunction.graph .empty =
      Except.ok (shiftedNegationFunction.executable, []) := by
    cbv
  exact Compiler.compile_of_steps resolved collected capturing used rfl (Edit.optimize_none valid)
    protecting valid link

/-- The constant is the only one of the compiled graph. -/
theorem constant_shiftedNegation {var : VarId} {value : Value}
    (kind : (shiftedNegationFunction.graph.var var).kind = .constant value) :
    value = ⟨.float64, [2], ⟨0⟩⟩ := by
  have only : ∀ var ∈ shiftedNegationFunction.graph.varIds, ∀ value,
      (shiftedNegationFunction.graph.var var).constant? = some value →
        value = ⟨.float64, [2], ⟨0⟩⟩ := by
    decide
  refine only var (Dataflow.mem_varIds.mpr ?_) value (Variable.constant?_eq_some.mpr kind)
  by_contra unknown
  rw [Dataflow.var_default (by omega)] at kind
  cases kind

theorem stored_shiftedNegation : shiftedNegation.ConstantsStored shiftedNegationMemory := by
  rintro id value ⟨var, found, kind⟩
  have same : (shiftedNegationFunction.graph.var id).kind = .constant value := by
    rw [Dataflow.var, shiftedNegationFunction, found]
    exact kind
  cases constant_shiftedNegation same
  exact ⟨by simp [Memory.Knows, shiftedNegationMemory], rfl, fun x _ => ⟨x, rfl⟩⟩

theorem trusts_shiftedNegation : shiftedNegationFunction.Trusts (fun _ => true)
    [⟨.float64, [2], ⟨1⟩⟩] shiftedNegationMemory where
  arguments := by simp [Memory.Knows, shiftedNegationMemory]
  containers := by simp [shiftedNegationMemory]
  constants := by
    intro var value kind
    cases constant_shiftedNegation kind
    simp [Memory.Knows, shiftedNegationMemory]

/-- The output stands for the constant less the argument. -/
theorem evaluates_shiftedNegation (arguments : List Value) {x y : ℚ}
    (given : shiftedNegationFunction.signature.roots shiftedNegation shiftedNegationMemory arguments
      ⟨0⟩ = some ⟨.float64, [2], #[x, y]⟩) :
    shiftedNegation.Evaluates (fun _ _ => Checked.abort (.noSuchOperand 0))
      (shiftedNegationFunction.signature.roots shiftedNegation shiftedNegationMemory arguments) ⟨3⟩
        ⟨.float64, [2], #[-x + 1, -y + 2]⟩ := by
  have negated : (shiftedNegation.whole [] []).producerNode? ⟨2⟩ =
      some (⟨.elementwise .neg (some 0), [⟨0⟩], [⟨2⟩]⟩, 0) := by cbv
  have added : (shiftedNegation.whole [] []).producerNode? ⟨3⟩ =
      some (⟨.elementwise .add none, [⟨2⟩, ⟨1⟩], [⟨3⟩]⟩, 0) := by cbv
  have first : shiftedNegation.Evaluates (fun _ _ => Checked.abort (.noSuchOperand 0))
      (shiftedNegationFunction.signature.roots shiftedNegation shiftedNegationMemory arguments) ⟨2⟩
        ⟨.float64, [2], #[-x, -y]⟩ :=
    (Evaluates.output_iff_forall₂ negated).mpr
      ⟨[⟨.float64, [2], #[x, y]⟩], [⟨.float64, [2], #[-x, -y]⟩], .cons (.root rfl given) .nil, rfl,
        rfl⟩
  refine (Evaluates.output_iff_forall₂ added).mpr
    ⟨[⟨.float64, [2], #[-x, -y]⟩, ⟨.float64, [2], #[1, 2]⟩], [⟨.float64, [2], #[-x + 1, -y + 2]⟩],
      .cons first (.cons (.root rfl rfl) .nil), rfl, rfl⟩

/-- A call with a vector on a buffer of its own gives the sum of its negation and the constant. -/
theorem callsPurely_shiftedNegation :
    shiftedNegationFunction.CallsPurely shiftedNegation shiftedNegationSpec
      (fun _ _ => Checked.abort (.noSuchOperand 0)) [⟨.float64, [2], ⟨1⟩⟩] shiftedNegationMemory
      (shiftedNegationFunction.call (fun _ => true) [⟨.float64, [2], ⟨1⟩⟩]
        shiftedNegationMemory).result
      (shiftedNegationFunction.call (fun _ => true) [⟨.float64, [2], ⟨1⟩⟩]
        shiftedNegationMemory).memory := by
  rcases compile_shiftedNegation with ⟨final, compilation, same⟩
  have free : ∀ node ∈ shiftedNegation.nodes, ∀ function, node.op ≠ .host function := by
    simp [shiftedNegation]
  have pure : shiftedNegation.HostsPure fun _ _ => Checked.abort (.noSuchOperand 0) :=
    ⟨fun node member function host => absurd host (free node member function),
      fun node member function host => absurd host (free node member function),
      fun node member function host => absurd host (free node member function)⟩
  have unshared : ∀ memory, shiftedNegation.ContainersStored memory := by
    intro memory id var container found kind
    have member := Array.mem_of_getElem? found
    simp only [shiftedNegation, Array.mem_def, List.mem_cons, List.not_mem_nil, or_false] at member
    rcases member with rfl | rfl | rfl | rfl <;> cases kind
  have stores : shiftedNegationMemory.Stores ⟨.float64, [2], ⟨1⟩⟩ :=
    ⟨by simp [Memory.Knows, shiftedNegationMemory], rfl, fun x _ => ⟨x, rfl⟩⟩
  have admits : shiftedNegationFunction.Admits shiftedNegation final.memory (fun _ => true)
      [⟨.float64, [2], ⟨1⟩⟩] shiftedNegationMemory := {
    trusts := trusts_shiftedNegation
    accepts := {
      count := rfl
      argument := by
        intro index argument value listed given
        cases index with
        | zero =>
          cases listed
          cases given
          exact ⟨rfl, Or.inl rfl⟩
        | succ index => cases given
      container := by simp [shiftedNegationFunction] }
    arguments_stored := by simpa using stores
    containers_stored := unshared shiftedNegationMemory
    constants_kept := {
      read := fun _ _ _ => by rw [same]
      apart := by
        rintro var value kind ⟨index, _, _, handle, _, _, given, onConstant⟩
        cases constant_shiftedNegation kind
        cases index with
        | zero =>
          cases given
          cases onConstant
        | succ index => simp [Signature.handle?, shiftedNegationFunction] at given } }
  refine callsPurely_of_compile rfl built_shiftedNegation stored_shiftedNegation pure compilation rfl
    ?_ (identities_rat _) (.compiled _) admits (unshared _) ?_
  · simp [Edit.select_none]
  · intro var member
    cases List.mem_singleton.mp member
    exact ⟨_, evaluates_shiftedNegation [⟨.float64, [2], ⟨1⟩⟩] rfl⟩

/-- With the buffer of the constant for its argument, the call negates the constant before it is
added. -/
theorem not_callsPurely_shiftedNegation :
    (∃ final, Compiler.standard.compile shiftedNegation shiftedNegationSpec
      ⟨shiftedNegationMemory, []⟩ = .ok shiftedNegationFunction final) ∧
    shiftedNegation.Evaluates (fun _ _ => Checked.abort (.noSuchOperand 0))
      (shiftedNegationFunction.signature.roots shiftedNegation shiftedNegationMemory
        [⟨.float64, [2], ⟨0⟩⟩]) ⟨3⟩ ⟨.float64, [2], #[0, 0]⟩ ∧
    ∃ value, (shiftedNegationFunction.call (fun _ => true) [⟨.float64, [2], ⟨0⟩⟩]
        shiftedNegationMemory).result = Except.ok [value] ∧
      (shiftedNegationFunction.call (fun _ => true) [⟨.float64, [2], ⟨0⟩⟩]
        shiftedNegationMemory).memory.tensor value = ⟨.float64, [2], #[-2, -4]⟩ := by
  rcases compile_shiftedNegation with ⟨final, compilation, _⟩
  refine ⟨⟨final, compilation⟩, ?_, ⟨.float64, [2], ⟨2⟩⟩, ?_, ?_⟩
  · have evaluates := evaluates_shiftedNegation [⟨.float64, [2], ⟨0⟩⟩] rfl
    norm_num at evaluates
    exact evaluates
  · cbv
  · cbv

end Function

end ArrayGraph
