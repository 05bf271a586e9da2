import ArrayGraph.Proofs.Function.Correct
import ArrayGraph.Proofs.Numbering
import ArrayGraph.Proofs.Run.Progress

/-!
# Calls of compiled functions are type-safe

The graph of a compiled function is typed, and its schedule with it. So once the arguments and the
containers of a call have been accepted, every value in a slot is of the type of the slot's variable
all through the run, and the run fails only if an operation refuses its inputs: because shapes do not
agree, because a reshape does not fit, or because a host function fails by itself. The results are of
the types that the containers of updates ask for. It makes no difference which rules have been
applied, since every change to a graph keeps it typed, and so do earlier calls, whatever they left in
the slots.
-/

namespace ArrayGraph

variable {α : Type} [Arithmetic α]

omit [Arithmetic α] in
/-- The containers of a symbolic graph exist and are of the types of their variables, which leave the
dimensions open. -/
def Graph.ContainersTyped (source : Graph α) (memory : Memory α) : Prop :=
  ∀ (id : VarId) var container, source.vars[id.index]? = some var → var.kind = .shared container →
    container.index < memory.containers.size ∧ (memory.container container).type = var.type ∧
      var.type = ArrayType.ofRank var.type.element var.type.rank

omit [Arithmetic α] in
theorem Graph.ContainersTyped.later {source : Graph α} {memory after : Memory α}
    (typed : source.ContainersTyped memory) (preserves : memory.Preserves after) :
    source.ContainersTyped after := by
  intro id var container found kind
  rcases typed id var container found kind with ⟨known, type, opened⟩
  exact ⟨Nat.lt_of_lt_of_le known preserves.containers, (preserves.type container known).trans type,
    opened⟩

namespace Memory

variable {memory : Memory α} {id : ContainerId} {value : Value}

omit [Arithmetic α] in
theorem type_setContainer (content : Option Value) (other : ContainerId) :
    ((memory.setContainer id content).container other).type = (memory.container other).type := by
  simp only [setContainer, container, Array.getElem?_modify]
  split
  · cases memory.containers[other.index]? <;> rfl
  · rfl

omit [Arithmetic α] in
theorem retains_setContainer (fits : memory.Fits value (memory.container id).type) :
    memory.Retains (memory.setContainer id (some value)) := by
  refine ⟨⟨Nat.le_refl _, fun _ _ => rfl, by simp [setContainer], fun other _ => type_setContainer _ _,
    fun sound => ⟨fun other content held => ?_⟩⟩, fun other held => held_setContainer held⟩
  rw [type_setContainer]
  rcases value_of_setContainer held with held | ⟨rfl, same⟩
  · exact (sound.held other content held).later (Nat.le_refl _) fun _ _ => rfl
  · cases same
    exact fits.later (Nat.le_refl _) fun _ _ => rfl

omit [Arithmetic α] in
/-- Containers may be given values of their types. -/
theorem retains_store {entries : List (ContainerId × Value)}
    (fits : ∀ entry ∈ entries, memory.Fits entry.2 (memory.container entry.1).type) :
    memory.Retains (memory.store entries) := by
  induction entries generalizing memory with
  | nil => exact .refl memory
  | cons entry rest ih =>
    have first := retains_setContainer (fits entry (by simp))
    refine first.trans (ih fun other member => ?_)
    rw [type_setContainer]
    exact (fits other (by simp [member])).preserved first.toPreserves

end Memory

namespace Function

variable {function compiled : Function α} {source : Graph α} {heldOutside : BufferId → Bool}
  {arguments inputs : List Value} {start final memory prepared : Memory α} {vars : List VarId}

/-- What a compiled function and the memory come to by calls, and by what happens between them:
buffers may be written and containers updated or released, but sizes and types stay. -/
inductive InUse (compiled : Function α) (start : Memory α) : Function α → Memory α → Prop
  | compiled : InUse compiled start compiled start
  | call {function : Function α} {memory : Memory α} (before : InUse compiled start function memory)
      (heldOutside : BufferId → Bool) (arguments : List Value)
      (sized : ∀ value ∈ arguments, memory.Fits value value.type) :
      InUse compiled start (function.call heldOutside arguments memory).function
        (function.call heldOutside arguments memory).memory
  | elsewhere {function : Function α} {memory after : Memory α}
      (before : InUse compiled start function memory) (preserves : memory.Preserves after) :
      InUse compiled start function after

/-- A call is type-safe. Slots hold values of the types of their variables in every state that the run
passes, and a call that was accepted fails only where an operation refuses its inputs. -/
structure TypeSafe (function : Function α) (vars : List VarId) (heldOutside : BufferId → Bool)
    (arguments : List Value) (memory : Memory α) : Prop where
  slots : ∀ inputs prepared state,
    prepare function.signature arguments ⟨memory, []⟩ = .ok inputs prepared →
      function.executable.Passes heldOutside inputs prepared.memory state →
        ∀ (slot : Nat) (value : Value), state.slots[slot]? = some (some value) →
          ∃ var, vars[slot]? = some var ∧
            (state.memory.tensor value).Conforms (function.graph.type var)
  failures : ∀ failure, (function.call heldOutside arguments memory).result = Except.error failure →
    function.signature.Accepts memory arguments →
      ∃ id node inputs before cause after, function.graph.node? id = some node ∧
        node.op.Refuses inputs before cause after ∧
          failure = (cause.map (RunError.op id node.op.name)).map FunctionError.run

omit [Arithmetic α] in
theorem hasSlot_of_mem {graph : Dataflow α} {var : VarId} (listed : var ∈ vars) :
    HasSlot (vars.map graph.type) (vars.idxOf var) (graph.type var) := by
  rw [HasSlot, List.getElem?_map, List.getElem?_eq_getElem (List.idxOf_lt_length_iff.mpr listed),
    List.getElem_idxOf]
  rfl

omit [Arithmetic α] in
theorem hasSlots_of_mem {graph : Dataflow α} {ids : List VarId} (listed : ∀ var ∈ ids, var ∈ vars) :
    List.Forall₂ (HasSlot (vars.map graph.type)) (ids.map vars.idxOf) (ids.map graph.type) := by
  rw [List.forall₂_map_left_iff, List.forall₂_map_right_iff, List.forall₂_same]
  exact fun var member => hasSlot_of_mem (listed var member)

/-- The slots of a compiled function have the types of their variables. -/
theorem CompiledFrom.typedSchedule (origin : function.CompiledFrom source)
    (reliable : ∀ node ∈ source.nodes, node.op.Reliable) {order : List NodeId}
    (safe : function.graph.Safe order)
    (laysOut : function.executable.schedule.LaysOut function.graph order vars) :
    function.executable.schedule.Typed (vars.map function.graph.type) := by
  have stands : ∀ step ∈ function.executable.schedule.steps, ∃ id node,
      function.graph.node? id = some node ∧ Schedule.StandsFor vars step id node := by
    intro step member
    rcases forall₂_mem_right laysOut.steps member with ⟨id, _, node, live, stands⟩
    exact ⟨id, node, live, stands⟩
  refine ⟨?_, ?_, ?_⟩
  · intro step member
    rcases stands step member with ⟨id, node, live, stands⟩
    rw [stands.op]
    rcases origin.ops id node live with plain | ⟨content, contentMem, same⟩
    · exact ⟨fun function host => absurd host (plain.1 function),
        fun shape reshape => absurd reshape (plain.2 shape)⟩
    · exact same ▸ reliable content contentMem
  · intro step member
    rcases stands step member with ⟨id, node, live, stands⟩
    refine ⟨node.inputs.map function.graph.type, node.outputs.map function.graph.type, ?_, ?_, ?_⟩
    · rw [stands.inputs]
      exact hasSlots_of_mem stands.inputs_listed
    · rw [stands.outputs]
      exact hasSlots_of_mem stands.outputs_listed
    · rw [stands.op]
      exact origin.formed.typed id node live
  · exact laysOut.sourced origin.formed.toWellFormed origin.closed safe.topological

/-- A function between two calls, as its compilation and earlier calls have left it. -/
structure Steady (function : Function α) (source : Graph α) (start final : Memory α)
    (vars : List VarId) (memory : Memory α) : Prop where
  origin : function.CompiledFrom source
  represents : function.Represents source start final
  laysOut : ∃ order, function.graph.Safe order ∧
    function.executable.schedule.LaysOut function.graph order vars
  soundSchedule : function.executable.schedule.Sound
  constants : ∀ var value, (function.graph.var var).kind = .constant value →
    memory.Fits value (function.graph.type var)
  containers : source.ContainersTyped memory
  sound : memory.Sound
  fit : SlotsFit (vars.map function.graph.type) memory function.executable.startSlots

namespace Steady

/-- Whatever happens between calls makes no difference. -/
theorem later (steady : function.Steady source start final vars memory) {after : Memory α}
    (preserves : memory.Preserves after) : function.Steady source start final vars after :=
  { steady with
    constants := fun var value kind => (steady.constants var value kind).preserved preserves
    containers := steady.containers.later preserves
    sound := preserves.sound steady.sound
    fit := steady.fit.later preserves }

theorem vouches (steady : function.Steady source start final vars memory)
    (sized : ∀ value ∈ arguments, memory.Fits value value.type) :
    memory.Vouches (fun _ => true) arguments where
  arguments value given := ⟨(sized value given).known, rfl⟩
  containers container member value held := by
    rcases List.mem_iff_getElem?.mp member with ⟨index, found⟩
    have same : memory.container ⟨index⟩ = container := by
      simpa [Memory.container] using congrArg (·.getD default) found
    exact ⟨(steady.sound.held ⟨index⟩ value (same ▸ held)).known, rfl⟩

/-- An input of the run is of the type of its variable. -/
theorem input_fits (steady : function.Steady source start final vars memory)
    (sized : ∀ value ∈ arguments, memory.Fits value value.type)
    (prepares : function.signature.Prepares memory arguments inputs prepared) {index : Nat}
    {var : VarId} {input : Value} (listed : function.signature.inputVars[index]? = some var)
    (found : inputs[index]? = some input) : prepared.Fits input (function.graph.type var) := by
  rcases prepares.origin index input found with ⟨value, handled, known, tensor⟩
  refine ⟨known, ?_⟩
  rw [tensor]
  have type : ∀ {content : Variable}, source.vars[var.index]? = some content →
      function.graph.type var = content.type := by
    intro content located
    rw [Dataflow.type, steady.represents.var var (Array.getElem?_eq_some_iff.mp located).1,
      Dataflow.var, Graph.whole, located]
    rfl
  rcases Signature.inputVars_cases listed with
    ⟨argument, argumentFound, rfl, _⟩ | ⟨position, slot, rfl, slotFound, rfl, _⟩
  · rcases steady.origin.lists.arguments argument (List.mem_of_getElem? argumentFound) with
      ⟨content, located, _, argumentType⟩
    rw [Signature.handle?_argument (List.getElem?_eq_some_iff.mp argumentFound).1] at handled
    rw [type located, argumentType, Signature.read, argumentFound]
    exact Argument.read_conforms (prepares.accepts.argument index argument value argumentFound handled)
      (sized value (List.mem_of_getElem? handled)).conforms.size
  · have slotMem := List.mem_of_getElem? slotFound
    rcases steady.origin.lists.shared slot slotMem with ⟨content, located, kind⟩
    rw [Signature.handle?_shared, slotFound] at handled
    rcases steady.containers slot.var content slot.container located kind with ⟨_, containerType, _⟩
    have none : function.signature.arguments[function.signature.arguments.length + position]? =
        none := by simp
    rw [type located, Signature.read, none, ← containerType]
    exact (steady.sound.held slot.container value handled).conforms

/-- What is in a root slot is of the type of the variable. -/
theorem root_fits (steady : function.Steady source start final vars memory)
    (sized : ∀ value ∈ arguments, memory.Fits value value.type)
    (prepares : function.signature.Prepares memory arguments inputs prepared) {var : VarId}
    (supplies : function.graph.Supplies var) :
    ∃ value, function.graph.rootValue? prepared inputs var = some value ∧
      prepared.Fits value (function.graph.type var) := by
  by_cases declared : var ∈ function.graph.inputs
  · rcases steady.origin.position_of_input declared with ⟨index, listed, rooted⟩
    have inside := (List.getElem?_eq_some_iff.mp listed).1
    rw [← prepares.length] at inside
    have given := List.getElem?_eq_getElem inside
    exact ⟨_, (rooted prepared inputs).trans given, steady.input_fits sized prepares listed given⟩
  · rcases constant_of_supplies steady.represents supplies declared with ⟨value, kind, rooted⟩
    exact ⟨value, rooted, (steady.constants var value kind).later prepares.keeps.size
      fun buffer known => by rw [prepares.keeps.read buffer known]⟩

/-- The run of a call has what it needs. -/
theorem ready (steady : function.Steady source start final vars memory)
    (sized : ∀ value ∈ arguments, memory.Fits value value.type)
    (prepares : function.signature.Prepares memory arguments inputs prepared) :
    function.executable.Ready (vars.map function.graph.type) inputs prepared := by
  have retains := prepares.keeps.retains
  rcases steady.laysOut with ⟨order, _, laysOut⟩
  refine ⟨retains.sound steady.sound, ?_, ?_, steady.origin.size_slots, steady.fit.later retains.toPreserves⟩
  · rw [laysOut.arity, steady.origin.inputs, prepares.length]
  · intro slot source member
    rcases laysOut.mem_roots.mp member with ⟨var, listed, sourced, rfl⟩
    have used : var ∈ function.graph.inputs ∨ function.graph.IsRead var := by
      rcases laysOut.used var listed with declared | read | ⟨id, node, live, output⟩
      · exact Or.inl declared
      · exact Or.inr read
      · rcases List.mem_iff_getElem?.mp output with ⟨index, found⟩
        have kind := (steady.origin.formed.output_known id node live index var found).2
        rw [steady.origin.formed.source?_of_output kind] at sourced
        cases sourced
    rcases steady.root_fits sized prepares ⟨used, by simp [sourced]⟩ with ⟨value, rooted, fits⟩
    rw [Dataflow.rootValue?, sourced] at rooted
    exact ⟨value, _, rooted, hasSlot_of_mem listed, fits⟩

end Steady

section Call

variable {ins : List InputSpec} {outs : List OutputSpec} {updates : List (VarId × VarId)}
  (steady : function.Steady source start final vars memory)
  (reliable : ∀ node ∈ source.nodes, node.op.Reliable)
  (collected : Signature.collect start source ins outs updates = Except.ok function.signature)
  (before : source.ContainersTyped start)
  (sized : ∀ value ∈ arguments, memory.Fits value value.type)

include steady reliable sized in
theorem Steady.run (heldOutside : BufferId → Bool)
    (prepares : function.signature.Prepares memory arguments inputs prepared) :
    function.executable.Ended (vars.map function.graph.type) prepared
      (function.executable.run heldOutside inputs prepared).result
      (function.executable.run heldOutside inputs prepared).executable
      (function.executable.run heldOutside inputs prepared).memory := by
  rcases steady.laysOut with ⟨order, safe, laysOut⟩
  exact (steady.ready sized prepares).run steady.soundSchedule
    (steady.origin.typedSchedule reliable safe laysOut) heldOutside

include steady reliable collected before sized in
/-- The updates of a run that has succeeded are written back without an error. -/
theorem Steady.writes {values : List Value} (log : List LogEntry)
    (prepares : function.signature.Prepares memory arguments inputs prepared)
    (ran : (function.executable.run heldOutside inputs prepared).result = Except.ok values) :
    ∃ written : Memory α, writeBack function.signature
        (values.drop function.signature.outputs.length)
        ⟨(function.executable.run heldOutside inputs prepared).memory, log⟩ = .ok () ⟨written, log⟩ ∧
      (function.executable.run heldOutside inputs prepared).memory.Retains written := by
  have ended := steady.run reliable sized heldOutside prepares
  generalize (function.executable.run heldOutside inputs prepared).memory = after at ended ⊢
  rcases steady.laysOut with ⟨order, _, laysOut⟩
  have retains := prepares.keeps.retains.trans ended.retains
  have held : ∀ slot ∈ function.signature.shared, (after.container slot.container).value ≠ none :=
    fun slot member => retains.unreleased _ (prepares.accepts.container slot member)
  have fits := ended.returns values ran _ (by
    rw [laysOut.outputs]
    exact hasSlots_of_mem laysOut.outputs_listed)
  rw [steady.represents.types, List.forall₂_map_right_iff] at fits
  have updated := List.forall₂_drop function.signature.outputs.length fits.flip
  rw [Signature.outputVars, List.drop_left' (by simp), List.forall₂_map_left_iff] at updated
  have typed : ∀ slot ∈ function.signature.shared,
      (after.container slot.container).type = (start.container slot.container).type ∧
      (start.container slot.container).type = ArrayType.ofRank
        (start.container slot.container).type.element
        (start.container slot.container).type.rank := by
    intro slot slotMem
    rcases steady.origin.lists.shared slot slotMem with ⟨var, found, kind⟩
    rcases before slot.var var slot.container found kind with ⟨_, typeBefore, opened⟩
    rcases steady.containers.later retains.toPreserves slot.var var slot.container found kind with
      ⟨_, typeNow, _⟩
    rw [typeNow, typeBefore]
    exact ⟨rfl, opened⟩
  have accepted := accepts_updateEntries collected (fun slot member => (typed slot member).1)
    (fun slot member => (typed slot member).2) (updated.imp fun _ _ fits => fits.conforms)
  refine ⟨_, writeBack_of_accepts held accepted, Memory.retains_store fun entry member => ?_⟩
  have accepts := accepted entry member
  simp only [Container.accepts, Bool.and_eq_true, decide_eq_true_eq] at accepts
  rcases List.mem_map.mp member with ⟨⟨pair, value⟩, both, rfl⟩
  exact .of_type (List.forall₂_zip updated both).sized accepts.1 accepts.2

include steady reliable collected before sized in
/-- After the run of a call only containers change, to what is of their types. -/
theorem Steady.retains_call {prepared : Logged α}
    (ready : prepare function.signature arguments ⟨memory, []⟩ = .ok inputs prepared) :
    (function.executable.run heldOutside inputs prepared.memory).memory.Retains
      (function.call heldOutside arguments memory).memory := by
  have prepares := (prepare_ends (steady.vouches sized)).of_ok ready
  have ended := ended_call function heldOutside arguments memory
  generalize (function.call heldOutside arguments memory).result = result at ended
  generalize (function.call heldOutside arguments memory).memory = after at ended ⊢
  cases ended with
  | unprepared failed => cases ready.symm.trans failed
  | unfinished ready' failed =>
    cases ready.symm.trans ready'
    exact .refl _
  | unwritten ready' ran failed =>
    cases ready.symm.trans ready'
    rcases steady.writes reliable collected before sized prepared.log prepares ran with
      ⟨written, wrote, _⟩
    cases failed.symm.trans wrote
  | finished ready' ran wrote =>
    cases ready.symm.trans ready'
    rcases steady.writes reliable collected before sized prepared.log prepares ran with
      ⟨written, wrote', retains⟩
    cases wrote.symm.trans wrote'
    exact retains

include steady reliable collected before sized in
/-- A call leaves the function and the memory as it found them, as far as types go. -/
theorem Steady.call (heldOutside : BufferId → Bool) :
    (function.call heldOutside arguments memory).function.Steady source start final vars
      (function.call heldOutside arguments memory).memory := by
  have left : memory.Retains (function.call heldOutside arguments memory).memory ∧
      SlotsFit (vars.map function.graph.type) (function.call heldOutside arguments memory).memory
        (function.call heldOutside arguments memory).function.executable.startSlots := by
    rcases executable_call function heldOutside arguments memory with
      ⟨failure, state, failed, same⟩ | ⟨inputs, prepared, ready, same⟩
    · have keeps : memory.Keeps (function.call heldOutside arguments memory).memory := by
        unfold Function.call
        rw [failed]
        exact ((prepare_ends (steady.vouches sized)).of_error failed).1
      rw [same]
      exact ⟨keeps.retains, steady.fit.later keeps.retains.toPreserves⟩
    · have prepares := (prepare_ends (steady.vouches sized)).of_ok ready
      have ended := steady.run reliable sized heldOutside prepares
      have retains : (function.executable.run heldOutside inputs prepared.memory).memory.Retains
          (function.call heldOutside arguments memory).memory :=
        steady.retains_call reliable collected before sized ready
      rw [same]
      exact ⟨(prepares.keeps.retains.trans ended.retains).trans retains,
        ended.fit.later retains.toPreserves⟩
  rcases left with ⟨retains, fit⟩
  have origin := steady.origin.call heldOutside arguments memory
  have later := steady.later retains.toPreserves
  rcases function_call function heldOutside arguments memory with ⟨slots, profile, same⟩
  rw [same] at fit origin ⊢
  exact ⟨origin, ⟨later.represents.types, later.represents.keeps, later.represents.var,
    later.represents.constants, later.represents.declared⟩, later.laysOut, later.soundSchedule,
    later.constants, later.containers, later.sound, fit⟩

include steady reliable collected before sized in
theorem Steady.typeSafe (heldOutside : BufferId → Bool) :
    function.TypeSafe vars heldOutside arguments memory := by
  rcases steady.laysOut with ⟨order, safe, laysOut⟩
  have typed := steady.origin.typedSchedule reliable safe laysOut
  refine ⟨?_, ?_⟩
  · intro inputs prepared state ready passes slot value held
    have prepares := (prepare_ends (steady.vouches sized)).of_ok ready
    rcases (steady.ready sized prepares).passes steady.soundSchedule typed passes slot value held with
      ⟨type, has, fits⟩
    rw [HasSlot, List.getElem?_map, Option.map_eq_some_iff] at has
    rcases has with ⟨var, found, rfl⟩
    exact ⟨var, found, fits.conforms⟩
  · intro failure failed accepts
    have ended := ended_call function heldOutside arguments memory
    rw [failed] at ended
    clear failed
    generalize (function.call heldOutside arguments memory).memory = after at ended
    cases ended with
    | unprepared failed => exact absurd accepts ((prepare_ends (steady.vouches sized)).of_error failed).2
    | unfinished ready failed =>
      have prepares := (prepare_ends (steady.vouches sized)).of_ok ready
      rcases (steady.run reliable sized heldOutside prepares).fails _ failed with
        ⟨step, member, inputs, earlier, cause, after, refuses, rfl⟩
      rcases forall₂_mem_right laysOut.steps member with ⟨id, _, node, live, stands⟩
      rw [stands.op] at refuses ⊢
      rw [stands.named]
      exact ⟨id, node, inputs, earlier, cause, after, live, refuses, rfl⟩
    | @unwritten _ _ prepared _ _ ready ran failed =>
      have prepares := (prepare_ends (steady.vouches sized)).of_ok ready
      rcases steady.writes reliable collected before sized prepared.log prepares ran with
        ⟨written, wrote, _⟩
      cases failed.symm.trans wrote

end Call

/-- A function that has just been compiled. -/
theorem steady_of_compile {compiler : Compiler α} {spec : FunctionSpec} {state last : Logged α}
    (standard : compiler.rules = Database.standard) (built : source.Built)
    (stored : source.ConstantsStored state.memory) (sound : state.memory.Sound)
    (containers : source.ContainersTyped state.memory)
    (compilation : compiler.compile source spec state = .ok function last) :
    ∃ vars, function.Steady source state.memory last.memory vars last.memory := by
  have origin := compiledFrom_of_compile standard built stored compilation
  have represents := Compiler.represents_of_compile standard built stored compilation
  rcases origin.laysOut_sound with ⟨order, vars, safe, laysOut, soundSchedule⟩
  rcases Compiler.compile_eq_ok compilation with ⟨_, _, _, _, _, _, _, _, _, _, _, _, _, _, _, link⟩
  rcases Executable.link_eq_ok link with ⟨_, linker, _, empty⟩
  have slots : function.executable.startSlots =
      Array.replicate function.executable.schedule.slotCount none := by
    unfold Executable.startSlots
    split
    · rfl
    · rename_i plans
      exact empty (linker.symm.trans plans)
  have retains := represents.keeps.retains
  refine ⟨vars, origin, represents, ⟨order, safe, laysOut⟩, soundSchedule, ?_,
    containers.later retains.toPreserves, retains.sound sound, ?_⟩
  · intro var value kind
    rcases represents.constants var value kind with ⟨stores, type⟩
    rw [type]
    exact ⟨stores.known, stores.conforms⟩
  · rw [slots]
    exact Executable.slotsFit_of_empty (by simp)

/-- Calls of a compiled function are type-safe, whatever the mode, the linker and the rules, and after
any number of earlier calls. Its host functions may do anything but answer with values of other types,
change the size of a buffer or the type of a container, or release one. -/
theorem typeSafe_of_compile {compiler : Compiler α} {spec : FunctionSpec} {state last : Logged α}
    (standard : compiler.rules = Database.standard) (built : source.Built)
    (reliable : ∀ node ∈ source.nodes, node.op.Reliable)
    (stored : source.ConstantsStored state.memory) (sound : state.memory.Sound)
    (containers : source.ContainersTyped state.memory)
    (compilation : compiler.compile source spec state = .ok compiled last)
    (inUse : compiled.InUse last.memory function memory)
    (sized : ∀ value ∈ arguments, memory.Fits value value.type) (heldOutside : BufferId → Bool) :
    ∃ order vars, function.executable.schedule.LaysOut function.graph order vars ∧
      function.TypeSafe vars heldOutside arguments memory := by
  rcases steady_of_compile standard built stored sound containers compilation with ⟨vars, first⟩
  rcases Compiler.compile_eq_ok compilation with ⟨_, _, _, _, _, _, _, _, _, _, collected, _⟩
  have steady : function.signature = compiled.signature ∧
      function.Steady source state.memory last.memory vars memory := by
    clear sized
    induction inUse with
    | compiled => exact ⟨rfl, first⟩
    | @call function memory _ heldOutside arguments given ih =>
      rcases ih with ⟨same, steady⟩
      refine ⟨?_, steady.call reliable (same ▸ collected) containers given heldOutside⟩
      rcases function_call function heldOutside arguments memory with ⟨_, _, called⟩
      rw [called]
      exact same
    | elsewhere _ preserves ih => exact ⟨ih.1, ih.2.later preserves⟩
  rcases steady with ⟨same, steady⟩
  rcases steady.laysOut with ⟨order, _, laysOut⟩
  exact ⟨order, vars, laysOut,
    steady.typeSafe reliable (same ▸ collected) containers sized heldOutside⟩

/-- A host function that copies a vector. -/
def duplicateVector : HostFunction ℚ where
  name := "duplicate"
  inputTypes := [ArrayType.ofRank .float64 1]
  outputTypes := [ArrayType.ofRank .float64 1]
  identity := 0
  run inputs := Op.copy.perform inputs

theorem abides_duplicateVector : duplicateVector.Abides := by
  have responds : ∀ inputs (memory : Memory ℚ), memory.Sound →
      List.Forall₂ memory.Resembles inputs duplicateVector.inputTypes →
        (Op.copy : Op ℚ).Responds inputs duplicateVector.outputTypes memory
          (duplicateVector.run inputs memory) := by
    intro inputs memory sound resemble
    have inferred : (Op.copy : Op ℚ).inferTypes duplicateVector.inputTypes =
        Except.ok duplicateVector.outputTypes := rfl
    refine Op.responds_perform ⟨by simp, by simp⟩ sound inferred ?_
    cases resemble with
    | cons resembles none =>
      cases none
      exact .cons resembles.fits .nil
  refine ⟨fun inputs memory outputs after sound resemble ran => ?_,
    fun inputs memory failure after sound resemble ran => ?_⟩
  · have responded := responds inputs memory sound resemble
    rw [ran] at responded
    cases responded with
    | ok retains fits => exact ⟨retains, fits⟩
  · have responded := responds inputs memory sound resemble
    rw [ran] at responded
    cases responded with
    | refused retains refuses => exact retains

/-- A symbolic graph that adds a copy of a vector to a container. -/
def replacedSum : Graph ℚ where
  vars := #[⟨ArrayType.ofRank .float64 1, .input, some "x"⟩,
    ⟨ArrayType.ofRank .float64 1, .shared ⟨0⟩, some "w"⟩,
    ⟨ArrayType.ofRank .float64 1, .output ⟨0⟩ 0, none⟩,
    ⟨ArrayType.ofRank .float64 1, .output ⟨1⟩ 0, none⟩]
  nodes := #[⟨.host duplicateVector, [⟨0⟩], [⟨2⟩]⟩, ⟨.elementwise .add none, [⟨1⟩, ⟨2⟩], [⟨3⟩]⟩]

/-- The copy takes the place of what is in the container. -/
def replacedSumSpec : FunctionSpec where
  inputs := [⟨⟨0⟩, none, false, false, false, none⟩]
  outputs := [⟨⟨3⟩, false⟩]
  updates := [(⟨1⟩, ⟨2⟩)]
  mode := .given ⟨Query.none, "perform", false⟩
  options := ⟨.raise, false, true, none, false⟩
  link := ⟨true, false⟩

/-- What the graph is compiled to. -/
def replacedSumFunction : Function ℚ where
  executable := ⟨⟨4, 2, [(0, .argument 0), (1, .argument 1)],
    [⟨⟨0⟩, .host duplicateVector, [0], [2], [0]⟩, ⟨⟨1⟩, .elementwise .add none, [1, 2], [3], [1]⟩],
    [3, 2]⟩, .perform, ⟨true, false⟩, #[]⟩
  signature := ⟨[⟨⟨0⟩, some "x", ArrayType.ofRank .float64 1, false, false, false⟩],
    [⟨⟨1⟩, ⟨0⟩, false, some ⟨2⟩⟩], [], [⟨⟨3⟩, false⟩]⟩
  graph := ⟨replacedSum.vars, replacedSum.nodes.map some, [⟨0⟩, ⟨1⟩], [⟨3⟩, ⟨2⟩], [⟨0⟩]⟩
  report := ⟨[], []⟩
  profile := none

/-- The container holds the first buffer. -/
def replacedSumMemory : Memory ℚ :=
  ⟨#[#[1, 2], #[5, 7, 9]], #[⟨"w", ArrayType.ofRank .float64 1, some ⟨.float64, [2], ⟨0⟩⟩⟩]⟩

theorem built_replacedSum : replacedSum.Built := by
  let roots : Graph ℚ := ⟨replacedSum.vars.take 2, #[]⟩
  let added : Graph ℚ := ⟨replacedSum.vars.take 3, replacedSum.nodes.take 1⟩
  have applied : roots.apply (.host duplicateVector) [⟨0⟩] = Except.ok ([⟨2⟩], added) := rfl
  have applied' : added.apply (.elementwise .add none) [⟨1⟩, ⟨2⟩] =
      Except.ok ([⟨3⟩], replacedSum) := rfl
  have built : roots.Built := .shared (.input .empty _ "x") replacedSumMemory ⟨0⟩
  exact .apply (.apply built applied) applied'

theorem compile_replacedSum : ∃ final, Compiler.standard.compile replacedSum replacedSumSpec
    ⟨replacedSumMemory, []⟩ = .ok replacedSumFunction final ∧ final.memory = replacedSumMemory := by
  let captured := replacedSum.whole [⟨0⟩, ⟨1⟩] [⟨3⟩, ⟨2⟩]
  have resolved : (Compiler.standard : Compiler ℚ).modes.resolve replacedSumSpec.mode =
      Except.ok ⟨Query.none, .perform, false⟩ := rfl
  have collected : Signature.collect (Logged.mk replacedSumMemory []).memory replacedSum
      replacedSumSpec.inputs replacedSumSpec.outputs replacedSumSpec.updates =
        Except.ok replacedSumFunction.signature := rfl
  have capturing : Compilation.captureGraph replacedSum replacedSumFunction.signature false =
      Except.ok captured := by
    unfold captured
    cbv
  have used : Compilation.checkUnused .raise replacedSumFunction.signature captured
      ⟨replacedSumMemory, []⟩ = .ok () ⟨replacedSumMemory, []⟩ := by
    unfold captured
    cbv
  have guarding : Compilation.guardInputs replacedSumFunction.signature captured =
      replacedSumFunction.graph := by
    unfold captured
    cbv
  have valid : replacedSumFunction.graph.validate = Except.ok Orderings.empty := by cbv
  have optimizing : Edit.optimize (Compiler.standard : Compiler ℚ).rules Query.none none
      ⟨Compilation.guardInputs replacedSumFunction.signature captured, replacedSumMemory, []⟩ =
        .ok (⟨[], []⟩, Orderings.empty) ⟨replacedSumFunction.graph, replacedSumMemory, []⟩ := by
    rw [guarding]
    exact Edit.optimize_none valid
  have protecting : replacedSumFunction.graph.protectOutputs
      replacedSumFunction.signature.inputContracts replacedSumFunction.signature.outputContracts =
        Except.ok (0, replacedSumFunction.graph) := by
    cbv
  have link : Executable.link .perform ⟨true, false⟩ replacedSumFunction.graph .empty =
      Except.ok (replacedSumFunction.executable, []) := by
    cbv
  exact Compiler.compile_of_steps resolved collected capturing used rfl optimizing protecting valid
    link

theorem call_replacedSum :
    (replacedSumFunction.call (fun _ => true) [⟨.float64, [3], ⟨1⟩⟩] replacedSumMemory).result =
      Except.error (.error (.run (.op ⟨1⟩ "add" (.incompatibleShapes "add" [[2], [3]])))) := by
  cbv

/-- A longer vector than the one in the container is accepted and copied. Then the addition refuses
it. -/
theorem typeSafe_of_compile_replacedSum :
    (∃ final, Compiler.standard.compile replacedSum replacedSumSpec ⟨replacedSumMemory, []⟩ =
      .ok replacedSumFunction final) ∧
    (∃ order vars, replacedSumFunction.executable.schedule.LaysOut replacedSumFunction.graph order
      vars ∧ replacedSumFunction.TypeSafe vars (fun _ => true) [⟨.float64, [3], ⟨1⟩⟩]
        replacedSumMemory) ∧
    (replacedSumFunction.call (fun _ => true) [⟨.float64, [3], ⟨1⟩⟩] replacedSumMemory).result =
      Except.error (.error (.run (.op ⟨1⟩ "add" (.incompatibleShapes "add" [[2], [3]])))) := by
  rcases compile_replacedSum with ⟨final, compilation, same⟩
  refine ⟨⟨final, compilation⟩, ?_, call_replacedSum⟩
  have reliable : ∀ node ∈ replacedSum.nodes, node.op.Reliable := by
    intro node member
    simp only [replacedSum, List.mem_toArray, List.mem_cons, List.not_mem_nil, or_false] at member
    rcases member with rfl | rfl
    · exact ⟨fun function same => Op.host.inj same ▸ abides_duplicateVector, by simp⟩
    · exact ⟨by simp, by simp⟩
  have held : ∀ (id : ContainerId) value, (replacedSumMemory.container id).value = some value →
      id = ⟨0⟩ ∧ value = ⟨.float64, [2], ⟨0⟩⟩ := by
    rintro ⟨_ | index⟩ value holds
    · cases holds
      exact ⟨rfl, rfl⟩
    · cases holds
  have sound : replacedSumMemory.Sound := by
    refine ⟨fun id value holds => ?_⟩
    rcases held id value holds with ⟨rfl, rfl⟩
    exact ⟨by simp [Memory.Knows, replacedSumMemory], rfl, rfl, rfl⟩
  have containers : replacedSum.ContainersTyped replacedSumMemory := by
    rintro ⟨index⟩ var container found kind
    have member := Array.mem_of_getElem? found
    simp only [replacedSum, List.mem_toArray, List.mem_cons, List.not_mem_nil, or_false] at member
    rcases member with rfl | rfl | rfl | rfl <;> cases kind
    exact ⟨by simp [replacedSumMemory], rfl, rfl⟩
  refine typeSafe_of_compile rfl built_replacedSum reliable
    (Graph.constantsStored_of_forall_ne (by simp [replacedSum]) _) sound containers compilation
    (same ▸ .compiled) ?_ (fun _ => true)
  intro value given
  cases List.mem_singleton.mp given
  exact ⟨by simp [Memory.Knows, replacedSumMemory], rfl, rfl, rfl⟩

end Function

end ArrayGraph
