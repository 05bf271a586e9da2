import ArrayGraph.Proofs.Function.Compiled
import ArrayGraph.Proofs.Function.Inputs
import ArrayGraph.Proofs.Run.Counted
import ArrayGraph.Proofs.Run.Validated

/-!
# What a call may write to

A run writes to the buffers of roots that the graph overwrites. In a compiled function these are
inputs which it may overwrite, and a call gives each of them a buffer to itself. So whatever becomes
of a call, it leaves alone every argument for an input that is not mutable and every container that
is not updated, as long as they are passed on without a cast. What it does to containers it does at
its end, when updates are written back.
-/

namespace ArrayGraph

variable {α : Type}

namespace Memory

variable {memory : Memory α} {id other : ContainerId} {value : Option Value}

theorem container_of_containers {after : Memory α} (same : after.containers = memory.containers)
    (id : ContainerId) : after.container id = memory.container id := by
  rw [container, container, same]

theorem tensor_of_buffers {after : Memory α} (same : after.buffers = memory.buffers) (value : Value) :
    after.tensor value = memory.tensor value := by
  rw [tensor, tensor, contents, contents, read, read, same]

theorem container_setContainer_of_ne (different : other ≠ id) :
    (memory.setContainer id value).container other = memory.container other := by
  have apart : id.index ≠ other.index := by
    intro same
    apply different
    cases id
    cases other
    simp_all
  simp [container, setContainer, Array.getElem?_modify, apart]

theorem container_setContainer_self (held : (memory.container id).value ≠ none) :
    (memory.setContainer id value).container id = { memory.container id with value } := by
  unfold container at held ⊢
  cases found : memory.containers[id.index]? with
  | none =>
    rw [found] at held
    exact absurd rfl held
  | some content => simp [setContainer, Array.getElem?_modify, found]

/-- To fill containers changes neither their names nor their types. -/
theorem exists_container_setContainer (held : (memory.container id).value ≠ none)
    (other : ContainerId) : ∃ content, (memory.setContainer id value).container other =
      { memory.container other with value := content } := by
  by_cases same : other = id
  · subst same
    exact ⟨value, container_setContainer_self held⟩
  · exact ⟨_, container_setContainer_of_ne same⟩

/-- Filling a container releases none. -/
theorem held_setContainer {content : Value} (held : (memory.container other).value ≠ none) :
    ((memory.setContainer id (some content)).container other).value ≠ none := by
  by_cases same : other = id
  · subst same
    rw [container_setContainer_self held]
    simp
  · rwa [container_setContainer_of_ne same]

theorem value_of_setContainer {content : Value}
    (held : ((memory.setContainer other value).container id).value = some content) :
    (memory.container id).value = some content ∨ id = other ∧ value = some content := by
  by_cases same : id = other
  · subst same
    cases located : memory.containers[id.index]? with
    | none =>
      simp only [setContainer, container, Array.getElem?_modify, located] at held
      cases held
    | some found =>
      simp only [setContainer, container, Array.getElem?_modify, located] at held
      exact Or.inr ⟨rfl, by simpa using held⟩
  · rw [container_setContainer_of_ne same] at held
    exact Or.inl held

/-- Values put into containers, from the first to the last. -/
def store (memory : Memory α) (entries : List (ContainerId × Value)) : Memory α :=
  entries.foldl (fun memory (id, value) => memory.setContainer id (some value)) memory

theorem buffers_store (entries : List (ContainerId × Value)) :
    (memory.store entries).buffers = memory.buffers := by
  unfold store
  induction entries generalizing memory with
  | nil => rfl
  | cons entry rest ih =>
    rw [List.foldl_cons, ih]
    rfl

theorem container_store_of_notMem {entries : List (ContainerId × Value)}
    (untouched : ∀ value, (id, value) ∉ entries) :
    (memory.store entries).container id = memory.container id := by
  unfold store
  induction entries generalizing memory with
  | nil => rfl
  | cons entry rest ih =>
    rcases entry with ⟨other, value⟩
    rw [List.foldl_cons, ih fun value member => untouched value (List.mem_cons_of_mem _ member)]
    apply container_setContainer_of_ne
    rintro rfl
    exact untouched value List.mem_cons_self

/-- Among entries for different containers, each one is found in its container. -/
theorem container_store_of_mem {entries : List (ContainerId × Value)}
    (distinct : (entries.map (·.1)).Nodup)
    (held : ∀ entry ∈ entries, (memory.container entry.1).value ≠ none) {content : Value}
    (member : (id, content) ∈ entries) :
    (memory.store entries).container id = { memory.container id with value := some content } := by
  unfold store
  induction entries generalizing memory with
  | nil => cases member
  | cons entry rest ih =>
    rcases entry with ⟨other, value⟩
    rw [List.map_cons, List.nodup_cons] at distinct
    have apart : ∀ entry ∈ rest, entry.1 ≠ other :=
      fun entry entryMem same => distinct.1 (List.mem_map.mpr ⟨entry, entryMem, same⟩)
    rw [List.foldl_cons]
    rcases List.mem_cons.mp member with same | later
    · cases same
      rw [← container_setContainer_self (held _ List.mem_cons_self)]
      exact container_store_of_notMem fun value listed => apart _ listed rfl
    · have stays : (memory.setContainer other (some value)).container id = memory.container id :=
        container_setContainer_of_ne (apart _ later)
      rw [ih distinct.2 _ later, stays]
      intro entry entryMem
      rw [container_setContainer_of_ne (apart entry entryMem)]
      exact held entry (List.mem_cons_of_mem _ entryMem)

/-- What is in a container has been there before or has been put there. -/
theorem value_of_store {entries : List (ContainerId × Value)} {content : Value}
    (held : ((memory.store entries).container id).value = some content) :
    (memory.container id).value = some content ∨ (id, content) ∈ entries := by
  unfold store at held
  induction entries generalizing memory with
  | nil => exact Or.inl held
  | cons entry rest ih =>
    rw [List.foldl_cons] at held
    rcases ih held with before | member
    · rcases value_of_setContainer before with old | ⟨rfl, same⟩
      · exact Or.inl old
      · cases same
        exact Or.inr List.mem_cons_self
    · exact Or.inr (List.mem_cons_of_mem _ member)

end Memory

namespace Container

variable {memory : Memory α} {container : ContainerId}

/-- A container that holds something takes a value of its type, and refuses any other. -/
theorem setValue_of_held (held : (memory.container container).value ≠ none) (value : Value) :
    ((memory.container container).accepts value ∧
      setValue container value true memory =
        .ok () (memory.setContainer container (some value))) ∨
    (¬(memory.container container).accepts value ∧
      setValue container value true memory = .error (Failure.error (.typeMismatch
        (memory.container container).name (memory.container container).type value.type)) memory) := by
  have some : (memory.container container).value.isNone = false := by
    simpa [Option.isSome_iff_ne_none] using held
  by_cases accepted : (memory.container container).accepts value
  · refine Or.inl ⟨accepted, ?_⟩
    unfold setValue
    refine (bind_of_ok rfl).trans ?_
    simp only [some, accepted]
    rfl
  · refine Or.inr ⟨accepted, ?_⟩
    unfold setValue
    refine (bind_of_ok rfl).trans ?_
    simp only [some, accepted]
    rfl

end Container

theorem Signature.mem_updated {signature : Signature} {slot : SharedSlot} {expression : VarId} :
    (slot, expression) ∈ signature.updated ↔
      slot ∈ signature.shared ∧ slot.update = some expression := by
  simp only [updated, List.mem_filterMap, Option.map_eq_some_iff, Prod.mk.injEq]
  constructor
  · rintro ⟨_, member, _, updated, rfl, rfl⟩
    exact ⟨member, updated⟩
  · rintro ⟨member, updated⟩
    exact ⟨slot, member, expression, updated, rfl, rfl⟩

/-- Different containers are updated. -/
theorem Signature.nodup_updated {signature : Signature}
    (distinct : (signature.shared.map (·.container)).Nodup) :
    (signature.updated.map (·.1.container)).Nodup := by
  rw [List.Nodup, List.pairwise_map] at distinct ⊢
  rw [updated, List.pairwise_filterMap]
  refine distinct.imp ?_
  intro slot other different entry found entry' found'
  rcases Option.map_eq_some_iff.mp found with ⟨_, _, rfl⟩
  rcases Option.map_eq_some_iff.mp found' with ⟨_, _, rfl⟩
  exact different

namespace Function

/-- Puts a value into a container at the end of a call. -/
def writeEntry (entry : ContainerId × Value) : Compilation α Unit :=
  Compilation.onMemory FunctionError.container (Container.setValue entry.1 entry.2 true)

theorem writeEntry_cases (state : Logged α) {container : ContainerId}
    (held : (state.memory.container container).value ≠ none) (value : Value) :
    ((state.memory.container container).accepts value ∧ writeEntry (container, value) state =
      .ok () { state with memory := state.memory.setContainer container (some value) }) ∨
    (¬(state.memory.container container).accepts value ∧ writeEntry (container, value) state =
      .error (Failure.error (.container (.typeMismatch (state.memory.container container).name
        (state.memory.container container).type value.type))) state) := by
  rcases Container.setValue_of_held held value with ⟨accepted, set⟩ | ⟨refusal, refused⟩
  · refine Or.inl ⟨accepted, ?_⟩
    simp only [writeEntry, Compilation.onMemory, set]
  · refine Or.inr ⟨refusal, ?_⟩
    simp only [writeEntry, Compilation.onMemory, refused]
    rfl

/-- Writing back to containers that hold something puts the values into all of them, or into the
first ones up to a container that refuses its value. -/
theorem writeEntries_cases (state : Logged α) (entries : List (ContainerId × Value))
    (held : ∀ entry ∈ entries, (state.memory.container entry.1).value ≠ none) :
    ((∀ entry ∈ entries, (state.memory.container entry.1).accepts entry.2) ∧
      entries.forM writeEntry state = .ok () { state with memory := state.memory.store entries }) ∨
    ∃ done container value rest, entries = done ++ (container, value) :: rest ∧
      (∀ entry ∈ done, (state.memory.container entry.1).accepts entry.2) ∧
      ¬(state.memory.container container).accepts value ∧
      entries.forM writeEntry state =
        .error (Failure.error (.container (.typeMismatch (state.memory.container container).name
          (state.memory.container container).type value.type)))
          { state with memory := state.memory.store done } := by
  induction entries generalizing state with
  | nil => exact Or.inl ⟨by simp, rfl⟩
  | cons entry rest ih =>
    rcases entry with ⟨container, value⟩
    have loop : ((container, value) :: rest).forM writeEntry state =
        (writeEntry (container, value) >>= fun _ => rest.forM writeEntry) state := rfl
    rw [loop]
    have here := held (container, value) List.mem_cons_self
    rcases writeEntry_cases state here value with ⟨accepted, wrote⟩ | ⟨refusal, failed⟩
    · rw [bind_of_ok wrote]
      let middle := state.memory.setContainer container (some value)
      have stillHeld : ∀ entry ∈ rest, (middle.container entry.1).value ≠ none :=
        fun entry member => Memory.held_setContainer (held entry (List.mem_cons_of_mem _ member))
      -- Filling a container changes neither what another one accepts nor what it is called.
      have form : ∀ other, ∃ content,
          middle.container other = { state.memory.container other with value := content } :=
        Memory.exists_container_setContainer here
      have accepts : ∀ {entries : List (ContainerId × Value)},
          (∀ entry ∈ entries, (middle.container entry.1).accepts entry.2) →
            ∀ entry ∈ (container, value) :: entries,
              (state.memory.container entry.1).accepts entry.2 := by
        intro entries taken entry member
        rcases List.mem_cons.mp member with rfl | member
        · exact accepted
        · have taken := taken entry member
          rcases form entry.1 with ⟨_, same⟩
          rw [same] at taken
          exact taken
      rcases ih { state with memory := middle } stillHeld with
        ⟨taken, ran⟩ | ⟨done, other, content, remaining, rfl, taken, refusal, ran⟩
      · exact Or.inl ⟨accepts taken, ran⟩
      · rcases form other with ⟨_, same⟩
        rw [same] at refusal ran
        exact Or.inr ⟨(container, value) :: done, other, content, remaining, rfl, accepts taken, refusal,
          ran⟩
    · rw [bind_of_error failed]
      exact Or.inr ⟨[], container, value, rest, rfl, by simp, refusal, rfl⟩

/-- What the updates of a call put into which containers. -/
def updateEntries (signature : Signature) (values : List Value) : List (ContainerId × Value) :=
  (signature.updated.zip values).map fun entry => (entry.1.1.container, entry.2)

theorem writeBack_eq (signature : Signature) (values : List Value) :
    (writeBack signature values : Compilation α Unit) =
      (updateEntries signature values).forM writeEntry := by
  have mapped := List.forM_map (l := signature.updated.zip values)
    (g := fun entry => (entry.1.1.container, entry.2)) (f := (writeEntry : _ → Compilation α Unit))
  exact mapped.symm

theorem getElem?_updateEntries {signature : Signature} {values : List Value} {index : Nat}
    {container : ContainerId} {value : Value} :
    (updateEntries signature values)[index]? = some (container, value) ↔
      ∃ slot expression, signature.updated[index]? = some (slot, expression) ∧
        slot.container = container ∧ values[index]? = some value := by
  simp only [updateEntries, List.getElem?_map, Option.map_eq_some_iff, List.getElem?_zip_eq_some,
    Prod.mk.injEq]
  constructor
  · rintro ⟨⟨⟨slot, expression⟩, _⟩, ⟨listed, given⟩, same, rfl⟩
    exact ⟨slot, expression, listed, same, given⟩
  · rintro ⟨slot, expression, listed, same, given⟩
    exact ⟨((slot, expression), value), ⟨listed, given⟩, same, rfl⟩

theorem getElem?_of_mem_updateEntries {signature : Signature} {values : List Value}
    {container : ContainerId} {value : Value}
    (member : (container, value) ∈ updateEntries signature values) :
    ∃ (index : Nat) (slot : SharedSlot) (expression : VarId),
      signature.updated[index]? = some (slot, expression) ∧ slot.container = container ∧
        values[index]? = some value := by
  rcases List.mem_iff_getElem?.mp member with ⟨index, found⟩
  exact ⟨index, getElem?_updateEntries.mp found⟩

theorem mem_updateEntries {signature : Signature} {values : List Value} {container : ContainerId}
    {value : Value} (member : (container, value) ∈ updateEntries signature values) :
    ∃ slot ∈ signature.shared, slot.update.isSome ∧ slot.container = container := by
  rcases getElem?_of_mem_updateEntries member with ⟨_, slot, _, listed, same, _⟩
  rcases Signature.mem_updated.mp (List.mem_of_getElem? listed) with ⟨slotMem, updated⟩
  exact ⟨slot, slotMem, by simp [updated], same⟩

theorem nodup_updateEntries {signature : Signature}
    (distinct : (signature.shared.map (·.container)).Nodup) (values : List Value) :
    ((updateEntries signature values).map (·.1)).Nodup := by
  have apart := Signature.nodup_updated distinct
  rw [List.Nodup, List.pairwise_map] at apart ⊢
  rw [updateEntries, List.pairwise_map]
  generalize signature.updated = updated at apart
  induction apart generalizing values with
  | nil => simp
  | cons others _ ih =>
    cases values with
    | nil => simp
    | cons value values =>
      refine List.pairwise_cons.mpr ⟨fun entry member => ?_, ih values⟩
      exact others entry.1 (List.of_mem_zip member).1

end Function

/-- An input is an argument, which may be overwritten if it is mutable, or a container, which may be
overwritten if it is updated. -/
theorem Signature.inputVars_cases {signature : Signature} {index : Nat} {var : VarId}
    (found : signature.inputVars[index]? = some var) :
    (∃ argument, signature.arguments[index]? = some argument ∧ argument.var = var ∧
      signature.writable[index]? = some argument.mutable) ∨
    ∃ position slot, index = signature.arguments.length + position ∧
      signature.shared[position]? = some slot ∧ slot.var = var ∧
      signature.writable[index]? = some slot.update.isSome := by
  unfold inputVars at found
  by_cases inside : index < signature.arguments.length
  · left
    rw [List.getElem?_append_left (by simpa using inside), List.getElem?_map,
      Option.map_eq_some_iff] at found
    rcases found with ⟨argument, listed, same⟩
    refine ⟨argument, listed, same, ?_⟩
    rw [writable, List.getElem?_append_left (by simpa using inside), List.getElem?_map, listed]
    rfl
  · right
    rw [List.getElem?_append_right (by simpa using inside), List.length_map, List.getElem?_map,
      Option.map_eq_some_iff] at found
    rcases found with ⟨slot, listed, same⟩
    refine ⟨index - signature.arguments.length, slot, by omega, listed, same, ?_⟩
    rw [writable, List.getElem?_append_right (by simpa using inside), List.length_map,
      List.getElem?_map, listed]
    rfl

/-- A root that is not protected is an input. -/
theorem Dataflow.Supplies.declared {graph : Dataflow α} {root : VarId} (supplies : graph.Supplies root)
    (free : ¬graph.isProtected root) : root ∈ graph.inputs := by
  by_contra undeclared
  have sourced := supplies.2
  rw [source?, if_neg undeclared] at sourced
  simp only [isProtected, Bool.or_eq_true, decide_eq_true_eq, not_or, Bool.not_eq_true] at free
  cases kind : (graph.var root).kind <;> simp_all [isFixed, SlotTable.rootSource?]

namespace Function

variable [Arithmetic α] {function : Function α} {source : Graph α}

namespace CompiledFrom

variable (compiled : function.CompiledFrom source)
include compiled

theorem nodup_inputs : function.graph.inputs.Nodup :=
  compiled.inputs ▸ compiled.lists.nodup_inputVars

/-- The nodes of a compiled function run in a safe order. -/
theorem laysOut_sound : ∃ order vars, function.graph.Safe order ∧
    function.executable.schedule.LaysOut function.graph order vars ∧
      function.executable.schedule.Sound := by
  rcases compiled.linked with ⟨_, _, orderings, linked, _, validated, link, used⟩
  have same : linked.schedule = function.executable.schedule := by rw [used.kept]
  rcases Executable.link_eq_ok link with ⟨laid, _⟩
  rcases Schedule.laysOut_of_ofGraph compiled.nodup_inputs laid with ⟨order, vars, ordered, laysOut⟩
  have wellFormed := compiled.formed.toWellFormed
  have sound := laysOut.sound wellFormed compiled.nodup_inputs (Dataflow.respects_of_order ordered)
  exact ⟨order, vars, Dataflow.safe_of_validate wellFormed validated ordered, same ▸ laysOut,
    same ▸ sound⟩

theorem size_slots :
    function.executable.startSlots.size = function.executable.schedule.slotCount := by
  rcases compiled.linked with ⟨_, _, _, _, _, _, link, used⟩
  exact used.size link

theorem laysOut : ∃ order vars, function.graph.Safe order ∧
    function.executable.schedule.LaysOut function.graph order vars := by
  rcases compiled.laysOut_sound with ⟨order, vars, safe, laysOut, _⟩
  exact ⟨order, vars, safe, laysOut⟩

/-- An input has a position, at which its value comes in a run. -/
theorem position_of_input {root : VarId} (declared : root ∈ function.graph.inputs) :
    ∃ index : Nat, function.signature.inputVars[index]? = some root ∧ ∀ memory (inputs : List Value),
      function.graph.rootValue? memory inputs root = inputs[index]? := by
  have listed := declared
  rw [compiled.inputs] at listed
  refine ⟨function.signature.inputVars.idxOf root, ?_, fun memory inputs => ?_⟩
  · rw [List.getElem?_eq_getElem (List.idxOf_lt_length_iff.mpr listed), List.getElem_idxOf]
  · rw [Dataflow.rootValue?, Dataflow.source?, if_pos declared, compiled.inputs]
    rfl

/-- An input that is not protected may be overwritten. -/
theorem writable_of_not_protected {index : Nat} {root : VarId}
    (listed : function.signature.inputVars[index]? = some root)
    (free : ¬function.graph.isProtected root) :
    function.signature.writable[index]? = some true := by
  simp only [Dataflow.isProtected, Bool.or_eq_true, decide_eq_true_eq, not_or] at free
  rcases Signature.inputVars_cases listed with
    ⟨argument, found, rfl, writable⟩ | ⟨position, slot, _, found, rfl, writable⟩
  · rw [writable]
    by_contra fixed
    exact free.1 (compiled.argument_guarded argument (List.mem_of_getElem? found) (by simpa using fixed))
  · rw [writable]
    by_contra fixed
    exact free.1 (compiled.slot_guarded slot (List.mem_of_getElem? found) (by simpa using fixed))

theorem not_protected {root : VarId} {id : NodeId} (overwrites : function.graph.Overwrites id root) :
    ¬function.graph.isProtected root := by
  rcases compiled.laysOut with ⟨order, _, safe, _⟩
  exact safe.unprotected id root overwrites

/-- A root that a node overwrites is an input that may be overwritten. -/
theorem writable_of_overwrites {root : VarId} {id : NodeId} (supplies : function.graph.Supplies root)
    (overwrites : function.graph.Overwrites id root) :
    ∃ index : Nat, function.signature.inputVars[index]? = some root ∧
      function.signature.writable[index]? = some true ∧ ∀ memory (inputs : List Value),
        function.graph.rootValue? memory inputs root = inputs[index]? := by
  have free := compiled.not_protected overwrites
  rcases compiled.position_of_input (supplies.declared free) with ⟨index, listed, same⟩
  exact ⟨index, listed, compiled.writable_of_not_protected listed free, same⟩

/-- Host functions of a compiled function are quiet if all of the symbolic graph are. -/
theorem quiet (quiet : ∀ node ∈ source.nodes, node.op.Quiet) {id : NodeId} {node : Node α}
    (live : function.graph.node? id = some node) : node.op.Quiet := by
  rcases compiled.ops id node live with plain | ⟨content, member, same⟩
  · exact fun host isHost => absurd isHost (plain.1 host)
  · exact same ▸ quiet content member

/-- Host functions of a compiled function compute what they stand for if all of the symbolic graph
do. -/
theorem computes {hosts : Meaning α} (computes : ∀ node ∈ source.nodes, node.op.Computes hosts)
    {id : NodeId} {node : Node α} (live : function.graph.node? id = some node) :
    node.op.Computes hosts := by
  rcases compiled.ops id node live with plain | ⟨content, member, same⟩
  · exact fun host isHost => absurd isHost (plain.1 host)
  · exact same ▸ computes content member

end CompiledFrom

/-- The nodes that a call runs. -/
def executed (function : Function α) (heldOutside : BufferId → Bool) (arguments : List Value)
    (memory : Memory α) : List NodeId :=
  match prepare function.signature arguments ⟨memory, []⟩ with
  | .ok inputs prepared =>
    (function.executable.run heldOutside inputs prepared.memory).executed.map (·.1)
  | .error _ _ => []

/-- The buffers that were there before a call and to which some nodes may write in its run: those that
inputs which they overwrite come with, and those that nobody holds. -/
def Touches (function : Function α) (nodes : List NodeId) (heldOutside : BufferId → Bool)
    (memory : Memory α) (arguments : List Value) (buffer : BufferId) : Prop :=
  (∃ index var, function.signature.inputVars[index]? = some var ∧
    (∃ id ∈ nodes, function.graph.Overwrites id var) ∧
      function.signature.Exposes memory arguments index buffer) ∨
  heldOutside buffer = false

/-- A call comes on a buffer for an input that the compiled graph overwrites. -/
def Overwrites (function : Function α) (memory : Memory α) (arguments : List Value)
    (buffer : BufferId) : Prop :=
  ∃ index var id value, function.signature.inputVars[index]? = some var ∧
    function.graph.Overwrites id var ∧
      function.signature.handle? memory arguments index = some value ∧ value.buffer = buffer

variable {heldOutside : BufferId → Bool} {memory prepared : Memory α} {arguments inputs : List Value}

omit [Arithmetic α] in
theorem Touches.overwrites {nodes : List NodeId} {buffer : BufferId}
    (touches : function.Touches nodes heldOutside memory arguments buffer)
    (held : heldOutside buffer = true) : function.Overwrites memory arguments buffer := by
  rcases touches with ⟨index, var, listed, ⟨id, _, overwrites⟩, exposes⟩ | unheld
  · rcases exposes.handle with ⟨value, given, same⟩
    exact ⟨index, var, id, value, listed, overwrites, given, same⟩
  · rw [held] at unheld
    cases unheld

theorem CompiledFrom.framed_run (compiled : function.CompiledFrom source)
    (quiet : ∀ node ∈ source.nodes, node.op.Quiet) (heldOutside : BufferId → Bool)
    (prepares : function.signature.Prepares memory arguments inputs prepared) :
    memory.KeepsBut (function.Touches
      ((function.executable.run heldOutside inputs prepared).executed.map (·.1)) heldOutside memory
        arguments) (function.executable.run heldOutside inputs prepared).memory := by
  rcases compiled.laysOut_sound with ⟨order, vars, safe, laysOut, sound⟩
  have framed := Dataflow.framed_of_run compiled.formed.toWellFormed compiled.closed safe laysOut sound
    (fun id node live => compiled.quiet quiet live) compiled.size_slots heldOutside inputs prepared
  refine prepares.keeps.but.trans framed ?_
  rintro buffer known (⟨root, value, supplies, ⟨id, ran, overwrites⟩, found, rfl⟩ | unheld | new)
  · rcases compiled.writable_of_overwrites supplies overwrites with ⟨index, listed, writable, same⟩
    rw [same] at found
    rcases prepares.own index value writable found with new | exposes
    · omega
    · exact Or.inl ⟨index, root, listed, ⟨id, ran, overwrites⟩, exposes⟩
  · exact Or.inr unheld
  · exact absurd prepares.keeps.size (by omega)

/-- All containers have been read before a run, so they hold something after it. -/
theorem CompiledFrom.held_run (compiled : function.CompiledFrom source)
    (quiet : ∀ node ∈ source.nodes, node.op.Quiet) (heldOutside : BufferId → Bool)
    (prepares : function.signature.Prepares memory arguments inputs prepared) :
    ∀ slot ∈ function.signature.shared,
      ((function.executable.run heldOutside inputs prepared).memory.container
        slot.container).value ≠ none := by
  intro slot member
  rw [Memory.container_of_containers (compiled.framed_run quiet heldOutside prepares).containers]
  exact prepares.accepts.container slot member

/-- What a call has left alone, however it ended. -/
structure Framed (function : Function α) (heldOutside : BufferId → Bool) (memory : Memory α)
    (arguments : List Value) (after : Memory α) : Prop where
  read : ∀ buffer : BufferId, buffer.index < memory.buffers.size →
    ¬function.Touches (function.executed heldOutside arguments memory) heldOutside memory arguments
      buffer → after.read buffer = memory.read buffer
  container : ∀ id, (∀ slot ∈ function.signature.shared, slot.update.isSome → slot.container ≠ id) →
    after.container id = memory.container id
  refused : ¬function.signature.Accepts memory arguments → memory.Keeps after

/-- The ways in which a call can end, with its result and the memory that it leaves behind. -/
inductive Ended (function : Function α) (heldOutside : BufferId → Bool) (arguments : List Value)
    (memory : Memory α) : Checked FunctionError (List Value) → Memory α → Prop
  | unprepared {failure : Failure FunctionError} {state : Logged α}
      (failed : prepare function.signature arguments ⟨memory, []⟩ = .error failure state) :
      Ended function heldOutside arguments memory (Except.error failure) state.memory
  | unfinished {inputs : List Value} {prepared : Logged α} {failure : Failure RunError}
      (ready : prepare function.signature arguments ⟨memory, []⟩ = .ok inputs prepared)
      (failed : (function.executable.run heldOutside inputs prepared.memory).result =
        Except.error failure) :
      Ended function heldOutside arguments memory (Except.error (failure.map FunctionError.run))
        (function.executable.run heldOutside inputs prepared.memory).memory
  | unwritten {inputs outputs : List Value} {prepared state : Logged α}
      {failure : Failure FunctionError}
      (ready : prepare function.signature arguments ⟨memory, []⟩ = .ok inputs prepared)
      (ran : (function.executable.run heldOutside inputs prepared.memory).result = Except.ok outputs)
      (failed : writeBack function.signature (outputs.drop function.signature.outputs.length)
        ⟨(function.executable.run heldOutside inputs prepared.memory).memory, prepared.log⟩ =
          .error failure state) :
      Ended function heldOutside arguments memory (Except.error failure) state.memory
  | finished {inputs outputs : List Value} {prepared state : Logged α}
      (ready : prepare function.signature arguments ⟨memory, []⟩ = .ok inputs prepared)
      (ran : (function.executable.run heldOutside inputs prepared.memory).result = Except.ok outputs)
      (wrote : writeBack function.signature (outputs.drop function.signature.outputs.length)
        ⟨(function.executable.run heldOutside inputs prepared.memory).memory, prepared.log⟩ =
          .ok () state) :
      Ended function heldOutside arguments memory
        (Except.ok (outputs.take function.signature.outputs.length)) state.memory

theorem ended_call (function : Function α) (heldOutside : BufferId → Bool) (arguments : List Value)
    (memory : Memory α) : function.Ended heldOutside arguments memory
      (function.call heldOutside arguments memory).result
      (function.call heldOutside arguments memory).memory := by
  unfold call
  split
  · rename_i failed
    exact .unprepared failed
  · rename_i ready
    dsimp only
    split
    · rename_i failed
      exact .unfinished ready failed
    · rename_i ran
      split
      · rename_i failed
        exact .unwritten ready ran failed
      · rename_i wrote
        exact .finished ready ran wrote

/-- Whatever is written back, it changes no buffer, and no container but those that are updated. -/
structure Stores (signature : Signature) (memory after : Memory α) : Prop where
  buffers : after.buffers = memory.buffers
  container : ∀ id, (∀ slot ∈ signature.shared, slot.update.isSome → slot.container ≠ id) →
    after.container id = memory.container id

omit [Arithmetic α] in
theorem stores_of_included {signature : Signature} {values : List Value}
    {entries : List (ContainerId × Value)}
    (included : ∀ entry ∈ entries, entry ∈ updateEntries signature values) :
    Stores signature memory (memory.store entries) where
  buffers := Memory.buffers_store entries
  container id apart := by
    apply Memory.container_store_of_notMem
    intro value member
    rcases mem_updateEntries (included _ member) with ⟨slot, slotMem, updated, same⟩
    exact apart slot slotMem updated same

omit [Arithmetic α] in
theorem Stores.read {signature : Signature} {after : Memory α} (stores : Stores signature memory after)
    (buffer : BufferId) : after.read buffer = memory.read buffer := by
  rw [Memory.read, Memory.read, stores.buffers]

omit [Arithmetic α] in
/-- Writing back fails only if a container refuses its value, and then the updates before this one are
in their containers. -/
theorem writeBack_cases {signature : Signature} (values : List Value) (state : Logged α)
    (held : ∀ slot ∈ signature.shared, (state.memory.container slot.container).value ≠ none) :
    ((∀ entry ∈ updateEntries signature values,
        (state.memory.container entry.1).accepts entry.2) ∧
      writeBack signature values state =
        .ok () { state with memory := state.memory.store (updateEntries signature values) }) ∨
    ∃ done container value rest,
      updateEntries signature values = done ++ (container, value) :: rest ∧
      (∀ entry ∈ done, (state.memory.container entry.1).accepts entry.2) ∧
      ¬(state.memory.container container).accepts value ∧
      writeBack signature values state =
        .error (Failure.error (.container (.typeMismatch (state.memory.container container).name
          (state.memory.container container).type value.type)))
          { state with memory := state.memory.store done } := by
  rw [writeBack_eq]
  apply writeEntries_cases
  rintro ⟨container, value⟩ member
  rcases mem_updateEntries member with ⟨slot, slotMem, _, rfl⟩
  exact held slot slotMem

omit [Arithmetic α] in
/-- What every container accepts is written back without an error. -/
theorem writeBack_of_accepts {signature : Signature} {values : List Value} {state : Logged α}
    (held : ∀ slot ∈ signature.shared, (state.memory.container slot.container).value ≠ none)
    (accepted : ∀ entry ∈ updateEntries signature values,
      (state.memory.container entry.1).accepts entry.2) :
    writeBack signature values state =
      .ok () { state with memory := state.memory.store (updateEntries signature values) } := by
  rcases writeBack_cases values state held with
    ⟨_, wrote⟩ | ⟨done, container, value, rest, split, _, refusal, _⟩
  · exact wrote
  · exact absurd (accepted (container, value) (by simp [split])) refusal

omit [Arithmetic α] in
/-- However writing back ends, some of the updates are in their containers. -/
theorem writeBack_stores {signature : Signature} (values : List Value) (state : Logged α)
    (held : ∀ slot ∈ signature.shared, (state.memory.container slot.container).value ≠ none) :
    Ends (writeBack signature values) state
      (fun _ final => ∃ entries, (∀ entry ∈ entries, entry ∈ updateEntries signature values) ∧
        final.memory = state.memory.store entries)
      (fun final => ∃ entries, (∀ entry ∈ entries, entry ∈ updateEntries signature values) ∧
        final.memory = state.memory.store entries) := by
  unfold Ends
  rcases writeBack_cases values state held with
    ⟨_, wrote⟩ | ⟨done, container, value, rest, split, _, _, failed⟩
  · rw [wrote]
    exact ⟨_, fun _ member => member, rfl⟩
  · rw [failed]
    exact ⟨done, fun _ member => split ▸ List.mem_append_left _ member, rfl⟩

omit [Arithmetic α] in
/-- However writing back ends, it has changed no more than it may. -/
theorem writeBack_ends {signature : Signature} (values : List Value) (state : Logged α)
    (held : ∀ slot ∈ signature.shared, (state.memory.container slot.container).value ≠ none) :
    Ends (writeBack signature values) state
      (fun _ final => Stores signature state.memory final.memory)
      (fun final => Stores signature state.memory final.memory) := by
  refine (writeBack_stores values state held).imp ?_ ?_
  · rintro _ final ⟨entries, included, same⟩
    exact same ▸ stores_of_included included
  · rintro final ⟨entries, included, same⟩
    exact same ▸ stores_of_included included

/-- A call that could not be prepared has not run, and any other call has run once and then changed no
more than writing back does. -/
theorem CompiledFrom.call_cases (compiled : function.CompiledFrom source)
    (quiet : ∀ node ∈ source.nodes, node.op.Quiet) (vouches : memory.Vouches heldOutside arguments) :
    (memory.Keeps (function.call heldOutside arguments memory).memory ∧
      (function.call heldOutside arguments memory).function.executable = function.executable) ∨
    ∃ inputs prepared, function.signature.Prepares memory arguments inputs prepared ∧
      (function.call heldOutside arguments memory).function.executable =
        (function.executable.run heldOutside inputs prepared).executable ∧
      Stores function.signature (function.executable.run heldOutside inputs prepared).memory
        (function.call heldOutside arguments memory).memory := by
  unfold call
  split
  · rename_i failed
    exact Or.inl ⟨((prepare_ends vouches).of_error failed).1, rfl⟩
  · rename_i inputs prepared ready
    have prepares := (prepare_ends vouches).of_ok ready
    have held := compiled.held_run quiet heldOutside prepares
    right
    refine ⟨inputs, prepared.memory, prepares, ?_⟩
    dsimp only
    split
    · exact ⟨rfl, rfl, fun _ _ => rfl⟩
    · rename_i outputs _
      have writing := writeBack_ends (outputs.drop function.signature.outputs.length)
        ⟨(function.executable.run heldOutside inputs prepared.memory).memory, prepared.log⟩ held
      split
      · rename_i failed
        exact ⟨rfl, writing.of_error failed⟩
      · rename_i wrote
        exact ⟨rfl, writing.of_ok wrote⟩

/-- However a call ends, it leaves alone what it may not write to. -/
theorem CompiledFrom.framed (compiled : function.CompiledFrom source)
    (quiet : ∀ node ∈ source.nodes, node.op.Quiet) (vouches : memory.Vouches heldOutside arguments)
    {result : Checked FunctionError (List Value)} {after : Memory α}
    (ended : function.Ended heldOutside arguments memory result after) :
    function.Framed heldOutside memory arguments after := by
  have run : ∀ {inputs prepared final},
      prepare function.signature arguments ⟨memory, []⟩ = .ok inputs prepared →
        Stores function.signature (function.executable.run heldOutside inputs prepared.memory).memory
          final → function.Framed heldOutside memory arguments final := by
    intro inputs prepared final ready stores
    have prepares := (prepare_ends vouches).of_ok ready
    have frame := compiled.framed_run quiet heldOutside prepares
    have ran : function.executed heldOutside arguments memory =
        (function.executable.run heldOutside inputs prepared.memory).executed.map (·.1) := by
      simp [executed, ready]
    refine ⟨fun buffer known untouched => ?_, fun id apart => (stores.container id apart).trans
      (Memory.container_of_containers frame.containers id),
      fun refused => absurd prepares.accepts refused⟩
    rw [ran] at untouched
    exact (stores.read buffer).trans (frame.read buffer known untouched)
  cases ended with
  | unprepared failed =>
    rcases (prepare_ends vouches).of_error failed with ⟨keeps, _⟩
    exact ⟨fun buffer known _ => keeps.read buffer known,
      fun id _ => Memory.container_of_containers keeps.containers id, fun _ => keeps⟩
  | unfinished ready failed =>
    exact run ready ⟨rfl, fun _ _ => rfl⟩
  | unwritten ready ran failed =>
    have prepares := (prepare_ends vouches).of_ok ready
    exact run ready ((writeBack_ends _ _
      (compiled.held_run quiet heldOutside prepares)).of_error failed)
  | finished ready ran wrote =>
    have prepares := (prepare_ends vouches).of_ok ready
    exact run ready ((writeBack_ends _ _
      (compiled.held_run quiet heldOutside prepares)).of_ok wrote)

end Function

end ArrayGraph
