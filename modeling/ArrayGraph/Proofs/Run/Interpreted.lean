import ArrayGraph.Proofs.Run.InPlace

/-!
# Interpreted execution of a validated graph

The slots of a run hold the values that the comparison with evaluation speaks of. Loading puts the
roots there, every step keeps it so, and the outputs are read off at the end. A run that fails has
come to a node that cannot be evaluated, and has left everything alone but the roots that it may
overwrite.
-/

namespace ArrayGraph

variable {α : Type}

namespace Run

variable {state : RunState α}

theorem loadRoot_of_value {arguments : List Value} {slot : Nat} {source : Source} {value : Value}
    (found : source.value? state.memory arguments = some value) (known : slot < state.slots.size) :
    loadRoot arguments (slot, source) state =
      .ok () { state with slots := state.slots.setIfInBounds slot (some value) } := by
  rcases loadRoot_eq state arguments slot source with same | ⟨container, rfl, released⟩
  · rw [same, found]
    exact setSlot_of_lt known
  · cases found.symm.trans released

/-- Loading roots that all have values puts those values into their slots. -/
theorem loadRoots_of_values {roots : List (Nat × Source)} {arguments : List Value}
    (value : Source → Value)
    (given : ∀ slot source, (slot, source) ∈ roots →
      source.value? state.memory arguments = some (value source))
    (known : ∀ slot source, (slot, source) ∈ roots → slot < state.slots.size) :
    (roots.forM (loadRoot arguments) : Run α Unit) state =
      .ok () { state with
        slots := fill state.slots (roots.map fun (slot, source) => (slot, value source)) } := by
  induction roots generalizing state with
  | nil => rfl
  | cons entry rest ih =>
    rcases entry with ⟨slot, source⟩
    have next := @ih { state with slots := state.slots.setIfInBounds slot (some (value source)) }
      (fun slot source member => given slot source (by simp [member]))
      (fun slot source member => by simpa using known slot source (by simp [member]))
    refine Eq.trans ?_ next
    exact bind_of_ok (loadRoot_of_value (given slot source (by simp)) (known slot source (by simp)))

theorem load_of_values {schedule : Schedule α} {arguments : List Value} (value : Source → Value)
    (count : arguments.length = schedule.arity)
    (given : ∀ slot source, (slot, source) ∈ schedule.roots →
      source.value? state.memory arguments = some (value source))
    (known : ∀ slot source, (slot, source) ∈ schedule.roots → slot < state.slots.size) :
    load schedule arguments state =
      .ok () { state with
        slots := fill state.slots (schedule.roots.map fun (slot, source) => (slot, value source)) } :=
  (load_of_count count).trans (loadRoots_of_values value given known)

end Run

namespace Schedule

variable {vars : List VarId} {step : Step α} {id : NodeId} {node : Node α} {slots : Array (Option Value)}
  {outputs : List Value} {var : VarId}

/-- Storing the results of a step leaves the slots of all other variables alone. -/
theorem StandsFor.store_of_notMem (stands : StandsFor vars step id node)
    (unlisted : var ∉ node.outputs) :
    (fill slots (step.outputs.zip outputs))[vars.idxOf var]? = slots[vars.idxOf var]? :=
  getElem?_fill_zip_of_notMem fun listed => unlisted (stands.mem_outputs_iff.mp listed)

theorem StandsFor.store_of_getElem? (stands : StandsFor vars step id node)
    (distinct : node.outputs.Nodup) {index : Nat} {value : Value}
    (listed : node.outputs[index]? = some var) (found : outputs[index]? = some value)
    (known : vars.idxOf var < slots.size) :
    (fill slots (step.outputs.zip outputs))[vars.idxOf var]? = some (some value) :=
  getElem?_fill_zip (stands.outputs_distinct distinct) (by simp [stands.outputs, listed]) found known

end Schedule

namespace Dataflow

variable [Arithmetic α] {graph : Dataflow α} {hosts : Meaning α} {start memory : Memory α}
  {arguments : List Value} {order front back : List NodeId} {value : VarId → Value}
  {tensor : VarId → Tensor α} {vars : List VarId} {schedule : Schedule α} {state : RunState α}
  {slots : Array (Option Value)}

/-- Before the first node has run. -/
theorem tracks_start (wellFormed : graph.WellFormed) (supplied : graph.Supplied start arguments) :
    graph.Tracks hosts start arguments [] (fun var => (graph.rootValue? start arguments var).getD default)
      (fun var => start.tensor ((graph.rootValue? start arguments var).getD default)) start := by
  have supplies : ∀ var, graph.Available [] var → graph.Supplies var := by
    rintro var (supplies | ⟨id, member, _⟩)
    · exact supplies
    · cases member
  have owner : ∀ var, graph.Available [] var → graph.aliasRoot var = var := fun var available =>
    aliasRoot_of_none (storageSource?_eq_none_of_producer?
      (wellFormed.producer?_of_source? (supplies var available).2))
  have given : ∀ var, graph.Available [] var → ∃ value,
      graph.rootValue? start arguments var = some value ∧ start.Knows value ∧
        (start.tensor value).Conforms (graph.type var) := fun var available =>
    supplied.value var (supplies var available)
  exact {
    root := by
      intro var supplies
      rcases supplied.value var supplies with ⟨value, found, _⟩
      simp [found]
    evaluates := by
      intro var available
      rcases given var available with ⟨value, found, _⟩
      refine Evaluates.root (producerNode?_eq_none.mpr
        (wellFormed.producer?_of_source? (supplies var available).2)) ?_
      simp [rootTensor?, found]
    conforms := by
      intro var available
      rcases given var available with ⟨value, found, _, conforms⟩
      simpa [found] using conforms
    models := by
      intro var available
      rcases given var available with ⟨value, found, known, _⟩
      exact ⟨by simpa [found] using known, rfl, rfl, rfl⟩
    current := fun _ _ _ => rfl
    shared := by
      intro var other available available' same
      rw [owner var available, owner other available'] at same
      rw [same]
    apart := by
      intro var other available available' different overwritten
      rw [owner var available, owner other available'] at different
      rw [owner var available] at overwritten
      rcases given var available with ⟨value, found, _⟩
      rcases given other available' with ⟨value', found', _⟩
      simpa [found, found'] using supplied.apart var other (supplies var available)
        (supplies other available') different overwritten value value' found found'
    new := by
      intro var available produced
      rw [owner var available] at produced
      exact absurd (wellFormed.producer?_of_source? (supplies var available).2) produced
    frame := fun _ _ _ => rfl
    grown := Nat.le_refl _
    containers := rfl }

/-- The slots hold the values of all available variables. -/
def Filled (graph : Dataflow α) (vars : List VarId) (front : List NodeId) (value : VarId → Value)
    (slots : Array (Option Value)) : Prop :=
  slots.size = vars.length ∧ ∀ var, graph.Available front var →
    slots[vars.idxOf var]? = some (some (value var))

theorem Available.listed (wellFormed : graph.WellFormed) (topological : graph.Topological order)
    (laysOut : schedule.LaysOut graph order vars) {var : VarId}
    (available : graph.Available front var) : var ∈ vars := by
  rcases available with ⟨declared | output | ⟨id, node, live, input⟩, _⟩ | ⟨id, _, produced⟩
  · exact laysOut.inputs_listed var declared
  · exact laysOut.outputs_listed var output
  · rcases laysOut.exists_stands topological live with ⟨_, _, stands⟩
    exact stands.inputs_listed var input
  · rcases live_of_producerId? produced with ⟨node, live⟩
    rcases laysOut.exists_stands topological live with ⟨_, _, stands⟩
    exact stands.outputs_listed var
      ((wellFormed.mem_outputs_iff (known_of_producerId? produced) live).mpr produced)

/-- Loading fills the slots of the roots. -/
theorem filled_of_load (wellFormed : graph.WellFormed) (safe : graph.Safe order)
    (laysOut : schedule.LaysOut graph order vars) (supplied : graph.Supplied start arguments)
    (state : RunState α) (memory : state.memory = start) (size : state.slots.size = schedule.slotCount) :
    ∃ after, Run.load schedule arguments state = .ok () after ∧ after.memory = start ∧
      graph.Filled vars [] (fun var => (graph.rootValue? start arguments var).getD default)
        after.slots := by
  -- Every root slot is the slot of a variable that the run is supplied with.
  have supplies : ∀ slot source, (slot, source) ∈ schedule.roots → ∃ var, graph.Supplies var ∧
      var ∈ vars ∧ graph.source? var = some source ∧ slot = vars.idxOf var := by
    intro slot source member
    rcases laysOut.mem_roots.mp member with ⟨var, listed, found, same⟩
    refine ⟨var, ⟨?_, by simp [found]⟩, listed, found, same⟩
    rcases laysOut.used var listed with declared | read | ⟨id, node, live, output⟩
    · exact Or.inl declared
    · exact Or.inr read
    · have unproduced := wellFormed.producer?_of_source? (show graph.source? var ≠ none by simp [found])
      rcases List.mem_iff_getElem?.mp output with ⟨index, outputFound⟩
      have kind := (wellFormed.output_known id node live index var outputFound).2
      rw [producer?_eq_some.mpr ⟨kind, live⟩] at unproduced
      cases unproduced
  have given : ∀ slot source, (slot, source) ∈ schedule.roots →
      source.value? state.memory arguments =
        some ((source.value? start arguments).getD default) := by
    intro slot source member
    rcases supplies slot source member with ⟨var, varSupplies, _, found, _⟩
    rcases supplied.value var varSupplies with ⟨value, valueFound, _⟩
    simp only [rootValue?, found, Option.bind_some] at valueFound
    simp [memory, valueFound]
  have known : ∀ slot source, (slot, source) ∈ schedule.roots → slot < state.slots.size := by
    intro slot source member
    rcases supplies slot source member with ⟨var, _, listed, _, rfl⟩
    rw [size]
    exact laysOut.slot_lt listed
  refine ⟨_, Run.load_of_values _ (supplied.count.trans laysOut.arity.symm) given known, memory, ?_, ?_⟩
  · simp [size, laysOut.slotCount]
  · intro var available
    have listed := available.listed wellFormed safe.topological laysOut
    rcases available with varSupplies | ⟨id, member, _⟩
    · rcases Option.ne_none_iff_exists'.mp varSupplies.2 with ⟨source, found⟩
      apply getElem?_fill_of_agree
      · refine List.mem_map.mpr ⟨(vars.idxOf var, source), ?_, ?_⟩
        · exact laysOut.mem_roots.mpr ⟨var, listed, found, rfl⟩
        · simp [rootValue?, found]
      · intro other member
        rcases List.mem_map.mp member with ⟨⟨slot, source'⟩, rootMem, same⟩
        rcases supplies slot source' rootMem with ⟨var', _, listed', found', rfl⟩
        simp only [Prod.mk.injEq] at same
        rw [List.idxOf_inj listed'] at same
        rcases same with ⟨rfl, rfl⟩
        simp [rootValue?, found']
      · rw [size]
        exact laysOut.slot_lt listed
    · cases member

/-- Storing the outputs of a node fills their slots. -/
theorem Filled.store (filled : graph.Filled vars front value slots) (wellFormed : graph.WellFormed)
    (safe : graph.Safe order) (laysOut : schedule.LaysOut graph order vars) {id : NodeId}
    {node : Node α} {outputs : List Value} {results : List (Tensor α)} {after : Memory α}
    {step : Step α} (split : order = front ++ id :: back) (live : graph.node? id = some node)
    (stands : Schedule.StandsFor vars step id node)
    (ran : graph.Ran hosts front value tensor memory id node outputs results after) :
    graph.Filled vars (front ++ [id]) (assign value node.outputs outputs)
      (fill slots (step.outputs.zip outputs)) := by
  have unfinished := safe.notMem_front split
  refine ⟨by simp [filled.1], ?_⟩
  intro var available
  have listed := available.listed wellFormed safe.topological laysOut
  rcases ran.cases wellFormed live var available with
    ⟨old, same, _⟩ | ⟨index, result, _, output, found, _, same, _⟩
  · rw [same, stands.store_of_notMem
      fun output => wellFormed.not_available_of_output unfinished live output old]
    exact filled.2 var old
  · rw [same]
    refine stands.store_of_getElem? (wellFormed.outputs_nodup live) output found ?_
    rw [filled.1]
    exact List.idxOf_lt_length_of_mem listed

/-- What a run leaves as it was: all buffers from the start but those of the roots that are overwritten,
and the containers. -/
structure Undisturbed (graph : Dataflow α) (start : Memory α) (arguments : List Value)
    (memory : Memory α) : Prop where
  read : ∀ buffer : BufferId, buffer.index < start.buffers.size →
    (∀ var, graph.Supplies var → (∃ id, graph.Overwrites id var) → ∀ value,
      graph.rootValue? start arguments var = some value → value.buffer ≠ buffer) →
      memory.read buffer = start.read buffer
  grown : start.buffers.size ≤ memory.buffers.size
  containers : memory.containers = start.containers

theorem Tracks.undisturbed (tracks : graph.Tracks hosts start arguments front value tensor memory)
    {after : Memory α} (keeps : memory.Keeps after) :
    graph.Undisturbed start arguments after where
  read buffer known apart := by
    rw [keeps.read buffer (Nat.lt_of_lt_of_le known tracks.grown)]
    exact tracks.frame buffer known fun var supplies overwritten =>
      apart var supplies overwritten _ (tracks.root var supplies)
  grown := Nat.le_trans tracks.grown keeps.size
  containers := keeps.containers.trans tracks.containers

omit [Arithmetic α] in
/-- The contents of the buffer of a protected root are never changed. -/
theorem Undisturbed.protected (undisturbed : graph.Undisturbed start arguments memory)
    (safe : graph.Safe order) (supplied : graph.Supplied start arguments) {root : VarId} (supplies : graph.Supplies root)
    (guarded : graph.isProtected root) {value : Value}
    (found : graph.rootValue? start arguments root = some value) :
    memory.read value.buffer = start.read value.buffer := by
  rcases supplied.value root supplies with ⟨value', found', known, _⟩
  rw [found] at found'
  cases found'
  refine undisturbed.read value.buffer known ?_
  rintro var varSupplies ⟨id, overwrites⟩ other otherFound same
  have different : var ≠ root := by
    rintro rfl
    exact safe.unprotected id var overwrites guarded
  exact supplied.apart var root varSupplies supplies different ⟨id, overwrites⟩ other value otherFound
    found same

/-- Values hold the arrays that the outputs evaluate to. -/
def Delivers (graph : Dataflow α) (hosts : Meaning α) (roots : VarId → Option (Tensor α))
    (memory : Memory α) (values : List Value) : Prop :=
  List.Forall₂ (fun var value => memory.Knows value ∧
    (memory.tensor value).Conforms (graph.type var) ∧
    graph.Evaluates hosts roots var (memory.tensor value)) graph.outputs values

section Steps

variable (wellFormed : graph.WellFormed) (closed : graph.Closed) (safe : graph.Safe order)
  (laysOut : schedule.LaysOut graph order vars)
  (computes : ∀ id node, graph.node? id = some node → node.op.Computes hosts)
include wellFormed closed safe laysOut computes

/-- The steps of a run either all succeed, with the state in step with evaluation at the end, or stop
at a node that cannot be evaluated. -/
theorem interpret_steps (monitored : Bool) {steps : List (Step α)} (split : order = front ++ back)
    (stand : List.Forall₂ (fun id step => ∃ node, graph.node? id = some node ∧
      Schedule.StandsFor vars step id node) back steps)
    (tracks : graph.Tracks hosts start arguments front value tensor state.memory)
    (filled : graph.Filled vars front value state.slots) :
    (∃ after value tensor, steps.forM (Run.interpretStep monitored) state = .ok () after ∧
      graph.Tracks hosts start arguments order value tensor after.memory ∧
      graph.Filled vars order value after.slots ∧ ∀ id ∈ back, ∀ node, graph.node? id = some node →
        graph.NodeEvaluates hosts (graph.rootTensor? start arguments) node) ∨
    ∃ failure after, steps.forM (Run.interpretStep monitored) state = .error failure after ∧
      graph.Undisturbed start arguments after.memory ∧ ∃ id node, graph.node? id = some node ∧
        ¬graph.NodeEvaluates hosts (graph.rootTensor? start arguments) node := by
  induction stand generalizing front value tensor state with
  | nil =>
    rw [List.append_nil] at split
    subst split
    exact Or.inl ⟨state, value, tensor, rfl, tracks, filled, by simp⟩
  | @cons id step rest steps head _ ih =>
    rcases head with ⟨node, live, stands⟩
    have runs := tracks.runsAs closed safe split live wellFormed (computes id node live)
    have read : List.Forall₂ (fun slot value => state.slots[slot]? = some (some value)) step.inputs
        (node.inputs.map value) := by
      rw [stands.inputs, List.forall₂_map_left_iff, List.forall₂_map_right_iff, List.forall₂_same]
      intro var input
      exact filled.2 var (safe.available_input closed split live input)
    -- The step stops exactly where evaluation of the node does.
    cases evaluated : node.op.evaluate hosts (node.inputs.map tensor) with
    | error failure =>
      right
      rcases runs.2 failure evaluated with ⟨after, performed, keeps⟩
      rw [← stands.op] at performed
      refine ⟨_, _, bind_of_error (Run.interpretStep_of_error read performed),
        tracks.undisturbed keeps, id, node, live, ?_⟩
      rw [tracks.nodeEvaluates_iff closed safe split live, evaluated]
      simp
    | ok results =>
      rcases runs.1 results evaluated with ⟨outputs, after, performed, ran⟩
      rw [← stands.op] at performed
      have known : ∀ slot ∈ step.outputs, slot < state.slots.size := by
        intro slot member
        rw [stands.outputs] at member
        rcases List.mem_map.mp member with ⟨var, varMem, rfl⟩
        rw [filled.1]
        exact List.idxOf_lt_length_of_mem (stands.outputs_listed var varMem)
      rcases (⟨_, Run.interpretStep_of_ok read performed known, rfl, rfl⟩ :
        ∃ next, Run.interpretStep monitored step state = .ok () next ∧ next.memory = after ∧
          next.slots = fill state.slots (step.outputs.zip outputs)) with
        ⟨next, stepped, memory, slots⟩
      have loop : (step :: steps).forM (Run.interpretStep monitored) state =
          steps.forM (Run.interpretStep monitored) next := bind_of_ok stepped
      rw [loop]
      have tracks' := tracks.extend ran wellFormed closed safe split live
      have filled' := filled.store wellFormed safe laysOut split live stands ran
      rw [← memory] at tracks'
      rw [← slots] at filled'
      have evaluates : graph.NodeEvaluates hosts (graph.rootTensor? start arguments) node :=
        (tracks.nodeEvaluates_iff closed safe split live).mpr ⟨results, evaluated⟩
      rcases ih (by simp [split]) tracks' filled' with
        ⟨final, value', tensor', ok, finalTracks, finalFilled, others⟩ | failed
      · refine Or.inl ⟨final, value', tensor', ok, finalTracks, finalFilled, ?_⟩
        intro other member content otherLive
        rcases List.mem_cons.mp member with rfl | member
        · rw [live] at otherLive
          cases otherLive
          exact evaluates
        · exact others other member content otherLive
      · exact Or.inr failed

/-- A run in place gives what evaluation gives. -/
theorem interpret (supplied : graph.Supplied start arguments) (monitored : Bool) :
    (∃ values after, (do
        Run.load schedule arguments
        Run.steps schedule (Run.interpretStep monitored))
          ⟨start, Array.replicate schedule.slotCount none, [], []⟩ = .ok values after ∧
      graph.AllEvaluate hosts (graph.rootTensor? start arguments) ∧
      graph.Delivers hosts (graph.rootTensor? start arguments) after.memory values ∧
      graph.Undisturbed start arguments after.memory) ∨
    ∃ failure after, (do
        Run.load schedule arguments
        Run.steps schedule (Run.interpretStep monitored))
          ⟨start, Array.replicate schedule.slotCount none, [], []⟩ = .error failure after ∧
      ¬graph.AllEvaluate hosts (graph.rootTensor? start arguments) ∧
      graph.Undisturbed start arguments after.memory := by
  rcases filled_of_load wellFormed safe laysOut supplied
    ⟨start, Array.replicate schedule.slotCount none, [], []⟩ rfl (by simp) with
    ⟨⟨_, slots, events, executed⟩, load, rfl, filled⟩
  rcases interpret_steps wellFormed closed safe laysOut computes monitored
    (List.nil_append order).symm laysOut.steps (tracks_start wellFormed supplied) filled with
    ⟨after, value, tensor, ran, tracks, filled, evaluate⟩ |
    ⟨failure, after, ran, undisturbed, id, node, live, fails⟩
  · left
    have read : List.Forall₂ (fun slot value => after.slots[slot]? = some (some value))
        schedule.outputs (graph.outputs.map value) := by
      rw [laysOut.outputs, List.forall₂_map_left_iff, List.forall₂_map_right_iff, List.forall₂_same]
      intro var output
      exact filled.2 var (safe.available_output closed output)
    refine ⟨_, after, (bind_of_ok load).trans ((bind_of_ok ran).trans (Run.readSlots read)), ?_, ?_,
      tracks.undisturbed (Memory.Keeps.refl _)⟩
    · intro id node live
      exact evaluate id (safe.complete.mem_iff.mpr (mem_liveIds.mpr ⟨node, live⟩)) node live
    · unfold Delivers
      rw [List.forall₂_map_right_iff, List.forall₂_same]
      intro var output
      have available := safe.available_output closed output
      have current : graph.Current order var := fun destroyer _ overwrites =>
        safe.outputs_current var output destroyer overwrites
      have same := (tracks.models var available).tensor (tracks.current var available current)
      rw [same]
      exact ⟨(tracks.models var available).known, tracks.conforms var available,
        tracks.evaluates var available⟩
  · right
    exact ⟨failure, after, (bind_of_ok load).trans (bind_of_error ran),
      fun all => fails (all id node live), undisturbed⟩

end Steps

end Dataflow

end ArrayGraph
