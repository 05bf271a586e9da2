import ArrayGraph.Proofs.Run.Carried

/-!
# Owners of storage are buffers of a run

The analysis of aliases follows views and overwritten inputs back to the owner of a variable's storage.
In a run that gets to its end, two variables have values on one buffer exactly if they have one owner,
provided that no two roots are given one buffer. The graph need not pass validation, and the values
need not be there at the end of the run: a plan that collects has let go of most of them by then.

The invariant assigns to every variable that is available the value that the run has computed for it. An
output that lives in an input shares its buffer and its owner. Any other output owns its storage, and
its buffer is a new one or a spare one. A spare buffer is offered only by a plan that does not collect,
which still has every value of the run in its slot and so has found that nobody is on it.
-/

namespace ArrayGraph

variable {α : Type}

namespace Executable

variable [Arithmetic α] {executable : Executable α} {heldOutside : BufferId → Bool}
  {arguments : List Value} {start : Memory α} {state after final : RunState α} {step : Step α}
  {inputs outputs values : List Value}

/-- How a step comes to its results: with the values in its input slots, and at most with a spare value
from one of its output slots, which shares its buffer with no other slot. -/
structure Obtains (executable : Executable α) (step : Step α) (before : RunState α)
    (inputs : List Value) (spare : Option Value) (outputs : List Value) (after : RunState α) :
    Prop where
  read : List.Forall₂ (fun slot value => before.slots[slot]? = some (some value)) step.inputs inputs
  ran : step.op.Attempts inputs spare before.memory (.ok outputs after.memory)
  size : after.slots.size = before.slots.size
  kept : ∀ slot : Nat, slot ∉ step.outputs → after.slots[slot]? = before.slots[slot]?
  spared : ∀ value ∈ spare, executable.KeepsSlots ∧ ∃ slot ∈ step.outputs,
    before.slots[slot]? = some (some value) ∧ ∀ (other : Nat) (content : Value), other ≠ slot →
      before.slots[other]? = some (some content) → content.buffer ≠ value.buffer

/-- The results of a step are on buffers of inputs, new ones and the spare one. -/
theorem Obtains.lands {spare : Option Value}
    (obtains : executable.Obtains step state inputs spare outputs after)
    (allocates : step.op.Allocates) (known : state.memory.KnowsSlots state.slots) :
    step.op.Lands inputs spare state.memory outputs after.memory := by
  refine obtains.ran.lands_of_slots allocates known obtains.read fun value offered => ?_
  rcases (obtains.spared value offered).2 with ⟨slot, _, held, _⟩
  exact ⟨slot, held⟩

theorem obtains_of_produce (known : ∀ slot ∈ step.outputs, slot < state.slots.size)
    (produced : executable.produce heldOutside step state = .ok (inputs, outputs) after) :
    ∃ spare, executable.Obtains step state inputs spare outputs after := by
  unfold Executable.produce at produced
  rcases bind_eq_ok_iff.mp produced with ⟨inputs', _, reading, offering⟩
  rcases Run.readSlots_ends.of_ok reading with ⟨unchanged, read⟩
  rw [unchanged] at offering
  rcases spare_of_known executable heldOutside inputs' known with
    ⟨spare, slots, offered, size, kept, spared⟩
  rw [bind_of_ok offered] at offering
  rcases bind_eq_ok_iff.mp offering with ⟨outputs', _, performed, same⟩
  rw [pure_eq_ok_iff] at same
  rcases same with ⟨same, rfl⟩
  cases same
  cases ran : executable.apply step.op inputs spare state.memory with
  | error failure memory =>
    rw [Run.onMemory_of_error (by exact ran)] at performed
    cases performed
  | ok results memory =>
    rw [Run.onMemory_of_ok (by exact ran)] at performed
    cases performed
    exact ⟨spare, read, attempts_apply executable ran, size,
      fun slot unwritten => (kept slot).resolve_right fun emptied => unwritten emptied.1, spared⟩

/-- What a step that succeeds has done: it has come to its results and has put them into its slots. -/
theorem produce_of_step (known : ∀ slot ∈ step.outputs, slot < state.slots.size)
    (freed : ∀ slot ∈ step.frees, slot < state.slots.size)
    (ran : executable.step heldOutside step state = .ok () final) :
    ∃ inputs outputs after, executable.produce heldOutside step state = .ok (inputs, outputs) after ∧
      final.memory = after.memory ∧
        final.slots = Run.clear (fill after.slots (step.outputs.zip outputs)) (executable.freed step) := by
  rw [step_eq] at ran
  rcases bind_eq_ok_iff.mp ran with ⟨⟨inputs, outputs⟩, after, produced, concluded⟩
  rcases obtains_of_produce known produced with ⟨_, obtains⟩
  rcases conclude_of_known executable after inputs outputs
    (obtains.size ▸ known) (obtains.size ▸ freed) with ⟨_, concluded', memory, slots, _⟩
  cases concluded.symm.trans concluded'
  exact ⟨inputs, outputs, after, produced, memory, slots⟩

/-- A run that gets to its end has loaded the roots and taken all steps. -/
theorem exists_steps_of_result
    (ran : (executable.run heldOutside arguments start).result = Except.ok values) :
    ∃ loaded final, Run.load executable.schedule arguments ⟨start, executable.startSlots, [], []⟩ =
        .ok () loaded ∧
      Run.steps executable.schedule (executable.step heldOutside) loaded = .ok values final := by
  rw [result_of_run] at ran
  split at ran
  · rename_i values' final both
    cases ran
    rcases bind_eq_ok_iff.mp both with ⟨_, loaded, ready, steps⟩
    exact ⟨loaded, final, ready, steps⟩
  · cases ran

/-- The values that a run computes: roots have those that the run is given, and an output of a node has
the one that its step has come to, after all steps before it. -/
inductive Computes (executable : Executable α) (graph : Dataflow α) (heldOutside : BufferId → Bool)
    (arguments : List Value) (start : Memory α) : VarId → Value → Prop
  | root {var : VarId} {value : Value} (supplies : graph.Supplies var)
      (given : graph.rootValue? start arguments var = some value) :
      Computes executable graph heldOutside arguments start var value
  | output {position : Nat} {step : Step α} {node : Node α} {index : Nat} {var : VarId}
      {value : Value} {loaded before after : RunState α} {inputs outputs : List Value}
      (stepped : executable.schedule.steps[position]? = some step)
      (live : graph.node? step.node = some node) (listed : node.outputs[index]? = some var)
      (ready : Run.load executable.schedule arguments ⟨start, executable.startSlots, [], []⟩ =
        .ok () loaded)
      (ran : ((executable.schedule.steps.take position).forM (executable.step heldOutside) :
        Run α Unit) loaded = .ok () before)
      (produced : executable.produce heldOutside step before = .ok (inputs, outputs) after)
      (result : outputs[index]? = some value) :
      Computes executable graph heldOutside arguments start var value

section Computes

variable {graph : Dataflow α} {order : List NodeId} {vars : List VarId} {var : VarId}

theorem Computes.handles {content : Value}
    (computes : executable.Computes graph heldOutside arguments start var content) :
    graph.Handles var := by
  cases computes with
  | root supplies _ =>
    rcases supplies.1 with input | read
    · exact Or.inl input
    · exact Or.inr (Or.inl read)
  | output _ live listed _ _ _ _ => exact Or.inr (Or.inr ⟨_, _, live, List.mem_of_getElem? listed⟩)

/-- A run computes one value for a variable. -/
theorem Computes.unique (wellFormed : graph.WellFormed) (topological : graph.Topological order)
    (laysOut : executable.schedule.LaysOut graph order vars)
    {content content' : Value}
    (computes : executable.Computes graph heldOutside arguments start var content)
    (computes' : executable.Computes graph heldOutside arguments start var content') :
    content = content' := by
  have produced : ∀ {step : Step α} {node : Node α} {index : Nat},
      graph.node? step.node = some node → node.outputs[index]? = some var →
        graph.producer? var = some (step.node, node, index) := by
    intro step node index live listed
    exact Dataflow.producer?_eq_some.mpr ⟨(wellFormed.output_known _ node live index var listed).2, live⟩
  have placed : ∀ {position : Nat} {step : Step α}, executable.schedule.steps[position]? = some step →
      order[position]? = some step.node := by
    intro position step stepped
    rcases forall₂_getElem?_right laysOut.steps stepped with ⟨id, found, _, _, stands⟩
    rw [stands.named, found]
  cases computes with
  | root supplies given =>
    cases computes' with
    | root _ given' => exact Option.some.inj (given.symm.trans given')
    | output _ live listed _ _ _ _ =>
      rw [wellFormed.producer?_of_source? supplies.2] at produced
      cases produced live listed
  | output stepped live listed ready ran came result =>
    cases computes' with
    | root supplies _ =>
      rw [wellFormed.producer?_of_source? supplies.2] at produced
      cases produced live listed
    | output stepped' live' listed' ready' ran' came' result' =>
      have same := (produced live listed).symm.trans (produced live' listed')
      simp only [Option.some.injEq, Prod.mk.injEq] at same
      rcases same with ⟨sameNode, rfl, rfl⟩
      have position := placed stepped
      rw [sameNode, ← placed stepped'] at position
      cases (List.getElem?_inj (List.getElem?_eq_some_iff.mp (placed stepped)).1
        topological.distinct).mp position
      cases stepped.symm.trans stepped'
      cases ready.symm.trans ready'
      cases ran.symm.trans ran'
      cases came.symm.trans came'
      exact Option.some.inj (result.symm.trans result')

end Computes

end Executable

namespace Dataflow

variable [Arithmetic α] {graph : Dataflow α} {executable : Executable α}
  {heldOutside : BufferId → Bool} {arguments : List Value} {start : Memory α}
  {order front back : List NodeId} {vars : List VarId} {id : NodeId} {node : Node α} {step : Step α}
  {var other : VarId} {value : VarId → Value} {state after final : RunState α}
  {inputs outputs : List Value} {spare : Option Value}

omit [Arithmetic α] in
/-- A run up to some nodes, with the values that it has computed by then. They are on one buffer exactly
if their variables have one owner. -/
structure Shares (graph : Dataflow α) (executable : Executable α) (vars : List VarId)
    (front : List NodeId) (value : VarId → Value) (state : RunState α) : Prop where
  size : state.slots.size = executable.schedule.slotCount
  known : ∀ var, graph.Available front var → state.memory.Knows (value var)
  held : ∀ var content, graph.Available front var →
    state.slots[vars.idxOf var]? = some (some content) → content = value var
  kept : executable.KeepsSlots → ∀ var, graph.Available front var →
    state.slots[vars.idxOf var]? = some (some (value var))
  alike : ∀ var other, graph.Available front var → graph.Available front other →
    ((value var).buffer = (value other).buffer ↔ graph.aliasRoot var = graph.aliasRoot other)

section Step

variable (wellFormed : graph.WellFormed) (closed : graph.Closed)
  (topological : graph.Topological order) (split : order = front ++ id :: back)
  (live : graph.node? id = some node) (stands : Schedule.StandsFor vars step id node)
  (shares : graph.Shares executable vars front value state)
  (obtains : executable.Obtains step state inputs spare outputs after)
include live stands obtains

include wellFormed in
/-- Every output of a node has a result. -/
theorem exists_result (value : VarId → Value) (output : var ∈ node.outputs) : ∃ index : Nat,
    node.outputs[index]? = some var ∧
      outputs[index]? = some (assign value node.outputs outputs var) := by
  rcases List.mem_iff_getElem?.mp output with ⟨index, listed⟩
  have count := obtains.ran.length
  rw [stands.op, ← Op.length_of_inferTypes (wellFormed.typed id node live), List.length_map] at count
  have inside : index < outputs.length := count ▸ (List.getElem?_eq_some_iff.mp listed).1
  have found : outputs[index]? = some outputs[index] := List.getElem?_eq_getElem inside
  exact ⟨index, listed, by rw [assign_of_getElem? (wellFormed.outputs_nodup live) listed found, found]⟩

include shares

include closed topological split in
/-- What a step reads are the values of the inputs of its node. -/
theorem Shares.input {position : Nat} {content : Value} (found : inputs[position]? = some content) :
    ∃ input, node.inputs[position]? = some input ∧ graph.Available front input ∧
      content = value input := by
  rcases forall₂_getElem?_right obtains.read found with ⟨slot, slotFound, held⟩
  rw [stands.inputs, List.getElem?_map, Option.map_eq_some_iff] at slotFound
  rcases slotFound with ⟨input, inputFound, rfl⟩
  have available := topological.available_input closed split live (List.mem_of_getElem? inputFound)
  exact ⟨input, inputFound, available, shares.held input content available held⟩

include wellFormed

include closed topological split in
/-- What has a value once a node has run either shares buffer and owner with something that had one
before, or it is a result in storage of its own. -/
theorem Shares.anchored (lands : node.op.Lands inputs spare state.memory outputs after.memory)
    (available : graph.Available (front ++ [id]) var) :
    (∃ anchor, graph.Available front anchor ∧ graph.aliasRoot var = graph.aliasRoot anchor ∧
      (assign value node.outputs outputs var).buffer = (value anchor).buffer) ∨
    ∃ index : Nat, node.outputs[index]? = some var ∧
      outputs[index]? = some (assign value node.outputs outputs var) ∧
        (node.op.viewMap ++ node.op.destroyMap).lookup index = none := by
  by_cases output : var ∈ node.outputs
  · rcases exists_result wellFormed live stands obtains value output with
      ⟨index, listed, found⟩
    cases located : (node.op.viewMap ++ node.op.destroyMap).lookup index with
    | none => exact Or.inr ⟨index, listed, found, located⟩
    | some position =>
      rcases lands.lodger index _ position found located with ⟨content, read, sameBuffer⟩
      rcases shares.input closed topological split live stands obtains read with
        ⟨input, inputFound, inputAvailable, rfl⟩
      have kind := (wellFormed.output_known id node live index var listed).2
      have lives : graph.LivesIn var input := storageSource?_eq_some.mpr
        ⟨id, node, index, position, producer?_eq_some.mpr ⟨kind, live⟩, located, inputFound⟩
      exact Or.inl ⟨input, inputAvailable, topological.acyclic.aliasRoot_eq lives, sameBuffer.symm⟩
  · have old := (wellFormed.available_concat live available).resolve_right output
    exact Or.inl ⟨var, old, rfl, by rw [assign_of_notMem output]⟩

include closed topological split in
/-- A result in storage of its own shares neither its buffer nor its owner with a value from before. -/
theorem Shares.apart (lands : node.op.Lands inputs spare state.memory outputs after.memory) {index : Nat}
    {result : Value} (listed : node.outputs[index]? = some var) (found : outputs[index]? = some result)
    (located : (node.op.viewMap ++ node.op.destroyMap).lookup index = none)
    (available : graph.Available front other) :
    (value other).buffer ≠ result.buffer ∧ graph.aliasRoot other ≠ graph.aliasRoot var := by
  constructor
  · rcases lands.owner index result found located with new | ⟨spared, offered, same⟩
    · intro same
      have known : (value other).buffer.index < state.memory.buffers.size :=
        shares.known other available
      rw [same] at known
      omega
    · rcases obtains.spared spared offered with ⟨keeps, slot, output, _, alone⟩
      rw [← same]
      refine alone _ _ ?_ (shares.kept keeps other available)
      rintro rfl
      exact wellFormed.not_available_of_output (topological.notMem_front split) live
        (stands.mem_outputs_iff.mp output) available
  · rw [(owner_of_lookup wellFormed live listed located).1]
    exact topological.aliasRoot_ne_of_output wellFormed closed split live
      (List.mem_of_getElem? listed) available

include closed topological split in
/-- The values after a step are on one buffer exactly if their variables have one owner. -/
theorem Shares.alike_concat (lands : node.op.Lands inputs spare state.memory outputs after.memory)
    (available : graph.Available (front ++ [id]) var)
    (available' : graph.Available (front ++ [id]) other) :
    (assign value node.outputs outputs var).buffer = (assign value node.outputs outputs other).buffer ↔
      graph.aliasRoot var = graph.aliasRoot other := by
  rcases shares.anchored wellFormed closed topological split live stands obtains lands available with
    ⟨anchor, old, root, same⟩ | ⟨index, listed, found, located⟩
  · rcases shares.anchored wellFormed closed topological split live stands obtains lands available' with
      ⟨anchor', old', root', same'⟩ | ⟨index', listed', found', located'⟩
    · rw [root, root', same, same']
      exact shares.alike anchor anchor' old old'
    · rcases shares.apart wellFormed closed topological split live stands obtains lands listed' found'
        located' old with ⟨buffers, owners⟩
      rw [root, same]
      exact iff_of_false buffers owners
  · rcases shares.anchored wellFormed closed topological split live stands obtains lands available' with
      ⟨anchor', old', root', same'⟩ | ⟨index', listed', found', located'⟩
    · rcases shares.apart wellFormed closed topological split live stands obtains lands listed found
        located old' with ⟨buffers, owners⟩
      rw [root', same']
      exact iff_of_false buffers.symm owners.symm
    · rw [(owner_of_lookup wellFormed live listed located).1,
        (owner_of_lookup wellFormed live listed' located').1]
      constructor
      · intro sameBuffer
        cases Op.index_eq_of_buffer lands.settles.2 found found' sameBuffer
        exact Option.some.inj (listed.symm.trans listed')
      · rintro rfl
        rfl

/-- What is in the slots once the results of a step have been stored. -/
theorem Shares.stored (laysOut : executable.schedule.LaysOut graph order vars)
    (available : graph.Available (front ++ [id]) var) :
    (fill after.slots (step.outputs.zip outputs))[vars.idxOf var]? =
        some (some (assign value node.outputs outputs var)) ∨
      graph.Available front var ∧ assign value node.outputs outputs var = value var ∧
        (fill after.slots (step.outputs.zip outputs))[vars.idxOf var]? =
          state.slots[vars.idxOf var]? := by
  by_cases output : var ∈ node.outputs
  · left
    rcases exists_result wellFormed live stands obtains value output with
      ⟨index, listed, found⟩
    refine stands.store_of_getElem? (wellFormed.outputs_nodup live) listed found ?_
    rw [obtains.size, shares.size]
    exact laysOut.slot_lt (stands.outputs_listed var output)
  · have old := (wellFormed.available_concat live available).resolve_right output
    refine Or.inr ⟨old, assign_of_notMem output, ?_⟩
    rw [stands.store_of_notMem output]
    exact obtains.kept _ (mt stands.mem_outputs_iff.mp output)

include closed topological split in
/-- After a step, buffers and owners still agree. -/
theorem Shares.advance (laysOut : executable.schedule.LaysOut graph order vars)
    (lands : node.op.Lands inputs spare state.memory outputs after.memory)
    (memory : final.memory = after.memory)
    (slots : final.slots = Run.clear (fill after.slots (step.outputs.zip outputs))
      (executable.freed step)) :
    graph.Shares executable vars (front ++ [id]) (assign value node.outputs outputs) final := by
  have stored := fun var (available : graph.Available (front ++ [id]) var) =>
    shares.stored wellFormed live stands obtains laysOut available
  refine ⟨by simp [slots, obtains.size, shares.size], ?_, ?_, ?_, ?_⟩
  · intro var available
    rw [memory]
    rcases shares.anchored wellFormed closed topological split live stands obtains lands available
      with ⟨anchor, old, _, same⟩ | ⟨index, _, found, _⟩
    · have known := shares.known anchor old
      rw [Memory.Knows, same]
      exact Nat.lt_of_lt_of_le known lands.size
    · exact lands.settles.1 _ (List.mem_of_getElem? found)
  · intro var content available held
    rw [slots] at held
    have held := Run.getElem?_of_clear held
    rcases stored var available with here | ⟨old, same, there⟩
    · rw [here] at held
      cases held
      rfl
    · rw [there] at held
      rw [same]
      exact shares.held var content old held
  · intro keeps var available
    rw [slots, keeps.freed]
    change (fill after.slots (step.outputs.zip outputs))[vars.idxOf var]? = _
    rcases stored var available with here | ⟨old, same, there⟩
    · exact here
    · rw [there, same]
      exact shares.kept keeps var old
  · intro var other available available'
    exact shares.alike_concat wellFormed closed topological split live stands obtains lands available
      available'

end Step

section Whole

variable (wellFormed : graph.WellFormed) (topological : graph.Topological order)
  (laysOut : executable.schedule.LaysOut graph order vars) (sound : executable.schedule.Sound)
include wellFormed topological laysOut sound

/-- Loading gives the roots their values. -/
theorem shares_of_load (heldOutside : BufferId → Bool)
    (size : executable.startSlots.size = executable.schedule.slotCount)
    (given : executable.schedule.Given arguments start)
    (apart : ∀ var other value value', graph.Supplies var → graph.Supplies other → var ≠ other →
      graph.rootValue? start arguments var = some value →
        graph.rootValue? start arguments other = some value' → value.buffer ≠ value'.buffer)
    {loaded : RunState α} (ready : Run.load executable.schedule arguments
      ⟨start, executable.startSlots, [], []⟩ = .ok () loaded) :
    ∃ value, graph.Shares executable vars [] value loaded ∧
      ∀ var, graph.Available [] var →
        executable.Computes graph heldOutside arguments start var (value var) := by
  have count : arguments.length = executable.schedule.arity := by
    by_contra wrong
    rw [Run.load_of_miscount wrong] at ready
    cases ready
  rcases (load_ends wellFormed laysOut topological).of_ok ready with ⟨loads, loaded'⟩
  have filled : ∀ slot, executable.schedule.IsRoot slot →
      ∃ value, loaded.slots[slot]? = some (some value) := by
    rcases Run.load_cases sound count laysOut.lt_arity size with
      ⟨_, ran, _, filled⟩ | ⟨_, _, failed, _⟩
    · cases ran.symm.trans ready
      exact filled
    · cases failed.symm.trans ready
  -- What is in the slot of a root is its value, and it is its own owner.
  have root : ∀ var, graph.Available [] var → ∃ value,
      loaded.slots[vars.idxOf var]? = some (some value) ∧ graph.aliasRoot var = var ∧
        graph.Supplies var ∧ graph.rootValue? start arguments var = some value ∧ start.Knows value := by
    rintro var (supplies | ⟨_, member, _⟩)
    · have available : graph.Available [] var := Or.inl supplies
      have listed := available.listed wellFormed topological laysOut
      rcases Option.ne_none_iff_exists'.mp supplies.2 with ⟨source, found⟩
      have member := laysOut.mem_roots.mpr ⟨var, listed, found, rfl⟩
      rcases filled _ ⟨source, member⟩ with ⟨value, held⟩
      rcases loaded' var value available held with ⟨owner, _, rootValue⟩
      refine ⟨value, held, owner, supplies, rootValue, given _ source value member ?_⟩
      simpa [rootValue?, found] using rootValue
    · cases member
  have same : ∀ {var value}, graph.rootValue? start arguments var = some value →
      (graph.rootValue? start arguments var).getD default = value := fun found => by simp [found]
  refine ⟨fun var => (graph.rootValue? start arguments var).getD default,
    ⟨((Run.load_idles _ _ _).of_ok ready).size.trans size, ?_, ?_, ?_, ?_⟩, ?_⟩
  · intro var available
    rcases root var available with ⟨value, _, _, _, found, known⟩
    rw [loads.memory, same found]
    exact known
  · intro var content available held
    rcases root var available with ⟨value, held', _, _, found, _⟩
    rw [same found]
    exact Option.some.inj (Option.some.inj (held.symm.trans held'))
  · intro _ var available
    rcases root var available with ⟨value, held, _, _, found, _⟩
    rw [same found, held]
  · intro var other available available'
    rcases root var available with ⟨value, _, owner, supplies, found, _⟩
    rcases root other available' with ⟨value', _, owner', supplies', found', _⟩
    rw [same found, same found', owner, owner']
    constructor
    · intro sameBuffer
      by_contra different
      exact apart var other value value' supplies supplies' different found found' sameBuffer
    · rintro rfl
      rw [Option.some.inj (found.symm.trans found')]
  · intro var available
    rcases root var available with ⟨value, _, _, supplies, found, _⟩
    exact .root supplies (by simp [found])

/-- All steps together give values to all variables. -/
theorem shares_of_steps (closed : graph.Closed)
    (allocates : ∀ id node, graph.node? id = some node → node.op.Allocates)
    {loaded : RunState α} (ready : Run.load executable.schedule arguments
      ⟨start, executable.startSlots, [], []⟩ = .ok () loaded)
    (carries : executable.Carries start loaded) (shares : graph.Shares executable vars [] value loaded)
    (computes : ∀ var, graph.Available [] var →
      executable.Computes graph heldOutside arguments start var (value var)) :
    Ends (Run.steps executable.schedule (executable.step heldOutside)) loaded
      (fun _ final => ∃ value, graph.Shares executable vars order value final ∧
        ∀ var, graph.Available order var →
          executable.Computes graph heldOutside arguments start var (value var)) fun _ => True := by
  refine (steps_ends laysOut (fun front state =>
    ((executable.schedule.steps.take front.length).forM (executable.step heldOutside) :
      Run α Unit) loaded = .ok () state ∧ executable.Carries start state ∧
    ∃ value, graph.Shares executable vars front value state ∧ ∀ var, graph.Available front var →
      executable.Computes graph heldOutside arguments start var (value var)) (fun _ => True) ?_
    (fun _ _ => trivial) ⟨rfl, carries, value, shares, computes⟩).imp
    (fun _ _ ended => ended.1.2.2) fun _ _ => trivial
  intro front id back node step state split stepped live stands before
  rcases before with ⟨prefixRan, carries, value, shares, computes⟩
  have member : step ∈ executable.schedule.steps := List.mem_of_getElem? stepped
  have stepAllocates : step.op.Allocates := stands.op ▸ allocates id node live
  refine Ends.intro (fun _ final ran => ?_) fun _ _ _ => trivial
  have carried := (carries.advance member stepAllocates).of_ok ran
  have known : ∀ slot ∈ step.outputs, slot < state.slots.size :=
    shares.size ▸ sound.written_known member
  rcases Executable.produce_of_step known (shares.size ▸ sound.freed_known member) ran with
    ⟨inputs, outputs, after, produced, memory, slots⟩
  rcases Executable.obtains_of_produce known produced with ⟨spare, obtains⟩
  have lands := stands.op ▸ obtains.lands stepAllocates carries.tidy.known
  have next : ((executable.schedule.steps.take (front ++ [id]).length).forM
      (executable.step heldOutside) : Run α Unit) loaded = .ok () final := by
    rw [List.length_append, List.length_singleton, List.take_add_one, stepped,
      forM_append_of_ok prefixRan]
    exact bind_of_ok ran
  refine ⟨next, carried, assign value node.outputs outputs, shares.advance wellFormed closed
    topological split live stands obtains laysOut lands memory slots, fun var available => ?_⟩
  rcases wellFormed.available_concat live available with old | output
  · have unlisted : var ∉ node.outputs := fun output =>
      wellFormed.not_available_of_output (topological.notMem_front split) live output old
    rw [assign_of_notMem unlisted]
    exact computes var old
  · rcases exists_result wellFormed live stands obtains value output with
      ⟨index, listed, result⟩
    exact .output stepped (by rw [stands.named, live]) listed ready prefixRan produced result

end Whole

section Main

variable {linked : Executable α} {linker : Linker} {options : LinkOptions} {orderings : Orderings}
  {log : List LogEntry} {values : List Value}

/-- In a run that gets to its end, every variable that the run handles has one value, and two values are
on one buffer exactly if their variables have the same owner of storage. This holds of either linker,
whatever runs have gone before, if the values of roots are on different buffers. -/
theorem buffer_eq_iff_aliasRoot_eq (wellFormed : graph.WellFormed) (distinct : graph.inputs.Nodup)
    (link : Executable.link linker options graph orderings = Except.ok (linked, log))
    (carried : linked.Carried executable start)
    (allocates : ∀ id node, graph.node? id = some node → node.op.Allocates)
    (given : executable.schedule.Given arguments start)
    (apart : ∀ var other value value', graph.Supplies var → graph.Supplies other → var ≠ other →
      graph.rootValue? start arguments var = some value →
        graph.rootValue? start arguments other = some value' → value.buffer ≠ value'.buffer)
    (succeeds : (executable.run heldOutside arguments start).result = Except.ok values) :
    (∀ var, graph.Handles var →
      ∃! value, executable.Computes graph heldOutside arguments start var value) ∧
    ∀ var other value value', executable.Computes graph heldOutside arguments start var value →
      executable.Computes graph heldOutside arguments start other value' →
        (value.buffer = value'.buffer ↔ graph.aliasRoot var = graph.aliasRoot other) := by
  rcases Executable.link_eq_ok link with ⟨laid, _, _, _⟩
  rcases Schedule.laysOut_of_ofGraph distinct laid with ⟨order, vars, ordered, laysOut⟩
  have respects := respects_of_order ordered
  have topological := respects.topological
  have same : linked.schedule = executable.schedule := by rw [carried.used.kept]
  have tidy : linked.schedule.Tidy start executable.slots := by
    refine carried.tidy (Executable.link_empty link) laysOut.sources fun step member => ?_
    rcases forall₂_mem_right laysOut.steps member with ⟨id, _, node, live, stands⟩
    exact stands.op ▸ allocates id node live
  rw [same] at laysOut tidy
  have sound := laysOut.sound wellFormed distinct respects
  rcases Executable.exists_steps_of_result succeeds with ⟨loaded, final, ready, ran⟩
  have carries := (Executable.carries_of_load (Executable.tidy_startSlots tidy) given laysOut.sources).of_ok ready
  have closed := closed_of_fills wellFormed topological laysOut
    ((Executable.fills_of_steps carries.tidy.filled).of_ok ran)
  rcases shares_of_load wellFormed topological laysOut sound heldOutside
    (carried.used.size link) given apart ready with ⟨_, shares, computes⟩
  rcases (shares_of_steps wellFormed topological laysOut sound closed allocates ready carries shares
    computes).of_ok ran with ⟨value, shares, computes⟩
  have available := fun var (handles : graph.Handles var) => handles.available wellFormed closed topological
  have unique : ∀ var content, executable.Computes graph heldOutside arguments start var content →
      content = value var := fun var content computed =>
    computed.unique wellFormed topological laysOut (computes var (available var computed.handles))
  refine ⟨fun var handles => ⟨value var, computes var (available var handles), unique var⟩, ?_⟩
  intro var other content content' computed computed'
  rw [unique var content computed, unique other content' computed']
  exact shares.alike var other (available var computed.handles) (available other computed'.handles)

end Main

/-- An exponential that is negated in place through a view, and another exponential of the same vector. -/
def negatedThroughView : Dataflow Float where
  vars := #[⟨ArrayType.ofRank .float64 1, .input, some "x"⟩,
    ⟨ArrayType.ofRank .float64 1, .output ⟨0⟩ 0, none⟩,
    ⟨ArrayType.ofRank .float64 1, .output ⟨1⟩ 0, none⟩,
    ⟨ArrayType.ofRank .float64 1, .output ⟨2⟩ 0, none⟩,
    ⟨ArrayType.ofRank .float64 1, .output ⟨3⟩ 0, none⟩]
  nodes := #[some ⟨.elementwise .exp none, [⟨0⟩], [⟨1⟩]⟩, some ⟨.view, [⟨1⟩], [⟨2⟩]⟩,
    some ⟨.elementwise .neg (some 0), [⟨2⟩], [⟨3⟩]⟩, some ⟨.elementwise .exp none, [⟨0⟩], [⟨4⟩]⟩]
  inputs := [⟨0⟩]
  outputs := [⟨3⟩, ⟨4⟩]
  guarded := []

/-- A plan for it that keeps its slots. -/
def negatedThroughViewPlan : Executable Float where
  schedule := ⟨5, 1, [(0, .argument 0)],
    [⟨⟨0⟩, .elementwise .exp none, [0], [1], []⟩, ⟨⟨1⟩, .view, [1], [2], [1]⟩,
      ⟨⟨2⟩, .elementwise .neg (some 0), [2], [3], [2]⟩,
      ⟨⟨3⟩, .elementwise .exp none, [0], [4], [0]⟩], [3, 4]⟩
  linker := .plan
  options := ⟨false, false⟩
  slots := #[none, none, none, none, none]

/-- A first run of the plan. -/
def negatedThroughViewRun : RunOutcome Float :=
  negatedThroughViewPlan.run (fun _ => false) [⟨.float64, [2], ⟨0⟩⟩] ⟨#[#[1, 2]], #[]⟩

/-- In a second run of the plan the exponential that nothing else is on is written over the one of the
first run, and the view and what has been negated through it are on one new buffer. -/
theorem buffer_eq_iff_aliasRoot_eq_negatedThroughView :
    negatedThroughView.WellFormed ∧
    Executable.link .plan ⟨false, false⟩ negatedThroughView ⟨[]⟩ =
      Except.ok (negatedThroughViewPlan, []) ∧
    (negatedThroughViewRun.executable.run (fun _ => false) [⟨.float64, [2], ⟨0⟩⟩]
      negatedThroughViewRun.memory).result =
        Except.ok [⟨.float64, [2], ⟨3⟩⟩, ⟨.float64, [2], ⟨2⟩⟩] ∧
    (∀ var, negatedThroughView.Handles var → ∃! value, negatedThroughViewRun.executable.Computes
      negatedThroughView (fun _ => false) [⟨.float64, [2], ⟨0⟩⟩] negatedThroughViewRun.memory var
        value) ∧
    ∀ var other value value', negatedThroughViewRun.executable.Computes
      negatedThroughView (fun _ => false) [⟨.float64, [2], ⟨0⟩⟩] negatedThroughViewRun.memory var
        value → negatedThroughViewRun.executable.Computes negatedThroughView (fun _ => false)
          [⟨.float64, [2], ⟨0⟩⟩] negatedThroughViewRun.memory other value' →
            (value.buffer = value'.buffer ↔
              negatedThroughView.aliasRoot var = negatedThroughView.aliasRoot other) := by
  have wellFormed : negatedThroughView.WellFormed := by decide
  have link : Executable.link .plan ⟨false, false⟩ negatedThroughView ⟨[]⟩ =
      Except.ok (negatedThroughViewPlan, []) := by cbv
  have succeeds : (negatedThroughViewRun.executable.run (fun _ => false) [⟨.float64, [2], ⟨0⟩⟩]
      negatedThroughViewRun.memory).result =
        Except.ok [⟨.float64, [2], ⟨3⟩⟩, ⟨.float64, [2], ⟨2⟩⟩] := by decide +kernel
  have size : negatedThroughViewRun.memory.buffers.size = 3 := by decide +kernel
  have given : ∀ {memory : Memory Float}, 0 < memory.buffers.size →
      negatedThroughViewPlan.schedule.Given [⟨.float64, [2], ⟨0⟩⟩] memory := by
    intro memory known slot source value member found
    cases List.mem_singleton.mp member
    cases found
    exact known
  have carried : negatedThroughViewPlan.Carried negatedThroughViewRun.executable
      negatedThroughViewRun.memory :=
    .run (.linked _) (fun _ => false) [⟨.float64, [2], ⟨0⟩⟩] (given (by decide))
  have allocates : ∀ id node, negatedThroughView.node? id = some node → node.op.Allocates := by
    rintro ⟨_ | _ | _ | _ | index⟩ node live function same <;> cases live <;> cases same
  have only : ∀ var, negatedThroughView.Supplies var → var = ⟨0⟩ := by
    rintro ⟨_ | _ | _ | _ | _ | index⟩ ⟨_, source⟩
    · rfl
    all_goals exact absurd rfl source
  have givenAgain : negatedThroughViewRun.executable.schedule.Given [⟨.float64, [2], ⟨0⟩⟩]
      negatedThroughViewRun.memory := by
    rw [carried.used.kept]
    exact given (by omega)
  refine ⟨wellFormed, link, succeeds, ?_⟩
  refine buffer_eq_iff_aliasRoot_eq wellFormed (by decide) link carried allocates givenAgain ?_ succeeds
  intro var other _ _ supplies supplies' different
  exact absurd ((only var supplies).trans (only other supplies').symm) different

end Dataflow

end ArrayGraph
