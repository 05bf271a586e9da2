import ArrayGraph.Proofs.Run.Executors
import ArrayGraph.Proofs.Run.Frame

/-!
# What planned execution leaves in its slots

A planned run fills root slots with what belongs to others, its arguments and the values of
containers, and keeps slots for the next run if it does not collect. Nothing that belongs to others
is to stay there. A run that fails in a step or that collects leaves every slot empty. One that
succeeds and does not collect empties the root slots only, so that it comes down to whether an
output lives in the storage of a root. One that fails while it loads the roots empties nothing.

Nothing is assumed of the schedule but that some graph was linked. In particular an input may be
declared twice, which gives two variables one slot.
-/

namespace ArrayGraph

variable {α : Type}

namespace SlotTable

variable {graph : Dataflow α} {table : SlotTable}

/-- Root slots are slots. -/
def RootsKnown (table : SlotTable) : Prop := ∀ root ∈ table.roots, root.1 < table.slots.length

theorem RootsKnown.declare (known : table.RootsKnown) (id : VarId) (index : Nat) :
    (table.declare id index).RootsKnown := by
  unfold SlotTable.declare
  split
  · intro root member
    simpa using known root member
  · intro root member
    simp only [List.mem_append, List.mem_singleton] at member
    rcases member with member | rfl
    · simpa using Nat.lt_succ_of_lt (known root member)
    · simp

theorem RootsKnown.slotOf (known : table.RootsKnown) (id : VarId) :
    (SlotTable.slotOf graph table id).2.RootsKnown := by
  unfold SlotTable.slotOf
  split
  · exact known
  · intro root member
    simp only [List.mem_append, Option.mem_toList, Option.map_eq_some_iff] at member
    rcases member with member | ⟨source, _, rfl⟩
    · simpa using Nat.lt_succ_of_lt (known root member)
    · simp

theorem RootsKnown.slotsOf (known : table.RootsKnown) (ids : List VarId) :
    (SlotTable.slotsOf graph table ids).2.RootsKnown := by
  induction ids generalizing table with
  | nil => exact known
  | cons id rest ih => exact ih (known.slotOf id)

theorem length_slotsOf (ids : List VarId) :
    (SlotTable.slotsOf graph table ids).1.length = ids.length := by
  induction ids generalizing table with
  | nil => rfl
  | cons id rest ih => simp only [SlotTable.slotsOf, List.length_cons, ih]

end SlotTable

namespace Schedule

variable {graph : Dataflow α} {schedule : Schedule α} {orderings : Orderings}

theorem rootsKnown_layOut {table : SlotTable} (known : table.RootsKnown)
    (nodes : List (NodeId × Node α)) : (layOut graph table nodes).2.RootsKnown := by
  induction nodes generalizing table with
  | nil => exact known
  | cons entry rest ih => exact ih ((known.slotsOf entry.2.inputs).slotsOf entry.2.outputs)

theorem mem_layOut {table : SlotTable} {nodes : List (NodeId × Node α)} {step : Step α}
    (member : step ∈ (layOut graph table nodes).1) :
    ∃ entry ∈ nodes, step.op = entry.2.op ∧ step.outputs.length = entry.2.outputs.length := by
  induction nodes generalizing table with
  | nil => cases member
  | cons entry rest ih =>
    rcases List.mem_cons.mp member with rfl | member
    · exact ⟨entry, List.mem_cons_self, rfl, SlotTable.length_slotsOf _⟩
    · rcases ih member with ⟨other, otherMem, same⟩
      exact ⟨other, List.mem_cons_of_mem _ otherMem, same⟩

theorem mem_markFrees {outputs : List Nat} {steps : List (Step α)} {step : Step α}
    (member : step ∈ markFrees outputs steps) :
    ∃ original ∈ steps, step.op = original.op ∧ step.outputs = original.outputs := by
  induction steps with
  | nil => cases member
  | cons head rest ih =>
    rcases List.mem_cons.mp member with rfl | member
    · exact ⟨head, List.mem_cons_self, rfl, rfl⟩
    · rcases ih member with ⟨original, originalMem, same⟩
      exact ⟨original, List.mem_cons_of_mem _ originalMem, same⟩

theorem rootsKnown_declareAll (inputs : List (VarId × Nat)) {table : SlotTable}
    (known : table.RootsKnown) :
    (inputs.foldl (fun table (id, index) => table.declare id index) table).RootsKnown := by
  induction inputs generalizing table with
  | nil => exact known
  | cons input rest ih => exact ih (known.declare input.1 input.2)

theorem rootsKnown_of_ofGraph (laid : ofGraph graph orderings = Except.ok schedule) :
    ∀ root ∈ schedule.roots, root.1 < schedule.slotCount := by
  rcases Checked.bind_eq_ok_iff.mp laid with ⟨order, _, same⟩
  cases same
  apply SlotTable.RootsKnown.slotsOf
  apply rootsKnown_layOut
  exact rootsKnown_declareAll _ (by simp [SlotTable.RootsKnown, SlotTable.empty])

theorem arity_of_ofGraph (laid : ofGraph graph orderings = Except.ok schedule) :
    schedule.arity = graph.inputs.length := by
  rcases Checked.bind_eq_ok_iff.mp laid with ⟨order, _, same⟩
  cases same
  rfl

/-- A step has as many output slots as its operation has results. -/
theorem results_of_ofGraph [Arithmetic α] (wellFormed : graph.WellFormed)
    (laid : ofGraph graph orderings = Except.ok schedule) :
    ∀ step ∈ schedule.steps, step.outputs.length = step.op.resultCount := by
  rcases Checked.bind_eq_ok_iff.mp laid with ⟨order, _, same⟩
  cases same
  intro step member
  rcases mem_markFrees member with ⟨original, originalMem, sameOp, sameOutputs⟩
  rcases mem_layOut originalMem with ⟨⟨id, node⟩, entryMem, nodeOp, length⟩
  rcases List.mem_filterMap.mp entryMem with ⟨_, _, found⟩
  rcases Option.map_eq_some_iff.mp found with ⟨_, live, same⟩
  cases same
  rw [sameOutputs, sameOp, length, nodeOp, ← Op.length_of_inferTypes (wellFormed.typed id node live),
    List.length_map]

/-- A slot that is filled with the value of a source. -/
def IsRoot (schedule : Schedule α) (slot : Nat) : Prop := ∃ source, (slot, source) ∈ schedule.roots

/-- A slot is in the storage of a root slot: it is that slot, or the slot of an output that lives in
an input which is in that storage. -/
inductive LiesIn (schedule : Schedule α) (root : Nat) : Nat → Prop
  | root : LiesIn schedule root root
  | output {step : Step α} {output input source slot : Nat} (member : step ∈ schedule.steps)
      (located : (step.op.viewMap ++ step.op.destroyMap).lookup output = some input)
      (read : step.inputs[input]? = some source) (written : step.outputs[output]? = some slot)
      (lies : LiesIn schedule root source) : LiesIn schedule root slot

/-- None of some steps reads a slot that is not a root slot before one of them has written it. -/
def WritesFirst (schedule : Schedule α) (steps : List (Step α)) : Prop :=
  ∀ front step rest, steps = front ++ step :: rest → ∀ slot ∈ step.inputs,
    schedule.IsRoot slot ∨ ∃ earlier ∈ front, slot ∈ earlier.outputs

theorem WritesFirst.concat {done : List (Step α)} {step : Step α} (first : schedule.WritesFirst done)
    (read : ∀ slot ∈ step.inputs, schedule.IsRoot slot ∨ ∃ earlier ∈ done, slot ∈ earlier.outputs) :
    schedule.WritesFirst (done ++ [step]) := by
  intro front other rest split
  rcases List.eq_nil_or_concat rest with rfl | ⟨rest, last, rfl⟩
  · rcases List.append_inj' split rfl with ⟨rfl, same⟩
    cases same
    exact read
  · rw [List.concat_eq_append, ← List.cons_append, ← List.append_assoc] at split
    exact first front other rest (List.append_inj' split rfl).1

end Schedule

namespace Run

variable {state : RunState α} {step : Step α}

/-- Slots that have been set hold the values of their sources, and the others are as they were. -/
structure Fills (arguments : List Value) (before : RunState α) (done : List (Nat × Source))
    (after : RunState α) : Prop where
  memory : after.memory = before.memory
  size : after.slots.size = before.slots.size
  holds : ∀ (slot : Nat) (value : Value), after.slots[slot]? = some (some value) →
    (∃ source, (slot, source) ∈ done ∧ source.value? before.memory arguments = some value) ∨
      (∀ source, (slot, source) ∉ done) ∧ before.slots[slot]? = some (some value)

theorem Fills.set {arguments : List Value} {done : List (Nat × Source)} {middle : RunState α}
    {slot : Nat} {source : Source} {content : Option Value}
    (fills : Fills arguments state done middle) (inside : slot < middle.slots.size)
    (given : ∀ value, content = some value → source.value? state.memory arguments = some value) :
    Fills arguments state (done ++ [(slot, source)])
      { middle with slots := middle.slots.setIfInBounds slot content } := by
  refine ⟨fills.memory, by simpa using fills.size, ?_⟩
  intro other value found
  by_cases same : slot = other
  · subst same
    rw [Array.getElem?_setIfInBounds_self_of_lt inside] at found
    exact Or.inl ⟨source, by simp, given value (Option.some.inj found)⟩
  · rw [Array.getElem?_setIfInBounds_ne same] at found
    rcases fills.holds other value found with ⟨source', member, given'⟩ | ⟨unset, stale⟩
    · exact Or.inl ⟨source', List.mem_append_left _ member, given'⟩
    · refine Or.inr ⟨fun source' member => ?_, stale⟩
      rcases List.mem_append.mp member with member | member
      · exact unset source' member
      · cases List.mem_singleton.mp member
        exact same rfl

/-- Loading fails only for a wrong number of arguments, or because a container has been released. -/
theorem load_settles {schedule : Schedule α} {arguments : List Value}
    (known : ∀ root ∈ schedule.roots, root.1 < state.slots.size) :
    Ends (load schedule arguments) state
      (fun _ final => final.memory = state.memory ∧ final.slots.size = state.slots.size ∧
        ∀ (slot : Nat) (value : Value), final.slots[slot]? = some (some value) →
          (∃ source, (slot, source) ∈ schedule.roots ∧
            source.value? state.memory arguments = some value) ∨
          ¬schedule.IsRoot slot ∧ state.slots[slot]? = some (some value))
      (fun final => arguments.length ≠ schedule.arity ∧ final.slots = state.slots ∨
        ∃ container ∈ schedule.containers, (state.memory.container container).value = none) := by
  by_cases count : arguments.length = schedule.arity
  · apply Ends.congr (load_of_count count)
    have first : Fills arguments state [] state :=
      ⟨rfl, rfl, fun slot value found => Or.inr ⟨by simp, found⟩⟩
    refine (Ends.forM (Fills arguments state) first ?_).imp ?_ fun _ failed => failed
    · rintro done ⟨slot, source⟩ rest middle split fills
      have inside : slot < middle.slots.size := by
        rw [fills.size]
        exact known (slot, source) (by simp [split])
      have memory := fills.memory
      rcases loadRoot_eq middle arguments slot source with same | ⟨container, rfl, released⟩
      · unfold Ends
        rw [same, setSlot_of_lt inside]
        refine fills.set inside fun value found => ?_
        rwa [memory] at found
      · unfold Ends
        rw [loadRoot_of_released released]
        rw [memory] at released
        have shared : (slot, Source.shared container) ∈ schedule.roots := by simp [split]
        exact Or.inr ⟨container, List.mem_filterMap.mpr ⟨_, shared, rfl⟩, released⟩
    · rintro _ final ⟨memory, size, holds⟩
      refine ⟨memory, size, fun slot value found => ?_⟩
      exact (holds slot value found).imp_right fun stale =>
        ⟨fun ⟨source, member⟩ => stale.1 source member, stale.2⟩
  · unfold Ends
    rw [load_of_miscount count]
    exact Or.inl ⟨count, rfl⟩

section Size

variable {size : Nat} (same : state.slots.size = size)
include same

theorem setSlot_size {slot : Nat} {content : Option Value} : Ends (setSlot slot content) state
    (fun _ final => final.slots.size = size) (fun final => final.slots.size = size) := by
  refine setSlot_ends.imp ?_ fun _ unchanged => unchanged ▸ same
  rintro _ _ rfl
  simpa using same

theorem offer_size {options : LinkOptions} {heldOutside : BufferId → Bool} {inputs : List Value} :
    Ends (offer options heldOutside step inputs) state (fun _ final => final.slots.size = size)
      (fun final => final.slots.size = size) := by
  unfold offer
  split
  · exact Ends.pure same
  · unfold takeLeftover
    split
    · exact Ends.pure same
    · refine (slot?_ends.imp (fun _ _ holds => holds) fun _ unchanged => unchanged ▸ same).bind ?_
      rintro content _ ⟨rfl, _⟩
      cases content with
      | none => exact Ends.pure same
      | some value =>
        refine (setSlot_size same).bind fun _ middle emptied => ?_
        exact Ends.after rfl (Ends.pure emptied)

theorem concludePlanned_size [Arithmetic α] {options : LinkOptions} {inputs outputs : List Value} :
    Ends (concludePlanned options step inputs outputs) state
      (fun _ final => final.slots.size = size) (fun final => final.slots.size = size) := by
  have ending : ∀ events, Ends (do
      store step outputs
      if options.collect then step.frees.forM fun slot => setSlot slot none
      count step : Run α Unit) { state with events } (fun _ final => final.slots.size = size)
      (fun final => final.slots.size = size) := by
    intro events
    refine Ends.bind (Ends.forM (fun _ (final : RunState α) => final.slots.size = size) same ?_) ?_
    · exact fun _ _ _ _ _ same => setSlot_size same
    · intro _ stored same
      cases options.collect with
      | false => exact same
      | true =>
        refine Ends.bind (Ends.forM (fun _ (final : RunState α) => final.slots.size = size) same
          ?_) ?_
        · exact fun _ _ _ _ _ same => setSlot_size same
        · exact fun _ _ same => same
  unfold concludePlanned
  cases options.monitored with
  | false => exact ending state.events
  | true => exact Ends.after rfl (ending _)

/-- A step neither adds slots nor takes any away. -/
theorem planStep_size [Arithmetic α] {options : LinkOptions} {heldOutside : BufferId → Bool} :
    Ends (planStep options heldOutside step) state (fun _ final => final.slots.size = size)
      (fun final => final.slots.size = size) := by
  refine Ends.congr (congrFun (planStep_eq options heldOutside step) state) ?_
  refine (readSlots_ends.imp (fun _ _ holds => holds) fun _ unchanged => unchanged ▸ same).bind ?_
  rintro inputs _ ⟨rfl, _⟩
  refine (offer_size same).bind fun spare middle same => ?_
  have performed : Ends (onMemory (RunError.op step.node step.op.name)
      (step.op.performPlanned inputs spare)) middle (fun _ final => final.slots.size = size)
      (fun final => final.slots.size = size) := by
    unfold Ends
    cases ran : step.op.performPlanned inputs spare middle.memory with
    | ok outputs memory =>
      rw [onMemory_of_ok ran]
      exact same
    | error failure memory =>
      rw [onMemory_of_error ran]
      exact same
  exact performed.bind fun _ _ same => concludePlanned_size same

end Size

/-- What the steps of a run keep, one after the other, holds once all of them have been taken. -/
theorem steps_keep {schedule : Schedule α} {run : Step α → Run α Unit} {bad : RunState α → Prop}
    (invariant : List (Step α) → RunState α → Prop)
    (each : ∀ done step rest state, schedule.steps = done ++ step :: rest → invariant done state →
      Ends (run step) state (fun _ final => invariant (done ++ [step]) final) bad)
    (last : ∀ final, invariant schedule.steps final → bad final) (first : invariant [] state) :
    Ends (steps schedule run) state (fun _ final => invariant schedule.steps final) bad := by
  refine (Ends.forM invariant first each).bind fun _ final ended => ?_
  refine readSlots_ends.imp ?_ ?_
  · rintro _ _ ⟨rfl, _⟩
    exact ended
  · rintro _ rfl
    exact last _ ended

variable [Arithmetic α] {final : RunState α} {heldOutside : BufferId → Bool}

/-- A step fills no slots but its output slots. -/
theorem Moves.filled_in {allowed : Nat → Prop} (moves : Moves heldOutside step state final)
    (outputs : ∀ slot ∈ step.outputs, allowed slot)
    (before : ∀ (slot : Nat) (value : Value), state.slots[slot]? = some (some value) → allowed slot) :
    ∀ (slot : Nat) (value : Value), final.slots[slot]? = some (some value) → allowed slot := by
  rcases moves with ⟨offers, _, filled⟩
  intro slot value found
  rcases getElem?_fill_cases (filled slot value found) with member | ⟨_, kept⟩
  · exact outputs slot (List.of_mem_zip member).1
  · exact before slot value (offers.narrows.slots slot value kept)

end Run

namespace Executable

variable {executable linked : Executable α} {heldOutside : BufferId → Bool}
  {arguments : List Value} {start : Memory α} {state final : RunState α}

/-- A buffer of an argument, or of a container that the executable reads. -/
def Foreign (executable : Executable α) (arguments : List Value) (memory : Memory α)
    (buffer : BufferId) : Prop :=
  (∃ value ∈ arguments, value.buffer = buffer) ∨
    ∃ container ∈ executable.schedule.containers, ∃ value,
      (memory.container container).value = some value ∧ value.buffer = buffer

/-- What a run that keeps its results relies on: host functions give theirs in new buffers, the
question who holds a buffer is answered with arguments and containers in mind, and no output lives in
the storage of a root that is on the buffer of an argument or a container. -/
structure Separates (executable : Executable α) (heldOutside : BufferId → Bool)
    (arguments : List Value) (memory : Memory α) : Prop where
  quiet : ∀ step ∈ executable.schedule.steps, step.op.Quiet
  roots : ∀ root source value, (root, source) ∈ executable.schedule.roots →
    source.value? memory arguments = some value →
      executable.Foreign arguments memory value.buffer →
        ∀ step ∈ executable.schedule.steps, ∀ output ∈ step.outputs,
          ¬executable.schedule.LiesIn root output
  /-- An argument that nobody outside holds is not one that an earlier run has left in a slot. -/
  arguments : ∀ value ∈ arguments, memory.Knows value ∧
    (heldOutside value.buffer = true ∨ value.buffer ∉ executable.heldBuffers)
  containers : ∀ container ∈ executable.schedule.containers, ∀ value,
    (memory.container container).value = some value →
      memory.Knows value ∧ heldOutside value.buffer = true

theorem Separates.known (separates : executable.Separates heldOutside arguments start)
    {buffer : BufferId} (foreign : executable.Foreign arguments start buffer) :
    buffer.index < start.buffers.size := by
  rcases foreign with ⟨value, member, rfl⟩ | ⟨container, member, value, held, rfl⟩
  · exact (separates.arguments value member).1
  · exact (separates.containers container member value held).1

/-- A foreign buffer that nobody outside holds is in no slot that an earlier run has filled. -/
theorem Separates.not_heldBuffers (separates : executable.Separates heldOutside arguments start)
    {buffer : BufferId} (foreign : executable.Foreign arguments start buffer)
    (unheld : heldOutside buffer = false) : buffer ∉ executable.heldBuffers := by
  rcases foreign with ⟨value, member, rfl⟩ | ⟨container, member, value, held, rfl⟩
  · exact (separates.arguments value member).2.resolve_left (by simp [unheld])
  · have outside := (separates.containers container member value held).2
    rw [unheld] at outside
    cases outside

/-- A buffer is that of a root in whose storage a slot is. -/
def Borrows (executable : Executable α) (arguments : List Value) (start : Memory α) (slot : Nat)
    (buffer : BufferId) : Prop :=
  ∃ root source value, (root, source) ∈ executable.schedule.roots ∧
    source.value? start arguments = some value ∧ value.buffer = buffer ∧
      executable.schedule.LiesIn root slot

theorem Separates.not_foreign (separates : executable.Separates heldOutside arguments start)
    {step : Step α} (member : step ∈ executable.schedule.steps) {output : Nat}
    (written : output ∈ step.outputs) {buffer : BufferId}
    (borrows : executable.Borrows arguments start output buffer) :
    ¬executable.Foreign arguments start buffer := by
  rcases borrows with ⟨root, source, value, listed, given, rfl, lies⟩
  intro foreign
  exact separates.roots root source value listed given foreign step member output written lies

theorem mem_heldBuffers {slot : Nat} {value : Value}
    (held : executable.slots[slot]? = some (some value)) :
    value.buffer ∈ executable.heldBuffers := by
  refine List.mem_filterMap.mpr ⟨some value, ?_, rfl⟩
  exact Array.mem_toList_iff.mpr (Array.mem_of_getElem? held)

/-- What is in the slots after some steps of a run: values on the buffers of roots in whose storage
their slots are, values that are on no foreign buffer, and values of an earlier run in slots that
have not been written yet. -/
structure Apart (executable : Executable α) (arguments : List Value) (start : Memory α)
    (done : List (Step α)) (state : RunState α) : Prop where
  containers : state.memory.containers = start.containers
  size : start.buffers.size ≤ state.memory.buffers.size
  slots : ∀ (slot : Nat) (value : Value), state.slots[slot]? = some (some value) →
    executable.Borrows arguments start slot value.buffer ∨
    ¬executable.Foreign arguments start value.buffer ∨
    ¬executable.schedule.IsRoot slot ∧ (∀ step ∈ done, slot ∉ step.outputs) ∧
      executable.slots[slot]? = some (some value)

/-- What a step reads has been loaded or written in the same run. -/
theorem Apart.read {done rest : List (Step α)} {step : Step α}
    (apart : executable.Apart arguments start done state)
    (split : executable.schedule.steps = done ++ step :: rest)
    (writesFirst : executable.schedule.WritesFirst executable.schedule.steps) {inputs : List Value}
    (given : List.Forall₂ (fun (slot : Nat) value => state.slots[slot]? = some (some value))
      step.inputs inputs)
    {position : Nat} {value : Value} (found : inputs[position]? = some value) :
    ∃ source, step.inputs[position]? = some source ∧
      (executable.Borrows arguments start source value.buffer ∨
        ¬executable.Foreign arguments start value.buffer) := by
  rcases forall₂_getElem?_right given found with ⟨source, listed, held⟩
  refine ⟨source, listed, ?_⟩
  rcases apart.slots source value held with borrows | own | ⟨notRoot, unwritten, _⟩
  · exact Or.inl borrows
  · exact Or.inr own
  · rcases writesFirst done step rest split source (List.mem_of_getElem? listed) with
      root | ⟨earlier, earlierMem, output⟩
    · exact absurd root notRoot
    · exact absurd output (unwritten earlier earlierMem)

/-- What a step is offered to write into is on no buffer of an argument or a container. -/
theorem Apart.spare {done : List (Step α)} {step : Step α} {inputs : List Value}
    {spare : Option Value} {middle : RunState α}
    (apart : executable.Apart arguments start done state)
    (separates : executable.Separates heldOutside arguments start)
    (member : step ∈ executable.schedule.steps)
    (offers : Run.Offers heldOutside step state inputs spare middle) {value : Value}
    (spared : value ∈ spare) : ¬executable.Foreign arguments start value.buffer := by
  intro foreign
  rcases offers.origin value spared with ⟨slot, output, held⟩
  rcases apart.slots slot value held with borrows | own | ⟨_, _, stale⟩
  · exact separates.not_foreign member output borrows foreign
  · exact own foreign
  · exact separates.not_heldBuffers foreign (offers.unheld value spared) (mem_heldBuffers stale)

variable [Arithmetic α]

theorem Apart.advance {done rest : List (Step α)} {step : Step α}
    (apart : executable.Apart arguments start done state)
    (separates : executable.Separates heldOutside arguments start)
    (split : executable.schedule.steps = done ++ step :: rest)
    (count : step.outputs.length = step.op.resultCount)
    (writesFirst : executable.schedule.WritesFirst executable.schedule.steps)
    (moves : Run.Moves heldOutside step state final) :
    executable.Apart arguments start (done ++ [step]) final := by
  rcases moves with @⟨inputs, outputs, spare, middle, offers, ran, filled⟩
  have member : step ∈ executable.schedule.steps := by simp [split]
  have places := ran.places (separates.quiet step member)
  rw [offers.narrows.memory] at places
  refine ⟨places.keeps.containers.trans apart.containers,
    Nat.le_trans apart.size places.keeps.size, fun slot value found => ?_⟩
  rcases getElem?_fill_zip_cases (count.trans places.count.symm) (filled slot value found) with
    ⟨index, listed, result⟩ | ⟨output, kept⟩
  · -- A result is where an operand is, or on a buffer that is new or was left over.
    cases located : (step.op.viewMap ++ step.op.destroyMap).lookup index with
    | some position =>
      rcases places.lodger index value position result located with ⟨source, given, same⟩
      rcases apart.read split writesFirst offers.read given with ⟨sourceSlot, sourceListed, origin⟩
      rw [same] at origin
      rcases origin with ⟨root, rootSource, rootValue, rootMem, rootGiven, sameRoot, lies⟩ | own
      · exact Or.inl ⟨root, rootSource, rootValue, rootMem, rootGiven, sameRoot,
          .output member located sourceListed listed lies⟩
      · exact Or.inr (Or.inl own)
    | none =>
      refine Or.inr (Or.inl ?_)
      rcases places.owner index value result located with new | ⟨other, spareMem, same⟩
      · intro foreign
        have known := separates.known foreign
        have size := apart.size
        omega
      · exact same ▸ apart.spare separates member offers spareMem
  · refine (apart.slots slot value (offers.narrows.slots slot value kept)).imp_right
      (Or.imp_right ?_)
    rintro ⟨notRoot, unwritten, stale⟩
    refine ⟨notRoot, ?_, stale⟩
    intro other otherMem
    rcases List.mem_append.mp otherMem with otherMem | otherMem
    · exact unwritten other otherMem
    · exact List.mem_singleton.mp otherMem ▸ output

/-- The ways in which a planned run can end, with the slots that it leaves. -/
inductive Planned (executable : Executable α) (heldOutside : BufferId → Bool)
    (arguments : List Value) (start : Memory α) :
    Checked RunError (List Value) → Array (Option Value) → Memory α → Prop
  | unloaded {failure : Failure RunError} {final : RunState α}
      (failed : Run.load executable.schedule arguments ⟨start, executable.slots, [], []⟩ =
        .error failure final) :
      Planned executable heldOutside arguments start (Except.error failure) final.slots final.memory
  | stopped {failure : Failure RunError} {loaded final : RunState α}
      (ready : Run.load executable.schedule arguments ⟨start, executable.slots, [], []⟩ =
        .ok () loaded)
      (failed : Run.steps executable.schedule (executable.step heldOutside) loaded =
        .error failure final) :
      Planned executable heldOutside arguments start (Except.error failure)
        (executable.slotsAfter final.slots true) final.memory
  | finished {values : List Value} {loaded final : RunState α}
      (ready : Run.load executable.schedule arguments ⟨start, executable.slots, [], []⟩ =
        .ok () loaded)
      (ran : Run.steps executable.schedule (executable.step heldOutside) loaded = .ok values final) :
      Planned executable heldOutside arguments start (Except.ok values)
        (executable.slotsAfter final.slots false) final.memory

theorem planned_run (plans : executable.linker = .plan) (heldOutside : BufferId → Bool)
    (arguments : List Value) (start : Memory α) : executable.Planned heldOutside arguments start
      (executable.run heldOutside arguments start).result
      (executable.run heldOutside arguments start).executable.slots
      (executable.run heldOutside arguments start).memory := by
  rcases executable with ⟨schedule, linker, options, slots⟩
  cases plans
  unfold run
  dsimp only
  split
  · rename_i failed
    exact .unloaded failed
  · rename_i ready
    split
    · rename_i ran
      exact .finished ready ran
    · rename_i failed
      exact .stopped ready failed

omit [Arithmetic α] in
theorem size_slotsAfter (slots : Array (Option Value)) (failed : Bool) :
    (executable.slotsAfter slots failed).size = slots.size := by
  rw [slotsAfter_eq]
  split
  · exact Array.size_map
  · exact Run.size_clear

omit [Arithmetic α] in
/-- What is left in a slot was left by a run that succeeded and does not collect, and the slot is not
a root slot. -/
theorem slotsAfter_cases {slots : Array (Option Value)} {failed : Bool} {slot : Nat} {value : Value}
    (found : (executable.slotsAfter slots failed)[slot]? = some (some value)) :
    failed = false ∧ executable.options.collect = false ∧ ¬executable.schedule.IsRoot slot ∧
      slots[slot]? = some (some value) := by
  rw [slotsAfter_eq] at found
  split at found
  · simp [Array.getElem?_map] at found
  · rename_i kept
    simp only [Bool.or_eq_true, not_or, Bool.not_eq_true] at kept
    rw [Run.getElem?_clear] at found
    split at found
    · cases found
    · rename_i unlisted
      refine ⟨kept.2, kept.1, ?_, found⟩
      rintro ⟨source, member⟩
      exact unlisted ⟨List.mem_map_of_mem member, (Array.getElem?_eq_some_iff.mp found).1⟩

/-- No slot is filled. -/
def Vacant (slots : Array (Option Value)) : Prop :=
  ∀ (slot : Nat) (value : Value), slots[slot]? ≠ some (some value)

/-- What is known of the slots of an executable between its runs. -/
structure Rests (linked : Executable α) (slots : Array (Option Value)) : Prop where
  size : slots.size = linked.schedule.slotCount
  written : ∀ (slot : Nat) (value : Value), slots[slot]? = some (some value) →
    ∃ step ∈ linked.schedule.steps, slot ∈ step.outputs
  /-- A plan that has run to its end reads nothing before it is written. -/
  ready : linked.schedule.WritesFirst linked.schedule.steps ∨ Vacant slots
  collected : linked.options.collect = true → Vacant slots

/-- The containers that an executable reads have not been released. -/
def Holds (executable : Executable α) (memory : Memory α) : Prop :=
  ∀ container ∈ executable.schedule.containers, (memory.container container).value ≠ none

section Run

variable (plans : executable.linker = .plan) (rests : executable.Rests executable.slots)
  (known : ∀ root ∈ executable.schedule.roots, root.1 < executable.schedule.slotCount)
  (results : ∀ step ∈ executable.schedule.steps, step.outputs.length = step.op.resultCount)
include plans

theorem step_keeps {size : Nat} (same : state.slots.size = size) {item : Step α} :
    Ends (executable.step heldOutside item) state
      (fun _ final => final.slots.size = size ∧ Run.Moves heldOutside item state final)
      (fun final => final.slots.size = size) := by
  have planned : executable.step heldOutside = Run.planStep executable.options heldOutside := by
    simp [step, plans]
  have sized : Ends (executable.step heldOutside item) state
      (fun _ final => final.slots.size = size) (fun final => final.slots.size = size) := by
    rw [planned]
    exact Run.planStep_size same
  exact (sized.and step_ends).imp (fun _ _ ends => ends) fun _ ends => ends.1

/-- The steps of a run keep the number of slots and fill no slots but their output slots. -/
theorem steps_fill {size : Nat} (same : state.slots.size = size)
    (filled : ∀ (slot : Nat) (value : Value), state.slots[slot]? = some (some value) →
      executable.schedule.IsRoot slot ∨
        ∃ step ∈ executable.schedule.steps, slot ∈ step.outputs) :
    Ends (Run.steps executable.schedule (executable.step heldOutside)) state
      (fun _ final => final.slots.size = size ∧ ∀ (slot : Nat) (value : Value),
        final.slots[slot]? = some (some value) → executable.schedule.IsRoot slot ∨
          ∃ step ∈ executable.schedule.steps, slot ∈ step.outputs)
      (fun final => final.slots.size = size) := by
  refine Run.steps_keep (fun _ state => state.slots.size = size ∧ ∀ (slot : Nat) (value : Value),
    state.slots[slot]? = some (some value) → executable.schedule.IsRoot slot ∨
      ∃ step ∈ executable.schedule.steps, slot ∈ step.outputs) ?_ (fun _ ended => ended.1)
    ⟨same, filled⟩
  rintro done step rest state split ⟨same, filled⟩
  refine (step_keeps plans same).imp ?_ fun _ same => same
  rintro _ final ⟨same, moves⟩
  refine ⟨same, moves.filled_in (fun slot output => Or.inr ⟨step, ?_, output⟩) filled⟩
  simp [split]

/-- A run that starts with root slots only and takes all steps has written each slot before it was
read. -/
theorem writesFirst_of_run (filled : ∀ (slot : Nat) (value : Value),
      state.slots[slot]? = some (some value) → executable.schedule.IsRoot slot) :
    Ends (Run.steps executable.schedule (executable.step heldOutside)) state
      (fun _ _ => executable.schedule.WritesFirst executable.schedule.steps) fun _ => True := by
  refine (Run.steps_keep (fun done state => (∀ (slot : Nat) (value : Value),
      state.slots[slot]? = some (some value) → executable.schedule.IsRoot slot ∨
        ∃ step ∈ done, slot ∈ step.outputs) ∧ executable.schedule.WritesFirst done) ?_
    (fun _ _ => trivial) ⟨fun slot value found => Or.inl (filled slot value found), ?_⟩).imp
    (fun _ _ ended => ended.2) fun _ _ => trivial
  · rintro done step rest state split ⟨filled, first⟩
    refine (step_keeps plans rfl).imp ?_ fun _ _ => trivial
    rintro _ final ⟨_, moves⟩
    constructor
    · refine moves.filled_in (fun slot output => Or.inr ⟨step, by simp, output⟩) ?_
      intro slot value found
      rcases filled slot value found with root | ⟨earlier, member, output⟩
      · exact Or.inl root
      · exact Or.inr ⟨earlier, List.mem_append_left _ member, output⟩
    · rcases moves with ⟨offers, _, _⟩
      apply first.concat
      intro slot input
      rcases List.mem_iff_getElem?.mp input with ⟨position, listed⟩
      rcases forall₂_getElem?_left offers.read listed with ⟨value, _, held⟩
      exact filled slot value held
  · intro front step rest split
    simp at split

include rests known

omit [Arithmetic α] plans in
theorem load_rests : Ends (Run.load executable.schedule arguments) ⟨start, executable.slots, [], []⟩
    (fun _ loaded => loaded.memory = start ∧
      loaded.slots.size = executable.schedule.slotCount ∧
        ∀ (slot : Nat) (value : Value), loaded.slots[slot]? = some (some value) →
          (∃ source, (slot, source) ∈ executable.schedule.roots ∧
            source.value? start arguments = some value) ∨
          ¬executable.schedule.IsRoot slot ∧ executable.slots[slot]? = some (some value))
    (fun final => arguments.length ≠ executable.schedule.arity ∧ final.slots = executable.slots ∨
      ¬executable.Holds start) := by
  refine (Run.load_settles fun root member => rests.size ▸ known root member).imp ?_ ?_
  · rintro _ loaded ⟨memory, size, filled⟩
    exact ⟨memory, size.trans rests.size, filled⟩
  · rintro final (count | ⟨container, member, released⟩)
    · exact Or.inl count
    · exact Or.inr fun holds => holds container member released

omit plans known [Arithmetic α] in
theorem filled_of_load {slots : Array (Option Value)}
    (filled : ∀ (slot : Nat) (value : Value), slots[slot]? = some (some value) →
      (∃ source, (slot, source) ∈ executable.schedule.roots ∧
        source.value? start arguments = some value) ∨
      ¬executable.schedule.IsRoot slot ∧ executable.slots[slot]? = some (some value)) :
    ∀ (slot : Nat) (value : Value), slots[slot]? = some (some value) →
      executable.schedule.IsRoot slot ∨
        ∃ step ∈ executable.schedule.steps, slot ∈ step.outputs := by
  intro slot value found
  rcases filled slot value found with ⟨source, member, _⟩ | ⟨_, stale⟩
  · exact Or.inl ⟨source, member⟩
  · exact Or.inr (rests.written slot value stale)

theorem Rests.writesFirst {values : List Value} {loaded : RunState α}
    (ready : Run.load executable.schedule arguments ⟨start, executable.slots, [], []⟩ =
      .ok () loaded)
    (ran : Run.steps executable.schedule (executable.step heldOutside) loaded = .ok values final) :
    executable.schedule.WritesFirst executable.schedule.steps := by
  rcases rests.ready with first | vacant
  · exact first
  · refine (writesFirst_of_run plans ?_).of_ok ran
    rcases (load_rests rests known).of_ok ready with ⟨_, _, filled⟩
    intro slot value found
    rcases filled slot value found with ⟨source, member, _⟩ | ⟨_, stale⟩
    · exact ⟨source, member⟩
    · exact absurd stale (vacant slot value)

/-- A run in which no container has been released leaves the slots fit for another one. -/
theorem Rests.run (holds : executable.Holds start) : executable.Rests
    (executable.run heldOutside arguments start).executable.slots := by
  have ran := planned_run plans heldOutside arguments start
  revert ran
  generalize (executable.run heldOutside arguments start).result = result
  generalize (executable.run heldOutside arguments start).executable.slots = slots
  generalize (executable.run heldOutside arguments start).memory = memory
  intro ran
  cases ran with
  | unloaded failed =>
    rcases (load_rests rests known).of_error failed with ⟨_, same⟩ | released
    · exact same ▸ rests
    · exact absurd holds released
  | @stopped _ loaded final ready failed =>
    rcases (load_rests rests known).of_ok ready with ⟨_, size, filled⟩
    have sized := (steps_fill plans size (filled_of_load rests filled)).of_error failed
    have vacant : Vacant (executable.slotsAfter final.slots true) := by
      intro slot value found
      cases (slotsAfter_cases found).1
    exact ⟨(size_slotsAfter _ _).trans sized, fun slot value found => absurd found (vacant slot value),
      Or.inr vacant, fun _ => vacant⟩
  | @finished _ loaded final ready ran =>
    rcases (load_rests rests known).of_ok ready with ⟨_, size, filled⟩
    rcases (steps_fill plans size (filled_of_load rests filled)).of_ok ran with ⟨sized, written⟩
    refine ⟨(size_slotsAfter _ _).trans sized, ?_, Or.inl ?_, ?_⟩
    · intro slot value found
      rcases slotsAfter_cases found with ⟨_, _, notRoot, found⟩
      exact (written slot value found).resolve_left notRoot
    · exact rests.writesFirst plans known ready ran
    · intro collect slot value found
      have kept := (slotsAfter_cases found).2.1
      rw [collect] at kept
      cases kept

include results in
/-- A run that succeeds leaves nothing in the output slots that belongs to others. -/
theorem Separates.run {values : List Value} {loaded : RunState α}
    (separates : executable.Separates heldOutside arguments start)
    (ready : Run.load executable.schedule arguments ⟨start, executable.slots, [], []⟩ =
      .ok () loaded)
    (ran : Run.steps executable.schedule (executable.step heldOutside) loaded = .ok values final) :
    executable.Apart arguments start executable.schedule.steps final := by
  have first := rests.writesFirst plans known ready ran
  rcases (load_rests rests known).of_ok ready with ⟨memory, _, filled⟩
  have ends : Ends (Run.steps executable.schedule (executable.step heldOutside)) loaded
      (fun _ final => executable.Apart arguments start executable.schedule.steps final)
      fun _ => True := by
    apply Run.steps_keep (executable.Apart arguments start)
    · intro done step rest state split apart
      refine step_ends.imp ?_ fun _ _ => trivial
      intro _ final moves
      exact apart.advance separates split (results step (by simp [split])) first moves
    · exact fun _ _ => trivial
    · refine ⟨by rw [memory], memory ▸ Nat.le_refl _, fun slot value found => ?_⟩
      rcases filled slot value found with ⟨source, member, given⟩ | ⟨notRoot, stale⟩
      · exact Or.inl ⟨slot, source, value, member, given, rfl, .root⟩
      · exact Or.inr (Or.inr ⟨notRoot, by simp, stale⟩)
  exact ends.of_ok ran

end Run

/-- The states that an executable comes into by runs, as long as no container that it reads is
released. -/
inductive Served (linked : Executable α) : Executable α → Prop
  | linked : Served linked linked
  | run {executable : Executable α} (before : Served linked executable)
      (heldOutside : BufferId → Bool) (arguments : List Value) {memory : Memory α}
      (holds : executable.Holds memory) :
      Served linked (executable.run heldOutside arguments memory).executable

theorem run_kept (executable : Executable α) (heldOutside : BufferId → Bool) (arguments : List Value)
    (memory : Memory α) : (executable.run heldOutside arguments memory).executable =
      { executable with slots := (executable.run heldOutside arguments memory).executable.slots } := by
  rcases executable with ⟨schedule, linker, options, slots⟩
  unfold run
  cases linker <;> dsimp only <;> split <;> try rfl
  split <;> rfl

variable {graph : Dataflow α} {orderings : Orderings} {options : LinkOptions} {log : List LogEntry}

theorem Served.rests (link : Executable.link .plan options graph orderings = Except.ok (linked, log))
    (served : linked.Served executable) :
    executable = { linked with slots := executable.slots } ∧ executable.Rests executable.slots := by
  rcases link_eq_ok link with ⟨laid, plans, _, empty⟩
  have known := Schedule.rootsKnown_of_ofGraph laid
  induction served with
  | linked =>
    have vacant : Vacant linked.slots := by
      intro slot value
      simp [empty rfl, Array.getElem?_replicate]
    exact ⟨rfl, by simp [empty rfl], fun slot value found => absurd found (vacant slot value),
      Or.inr vacant, fun _ => vacant⟩
  | @run executable before heldOutside arguments memory holds ih =>
    rcases ih with ⟨same, rests⟩
    have kept := run_kept executable heldOutside arguments memory
    have after : executable.Rests (executable.run heldOutside arguments memory).executable.slots :=
      rests.run (by rw [same]; exact plans) (by rw [same]; exact known) holds
    constructor
    · rw [kept, same]
    · rw [kept]
      exact ⟨after.size, after.written, after.ready, after.collected⟩

/-- After a run of a planned executable, whatever came of it and whatever runs went before, no slot is
on the buffer of an argument or of a container, as long as containers are not released, and, if slots
are kept, the number of arguments is right and the results are separate from the roots. -/
theorem not_foreign_of_run (wellFormed : graph.WellFormed)
    (link : Executable.link .plan options graph orderings = Except.ok (linked, log))
    (served : linked.Served executable) {memory : Memory α} (holds : executable.Holds memory)
    (count : options.collect = false → arguments.length = graph.inputs.length)
    (separates : options.collect = false → ∀ values,
      (executable.run heldOutside arguments memory).result = Except.ok values →
        executable.Separates heldOutside arguments memory) {slot : Nat} {value : Value}
    (held : (executable.run heldOutside arguments memory).executable.slots[slot]? =
      some (some value)) :
    ¬executable.Foreign arguments (executable.run heldOutside arguments memory).memory
      value.buffer := by
  rcases served.rests link with ⟨same, rests⟩
  rcases link_eq_ok link with ⟨laid, plans, rfl, _⟩
  have sameSchedule : executable.schedule = linked.schedule := by rw [same]
  have sameOptions : executable.options = linked.options := by rw [same]
  have plans : executable.linker = .plan := by rw [same]; exact plans
  have known := Schedule.rootsKnown_of_ofGraph laid
  have results := Schedule.results_of_ofGraph wellFormed laid
  have arity := Schedule.arity_of_ofGraph laid
  rw [← sameSchedule] at known results arity
  rw [← sameOptions] at count separates
  have ran := planned_run plans heldOutside arguments memory
  revert ran separates held
  generalize (executable.run heldOutside arguments memory).result = result
  generalize (executable.run heldOutside arguments memory).executable.slots = slots
  generalize (executable.run heldOutside arguments memory).memory = after
  intro held separates ran
  cases ran with
  | unloaded failed =>
    rcases (load_rests rests known).of_error failed with ⟨wrong, kept⟩ | released
    · rw [kept] at held
      cases collect : executable.options.collect with
      | true => exact absurd held (rests.collected collect slot value)
      | false => exact absurd ((count collect).trans arity.symm) wrong
    · exact absurd holds released
  | stopped ready failed => cases (slotsAfter_cases held).1
  | @finished values loaded final ready ran =>
    rcases slotsAfter_cases held with ⟨_, keeps, notRoot, found⟩
    have separates := separates keeps values rfl
    have apart := separates.run plans rests known results ready ran
    have sameContainers : ∀ container, final.memory.container container =
        memory.container container := fun container => by
      rw [Memory.container, apart.containers, Memory.container]
    simp only [Foreign, sameContainers]
    rcases apart.slots slot value found with ⟨root, source, given, listed, loaded, same, lies⟩ | own |
      ⟨_, unwritten, stale⟩
    · cases lies with
      | root => exact absurd ⟨source, listed⟩ notRoot
      | output member located read written lies =>
        refine separates.not_foreign member (List.mem_of_getElem? written) ?_
        exact ⟨root, source, given, listed, loaded, same, .output member located read written lies⟩
    · exact own
    · rcases rests.written slot value stale with ⟨step, member, output⟩
      exact absurd output (unwritten step member)

/-- The sum of a vector and what is in a container. -/
def sumWithShared : Dataflow Float where
  vars := #[⟨ArrayType.ofRank .float64 1, .input, some "x"⟩,
    ⟨ArrayType.ofRank .float64 1, .shared ⟨0⟩, some "w"⟩,
    ⟨ArrayType.ofRank .float64 1, .output ⟨0⟩ 0, none⟩]
  nodes := #[some ⟨.elementwise .add none, [⟨0⟩, ⟨1⟩], [⟨2⟩]⟩]
  inputs := [⟨0⟩]
  outputs := [⟨2⟩]
  guarded := []

/-- A plan for it. -/
def sumPlan (options : LinkOptions) : Executable Float where
  schedule := ⟨3, 1, [(0, .argument 0), (1, .shared ⟨0⟩)],
    [⟨⟨0⟩, .elementwise .add none, [0, 1], [2], [0, 1]⟩], [2]⟩
  linker := .plan
  options := options
  slots := #[none, none, none]

theorem link_sumWithShared (options : LinkOptions) :
    Executable.link .plan options sumWithShared ⟨[]⟩ = Except.ok (sumPlan options, []) := rfl

/-- Two vectors, the second of which is in a container. -/
def vectorAndShared : Memory Float :=
  ⟨#[#[1, 2], #[3, 4]], #[⟨"w", ArrayType.ofRank .float64 1, some ⟨.float64, [2], ⟨1⟩⟩⟩]⟩

/-- A first run of the plan, which keeps its result in a slot. -/
def sumRun : RunOutcome Float :=
  (sumPlan ⟨false, false⟩).run (fun buffer => buffer.index < 2) [⟨.float64, [2], ⟨0⟩⟩]
    vectorAndShared

/-- A second run whose argument is the result of the first run, which is still in a slot when the
second run starts. -/
theorem not_foreign_of_run_sumWithShared :
    sumRun.executable.slots = #[none, none, some ⟨.float64, [2], ⟨2⟩⟩] ∧
      ∀ (slot : Nat) (value : Value), (sumRun.executable.run (fun buffer => buffer.index < 3)
        [⟨.float64, [2], ⟨2⟩⟩] sumRun.memory).executable.slots[slot]? = some (some value) →
          ¬sumRun.executable.Foreign [⟨.float64, [2], ⟨2⟩⟩]
            (sumRun.executable.run (fun buffer => buffer.index < 3) [⟨.float64, [2], ⟨2⟩⟩]
              sumRun.memory).memory value.buffer := by
  have size : sumRun.memory.buffers.size = 3 := rfl
  have held : (sumRun.memory.container ⟨0⟩).value = some ⟨.float64, [2], ⟨1⟩⟩ := rfl
  have separates : sumRun.executable.Separates (fun buffer => buffer.index < 3)
      [⟨.float64, [2], ⟨2⟩⟩] sumRun.memory := by
    have steps : sumRun.executable.schedule.steps =
        [⟨⟨0⟩, .elementwise .add none, [0, 1], [2], [0, 1]⟩] := rfl
    have containers : sumRun.executable.schedule.containers = [⟨0⟩] := rfl
    have roots : sumRun.executable.schedule.roots = [(0, .argument 0), (1, .shared ⟨0⟩)] := rfl
    refine ⟨?_, ?_, ?_, ?_⟩
    · rw [steps]
      rintro step member function same
      cases List.mem_singleton.mp member
      cases same
    · rw [roots, steps]
      rintro root source value listed _ _ step member output written lies
      cases List.mem_singleton.mp member
      cases List.mem_singleton.mp written
      cases lies with
      | root => simp at listed
      | output member located =>
        rw [steps] at member
        cases List.mem_singleton.mp member
        cases located
    · intro value member
      cases List.mem_singleton.mp member
      exact ⟨by simp [Memory.Knows, size], Or.inl rfl⟩
    · rw [containers]
      intro container member value found
      cases List.mem_singleton.mp member
      cases held.symm.trans found
      exact ⟨by simp [Memory.Knows, size], rfl⟩
  have holds : (sumPlan ⟨false, false⟩).Holds vectorAndShared := by
    intro container member
    cases List.mem_singleton.mp member
    decide
  have holds' : sumRun.executable.Holds sumRun.memory := by
    intro container member
    cases List.mem_singleton.mp member
    simp [held]
  have served : (sumPlan ⟨false, false⟩).Served sumRun.executable := .run .linked _ _ holds
  exact ⟨rfl, fun slot value found => not_foreign_of_run (by decide)
    (link_sumWithShared ⟨false, false⟩) served holds' (fun _ => rfl) (fun _ _ _ => separates) found⟩

/-- A vector and nothing but a view of it. -/
def viewed : Dataflow Float where
  vars := #[⟨ArrayType.ofRank .float64 1, .input, some "x"⟩,
    ⟨ArrayType.ofRank .float64 1, .output ⟨0⟩ 0, none⟩]
  nodes := #[some ⟨.view, [⟨0⟩], [⟨1⟩]⟩]
  inputs := [⟨0⟩]
  outputs := [⟨1⟩]
  guarded := []

/-- A plan that does not collect keeps the result of a view, and a plan that finds a container
released keeps the argument that it has loaded before. -/
theorem foreign_of_run_viewed :
    viewed.WellFormed ∧ sumWithShared.WellFormed ∧
    (∃ linked log value, Executable.link .plan ⟨false, false⟩ viewed ⟨[]⟩ = Except.ok (linked, log) ∧
      (linked.run (fun _ => true) [⟨.float64, [2], ⟨0⟩⟩] vectorAndShared).executable.slots[1]? =
        some (some value) ∧
      linked.Foreign [⟨.float64, [2], ⟨0⟩⟩]
        (linked.run (fun _ => true) [⟨.float64, [2], ⟨0⟩⟩] vectorAndShared).memory value.buffer) ∧
    ∃ linked log value,
      Executable.link .plan ⟨true, false⟩ sumWithShared ⟨[]⟩ = Except.ok (linked, log) ∧
      (linked.run (fun _ => true) [⟨.float64, [2], ⟨0⟩⟩]
        (vectorAndShared.setContainer ⟨0⟩ none)).executable.slots[0]? = some (some value) ∧
      linked.Foreign [⟨.float64, [2], ⟨0⟩⟩] (linked.run (fun _ => true) [⟨.float64, [2], ⟨0⟩⟩]
        (vectorAndShared.setContainer ⟨0⟩ none)).memory value.buffer := by
  refine ⟨by decide, by decide, ⟨_, _, _, rfl, rfl, ?_⟩, ⟨_, _, _, rfl, rfl, ?_⟩⟩
  · exact Or.inl ⟨_, List.mem_singleton_self _, rfl⟩
  · exact Or.inl ⟨_, List.mem_singleton_self _, rfl⟩

end Executable

end ArrayGraph
