import ArrayGraph.Proofs.Run.Loading

/-!
# Planned execution does what interpreted execution does

Planned execution empties slots that are no longer read, or keeps its slots between runs and writes
results into buffers that the last run has left there. Neither can be observed: a slot is emptied
only after its last reader, and a buffer is written again only if no handle on it is left but the
one in the slot that is about to be filled. So the two executors stay alike up to the names of
buffers. The buffer that is written again is related to nothing, because every related buffer is
held outside, or was made during the run, or is in a slot that the run has filled.
-/

namespace ArrayGraph

variable {α : Type}

/-- How a renaming and the memory of planned execution develop in one step: a further pair is one of a
new buffer or of a result. -/
structure Advances (rename larger : Renaming) (right right' : Memory α) (outputs : List Value) :
    Prop where
  keeps : ∀ a b, rename a b → larger a b
  fresh : ∀ a b, larger a b → rename a b ∨ right.buffers.size ≤ b.index ∨
    ∃ output ∈ outputs, output.buffer = b
  size : right.buffers.size ≤ right'.buffers.size
  read : ∀ b : BufferId, b.index < right.buffers.size → (right'.read b).size = (right.read b).size

theorem Memory.Grows.advances {rename larger : Renaming} {left right left' right' : Memory α}
    (grows : Memory.Grows rename larger left right left' right') (outputs : List Value) :
    Advances rename larger right right' outputs where
  keeps := grows.keeps
  fresh a b pair := by
    rcases grows.fresh a b pair with pair | ⟨_, new⟩
    · exact Or.inl pair
    · exact Or.inr (Or.inl new)
  size := grows.right_size
  read := grows.right_read

/-- A value has as many elements as its shape asks for. -/
def Memory.Formed (memory : Memory α) (value : Value) : Prop :=
  elementCount? value.shape = some (memory.contents value).size

/-- A leftover that may be written: it is in a buffer of its own. -/
structure Memory.Spare (rename : Renaming) (memory : Memory α) (value : Value) : Prop where
  known : memory.Knows value
  formed : memory.Formed value
  unrelated : ∀ a, ¬rename a value.buffer

namespace Op

variable [Arithmetic α] {op : Op α} {pinned : BufferId → Prop} {rename : Renaming}
  {left right : Memory α} {inputs inputs' : List Value}

omit [Arithmetic α] in
/-- The result of an operation that planned execution may write into a leftover. -/
theorem coupled_placeInto (alike : left.Alike rename right) {leftover : Option Value}
    (spare : ∀ value, leftover = some value → right.Spare rename value) (result : Tensor α)
    (formed : elementCount? result.shape = some result.data.size) :
    ∃ value value' left' right' larger,
      Value.store (ε := OpError) result.element result.shape result.data left = .ok value left' ∧
      placeInto leftover result right = .ok value' right' ∧ left'.Alike larger right' ∧
      Advances rename larger right right' [value'] ∧ larger.Relates value value' ∧
      right'.Formed value' := by
  have stored : ∀ placed : Action α OpError Value,
      placed = Value.store result.element result.shape result.data →
      ∃ value value' left' right' larger,
        Value.store (ε := OpError) result.element result.shape result.data left = .ok value left' ∧
        placed right = .ok value' right' ∧ left'.Alike larger right' ∧
        Advances rename larger right right' [value'] ∧ larger.Relates value value' ∧
        right'.Formed value' := by
    rintro _ rfl
    have both := alike.allocate result.data
    refine ⟨_, _, _, _, _, rfl, rfl, both.1, both.2.advances _, ⟨rfl, rfl, Or.inr ⟨rfl, rfl⟩⟩, ?_⟩
    have written := right.read_allocate_self result.data
    exact formed.trans (congrArg (fun data => some data.size) written.symm)
  cases leftover with
  | none => exact stored _ rfl
  | some target =>
    by_cases fits : target.shape = result.shape ∧ target.element = result.element
    · rcases spare target rfl with ⟨known, targetFormed, unrelated⟩
      rcases fits with ⟨shape, element⟩
      have size : (right.contents target).size = result.data.size := by
        rw [Memory.Formed, shape, formed] at targetFormed
        exact (Option.some.inj targetFormed).symm
      have written := right.read_write_self result.data known
      refine ⟨_, target, _, right.write target.buffer result.data, _, rfl, ?_,
        alike.add ?_ unrelated ?_ written ?_ rfl, ?_, ⟨element.symm, shape.symm, Or.inr ⟨rfl, rfl⟩⟩,
        ?_⟩
      · simp only [placeInto, shape, element, decide_true, Bool.and_self, if_true]
        exact writeOver_of_form element shape size
      · simpa [Memory.Knows] using known
      · simp
      · exact fun other _ different => right.read_write_of_ne result.data different
      · refine ⟨fun a b pair => Or.inl pair, ?_, by simp, ?_⟩
        · rintro a b (pair | ⟨rfl, rfl⟩)
          · exact Or.inl pair
          · exact Or.inr (Or.inr ⟨target, by simp, rfl⟩)
        · intro b _
          by_cases same : b = target.buffer
          · rw [same, written]
            exact size.symm
          · rw [right.read_write_of_ne result.data same]
      · rw [Memory.Formed, Memory.contents, written, shape, formed]
    · refine stored _ ?_
      have mismatch : (decide (target.shape = result.shape) &&
          decide (target.element = result.element)) = false := by
        simpa using fits
      simp only [placeInto, mismatch, Bool.false_eq_true, if_false]

/-- An operation that planned execution has a form of its own for, and one that it performs as it
stands, both do what they do in interpreted execution. -/
theorem coupled_performPlanned (alike : left.Alike rename right) (parametric : op.Parametric pinned)
    (held : ∀ buffer, pinned buffer → rename buffer buffer) (arity : inputs.length = op.arity)
    (related : List.Forall₂ rename.Relates inputs inputs') {leftover : Option Value}
    (spare : ∀ function, op = .elementwise function none → ∀ value, leftover = some value →
      right.Spare rename value) :
    SameOutcome
      (fun outputs outputs' left' right' => ∃ larger : Renaming, left'.Alike larger right' ∧
        Advances rename larger right right' outputs' ∧
        List.Forall₂ larger.Relates outputs outputs' ∧ outputs.length = op.resultCount ∧
        ∀ function, op = .elementwise function none → ∀ output ∈ outputs', right'.Formed output)
      (fun left' right' => ∃ larger : Renaming, left'.Alike larger right' ∧
        ∀ a b, rename a b → larger a b)
      (op.perform inputs left) (op.performPlanned inputs' leftover right) := by
  by_cases planned : ∃ function, op = .elementwise function none
  · rcases planned with ⟨function, rfl⟩
    have tensors := alike.tensors related
    cases computed : (Op.elementwise function none : Op α).compute (inputs.map left.tensor) with
    | error failure =>
      rw [perform_of_error (by simp) arity computed]
      have planned : performPlanned (.elementwise function none) inputs' leftover right =
          .error failure right := by
        unfold performPlanned
        refine (bind_of_ok rfl).trans (bind_of_error ?_)
        rw [← tensors, computed]
        rfl
      rw [planned]
      exact ⟨rfl, rename, alike, fun _ _ pair => pair⟩
    | ok result =>
      have formed := (ScalarFunction.compute_eq_ok computed).2.2
      rcases coupled_placeInto alike (spare function rfl) result formed with
        ⟨value, value', left', right', larger, stored, placed, alike', advances, same, formed'⟩
      rw [perform_of_ok (by simp) arity computed stored]
      have planned : performPlanned (.elementwise function none) inputs' leftover right =
          .ok [value'] right' := by
        unfold performPlanned
        refine (bind_of_ok rfl).trans ?_
        rw [← tensors, computed]
        exact (bind_of_ok rfl).trans (bind_of_ok placed)
      rw [planned]
      refine ⟨larger, alike', advances, List.Forall₂.cons same List.Forall₂.nil, rfl, ?_⟩
      intro _ _ output member
      rw [List.mem_singleton.mp member]
      exact formed'
  · have unplanned : op.performPlanned inputs' leftover = op.perform inputs' := by
      unfold performPlanned
      cases op with
      | elementwise function target =>
        cases target with
        | none => exact absurd ⟨function, rfl⟩ planned
        | some position => rfl
      | _ => rfl
    rw [unplanned]
    refine (coupled_perform alike parametric held related).imp ?_ ?_
    · rintro outputs outputs' left' right' ⟨larger, alike', grows, same, count⟩
      exact ⟨larger, alike', grows.advances _, same, count,
        fun function op => absurd ⟨function, op⟩ planned⟩
    · rintro left' right' ⟨larger, alike', grows⟩
      exact ⟨larger, alike', grows.keeps⟩

end Op

namespace Run

variable {rename : Renaming} {left right : RunState α}

/-- A leftover that is kept is in no other slot and is not held outside. -/
theorem takeLeftover_spec {state : RunState α} (heldOutside : BufferId → Bool) {step : Step α}
    (inputs : List Value) (known : ∀ slot ∈ step.outputs, slot < state.slots.size) :
    ∃ leftover slots, takeLeftover heldOutside step inputs state = .ok leftover { state with slots } ∧
      slots.size = state.slots.size ∧
      (∀ slot : Nat, slots[slot]? = state.slots[slot]? ∨
        slot ∈ step.outputs ∧ slots[slot]? = some none) ∧
      ∀ value, leftover = some value → ∃ slot ∈ step.outputs,
        state.slots[slot]? = some (some value) ∧ heldOutside value.buffer = false ∧
        ∀ (other : Nat) (content : Value), other ≠ slot → state.slots[other]? = some (some content) →
          content.buffer ≠ value.buffer := by
  unfold takeLeftover
  cases head : step.outputs.head? with
  | none => exact ⟨none, state.slots, rfl, rfl, fun _ => Or.inl rfl, by simp⟩
  | some slot =>
    have output : slot ∈ step.outputs := List.mem_of_head? head
    have inside := known slot output
    cases content : state.slots[slot] with
    | none =>
      refine ⟨none, state.slots, ?_, rfl, fun _ => Or.inl rfl, by simp⟩
      exact bind_of_ok (slot?_of_some (by rw [Array.getElem?_eq_getElem inside, content]))
    | some value =>
      have found : state.slots[slot]? = some (some value) := by
        rw [Array.getElem?_eq_getElem inside, content]
      let slots := state.slots.setIfInBounds slot none
      refine ⟨_, slots, (bind_of_ok (slot?_of_some found)).trans
        ((bind_of_ok (setSlot_of_lt inside)).trans rfl), by simp [slots], ?_, ?_⟩
      · intro other
        by_cases same : slot = other
        · subst same
          exact Or.inr ⟨output, by simp [slots, inside]⟩
        · exact Or.inl (by simp [slots, Array.getElem?_setIfInBounds_ne same])
      · intro kept same
        split at same
        · cases same
        · rename_i unused
          cases same
          simp only [Bool.or_eq_true, not_or, Bool.not_eq_true] at unused
          refine ⟨slot, output, found, unused.2, ?_⟩
          intro other content' different found' sameBuffer
          apply Bool.false_ne_true
          rw [← unused.1.1, Array.any_eq_true]
          have known' : other < slots.size := by
            by_contra outside
            rw [Array.getElem?_eq_none (by simpa [slots] using outside)] at found'
            cases found'
          refine ⟨other, known', ?_⟩
          have same : slots[other] = some content' := by
            rw [← Option.some.injEq, ← Array.getElem?_eq_getElem known',
              Array.getElem?_setIfInBounds_ne (Ne.symm different)]
            exact found'
          simp only [slots] at same
          simpa only [same, decide_eq_true_eq] using sameBuffer

/-- Reading slots does the same on both sides if they hold related values. -/
theorem coupled_readSlots {slots : List Nat}
    (known : ∀ slot ∈ slots, slot < left.slots.size ∧ slot < right.slots.size)
    (related : ∀ slot ∈ slots,
      Option.Rel rename.Relates left.slots[slot]?.join right.slots[slot]?.join) :
    SameOutcome
      (fun values values' left' right' => left' = left ∧ right' = right ∧
        List.Forall₂ rename.Relates values values' ∧ values.length = slots.length)
      (fun left' right' => left' = left ∧ right' = right)
      (slots.mapM readSlot left) (slots.mapM readSlot right) := by
  induction slots with
  | nil => exact ⟨rfl, rfl, List.Forall₂.nil, rfl⟩
  | cons slot rest ih =>
    have inside := known slot (by simp)
    have same := related slot (by simp)
    have found := Array.getElem?_eq_getElem inside.1
    have found' := Array.getElem?_eq_getElem inside.2
    rw [found, found', Option.join_some, Option.join_some] at same
    generalize left.slots[slot] = content at found same
    generalize right.slots[slot] = content' at found' same
    rw [List.mapM_cons]
    cases same with
    | none =>
      rw [bind_of_error (readSlot_of_none found), bind_of_error (readSlot_of_none found')]
      exact ⟨rfl, rfl, rfl⟩
    | some value =>
      rw [bind_of_ok (readSlot_of_some found), bind_of_ok (readSlot_of_some found')]
      refine SameOutcome.bind (ih (fun slot member => known slot (by simp [member]))
        (fun slot member => related slot (by simp [member]))) ?_ fun _ _ failed => failed
      rintro values values' _ _ ⟨rfl, rfl, others, length⟩
      exact ⟨rfl, rfl, List.Forall₂.cons value others, by simp [length]⟩

end Run

/-- What holds of the slots of planned execution at all times: values are in buffers that exist, slots
that are neither roots nor written by a step are empty, and what is left for a step to write into
has as many elements as its shape asks for. -/
structure Schedule.Idle (schedule : Schedule α) (slots : Array (Option Value)) (memory : Memory α) :
    Prop where
  size : slots.size = schedule.slotCount
  known : ∀ (slot : Nat) (value : Value), slots[slot]? = some (some value) → memory.Knows value
  unwritten : ∀ slot : Nat, (∀ source, (slot, source) ∉ schedule.roots) →
    (∀ step ∈ schedule.steps, slot ∉ step.outputs) → ∀ value : Value,
      slots[slot]? ≠ some (some value)
  formed : ∀ step ∈ schedule.steps, ∀ function, step.op = .elementwise function none →
    ∀ slot ∈ step.outputs, ∀ value : Value, slots[slot]? = some (some value) → memory.Formed value

/-- The two executors are in step when some steps remain. -/
structure InStep (schedule : Schedule α) (pinned : BufferId → Prop) (heldOutside : BufferId → Bool)
    (start : Nat) (collect : Bool) (rest : List (Step α)) (rename : Renaming)
    (left right : RunState α) : Prop where
  alike : left.memory.Alike rename right.memory
  held : ∀ buffer, pinned buffer → rename buffer buffer
  size : left.slots.size = schedule.slotCount
  idle : schedule.Idle right.slots right.memory
  /-- Slots that will be read and have been written, if they ever are, hold related values. -/
  related : ∀ slot : Nat, (∀ step ∈ rest, slot ∉ step.outputs) →
    ((∃ step ∈ rest, slot ∈ step.inputs) ∨ slot ∈ schedule.outputs) →
      Option.Rel rename.Relates left.slots[slot]?.join right.slots[slot]?.join
  /-- A related buffer is held outside, or new, or in a slot that this run has filled. -/
  reached : collect = false → ∀ a b, rename a b → heldOutside b = true ∨ start ≤ b.index ∨
    ∃ (slot : Nat) (value : Value), (∀ step ∈ rest, slot ∉ step.outputs) ∧
      right.slots[slot]? = some (some value) ∧ value.buffer = b
  /-- What is in the slots that remain to be written was there before this run. -/
  stale : collect = false → ∀ step ∈ rest, ∀ slot ∈ step.outputs, ∀ value : Value,
    right.slots[slot]? = some (some value) → value.buffer.index < start
  grown : start ≤ right.memory.buffers.size
  events : left.events = right.events
  executed : left.executed = right.executed

/-- What is left of being in step when a run has failed. -/
structure FailedAlike (schedule : Schedule α) (rename : Renaming) (left right : RunState α) :
    Prop where
  alike : ∃ larger : Renaming, left.memory.Alike larger right.memory ∧
    ∀ a b, rename a b → larger a b
  size : right.slots.size = schedule.slotCount
  events : left.events = right.events
  executed : left.executed = right.executed

/-- Computations on the memory that end alike do so within a run. -/
theorem coupled_onMemory {β γ ε : Type} {left right : RunState α} {action : Action α ε β}
    {action' : Action α ε γ} {ok : β → γ → Memory α → Memory α → Prop}
    {failed : Memory α → Memory α → Prop} (wrap : ε → RunError)
    (same : SameOutcome ok failed (action left.memory) (action' right.memory)) :
    SameOutcome
      (fun value value' left' right' => ∃ memory memory', ok value value' memory memory' ∧
        left' = { left with memory } ∧ right' = { right with memory := memory' })
      (fun left' right' => ∃ memory memory', failed memory memory' ∧
        left' = { left with memory } ∧ right' = { right with memory := memory' })
      (Run.onMemory wrap action left) (Run.onMemory wrap action' right) := by
  unfold Run.onMemory
  rcases same.cases with ⟨value, value', memory, memory', ran, ran', holds⟩ |
    ⟨failure, memory, memory', ran, ran', holds⟩
  · rw [ran, ran']
    exact ⟨memory, memory', holds, rfl, rfl⟩
  · rw [ran, ran']
    exact ⟨rfl, memory, memory', holds, rfl, rfl⟩

section Step

variable [Arithmetic α] {schedule : Schedule α} {pinned : BufferId → Prop}
  {heldOutside : BufferId → Bool} {start : Nat} {options : LinkOptions}
  {front rest : List (Step α)} {step : Step α} {rename : Renaming} {left right : RunState α}

omit [Arithmetic α] in
/-- What planned execution offers a step to write into. -/
theorem InStep.leftover
    (inStep : InStep schedule pinned heldOutside start options.collect (step :: rest) rename left
      right) (sound : schedule.Sound) (split : schedule.steps = front ++ step :: rest)
    (inputs : List Value) :
    ∃ leftover slots,
      Run.offer options heldOutside step inputs right = .ok leftover { right with slots } ∧
      slots.size = right.slots.size ∧
      (∀ slot : Nat, slots[slot]? = right.slots[slot]? ∨
        slot ∈ step.outputs ∧ slots[slot]? = some none) ∧
      ∀ function, step.op = .elementwise function none → ∀ value, leftover = some value →
        right.memory.Spare rename value := by
  have member : step ∈ schedule.steps := split ▸ by simp
  unfold Run.offer
  cases collect : options.collect with
  | true => exact ⟨none, right.slots, rfl, rfl, fun _ => Or.inl rfl, by simp⟩
  | false =>
    have known : ∀ slot ∈ step.outputs, slot < right.slots.size := fun slot output =>
      inStep.idle.size ▸ sound.steps_known step member slot (Or.inr output)
    rcases Run.takeLeftover_spec heldOutside inputs known with
      ⟨leftover, slots, taken, size, kept, spare⟩
    refine ⟨leftover, slots, taken, size, kept, ?_⟩
    intro function op value found
    rcases spare value found with ⟨slot, output, inSlot, unheld, alone⟩
    refine ⟨inStep.idle.known slot value inSlot, inStep.idle.formed step member function op slot output
      value inSlot, ?_⟩
    intro a pair
    rcases inStep.reached collect a value.buffer pair with held | new | ⟨other, content, filled,
      inOther, same⟩
    · rw [unheld] at held
      cases held
    · have old := inStep.stale collect step (by simp) slot output value inSlot
      omega
    · refine alone other content ?_ inOther same
      rintro rfl
      exact filled step (by simp) output

omit [Arithmetic α] in
/-- A slot that a step writes is written by no other step. -/
theorem Schedule.Sound.writer (sound : schedule.Sound)
    (split : schedule.steps = front ++ step :: rest) {other : Step α}
    (member : other ∈ schedule.steps) {slot : Nat} (output : slot ∈ step.outputs)
    (output' : slot ∈ other.outputs) : other = step := by
  rw [split] at member
  rcases List.mem_append.mp member with before | behind
  · rcases List.append_of_mem before with ⟨first, second, rfl⟩
    exact absurd output ((sound.written_once first other (second ++ step :: rest)
      (by simp [split])).2 slot output' step (by simp))
  · rcases List.mem_cons.mp behind with same | behind
    · exact same
    · exact absurd output' ((sound.written_once front step rest split).2 slot output other behind)

section Advance

omit [Arithmetic α]

/-- What a slot holds after a step is a result of the step, or was there before. -/
theorem Run.stored_cases {slots before : Array (Option Value)} {keys emptied : List Nat}
    {values : List Value} (count : keys.length = values.length)
    (kept : ∀ slot : Nat, slots[slot]? = before[slot]? ∨ slot ∈ keys ∧ slots[slot]? = some none)
    {slot : Nat} {value : Value}
    (found : (Run.clear (fill slots (keys.zip values)) emptied)[slot]? = some (some value)) :
    slot ∈ keys ∧ value ∈ values ∨ slot ∉ keys ∧ before[slot]? = some (some value) := by
  rcases getElem?_fill_zip_cases count (Run.getElem?_of_clear found) with
    ⟨index, key, result⟩ | ⟨unlisted, earlier⟩
  · exact Or.inl ⟨List.mem_of_getElem? key, List.mem_of_getElem? result⟩
  · rcases kept slot with same | ⟨listed, _⟩
    · exact Or.inr ⟨unlisted, same ▸ earlier⟩
    · exact absurd listed unlisted

/-- What a step leaves in its slots cannot harm those after it. -/
theorem Schedule.Idle.stored {before slots : Array (Option Value)} {earlier memory : Memory α}
    {emptied : List Nat} {outputs : List Value} (idle : schedule.Idle before earlier)
    (sound : schedule.Sound) (split : schedule.steps = front ++ step :: rest)
    (count : step.outputs.length = outputs.length) (size : slots.size = before.size)
    (kept : ∀ slot : Nat, slots[slot]? = before[slot]? ∨
      slot ∈ step.outputs ∧ slots[slot]? = some none)
    (grown : earlier.buffers.size ≤ memory.buffers.size)
    (read : ∀ b : BufferId, b.index < earlier.buffers.size →
      (memory.read b).size = (earlier.read b).size)
    (known : ∀ value ∈ outputs, memory.Knows value)
    (formed : ∀ function, step.op = .elementwise function none → ∀ output ∈ outputs,
      memory.Formed output) :
    schedule.Idle (Run.clear (fill slots (step.outputs.zip outputs)) emptied) memory where
  size := by simpa [size] using idle.size
  known slot value found := by
    rcases Run.stored_cases count kept found with ⟨_, output⟩ | ⟨_, found⟩
    · exact known value output
    · exact Nat.lt_of_lt_of_le (idle.known slot value found) grown
  unwritten slot noRoot noOutput value found := by
    rcases Run.stored_cases count kept found with ⟨output, _⟩ | ⟨_, found⟩
    · exact noOutput step (split ▸ by simp) output
    · exact idle.unwritten slot noRoot noOutput value found
  formed other otherMem function op slot output value found := by
    rcases Run.stored_cases count kept found with ⟨output', valueMem⟩ | ⟨_, found⟩
    · cases sound.writer split otherMem output' output
      exact formed function op value valueMem
    · have before := idle.formed other otherMem function op slot output value found
      rw [Memory.Formed, Memory.contents, read value.buffer (idle.known slot value found)]
      exact before

variable {larger : Renaming} {memory' : Memory α} {slots : Array (Option Value)}
  {outputs outputs' : List Value}
  (inStep : InStep schedule pinned heldOutside start options.collect (step :: rest) rename left
    right) (sound : schedule.Sound) (split : schedule.steps = front ++ step :: rest)
  (advances : Advances rename larger right.memory memory' outputs')
  (results : List.Forall₂ larger.Relates outputs outputs')
  (count : step.outputs.length = outputs.length) (size : slots.size = right.slots.size)
  (kept : ∀ slot : Nat, slots[slot]? = right.slots[slot]? ∨
    slot ∈ step.outputs ∧ slots[slot]? = some none)
include inStep sound split advances results count kept size

/-- Slots that are still to be read hold related values after a step: its results, or what they held
before. -/
theorem InStep.related_stored (slot : Nat) (settled : ∀ later ∈ rest, slot ∉ later.outputs)
    (needed : (∃ later ∈ rest, slot ∈ later.inputs) ∨ slot ∈ schedule.outputs) :
    Option.Rel larger.Relates (fill left.slots (step.outputs.zip outputs))[slot]?.join
      (Run.clear (fill slots (step.outputs.zip outputs'))
        (if options.collect then step.frees else []))[slot]?.join := by
  have once := sound.written_once front step rest split
  have unfreed : slot ∉ if options.collect then step.frees else [] := by
    split
    · intro freed
      rcases sound.frees front step rest split slot freed with ⟨_, notOutput, notRead⟩
      rcases needed with ⟨later, laterMem, reads⟩ | output
      · exact notRead later laterMem reads
      · exact notOutput output
    · exact List.not_mem_nil
  rw [Run.getElem?_clear_of_notMem unfreed]
  by_cases output : slot ∈ step.outputs
  · have known := sound.steps_known step (split ▸ by simp) slot (Or.inr output)
    rcases getElem?_fill_zip_of_mem once.1 count output (inStep.size ▸ known) with
      ⟨index, value, listed, found, stored⟩
    rcases forall₂_getElem?_left results found with ⟨value', found', same⟩
    rw [stored, getElem?_fill_zip once.1 listed found' (size.trans inStep.idle.size ▸ known)]
    exact Option.Rel.some same
  · have unchanged : slots[slot]? = right.slots[slot]? :=
      (kept slot).resolve_right fun emptied => output emptied.1
    rw [getElem?_fill_zip_of_notMem output, getElem?_fill_zip_of_notMem output, unchanged]
    refine Renaming.relates_option_mono (inStep.related slot ?_ ?_) advances.keeps
    · intro other otherMem
      rcases List.mem_cons.mp otherMem with rfl | otherMem
      · exact output
      · exact settled other otherMem
    · rcases needed with ⟨later, laterMem, reads⟩ | isOutput
      · exact Or.inl ⟨later, by simp [laterMem], reads⟩
      · exact Or.inr isOutput

/-- If slots are kept, every related buffer after a step is held outside, or new, or in a slot that has
been filled. -/
theorem InStep.reached_stored (collect : options.collect = false) (a b : BufferId)
    (pair : larger a b) :
    heldOutside b = true ∨ start ≤ b.index ∨
      ∃ (slot : Nat) (value : Value), (∀ later ∈ rest, slot ∉ later.outputs) ∧
        (fill slots (step.outputs.zip outputs'))[slot]? = some (some value) ∧ value.buffer = b := by
  have once := sound.written_once front step rest split
  rcases advances.fresh a b pair with pair | new | ⟨output, outputMem, same⟩
  · rcases inStep.reached collect a b pair with held | new | ⟨slot, value, settled, found, same⟩
    · exact Or.inl held
    · exact Or.inr (Or.inl new)
    · have unlisted := settled step (by simp)
      have unchanged : slots[slot]? = right.slots[slot]? :=
        (kept slot).resolve_right fun emptied => unlisted emptied.1
      refine Or.inr (Or.inr ⟨slot, value, fun other otherMem => settled other (by simp [otherMem]),
        ?_, same⟩)
      rw [getElem?_fill_zip_of_notMem unlisted, unchanged]
      exact found
  · exact Or.inr (Or.inl (Nat.le_trans inStep.grown new))
  · rcases List.mem_iff_getElem?.mp outputMem with ⟨index, found⟩
    have inside : index < step.outputs.length :=
      count.trans results.length_eq ▸ (List.getElem?_eq_some_iff.mp found).1
    have slotMem := List.getElem_mem inside
    have known := sound.steps_known step (split ▸ by simp) _ (Or.inr slotMem)
    refine Or.inr (Or.inr ⟨step.outputs[index], output, fun later laterMem =>
      once.2 _ slotMem later laterMem, ?_, same⟩)
    exact getElem?_fill_zip once.1 (List.getElem?_eq_getElem inside) found
      (size.trans inStep.idle.size ▸ known)

end Advance

/-- A step that succeeds on both sides leaves the executors in step. -/
theorem InStep.advance
    (inStep : InStep schedule pinned heldOutside start options.collect (step :: rest) rename left
      right) (sound : schedule.Sound) (split : schedule.steps = front ++ step :: rest)
    {larger : Renaming} {memory memory' : Memory α} {slots : Array (Option Value)}
    {inputs inputs' outputs outputs' : List Value}
    (alike : memory.Alike larger memory') (advances : Advances rename larger right.memory memory' outputs')
    (read : List.Forall₂ larger.Relates inputs inputs')
    (results : List.Forall₂ larger.Relates outputs outputs')
    (count : outputs.length = step.op.resultCount)
    (formed : ∀ function, step.op = .elementwise function none → ∀ output ∈ outputs',
      memory'.Formed output)
    (size : slots.size = right.slots.size)
    (kept : ∀ slot : Nat, slots[slot]? = right.slots[slot]? ∨
      slot ∈ step.outputs ∧ slots[slot]? = some none) :
    InStep schedule pinned heldOutside start options.collect rest larger
      { memory
        slots := fill left.slots (step.outputs.zip outputs)
        events := left.events ++ Run.told options.monitored step inputs outputs memory
        executed := left.executed ++ [(step.node, step.op.name)] }
      { memory := memory'
        slots := Run.clear (fill slots (step.outputs.zip outputs'))
          (if options.collect then step.frees else [])
        events := right.events ++ Run.told options.monitored step inputs' outputs' memory'
        executed := right.executed ++ [(step.node, step.op.name)] } := by
  have lengths : step.outputs.length = outputs.length :=
    (sound.results step (split ▸ by simp)).trans count.symm
  have lengths' : step.outputs.length = outputs'.length := lengths.trans results.length_eq
  have resultKnown : ∀ value ∈ outputs', memory'.Knows value := by
    intro value valueMem
    rcases forall₂_mem_right results valueMem with ⟨_, _, same⟩
    exact (alike.known _ _ same.buffer).2
  exact {
    alike := alike
    held := fun buffer pin => advances.keeps _ _ (inStep.held buffer pin)
    size := by simpa using inStep.size
    idle := inStep.idle.stored sound split lengths' size kept advances.size advances.read resultKnown
      formed
    related := inStep.related_stored sound split advances results lengths size kept
    reached := by
      intro collect
      simp only [collect, Bool.false_eq_true, if_false, Run.clear, List.foldl_nil]
      exact inStep.reached_stored sound split advances results lengths size kept collect
    stale := by
      -- The slots that other steps will write are not among those of this one.
      intro collect other otherMem slot output value found
      rcases Run.stored_cases lengths' kept found with ⟨output', _⟩ | ⟨_, found⟩
      · exact absurd output ((sound.written_once front step rest split).2 slot output' other otherMem)
      · exact inStep.stale collect other (by simp [otherMem]) slot output value found
    grown := Nat.le_trans inStep.grown advances.size
    events := by
      simp only [inStep.events, Run.told, alike.tensors read, alike.tensors results]
    executed := by rw [inStep.executed] }

/-- One step does the same on both sides. -/
theorem InStep.coupled_step
    (inStep : InStep schedule pinned heldOutside start options.collect (step :: rest) rename left
      right) (sound : schedule.Sound) (split : schedule.steps = front ++ step :: rest)
    (parametric : step.op.Parametric pinned) :
    SameOutcome
      (fun _ _ left' right' => ∃ larger : Renaming, (∀ a b, rename a b → larger a b) ∧
        InStep schedule pinned heldOutside start options.collect rest larger left' right')
      (FailedAlike schedule rename)
      (Run.interpretStep options.monitored step left)
      (Run.planStep options heldOutside step right) := by
  have member : step ∈ schedule.steps := split ▸ by simp
  rw [Run.planStep_eq]
  unfold Run.interpretStep
  have inputsKnown : ∀ slot ∈ step.inputs, slot < left.slots.size ∧ slot < right.slots.size := by
    intro slot input
    have known := sound.steps_known step member slot (Or.inl input)
    rw [inStep.size, inStep.idle.size]
    exact ⟨known, known⟩
  have inputsRelated : ∀ slot ∈ step.inputs,
      Option.Rel rename.Relates left.slots[slot]?.join right.slots[slot]?.join := by
    intro slot input
    exact inStep.related slot (sound.written_first front step rest split slot input)
      (Or.inl ⟨step, by simp, input⟩)
  refine SameOutcome.bind (Run.coupled_readSlots inputsKnown inputsRelated) ?_ ?_
  · rintro inputs inputs' _ _ ⟨rfl, rfl, read, length⟩
    rcases inStep.leftover sound split inputs' with ⟨leftover, slots, taken, size, kept, spare⟩
    rw [bind_of_ok taken]
    have arity := length.trans (sound.arity step member)
    have performed := Op.coupled_performPlanned inStep.alike parametric inStep.held arity read spare
    have slotsSize := size.trans inStep.idle.size
    refine SameOutcome.bind (coupled_onMemory _ performed) ?_ ?_
    · rintro outputs outputs' _ _
        ⟨memory, memory', ⟨larger, alike, advances, results, count, formed⟩, rfl, rfl⟩
      change SameOutcome _ _ (Run.conclude options.monitored step inputs outputs _)
        (Run.concludePlanned options step inputs' outputs' _)
      rw [Run.conclude_of_lt, Run.concludePlanned_of_lt]
      have inStep' := inStep.advance sound split alike advances
        (read.imp fun _ _ same => same.mono advances.keeps) results count formed size kept
      · exact ⟨larger, advances.keeps, inStep'⟩
      · exact slotsSize ▸ sound.written_known member
      · exact slotsSize ▸ sound.freed_known member
      · exact inStep.size ▸ sound.written_known member
    · rintro _ _ ⟨memory, memory', ⟨larger, alike, keeps⟩, rfl, rfl⟩
      exact ⟨⟨larger, alike, keeps⟩, slotsSize, inStep.events, inStep.executed⟩
  · rintro _ _ ⟨rfl, rfl⟩
    exact ⟨⟨rename, inStep.alike, fun _ _ pair => pair⟩, inStep.idle.size, inStep.events,
      inStep.executed⟩

/-- All steps do the same on both sides. -/
theorem InStep.coupled_steps
    (inStep : InStep schedule pinned heldOutside start options.collect rest rename left right)
    (sound : schedule.Sound) (split : schedule.steps = front ++ rest)
    (parametric : ∀ step ∈ schedule.steps, step.op.Parametric pinned) :
    SameOutcome
      (fun _ _ left' right' => ∃ larger : Renaming, (∀ a b, rename a b → larger a b) ∧
        InStep schedule pinned heldOutside start options.collect [] larger left' right')
      (FailedAlike schedule rename)
      (rest.forM (Run.interpretStep options.monitored) left)
      (rest.forM (Run.planStep options heldOutside) right) := by
  induction rest generalizing front rename left right with
  | nil => exact ⟨rename, fun _ _ pair => pair, inStep⟩
  | cons step rest ih =>
    refine SameOutcome.bind (inStep.coupled_step sound split
      (parametric step (split ▸ by simp))) ?_ fun _ _ failed => failed
    rintro _ _ left' right' ⟨larger, keeps, inStep'⟩
    refine (ih inStep' (show schedule.steps = (front ++ [step]) ++ rest by simp [split])).imp ?_ ?_
    · rintro _ _ left'' right'' ⟨largest, keeps', inStep''⟩
      exact ⟨largest, fun a b pair => keeps' a b (keeps a b pair), inStep''⟩
    · rintro left'' right'' ⟨⟨largest, alike, keeps'⟩, size, events, executed⟩
      exact ⟨⟨largest, alike, fun a b pair => keeps' a b (keeps a b pair)⟩, size, events, executed⟩

/-- The steps and the outputs of a run are the same on both sides. -/
theorem InStep.coupled_run
    (inStep : InStep schedule pinned heldOutside start options.collect schedule.steps rename left
      right) (sound : schedule.Sound)
    (parametric : ∀ step ∈ schedule.steps, step.op.Parametric pinned) :
    SameOutcome
      (fun values values' left' right' => ∃ larger : Renaming, (∀ a b, rename a b → larger a b) ∧
        InStep schedule pinned heldOutside start options.collect [] larger left' right' ∧
        List.Forall₂ larger.Relates values values')
      (FailedAlike schedule rename)
      (Run.steps schedule (Run.interpretStep options.monitored) left)
      (Run.steps schedule (Run.planStep options heldOutside) right) := by
  refine SameOutcome.bind (inStep.coupled_steps sound (List.nil_append _).symm parametric) ?_
    fun _ _ failed => failed
  rintro _ _ left' right' ⟨larger, keeps, inStep'⟩
  have known : ∀ slot ∈ schedule.outputs, slot < left'.slots.size ∧ slot < right'.slots.size := by
    intro slot output
    have inside := sound.outputs_known slot output
    rw [inStep'.size, inStep'.idle.size]
    exact ⟨inside, inside⟩
  have related : ∀ slot ∈ schedule.outputs,
      Option.Rel larger.Relates left'.slots[slot]?.join right'.slots[slot]?.join :=
    fun slot output => inStep'.related slot (by simp) (Or.inr output)
  refine (Run.coupled_readSlots known related).imp ?_ ?_
  · rintro values values' _ _ ⟨rfl, rfl, same, _⟩
    exact ⟨larger, keeps, inStep', same⟩
  · rintro _ _ ⟨rfl, rfl⟩
    exact ⟨⟨larger, inStep'.alike, keeps⟩, inStep'.idle.size, inStep'.events, inStep'.executed⟩

end Step

namespace Schedule

variable {schedule : Schedule α} {slots : Array (Option Value)} {memory : Memory α}

/-- Empty slots have nothing left over. -/
theorem idle_of_empty (size : slots.size = schedule.slotCount)
    (empty : ∀ (slot : Nat) (value : Value), slots[slot]? ≠ some (some value)) :
    schedule.Idle slots memory where
  size := size
  known slot value found := absurd found (empty slot value)
  unwritten slot _ _ value := empty slot value
  formed _ _ _ _ slot _ value found := absurd found (empty slot value)

theorem Idle.clear (idle : schedule.Idle slots memory) (emptied : List Nat) :
    schedule.Idle (Run.clear slots emptied) memory where
  size := by simpa using idle.size
  known slot value found := idle.known slot value (Run.getElem?_of_clear found)
  unwritten slot noRoot noOutput value found :=
    idle.unwritten slot noRoot noOutput value (Run.getElem?_of_clear found)
  formed step member function op slot output value found :=
    idle.formed step member function op slot output value (Run.getElem?_of_clear found)

/-- The slots stay as they are while nothing in memory is lost. -/
theorem Idle.later (idle : schedule.Idle slots memory) {after : Memory α}
    (size : memory.buffers.size ≤ after.buffers.size)
    (read : ∀ buffer : BufferId, buffer.index < memory.buffers.size →
      (after.read buffer).size = (memory.read buffer).size) : schedule.Idle slots after where
  size := idle.size
  known slot value found := Nat.lt_of_lt_of_le (idle.known slot value found) size
  unwritten := idle.unwritten
  formed step member function op slot output value found := by
    have before := idle.formed step member function op slot output value found
    rw [Memory.Formed, Memory.contents, read value.buffer (idle.known slot value found)]
    exact before

/-- Loading leaves the slots that steps write as they were. -/
theorem Idle.load (sound : schedule.Sound) {rename : Renaming} {arguments' : List Value}
    {done : List (Nat × Source)} {left right left' right' : RunState α}
    (idle : schedule.Idle right.slots right.memory)
    (alike : left.memory.Alike rename right.memory)
    (loaded : Run.Loaded schedule rename arguments' done left right left' right') :
    schedule.Idle right'.slots right'.memory where
  size := loaded.right_size.trans idle.size
  known slot value found := by
    rw [loaded.right_memory]
    rcases loaded.known slot value found with found | ⟨a, pair⟩
    · exact idle.known slot value found
    · exact (alike.known a _ pair).2
  unwritten slot noRoot noOutput value := by
    rw [loaded.right_kept slot noRoot]
    exact idle.unwritten slot noRoot noOutput value
  formed step member function op slot output value found := by
    rw [loaded.right_kept slot fun source root => sound.roots_kept slot source root step member
      output] at found
    rw [loaded.right_memory]
    exact idle.formed step member function op slot output value found

end Schedule

/-- Once the roots are loaded, the executors are in step. -/
theorem inStep_of_loaded {schedule : Schedule α} {pinned : BufferId → Prop}
    {heldOutside : BufferId → Bool} {collect : Bool} {rename : Renaming}
    {left right left' right' : RunState α} {arguments' : List Value} (sound : schedule.Sound)
    (alike : left.memory.Alike rename right.memory)
    (held : ∀ buffer, pinned buffer → rename buffer buffer)
    (empty : left.slots = Array.replicate schedule.slotCount none)
    (idle : schedule.Idle right.slots right.memory)
    (reach : ∀ a b, rename a b → heldOutside b = true ∨ ∃ value ∈ arguments', value.buffer = b)
    (events : left.events = right.events) (executed : left.executed = right.executed)
    (loaded : Run.Loaded schedule rename arguments' schedule.roots left right left' right')
    (count : arguments'.length = schedule.arity) :
    InStep schedule pinned heldOutside right.memory.buffers.size collect schedule.steps rename left'
      right' where
  alike := by
    rw [loaded.left_memory, loaded.right_memory]
    exact alike
  held := held
  size := by
    rw [loaded.left_size, empty]
    simp
  idle := idle.load sound alike loaded
  related slot settled _ := by
    by_cases root : ∃ source, (slot, source) ∈ schedule.roots
    · rcases root with ⟨source, root⟩
      exact loaded.related slot source root
    · simp only [not_exists] at root
      have leftNone : left'.slots[slot]?.join = none := by
        rw [loaded.left_kept slot root, empty, Array.getElem?_replicate]
        split <;> rfl
      have rightNone : right'.slots[slot]?.join = none := by
        rw [loaded.right_kept slot root]
        cases found : right.slots[slot]?.join with
        | none => rfl
        | some value =>
          exact absurd (Option.join_eq_some_iff.mp found) (idle.unwritten slot root settled value)
      rw [leftNone, rightNone]
      exact Option.Rel.none
  reached _ a b pair := by
    rcases reach a b pair with outside | ⟨value, given, same⟩
    · exact Or.inl outside
    · rcases List.mem_iff_getElem?.mp given with ⟨index, found⟩
      have inside : index < schedule.arity := by
        rw [← count]
        exact (List.getElem?_eq_some_iff.mp found).1
      rcases sound.arguments index inside with ⟨slot, root⟩
      refine Or.inr (Or.inr ⟨slot, value, sound.roots_kept slot _ root, ?_, same⟩)
      rw [loaded.argument slot index root, found]
  stale _ step member slot output value found := by
    rw [loaded.right_kept slot fun source root => sound.roots_kept slot source root step member
      output] at found
    exact idle.known slot value found
  grown := Nat.le_of_eq (by rw [loaded.right_memory])
  events := by rw [loaded.left_told.1, loaded.right_told.1, events]
  executed := by rw [loaded.left_told.2, loaded.right_told.2, executed]

end ArrayGraph
