import ArrayGraph.Proofs.Run.Typed

/-!
# Runs on values of the right types

If the slots of a schedule have types, and its steps are operations on values of these types, then a
run that is given values of the types of its roots gets through: every slot that is read has been
written and not been freed, and every value that is put into a slot is of the type of the slot. The
run fails only where an operation refuses its inputs.
-/

namespace ArrayGraph

variable {α : Type}

/-- A slot is of a type. -/
def HasSlot (types : List ArrayType) (slot : Nat) (type : ArrayType) : Prop := types[slot]? = some type

/-- The values in slots are of the types of the slots. -/
def SlotsFit (types : List ArrayType) (memory : Memory α) (slots : Array (Option Value)) : Prop :=
  ∀ (slot : Nat) (value : Value), slots[slot]? = some (some value) →
    ∃ type, HasSlot types slot type ∧ memory.Fits value type

namespace SlotsFit

variable {types : List ArrayType} {memory after : Memory α} {slots others : Array (Option Value)}

theorem later (fit : SlotsFit types memory slots) (preserves : memory.Preserves after) :
    SlotsFit types after slots := by
  intro slot value found
  rcases fit slot value found with ⟨type, has, fits⟩
  exact ⟨type, has, fits.preserved preserves⟩

theorem within (fit : SlotsFit types memory slots) (within : Run.Within others slots) :
    SlotsFit types memory others :=
  fun slot value found => fit slot value (within slot value found)

theorem read (fit : SlotsFit types memory slots) {keys : List Nat} {values : List Value}
    {expected : List ArrayType}
    (found : List.Forall₂ (fun key value => slots[key]? = some (some value)) keys values)
    (listed : List.Forall₂ (HasSlot types) keys expected) :
    List.Forall₂ memory.Fits values expected := by
  induction found generalizing expected with
  | nil =>
    cases listed
    exact .nil
  | cons found _ ih =>
    cases listed with
    | cons has listed =>
      rcases fit _ _ found with ⟨type, has', fits⟩
      cases has.symm.trans has'
      exact .cons fits (ih listed)

theorem filled (fit : SlotsFit types memory slots) {keys : List Nat} {values : List Value}
    {expected : List ArrayType} (listed : List.Forall₂ (HasSlot types) keys expected)
    (fits : List.Forall₂ memory.Fits values expected) :
    SlotsFit types memory (fill slots (keys.zip values)) := by
  intro slot value found
  rcases getElem?_fill_zip_cases (listed.length_eq.trans fits.length_eq.symm) found with
    ⟨index, key, given⟩ | ⟨_, found⟩
  · rcases forall₂_getElem?_left listed key with ⟨type, typed, has⟩
    rcases forall₂_getElem?_left fits given with ⟨type', typed', valueFits⟩
    rw [typed] at typed'
    cases typed'
    exact ⟨type, has, valueFits⟩
  · exact fit slot value found

end SlotsFit

namespace Schedule

variable [Arithmetic α] {schedule : Schedule α}

/-- A schedule all of whose slots have types. -/
structure Typed (schedule : Schedule α) (types : List ArrayType) : Prop where
  reliable : ∀ step ∈ schedule.steps, step.op.Reliable
  steps : ∀ step ∈ schedule.steps, ∃ inputs outputs,
    List.Forall₂ (HasSlot types) step.inputs inputs ∧
      List.Forall₂ (HasSlot types) step.outputs outputs ∧
        step.op.inferTypes inputs = Except.ok outputs
  /-- What is read comes from a root or from a step. -/
  sourced : ∀ slot, (∃ step ∈ schedule.steps, slot ∈ step.inputs) ∨ slot ∈ schedule.outputs →
    schedule.IsRoot slot ∨ ∃ step ∈ schedule.steps, slot ∈ step.outputs

/-- A failure that a run comes by honestly: the operation of a step refuses its inputs. -/
def Excuses (schedule : Schedule α) (failure : Failure RunError) : Prop :=
  ∃ step ∈ schedule.steps, ∃ inputs before cause after,
    step.op.Refuses inputs before cause after ∧
      failure = cause.map (RunError.op step.node step.op.name)

end Schedule

namespace Schedule

variable {schedule : Schedule α} {step : Step α} {front rest : List (Step α)}
  {slots after : Array (Option Value)}

/-- The slots of a run from some steps on. Whatever is still to be read and is not written any more
is there. -/
structure Stocked (schedule : Schedule α) (rest : List (Step α)) (slots : Array (Option Value)) :
    Prop where
  size : slots.size = schedule.slotCount
  filled : ∀ slot, (∃ step ∈ rest, slot ∈ step.inputs) ∨ slot ∈ schedule.outputs →
    (∀ step ∈ rest, slot ∉ step.outputs) → ∃ value, slots[slot]? = some (some value)

/-- What the next step reads is there. -/
theorem Stocked.inputs (stocked : schedule.Stocked (step :: rest) slots) (sound : schedule.Sound)
    (split : schedule.steps = front ++ step :: rest) : ∃ inputs : List Value,
      List.Forall₂ (fun slot value => slots[slot]? = some (some value)) step.inputs inputs := by
  apply exists_forall₂
  intro slot input
  apply stocked.filled slot (Or.inl ⟨step, by simp, input⟩)
  intro later member
  exact sound.written_first front step rest split slot input later member

/-- What the run gives is there once all steps have been taken. -/
theorem Stocked.outputs (stocked : schedule.Stocked [] slots) : ∃ values : List Value,
    List.Forall₂ (fun slot value => slots[slot]? = some (some value)) schedule.outputs values :=
  exists_forall₂ fun slot output => stocked.filled slot (Or.inr output) (by simp)

/-- A step that stores its results and empties no more than it may leaves the others what they
read. -/
theorem Stocked.store (stocked : schedule.Stocked (step :: rest) slots) (sound : schedule.Sound)
    (split : schedule.steps = front ++ step :: rest) (size : after.size = schedule.slotCount)
    (kept : ∀ slot : Nat, slot ∉ step.outputs → after[slot]? = slots[slot]?) {outputs : List Value}
    (count : outputs.length = step.outputs.length) {emptied : List Nat}
    (freed : ∀ slot ∈ emptied, slot ∈ step.frees) :
    schedule.Stocked rest (Run.clear (fill after (step.outputs.zip outputs)) emptied) where
  size := by rw [Run.size_clear, size_fill, size]
  filled := by
    have member : step ∈ schedule.steps := split ▸ by simp
    intro slot needed unwritten
    have unfreed : slot ∉ emptied := by
      intro inside
      rcases sound.frees front step rest split slot (freed slot inside) with ⟨_, unread, unused⟩
      rcases needed with ⟨later, laterMem, input⟩ | output
      · exact unused later laterMem input
      · exact unread output
    rw [Run.getElem?_clear_of_notMem unfreed]
    by_cases output : slot ∈ step.outputs
    · rcases getElem?_fill_zip_of_mem (sound.written_once front step rest split).1 count.symm output
        (size ▸ sound.steps_known step member slot (Or.inr output)) with ⟨_, value, _, _, found⟩
      exact ⟨value, found⟩
    · rw [getElem?_fill_zip_of_notMem output, kept slot output]
      refine stocked.filled slot (needed.imp_left ?_) ?_
      · rintro ⟨later, laterMem, input⟩
        exact ⟨later, List.mem_cons_of_mem _ laterMem, input⟩
      · intro later member
        rcases List.mem_cons.mp member with rfl | member
        · exact output
        · exact unwritten later member

end Schedule

namespace Executable

variable [Arithmetic α] {executable : Executable α} {heldOutside : BufferId → Bool}
  {state : RunState α} {step : Step α}

omit [Arithmetic α] in
/-- The slots that a run starts with. -/
def startSlots (executable : Executable α) : Array (Option Value) :=
  match executable.linker with
  | .perform => Array.replicate executable.schedule.slotCount none
  | .plan => executable.slots

omit [Arithmetic α] in
/-- What a step is offered to write its result into. -/
def spare (executable : Executable α) (heldOutside : BufferId → Bool) (step : Step α)
    (inputs : List Value) : Run α (Option Value) :=
  match executable.linker with
  | .perform => pure none
  | .plan => Run.offer executable.options heldOutside step inputs

/-- How an operation is applied. -/
def apply (executable : Executable α) (op : Op α) (inputs : List Value) (leftover : Option Value) :
    Action α OpError (List Value) :=
  match executable.linker with
  | .perform => op.perform inputs
  | .plan => op.performPlanned inputs leftover

/-- A step up to its results, which are given with its inputs. -/
def produce (executable : Executable α) (heldOutside : BufferId → Bool) (step : Step α) :
    Run α (List Value × List Value) := do
  let inputs ← step.inputs.mapM Run.readSlot
  let leftover ← executable.spare heldOutside step inputs
  let outputs ← Run.onMemory (RunError.op step.node step.op.name)
    (executable.apply step.op inputs leftover)
  pure (inputs, outputs)

/-- A step from its results on. -/
def conclude (executable : Executable α) (step : Step α) (inputs outputs : List Value) : Run α Unit :=
  match executable.linker with
  | .perform => Run.conclude executable.options.monitored step inputs outputs
  | .plan => Run.concludePlanned executable.options step inputs outputs

theorem step_eq (executable : Executable α) (heldOutside : BufferId → Bool) (step : Step α) :
    executable.step heldOutside step = executable.produce heldOutside step >>= fun values =>
      executable.conclude step values.1 values.2 := by
  rcases executable with ⟨schedule, linker, options, slots⟩
  cases linker with
  | perform =>
    simp only [Executable.step, produce, spare, apply, conclude, bind_assoc, pure_bind]
    rfl
  | plan =>
    simp only [Executable.step, produce, spare, apply, conclude, bind_assoc, pure_bind,
      Run.planStep_eq]

omit [Arithmetic α] in
/-- A plan that does not collect keeps the values of a run in their slots. -/
def KeepsSlots (executable : Executable α) : Prop :=
  executable.linker = .plan ∧ executable.options.collect = false

omit [Arithmetic α] in
/-- The slots that a step empties once it has run. -/
def freed (executable : Executable α) (step : Step α) : List Nat :=
  match executable.linker with
  | .perform => []
  | .plan => if executable.options.collect then step.frees else []

omit [Arithmetic α] in
theorem mem_frees_of_mem_freed (executable : Executable α) {slot : Nat} (member : slot ∈ executable.freed step) :
    slot ∈ step.frees := by
  unfold Executable.freed at member
  split at member
  · cases member
  · split at member
    · exact member
    · cases member

omit [Arithmetic α] in
theorem KeepsSlots.freed (keeps : executable.KeepsSlots) (step : Step α) :
    executable.freed step = [] := by
  simp [Executable.freed, keeps.1, keeps.2]

theorem conclude_of_known (executable : Executable α) (state : RunState α) (inputs outputs : List Value)
    (known : ∀ slot ∈ step.outputs, slot < state.slots.size)
    (freed : ∀ slot ∈ step.frees, slot < state.slots.size) :
    ∃ final, executable.conclude step inputs outputs state = .ok () final ∧
      final.memory = state.memory ∧
      final.slots = Run.clear (fill state.slots (step.outputs.zip outputs))
        (executable.freed step) ∧
      final.executed = state.executed ++ [(step.node, step.op.name)] := by
  rcases executable with ⟨schedule, linker, options, slots⟩
  cases linker with
  | perform => exact ⟨_, Run.conclude_of_lt known, rfl, rfl, rfl⟩
  | plan => exact ⟨_, Run.concludePlanned_of_lt known freed, rfl, rfl, rfl⟩

/-- A run from some steps on. Whatever is still to be read and is not written any more is there. -/
structure Progress (executable : Executable α) (types : List ArrayType) (start : Memory α)
    (rest : List (Step α)) (state : RunState α) : Prop where
  size : state.slots.size = executable.schedule.slotCount
  retains : start.Retains state.memory
  fit : SlotsFit types state.memory state.slots
  filled : ∀ slot, (∃ step ∈ rest, slot ∈ step.inputs) ∨ slot ∈ executable.schedule.outputs →
    (∀ step ∈ rest, slot ∉ step.outputs) → ∃ value, state.slots[slot]? = some (some value)

/-- A step whose results are ready to be stored. -/
structure Produced (executable : Executable α) (types : List ArrayType) (start : Memory α)
    (step : Step α) (before : RunState α) (outputs : List Value) (after : RunState α) : Prop where
  size : after.slots.size = executable.schedule.slotCount
  retains : start.Retains after.memory
  fit : SlotsFit types after.memory after.slots
  kept : ∀ slot : Nat, slot ∉ step.outputs → after.slots[slot]? = before.slots[slot]?
  results : ∃ expected, List.Forall₂ (HasSlot types) step.outputs expected ∧
    List.Forall₂ after.memory.Fits outputs expected

/-- The run has failed, for no other reason than that an operation refused its inputs. -/
structure Refused (executable : Executable α) (start : Memory α) (failure : Failure RunError)
    (final : RunState α) : Prop where
  excused : executable.schedule.Excuses failure
  retains : start.Retains final.memory

section Steps

variable {types : List ArrayType} {start : Memory α} {front rest : List (Step α)}
  (sound : executable.schedule.Sound) (typed : executable.schedule.Typed types)

omit [Arithmetic α] in
theorem Progress.stocked (progress : executable.Progress types start rest state) :
    executable.schedule.Stocked rest state.slots := ⟨progress.size, progress.filled⟩

omit [Arithmetic α] in
/-- What a step reads is there and of the right types. -/
theorem Progress.inputs (progress : executable.Progress types start (step :: rest) state)
    (sound : executable.schedule.Sound) (split : executable.schedule.steps = front ++ step :: rest)
    {expected : List ArrayType} (listed : List.Forall₂ (HasSlot types) step.inputs expected) :
    ∃ inputs, List.Forall₂ (fun slot value => state.slots[slot]? = some (some value)) step.inputs
      inputs ∧ List.Forall₂ state.memory.Fits inputs expected := by
  rcases progress.stocked.inputs sound split with ⟨inputs, read⟩
  exact ⟨inputs, read, progress.fit.read read listed⟩

omit [Arithmetic α] in
/-- What a step is offered comes from one of its output slots, and no other slot shares its buffer. Only
a plan that keeps its slots offers anything. -/
theorem spare_of_known (executable : Executable α) (heldOutside : BufferId → Bool)
    (inputs : List Value) (known : ∀ slot ∈ step.outputs, slot < state.slots.size) :
    ∃ leftover slots, executable.spare heldOutside step inputs state =
        .ok leftover { state with slots } ∧
      slots.size = state.slots.size ∧
      (∀ slot : Nat, slots[slot]? = state.slots[slot]? ∨
        slot ∈ step.outputs ∧ slots[slot]? = some none) ∧
      ∀ value ∈ leftover, executable.KeepsSlots ∧ ∃ slot ∈ step.outputs,
        state.slots[slot]? = some (some value) ∧ ∀ (other : Nat) (content : Value), other ≠ slot →
          state.slots[other]? = some (some content) → content.buffer ≠ value.buffer := by
  rcases executable with ⟨schedule, linker, ⟨collect, monitored⟩, slots⟩
  cases linker with
  | perform => exact ⟨none, state.slots, rfl, rfl, fun _ => Or.inl rfl, by simp⟩
  | plan =>
    cases collect with
    | true => exact ⟨none, state.slots, rfl, rfl, fun _ => Or.inl rfl, by simp⟩
    | false =>
      rcases Run.takeLeftover_spec heldOutside inputs known with
        ⟨leftover, slots, taken, size, kept, origin⟩
      refine ⟨leftover, slots, taken, size, kept, fun value offered => ?_⟩
      rcases origin value offered with ⟨slot, output, found, _, alone⟩
      exact ⟨⟨rfl, rfl⟩, slot, output, found, alone⟩

theorem responds_apply (executable : Executable α) {op : Op α} {inputs : List Value}
    {inTypes outTypes : List ArrayType} {memory : Memory α} {leftover : Option Value}
    (reliable : op.Reliable) (sound : memory.Sound)
    (inferred : op.inferTypes inTypes = Except.ok outTypes)
    (fits : List.Forall₂ memory.Fits inputs inTypes)
    (sized : ∀ value ∈ leftover, memory.Fits value value.type) :
    op.Responds inputs outTypes memory (executable.apply op inputs leftover memory) := by
  rcases executable with ⟨schedule, linker, options, slots⟩
  cases linker with
  | perform => exact Op.responds_perform reliable sound inferred fits
  | plan => exact Op.responds_performPlanned reliable sound inferred fits sized

include sound typed in
/-- A step either gets to its results, or its operation refuses its inputs. -/
theorem Progress.produce (progress : executable.Progress types start (step :: rest) state)
    (initial : start.Sound) (split : executable.schedule.steps = front ++ step :: rest) :
    (∃ inputs outputs after, executable.produce heldOutside step state =
      .ok (inputs, outputs) after ∧ executable.Produced types start step state outputs after) ∨
    ∃ failure after, executable.produce heldOutside step state = .error failure after ∧
      executable.Refused start failure after := by
  have member : step ∈ executable.schedule.steps := split ▸ by simp
  rcases typed.steps step member with ⟨inTypes, outTypes, read, written, inferred⟩
  rcases progress.inputs sound split read with ⟨inputs, found, fits⟩
  have known : ∀ slot ∈ step.outputs, slot < state.slots.size :=
    progress.size ▸ sound.written_known member
  rcases spare_of_known executable heldOutside inputs known with
    ⟨leftover, slots, offered, size, kept, origin⟩
  have sized : ∀ value ∈ leftover, state.memory.Fits value value.type := by
    intro value given
    rcases (origin value given).2 with ⟨slot, _, held, _⟩
    rcases progress.fit slot value held with ⟨_, _, fits⟩
    exact fits.sized
  have responds := responds_apply executable (typed.reliable step member)
    (progress.retains.sound initial) inferred fits sized
  unfold Executable.produce
  rw [bind_of_ok (Run.readSlots found), bind_of_ok offered]
  cases applied : executable.apply step.op inputs leftover
      ({ state with slots } : RunState α).memory with
  | ok outputs after =>
    rw [(applied :)] at responds
    cases responds with
    | ok retains outputsFit =>
      rw [bind_of_ok (Run.onMemory_of_ok applied)]
      refine Or.inl ⟨inputs, outputs, _, rfl, size.trans progress.size,
        progress.retains.trans retains, ?_, fun slot unwritten => ?_, outTypes, written, outputsFit⟩
      · refine (progress.fit.later retains.toPreserves).within fun slot value held => ?_
        rcases kept slot with same | ⟨_, none⟩
        · exact same ▸ held
        · rw [none] at held
          cases held
      · exact (kept slot).resolve_right fun emptied => unwritten emptied.1
  | error failure after =>
    rw [applied] at responds
    cases responds with
    | refused retains refuses =>
      rw [bind_of_error (Run.onMemory_of_error applied)]
      exact Or.inr ⟨_, _, rfl, ⟨step, member, inputs, state.memory, failure, after, refuses, rfl⟩,
        progress.retains.trans retains⟩

include sound in
/-- Once its results are stored, the run goes on after the step. -/
theorem Produced.conclude {outputs inputs : List Value} {after : RunState α}
    (produced : executable.Produced types start step state outputs after)
    (progress : executable.Progress types start (step :: rest) state)
    (split : executable.schedule.steps = front ++ step :: rest) :
    ∃ final, executable.conclude step inputs outputs after = .ok () final ∧
      executable.Progress types start rest final := by
  have member : step ∈ executable.schedule.steps := split ▸ by simp
  have known : ∀ slot ∈ step.outputs, slot < after.slots.size :=
    produced.size ▸ sound.written_known member
  have freed : ∀ slot ∈ step.frees, slot < after.slots.size :=
    produced.size ▸ sound.freed_known member
  rcases conclude_of_known executable after inputs outputs known freed with
    ⟨final, concluded, memory, slots, _⟩
  rcases produced.results with ⟨expected, listed, fits⟩
  have stocked := progress.stocked.store sound split produced.size produced.kept
    (fits.length_eq.trans listed.length_eq.symm)
    fun _ freed => executable.mem_frees_of_mem_freed freed
  rw [← slots] at stocked
  refine ⟨final, concluded, stocked.size, memory ▸ produced.retains, ?_, stocked.filled⟩
  rw [memory, slots]
  exact (produced.fit.filled listed fits).within fun _ _ held => Run.getElem?_of_clear held

include sound typed in
/-- A step is either done with or refused. -/
theorem Progress.advance (progress : executable.Progress types start (step :: rest) state)
    (initial : start.Sound) (split : executable.schedule.steps = front ++ step :: rest) :
    (∃ final, executable.step heldOutside step state = .ok () final ∧
      executable.Progress types start rest final) ∨
    ∃ failure final, executable.step heldOutside step state = .error failure final ∧
      executable.Refused start failure final := by
  rw [step_eq]
  rcases progress.produce sound typed initial split with
    ⟨inputs, outputs, after, ran, produced⟩ | ⟨failure, final, failed, refused⟩
  · rw [bind_of_ok ran]
    exact Or.inl (produced.conclude sound progress split)
  · rw [bind_of_error failed]
    exact Or.inr ⟨failure, final, rfl, refused⟩

include sound typed in
/-- Some steps, one after the other, are done with, or one of them is refused. -/
theorem Progress.through {back middle : List (Step α)}
    (progress : executable.Progress types start (middle ++ back) state) (initial : start.Sound)
    (split : executable.schedule.steps = front ++ (middle ++ back)) :
    (∃ final, (middle.forM (executable.step heldOutside) : Run α Unit) state = .ok () final ∧
      executable.Progress types start back final) ∨
    ∃ failure final, (middle.forM (executable.step heldOutside) : Run α Unit) state =
      .error failure final ∧ executable.Refused start failure final := by
  induction middle generalizing front state with
  | nil => exact Or.inl ⟨state, rfl, progress⟩
  | cons step rest ih =>
    change (∃ final, (executable.step heldOutside step >>= fun _ => rest.forM _) state = _ ∧ _) ∨
      ∃ failure final, (executable.step heldOutside step >>= fun _ => rest.forM _) state = _ ∧ _
    rcases progress.advance sound typed initial split with
      ⟨next, ran, progress⟩ | ⟨failure, final, failed, refused⟩
    · rw [bind_of_ok ran]
      have split' : executable.schedule.steps = (front ++ [step]) ++ (rest ++ back) := by
        simpa using split
      exact ih progress split'
    · rw [bind_of_error failed]
      exact Or.inr ⟨failure, final, rfl, refused⟩

end Steps

/-- The states of a run in which values have been put into slots: while roots are loaded, when the
results of a step have just been stored, and between steps. -/
inductive Passes (executable : Executable α) (heldOutside : BufferId → Bool) (arguments : List Value)
    (start : Memory α) : RunState α → Prop
  | loading {front back : List (Nat × Source)} {state : RunState α}
      (split : executable.schedule.roots = front ++ back)
      (loaded : (front.forM (Run.loadRoot arguments) : Run α Unit)
        ⟨start, executable.startSlots, [], []⟩ = .ok () state) :
      Passes executable heldOutside arguments start state
  | storing {front back : List (Step α)} {step : Step α} {inputs outputs : List Value}
      {loaded before after state : RunState α}
      (split : executable.schedule.steps = front ++ step :: back)
      (ready : Run.load executable.schedule arguments ⟨start, executable.startSlots, [], []⟩ =
        .ok () loaded)
      (ran : (front.forM (executable.step heldOutside) : Run α Unit) loaded = .ok () before)
      (produced : executable.produce heldOutside step before = .ok (inputs, outputs) after)
      (stored : Run.store step outputs after = .ok () state) :
      Passes executable heldOutside arguments start state
  | between {front back : List (Step α)} {loaded state : RunState α}
      (split : executable.schedule.steps = front ++ back)
      (ready : Run.load executable.schedule arguments ⟨start, executable.startSlots, [], []⟩ =
        .ok () loaded)
      (ran : (front.forM (executable.step heldOutside) : Run α Unit) loaded = .ok () state) :
      Passes executable heldOutside arguments start state

/-- A run that is given values of the types of its roots, with values of the types of their slots left
in place by earlier runs. -/
structure Ready (executable : Executable α) (types : List ArrayType) (arguments : List Value)
    (start : Memory α) : Prop where
  sound : start.Sound
  count : arguments.length = executable.schedule.arity
  roots : ∀ slot source, (slot, source) ∈ executable.schedule.roots → ∃ value type,
    source.value? start arguments = some value ∧ HasSlot types slot type ∧ start.Fits value type
  size : executable.startSlots.size = executable.schedule.slotCount
  fit : SlotsFit types start executable.startSlots

section Run

variable {types : List ArrayType} {arguments : List Value} {start : Memory α}
  (sound : executable.schedule.Sound) (typed : executable.schedule.Typed types)

omit [Arithmetic α] in
include sound in
/-- Roots are loaded one after the other. -/
theorem Ready.loads (ready : executable.Ready types arguments start)
    {front back : List (Nat × Source)} (split : executable.schedule.roots = front ++ back) :
    ∃ state, (front.forM (Run.loadRoot arguments) : Run α Unit)
        ⟨start, executable.startSlots, [], []⟩ = .ok () state ∧
      state.memory = start ∧ state.slots.size = executable.schedule.slotCount ∧
      SlotsFit types start state.slots ∧
      ∀ slot source, (slot, source) ∈ front → ∃ value, state.slots[slot]? = some (some value) := by
  let value : Source → Value := fun source => (source.value? start arguments).getD default
  have given : ∀ slot source, (slot, source) ∈ front → ∃ type,
      source.value? start arguments = some (value source) ∧ HasSlot types slot type ∧
        start.Fits (value source) type := by
    intro slot source member
    rcases ready.roots slot source (split ▸ List.mem_append_left _ member) with
      ⟨content, type, found, has, fits⟩
    have same : value source = content := by simp [value, found]
    exact ⟨type, same ▸ found, has, same ▸ fits⟩
  have known : ∀ slot source, (slot, source) ∈ front → slot < executable.startSlots.size := by
    intro slot source member
    rw [ready.size]
    exact sound.roots_known slot source (split ▸ List.mem_append_left _ member)
  refine ⟨_, Run.loadRoots_of_values value ?_ known, rfl, size_fill.trans ready.size, ?_, ?_⟩
  · intro slot source member
    rcases given slot source member with ⟨_, found, _⟩
    exact found
  · intro slot content found
    rcases getElem?_fill_cases found with member | ⟨_, stale⟩
    · rcases List.mem_map.mp member with ⟨⟨_, source⟩, listed, same⟩
      cases same
      rcases given _ source listed with ⟨type, _, has, fits⟩
      exact ⟨type, has, fits⟩
    · exact ready.fit slot content stale
  · intro slot source member
    refine ⟨value source, getElem?_fill_of_agree (List.mem_map.mpr ⟨_, member, rfl⟩) ?_
      (known slot source member)⟩
    intro other listed
    rcases List.mem_map.mp listed with ⟨⟨slot', source'⟩, member', same⟩
    cases same
    rw [sound.sources slot source source' (split ▸ List.mem_append_left _ member)
      (split ▸ List.mem_append_left _ member')]

include sound typed in
/-- Once all roots are loaded, the run is ready for its first step. -/
theorem Ready.load (ready : executable.Ready types arguments start) :
    ∃ loaded, Run.load executable.schedule arguments ⟨start, executable.startSlots, [], []⟩ =
      .ok () loaded ∧ executable.Progress types start executable.schedule.steps loaded := by
  rcases ready.loads sound (List.append_nil _).symm with ⟨loaded, ran, memory, size, fit, filled⟩
  refine ⟨loaded, (Run.load_of_count ready.count).trans ran, size, memory ▸ .refl start, memory ▸ fit,
    ?_⟩
  intro slot needed unwritten
  rcases typed.sourced slot needed with ⟨source, root⟩ | ⟨step, member, output⟩
  · exact filled slot source root
  · exact absurd output (unwritten step member)

include sound typed in
/-- Every value that is put into a slot during a run is of the type of the slot. -/
theorem Ready.passes (ready : executable.Ready types arguments start)
    (passes : executable.Passes heldOutside arguments start state) :
    SlotsFit types state.memory state.slots := by
  rcases ready.load sound typed with ⟨loaded, loads, progress⟩
  cases passes with
  | loading split ran =>
    rcases ready.loads sound split with ⟨state', ran', memory, _, fit, _⟩
    cases ran.symm.trans ran'
    exact memory ▸ fit
  | @between front back _ _ split loads' ran =>
    cases loads.symm.trans loads'
    have split' : executable.schedule.steps = [] ++ (front ++ back) := split
    rcases (split ▸ progress).through sound typed ready.sound split' with
      ⟨final, ran', progress⟩ | ⟨_, _, failed, _⟩
    · cases ran.symm.trans ran'
      exact progress.fit
    · cases ran.symm.trans failed
  | @storing front back step _ _ _ _ _ _ split loads' ran produced stored =>
    cases loads.symm.trans loads'
    have split' : executable.schedule.steps = [] ++ (front ++ step :: back) := split
    rcases (split ▸ progress).through sound typed ready.sound split' with
      ⟨before, ran', progress⟩ | ⟨_, _, failed, _⟩
    · cases ran.symm.trans ran'
      rcases progress.produce sound typed ready.sound split with
        ⟨_, _, _, produced', results⟩ | ⟨_, _, failed, _⟩
      · cases produced.symm.trans produced'
        have known : ∀ slot ∈ step.outputs, slot < _ := fun slot output =>
          results.size ▸ sound.steps_known step (split ▸ by simp) slot (Or.inr output)
        cases stored.symm.trans (Run.store_of_lt known)
        rcases results.results with ⟨expected, listed, fits⟩
        exact results.fit.filled listed fits
      · cases produced.symm.trans failed
    · cases ran.symm.trans failed

include sound typed in
/-- All steps are done with and the outputs are there, or an operation refused its inputs. -/
theorem Ready.steps (ready : executable.Ready types arguments start)
    (heldOutside : BufferId → Bool) :
    ∃ loaded, Run.load executable.schedule arguments ⟨start, executable.startSlots, [], []⟩ =
      .ok () loaded ∧
    ((∃ values final, Run.steps executable.schedule (executable.step heldOutside) loaded =
        .ok values final ∧ executable.Progress types start [] final ∧
        List.Forall₂ (fun slot value => final.slots[slot]? = some (some value))
          executable.schedule.outputs values) ∨
      ∃ failure final, Run.steps executable.schedule (executable.step heldOutside) loaded =
        .error failure final ∧ executable.Refused start failure final) := by
  rcases ready.load sound typed with ⟨loaded, loads, progress⟩
  refine ⟨loaded, loads, ?_⟩
  have split : executable.schedule.steps = [] ++ (executable.schedule.steps ++ []) := by simp
  unfold Run.steps
  rcases (by simpa using progress : executable.Progress types start
    (executable.schedule.steps ++ []) loaded).through sound typed ready.sound split with
    ⟨final, ran, progress⟩ | ⟨failure, final, failed, refused⟩
  · rcases progress.stocked.outputs with ⟨values, found⟩
    rw [bind_of_ok ran]
    exact Or.inl ⟨values, final, Run.readSlots found, progress, found⟩
  · rw [bind_of_error failed]
    exact Or.inr ⟨failure, final, rfl, refused⟩

/-- What has come of a run that was ready: what it returns is in slots of the outputs, and if it has
failed then an operation refused its inputs. -/
structure Ended (executable : Executable α) (types : List ArrayType) (start : Memory α)
    (result : Checked RunError (List Value)) (after : Executable α) (memory : Memory α) : Prop where
  retains : start.Retains memory
  fit : SlotsFit types memory after.startSlots
  returns : ∀ values, result = Except.ok values → ∀ expected,
    List.Forall₂ (HasSlot types) executable.schedule.outputs expected →
      List.Forall₂ memory.Fits values expected
  fails : ∀ failure, result = Except.error failure → executable.schedule.Excuses failure

omit [Arithmetic α] in
theorem slotsFit_of_empty {memory : Memory α} {slots : Array (Option Value)}
    (empty : ∀ content ∈ slots, content = none) : SlotsFit types memory slots :=
  fun slot value found => by cases empty _ (Array.mem_of_getElem? found)

/-- A run that has succeeded, whatever slots its executor leaves. -/
theorem Progress.ended {final : RunState α} {values : List Value} {after : Executable α}
    (progress : executable.Progress types start [] final)
    (found : List.Forall₂ (fun slot value => final.slots[slot]? = some (some value))
      executable.schedule.outputs values)
    (fit : SlotsFit types final.memory after.startSlots) :
    executable.Ended types start (Except.ok values) after final.memory := by
  refine ⟨progress.retains, fit, ?_, by simp⟩
  rintro _ ⟨⟩ expected listed
  exact progress.fit.read found listed

/-- A run that has failed, whatever slots its executor leaves. -/
theorem Refused.ended {final : RunState α} {failure : Failure RunError} {after : Executable α}
    (refused : executable.Refused start failure final)
    (fit : SlotsFit types final.memory after.startSlots) :
    executable.Ended types start (Except.error failure) after final.memory := by
  refine ⟨refused.retains, fit, by simp, ?_⟩
  rintro _ ⟨⟩
  exact refused.excused

include sound typed in
theorem Ready.run (ready : executable.Ready types arguments start) (heldOutside : BufferId → Bool) :
    executable.Ended types start (executable.run heldOutside arguments start).result
      (executable.run heldOutside arguments start).executable
      (executable.run heldOutside arguments start).memory := by
  rcases ready.steps sound typed heldOutside with ⟨loaded, loads, ends⟩
  rcases executable with ⟨schedule, linker, options, slots⟩
  cases linker with
  | perform =>
    have empty : ∀ memory : Memory α,
        SlotsFit types memory (Array.replicate schedule.slotCount none) :=
      fun memory => slotsFit_of_empty (by simp)
    have whole : ∀ result, Run.steps schedule (Run.interpretStep options.monitored) loaded = result →
        (Run.load schedule arguments >>= fun _ => Run.steps schedule (Run.interpretStep
          options.monitored)) ⟨start, Array.replicate schedule.slotCount none, [], []⟩ = result :=
      fun result same => (bind_of_ok loads).trans same
    unfold Executable.run
    dsimp only
    rcases ends with ⟨values, final, ran, progress, found⟩ | ⟨failure, final, stopped, refused⟩
    · rw [whole _ ran]
      exact progress.ended found (empty _)
    · rw [whole _ stopped]
      exact refused.ended (empty _)
  | plan =>
    have loads' : Run.load schedule arguments ⟨start, slots, [], []⟩ = .ok () loaded := loads
    unfold Executable.run
    dsimp only
    rw [loads']
    dsimp only
    rcases ends with ⟨values, final, ran, progress, found⟩ | ⟨failure, final, stopped, refused⟩
    · have ran' : Run.steps schedule (Run.planStep options heldOutside) loaded = .ok values final := ran
      rw [ran']
      exact progress.ended found (progress.fit.within (within_slotsAfter _ _))
    · have stopped' : Run.steps schedule (Run.planStep options heldOutside) loaded =
        .error failure final := stopped
      rw [stopped']
      exact refused.ended (slotsFit_of_empty (by simp [slotsAfter, startSlots]))

end Run

end Executable

end ArrayGraph
