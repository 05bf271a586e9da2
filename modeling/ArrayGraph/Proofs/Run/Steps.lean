import ArrayGraph.Proofs.Run.InPlace

/-!
# The steps of both executors

Both executors load the root slots and then take steps of one form: a step reads its inputs, may be
offered the value of a slot that nobody else holds, performs its operation and puts the outputs into
slots. Interpreted execution is never offered anything. What is said here of runs holds of both, so
that an invariant of runs is checked for one step.
-/

namespace ArrayGraph

variable {α : Type}

namespace Run

variable {state : RunState α} {slot : Nat} {step : Step α} {inputs outputs : List Value}

/-- Slots with nothing in them that is not in some others. -/
def Within (slots others : Array (Option Value)) : Prop :=
  ∀ (slot : Nat) (value : Value), slots[slot]? = some (some value) →
    others[slot]? = some (some value)

theorem Within.refl (slots : Array (Option Value)) : Within slots slots := fun _ _ found => found

theorem setSlot_ends {value : Option Value} : Ends (setSlot slot value) state
    (fun _ final => final = { state with slots := state.slots.setIfInBounds slot value })
    (· = state) := by
  change Ends (if slot < state.slots.size then _ else _ : Run α Unit) state _ _
  split
  · rfl
  · rfl

theorem getElem?_of_emptied {slots : Array (Option Value)} {other : Nat} {value : Value}
    (found : (slots.setIfInBounds slot none)[other]? = some (some value)) :
    slots[other]? = some (some value) := by
  by_cases same : slot = other
  · rw [Array.getElem?_setIfInBounds, if_pos same] at found
    split at found <;> cases found
  · rwa [Array.getElem?_setIfInBounds_ne same] at found

theorem slot?_ends : Ends (slot? slot) state
    (fun content final => final = state ∧ state.slots[slot]? = some content) (· = state) := by
  cases found : state.slots[slot]? with
  | some content =>
    unfold Ends
    rw [slot?_of_some found]
    exact ⟨rfl, rfl⟩
  | none =>
    unfold Ends slot?
    rw [(bind_of_ok rfl : (get >>= _ : Run α (Option Value)) state = _), found]
    rfl

theorem readSlot_ends : Ends (readSlot slot) state
    (fun value final => final = state ∧ state.slots[slot]? = some (some value)) (· = state) := by
  refine slot?_ends.bind ?_
  rintro content _ ⟨rfl, found⟩
  cases content with
  | none => rfl
  | some value => exact ⟨rfl, found⟩

theorem readSlots_ends {slots : List Nat} : Ends (slots.mapM readSlot) state
    (fun values final => final = state ∧
      List.Forall₂ (fun slot value => state.slots[slot]? = some (some value)) slots values)
    (· = state) := by
  induction slots with
  | nil => exact ⟨rfl, List.Forall₂.nil⟩
  | cons slot rest ih =>
    rw [List.mapM_cons]
    refine readSlot_ends.bind ?_
    rintro value _ ⟨rfl, found⟩
    refine ih.bind ?_
    rintro values _ ⟨rfl, others⟩
    exact ⟨rfl, List.Forall₂.cons found others⟩

theorem onMemory_ends {β ε : Type} {wrap : ε → RunError} {action : Action α ε β}
    {good : β → Memory α → Prop} {bad : Memory α → Prop} (ends : Ends action state.memory good bad) :
    Ends (onMemory wrap action) state
      (fun value final => final.slots = state.slots ∧ good value final.memory)
      (fun final => bad final.memory) := by
  cases ran : action state.memory with
  | ok value memory =>
    unfold Ends
    rw [onMemory_of_ok ran]
    exact ⟨rfl, ends.of_ok ran⟩
  | error failure memory =>
    unfold Ends
    rw [onMemory_of_error ran]
    exact ends.of_error ran

/-- A root slot that has been loaded holds the value of its source. -/
theorem loadRoot_ends {arguments : List Value} {source : Source} :
    Ends (loadRoot arguments (slot, source)) state
      (fun _ final => ∃ content, final = { state with slots := state.slots.setIfInBounds slot content } ∧
        ∀ value, content = some value → source.value? state.memory arguments = some value)
      (· = state) := by
  rcases loadRoot_eq state arguments slot source with same | ⟨container, rfl, released⟩
  · refine Ends.congr same (setSlot_ends.imp ?_ fun _ same => same)
    exact fun _ final filled => ⟨_, filled, fun value found => found⟩
  · unfold Ends
    rw [loadRoot_of_released released]

/-- Nothing has happened, but slots may have been filled or emptied. -/
structure Idles (before after : RunState α) : Prop where
  memory : after.memory = before.memory
  size : after.slots.size = before.slots.size
  executed : after.executed = before.executed

theorem load_idles (schedule : Schedule α) (arguments : List Value) (state : RunState α) :
    Ends (load schedule arguments) state (fun _ final => Idles state final) (Idles state) := by
  by_cases count : arguments.length = schedule.arity
  · apply Ends.congr (load_of_count count)
    refine Ends.forM (fun _ final => Idles state final) ⟨rfl, rfl, rfl⟩ ?_
    rintro done ⟨slot, source⟩ rest middle _ idles
    refine loadRoot_ends.imp ?_ fun _ unchanged => unchanged ▸ idles
    rintro _ _ ⟨content, rfl, _⟩
    exact ⟨idles.memory, by simpa using idles.size, idles.executed⟩
  · unfold Ends
    rw [load_of_miscount count]
    exact ⟨rfl, rfl, rfl⟩

/-- Loading changes no more than slots, and puts nothing there but the values of sources. -/
structure Loads (schedule : Schedule α) (arguments : List Value) (before after : RunState α) :
    Prop where
  memory : after.memory = before.memory
  origin : ∀ (slot : Nat) (value : Value), after.slots[slot]? = some (some value) →
    before.slots[slot]? = some (some value) ∨ ∃ source, (slot, source) ∈ schedule.roots ∧
      source.value? before.memory arguments = some value

theorem load_ends {schedule : Schedule α} {arguments : List Value}
    (sources : ∀ slot source source', (slot, source) ∈ schedule.roots →
      (slot, source') ∈ schedule.roots → source = source') :
    Ends (load schedule arguments) state
      (fun _ final => Loads schedule arguments state final ∧
        ∀ slot source, (slot, source) ∈ schedule.roots → ∀ value,
          final.slots[slot]? = some (some value) →
            source.value? state.memory arguments = some value)
      (Loads schedule arguments state) := by
  have untouched : Loads schedule arguments state state := ⟨rfl, fun _ _ found => Or.inl found⟩
  by_cases count : arguments.length = schedule.arity
  · apply Ends.congr (load_of_count count)
    apply Ends.forM (fun (done : List (Nat × Source)) (final : RunState α) =>
      Loads schedule arguments state final ∧ ∀ slot source, (slot, source) ∈ done →
        ∀ value, final.slots[slot]? = some (some value) →
          source.value? state.memory arguments = some value) ⟨untouched, by simp⟩
    rintro done ⟨slot, source⟩ rest middle split ⟨loads, loaded⟩
    have here : (slot, source) ∈ schedule.roots := by simp [split]
    refine loadRoot_ends.imp ?_ ?_
    · rintro _ _ ⟨content, rfl, given⟩
      have loadedHere : ∀ value,
          (middle.slots.setIfInBounds slot content)[slot]? = some (some value) →
            source.value? state.memory arguments = some value := by
        intro value found
        rw [Array.getElem?_setIfInBounds, if_pos rfl] at found
        split at found
        · rw [← loads.memory]
          exact given value (Option.some.inj found)
        · cases found
      refine ⟨⟨loads.memory, ?_⟩, ?_⟩
      · intro other value found
        by_cases same : slot = other
        · subst same
          exact Or.inr ⟨source, here, loadedHere value found⟩
        · rw [Array.getElem?_setIfInBounds_ne same] at found
          exact loads.origin other value found
      · intro other source' member value found
        by_cases same : slot = other
        · subst same
          have listed : (slot, source') ∈ schedule.roots := by
            rw [split]
            rcases List.mem_append.mp member with member | member
            · simp [member]
            · simp [List.mem_singleton.mp member]
          rw [sources slot source' source listed here]
          exact loadedHere value found
        · rw [Array.getElem?_setIfInBounds_ne same] at found
          refine loaded other source' ?_ value found
          rcases List.mem_append.mp member with member | member
          · exact member
          · cases List.mem_singleton.mp member
            exact absurd rfl same
    · rintro _ rfl
      exact loads
  · unfold Ends
    rw [load_of_miscount count]
    exact untouched

theorem store_ends : Ends (store step outputs) state
    (fun _ final => final = { state with slots := fill state.slots (step.outputs.zip outputs) })
    (fun final => final.memory = state.memory) := by
  unfold store
  refine Ends.forM (fun done final => final = { state with slots := fill state.slots done }) rfl ?_
  rintro done ⟨slot, value⟩ rest _ _ rfl
  refine setSlot_ends.imp ?_ ?_
  · rintro _ _ rfl
    simp [fill]
  · rintro _ rfl
    rfl

variable [Arithmetic α]

/-- A state has the memory of another one, and slots with nothing in them that was not there. -/
structure Narrows (before : RunState α) (slots : Array (Option Value)) (after : RunState α) : Prop where
  memory : after.memory = before.memory
  slots : Within after.slots slots

theorem concludePlanned_ends {options : LinkOptions} :
    Ends (concludePlanned options step inputs outputs) state
      (fun _ final => Narrows state (fill state.slots (step.outputs.zip outputs)) final)
      (fun final => final.memory = state.memory) := by
  have ending : ∀ events, Ends (do
      store step outputs
      if options.collect then step.frees.forM fun slot => setSlot slot none
      count step : Run α Unit) { state with events }
      (fun _ final => Narrows state (fill state.slots (step.outputs.zip outputs)) final)
      (fun final => final.memory = state.memory) := by
    intro events
    refine store_ends.bind ?_
    rintro _ _ rfl
    cases options.collect with
    | false => exact ⟨rfl, .refl _⟩
    | true =>
      refine Ends.bind (Ends.forM
        (fun _ final => Narrows state (fill state.slots (step.outputs.zip outputs)) final)
        ⟨rfl, .refl _⟩ ?_) ?_
      · intro done slot rest middle _ narrows
        refine setSlot_ends.imp ?_ ?_
        · rintro _ _ rfl
          exact ⟨narrows.memory, fun other value found =>
            narrows.slots other value (getElem?_of_emptied found)⟩
        · rintro _ rfl
          exact narrows.memory
      · intro _ final narrows
        exact ⟨narrows.memory, narrows.slots⟩
  unfold concludePlanned
  cases options.monitored with
  | false => exact ending state.events
  | true => exact Ends.after rfl (ending _)

theorem conclude_ends {monitored : Bool} : Ends (conclude monitored step inputs outputs) state
    (fun _ final => Narrows state (fill state.slots (step.outputs.zip outputs)) final)
    (fun final => final.memory = state.memory) := by
  -- A planned step that does not collect ends in the same way.
  change Ends (concludePlanned ⟨false, monitored⟩ step inputs outputs) state _ _
  exact concludePlanned_ends

/-- A step has read its inputs and may have been offered a value from one of its output slots, which is
emptied. The value is in no slot any more, it is none of the inputs, and nobody outside holds it. -/
structure Offers (heldOutside : BufferId → Bool) (step : Step α) (before : RunState α)
    (inputs : List Value) (spare : Option Value) (after : RunState α) : Prop where
  read : List.Forall₂ (fun slot value => before.slots[slot]? = some (some value)) step.inputs inputs
  narrows : Narrows before before.slots after
  origin : ∀ value ∈ spare, ∃ slot ∈ step.outputs, before.slots[slot]? = some (some value)
  unheld : ∀ value ∈ spare, heldOutside value.buffer = false
  unread : ∀ value ∈ spare, ∀ input ∈ inputs, input.buffer ≠ value.buffer
  unslotted : ∀ value ∈ spare, ∀ (slot : Nat) (content : Value),
    after.slots[slot]? = some (some content) → content.buffer ≠ value.buffer

omit [Arithmetic α] in
theorem offers_nothing {heldOutside : BufferId → Bool}
    (read : List.Forall₂ (fun slot value => state.slots[slot]? = some (some value)) step.inputs
      inputs) : Offers heldOutside step state inputs none state where
  read := read
  narrows := ⟨rfl, .refl _⟩
  origin := by simp
  unheld := by simp
  unread := by simp
  unslotted := by simp

omit [Arithmetic α] in
theorem offer_ends {options : LinkOptions} {heldOutside : BufferId → Bool}
    (read : List.Forall₂ (fun slot value => state.slots[slot]? = some (some value)) step.inputs
      inputs) :
    Ends (offer options heldOutside step inputs) state
      (fun spare final => Offers heldOutside step state inputs spare final)
      (fun final => final.memory = state.memory) := by
  have nothing : Ends (pure none : Run α (Option Value)) state
      (fun spare final => Offers heldOutside step state inputs spare final)
      (fun final => final.memory = state.memory) :=
    Ends.pure (offers_nothing read)
  unfold offer
  split
  · exact nothing
  · unfold takeLeftover
    split
    · exact nothing
    · rename_i slot first
      refine (slot?_ends.imp (fun _ _ holds => holds) fun _ same => same ▸ rfl).bind ?_
      rintro content middle ⟨rfl, found⟩
      cases content with
      | none => exact nothing
      | some value =>
        refine (setSlot_ends.imp (fun _ _ holds => holds) fun _ same => same ▸ rfl).bind ?_
        rintro _ _ rfl
        refine Ends.after rfl (Ends.pure ?_)
        have emptied : Narrows middle middle.slots
            { middle with slots := middle.slots.setIfInBounds slot none } :=
          ⟨rfl, fun other content found => getElem?_of_emptied found⟩
        split
        · exact { offers_nothing read with narrows := emptied, unslotted := by simp }
        · rename_i free
          simp only [Bool.or_eq_true, not_or, Bool.not_eq_true] at free
          rcases free with ⟨⟨alone, unread⟩, unheld⟩
          refine ⟨read, emptied, ?_, ?_, ?_, ?_⟩
          · rintro _ ⟨⟩
            exact ⟨slot, List.mem_of_mem_head? first, found⟩
          · rintro _ ⟨⟩
            exact unheld
          · rintro _ ⟨⟩ input member
            simpa using List.any_eq_false.mp unread input member
          · rintro _ ⟨⟩ other content held
            have member := Array.mem_of_getElem? held
            simpa using Array.any_eq_false'.mp alone _ member

end Run

/-- An operation has been performed, as it stands or as planned. -/
def Op.Attempts [Arithmetic α] (op : Op α) (inputs : List Value) (spare : Option Value)
    (memory : Memory α) (outcome : EStateM.Result (Failure OpError) (Memory α) (List Value)) : Prop :=
  op.perform inputs memory = outcome ∨ op.performPlanned inputs spare memory = outcome

namespace Run

variable [Arithmetic α] {state : RunState α} {step : Step α} {heldOutside : BufferId → Bool}

/-- What a step that succeeds does. -/
inductive Moves (heldOutside : BufferId → Bool) (step : Step α) (before after : RunState α) : Prop
  | intro {inputs outputs : List Value} {spare : Option Value} {middle : RunState α}
      (offers : Offers heldOutside step before inputs spare middle)
      (ran : step.op.Attempts inputs spare middle.memory (.ok outputs after.memory))
      (filled : Within after.slots (fill middle.slots (step.outputs.zip outputs)))

/-- What a step that fails may have done to the memory. -/
inductive Halts (heldOutside : BufferId → Bool) (step : Step α) (before : RunState α) :
    Memory α → Prop
  | idle : Halts heldOutside step before before.memory
  | failed {inputs : List Value} {spare : Option Value} {middle : RunState α}
      {failure : Failure OpError} {after : Memory α}
      (offers : Offers heldOutside step before inputs spare middle)
      (ran : step.op.Attempts inputs spare middle.memory (.error failure after)) :
      Halts heldOutside step before after
  | unstored {inputs outputs : List Value} {spare : Option Value} {middle : RunState α}
      {after : Memory α} (offers : Offers heldOutside step before inputs spare middle)
      (ran : step.op.Attempts inputs spare middle.memory (.ok outputs after)) :
      Halts heldOutside step before after

/-- A step ends with its operation and with the outputs in slots. -/
theorem finish_ends {inputs : List Value} {spare : Option Value} {middle : RunState α}
    {action : Action α OpError (List Value)} {conclusion : List Value → Run α Unit}
    (offers : Offers heldOutside step state inputs spare middle)
    (attempts : ∀ outcome, action middle.memory = outcome →
      step.op.Attempts inputs spare middle.memory outcome)
    (concluded : ∀ outputs state, Ends (conclusion outputs) state
      (fun _ final => Narrows state (fill state.slots (step.outputs.zip outputs)) final)
      (fun final => final.memory = state.memory)) :
    Ends (onMemory (RunError.op step.node step.op.name) action >>= conclusion) middle
      (fun _ final => Moves heldOutside step state final)
      (fun final => Halts heldOutside step state final.memory) := by
  have performed : Ends action middle.memory
      (fun outputs after => step.op.Attempts inputs spare middle.memory (.ok outputs after))
      (fun after => Halts heldOutside step state after) :=
    Ends.intro (fun outputs after ran => attempts _ ran)
      fun failure after ran => .failed offers (attempts _ ran)
  refine (onMemory_ends performed).bind ?_
  rintro outputs filled ⟨sameSlots, ran⟩
  refine (concluded outputs filled).imp ?_ ?_
  · intro _ final narrows
    exact .intro offers (narrows.memory ▸ ran) (sameSlots ▸ narrows.slots)
  · intro final same
    rw [same]
    exact .unstored offers ran

end Run

namespace Executable

variable [Arithmetic α] {executable : Executable α} {heldOutside : BufferId → Bool}
  {arguments : List Value} {start : Memory α} {state : RunState α}

/-- What an executable does for a step. -/
def step (executable : Executable α) (heldOutside : BufferId → Bool) : Step α → Run α Unit :=
  match executable.linker with
  | .perform => Run.interpretStep executable.options.monitored
  | .plan => Run.planStep executable.options heldOutside

theorem step_ends {step : Step α} : Ends (executable.step heldOutside step) state
    (fun _ final => Run.Moves heldOutside step state final)
    (fun final => Run.Halts heldOutside step state final.memory) := by
  have read : Ends (step.inputs.mapM Run.readSlot) state
      (fun inputs final => final = state ∧ List.Forall₂ (fun slot value =>
        state.slots[slot]? = some (some value)) step.inputs inputs)
      (fun final => Run.Halts heldOutside step state final.memory) :=
    Run.readSlots_ends.imp (fun _ _ holds => holds) fun _ same => same ▸ .idle
  rcases executable with ⟨_, linker, options, _⟩
  cases linker with
  | perform =>
    have same : Run.interpretStep options.monitored step = (do
        let inputs ← step.inputs.mapM Run.readSlot
        let outputs ← Run.onMemory (RunError.op step.node step.op.name) (step.op.perform inputs)
        Run.conclude options.monitored step inputs outputs) := rfl
    refine Ends.congr (congrFun same state) ?_
    refine read.bind ?_
    rintro inputs _ ⟨rfl, found⟩
    exact Run.finish_ends (Run.offers_nothing found) (fun _ ran => Or.inl ran)
      fun _ _ => Run.conclude_ends
  | plan =>
    refine Ends.congr (congrFun (Run.planStep_eq options heldOutside step) state) ?_
    refine read.bind ?_
    rintro inputs _ ⟨rfl, found⟩
    refine ((Run.offer_ends found).imp (fun _ _ holds => holds) fun _ same => same ▸ .idle).bind ?_
    intro spare middle offers
    exact Run.finish_ends offers (fun _ ran => Or.inr ran) fun _ _ => Run.concludePlanned_ends

/-- The ways in which a run can end, with what it leaves in the slots of the executable. -/
inductive Ran (executable : Executable α) (heldOutside : BufferId → Bool) (arguments : List Value)
    (start : Memory α) :
    Checked RunError (List Value) → Array (Option Value) → Memory α → Prop
  | unloaded {slots left : Array (Option Value)} {failure : Failure RunError} {final : RunState α}
      (initial : Run.Within slots executable.slots)
      (failed : Run.load executable.schedule arguments ⟨start, slots, [], []⟩ = .error failure final)
      (kept : Run.Within left executable.slots ∨ Run.Within left final.slots) :
      Ran executable heldOutside arguments start (Except.error failure) left final.memory
  | stopped {slots left : Array (Option Value)} {failure : Failure RunError}
      {loaded final : RunState α} (initial : Run.Within slots executable.slots)
      (ready : Run.load executable.schedule arguments ⟨start, slots, [], []⟩ = .ok () loaded)
      (failed : Run.steps executable.schedule (executable.step heldOutside) loaded =
        .error failure final)
      (kept : Run.Within left executable.slots) :
      Ran executable heldOutside arguments start (Except.error failure) left final.memory
  | finished {slots left : Array (Option Value)} {values : List Value} {loaded final : RunState α}
      (initial : Run.Within slots executable.slots)
      (ready : Run.load executable.schedule arguments ⟨start, slots, [], []⟩ = .ok () loaded)
      (ran : Run.steps executable.schedule (executable.step heldOutside) loaded = .ok values final)
      (kept : Run.Within left executable.slots ∨ Run.Within left final.slots) :
      Ran executable heldOutside arguments start (Except.ok values) left final.memory

omit [Arithmetic α] in
theorem within_none {slots others : Array (Option Value)}
    (empty : ∀ content ∈ slots, content = none) : Run.Within slots others := by
  intro slot value found
  cases empty _ (Array.mem_of_getElem? found)

omit [Arithmetic α] in
theorem within_slotsAfter (executable : Executable α) (slots : Array (Option Value)) :
    Run.Within (executable.slotsAfter slots false) slots := by
  rw [slotsAfter_eq]
  split
  · exact within_none (by simp)
  · exact fun slot value found => Run.getElem?_of_clear found

theorem ran_run (executable : Executable α) (heldOutside : BufferId → Bool) (arguments : List Value)
    (start : Memory α) : executable.Ran heldOutside arguments start
      (executable.run heldOutside arguments start).result
      (executable.run heldOutside arguments start).executable.slots
      (executable.run heldOutside arguments start).memory := by
  rcases executable with ⟨schedule, linker, options, slots⟩
  unfold run
  cases linker with
  | perform =>
    have empty : Run.Within (Array.replicate schedule.slotCount none) slots := within_none (by simp)
    dsimp only
    cases loading : Run.load schedule arguments
        ⟨start, Array.replicate schedule.slotCount none, [], []⟩ with
    | error failure final =>
      rw [bind_of_error loading]
      exact .unloaded empty loading (Or.inl (.refl _))
    | ok _ loaded =>
      rw [bind_of_ok loading]
      split
      · rename_i ran
        exact .finished empty loading ran (Or.inl (.refl _))
      · rename_i failed
        exact .stopped empty loading failed (.refl _)
  | plan =>
    dsimp only
    split
    · rename_i failed
      exact .unloaded (.refl _) failed (Or.inr (.refl _))
    · rename_i loading
      split
      · rename_i ran
        exact .finished (.refl _) loading ran (Or.inr (within_slotsAfter _ _))
      · rename_i failed
        exact .stopped (.refl _) loading failed (within_none (by simp [slotsAfter]))

end Executable

namespace Dataflow

variable {graph : Dataflow α} {order : List NodeId} {vars : List VarId} {schedule : Schedule α}
  {state : RunState α}

/-- What the steps of a run keep, one node after the other, holds once all of them have been taken. -/
theorem steps_ends (laysOut : schedule.LaysOut graph order vars) {run : Step α → Run α Unit}
    (holds : List NodeId → RunState α → Prop) (bad : RunState α → Prop)
    (each : ∀ front id back node step state, order = front ++ id :: back →
      schedule.steps[front.length]? = some step → graph.node? id = some node →
        Schedule.StandsFor vars step id node → holds front state →
          Ends (run step) state (fun _ final => holds (front ++ [id]) final) bad)
    (last : ∀ final, holds order final → bad final) (first : holds [] state) :
    Ends (Run.steps schedule run) state
      (fun values final => holds order final ∧
        List.Forall₂ (fun var value => final.slots[vars.idxOf var]? = some (some value))
          graph.outputs values) bad := by
  unfold Run.steps
  have whole : order.take schedule.steps.length = order := by
    rw [← laysOut.steps.length_eq, List.take_length]
  refine Ends.bind (Ends.forM (fun done final => holds (order.take done.length) final) first ?_) ?_
  · intro done step rest middle split before
    have related := laysOut.steps
    rw [split] at related
    rcases forall₂_split related with ⟨front, id, back, orderSplit, ahead, ⟨node, live, stands⟩, _⟩
    have length := ahead.length_eq
    have taken : order.take done.length = front := by
      rw [orderSplit, ← length, List.take_left]
    rw [taken] at before
    have next : order.take (done ++ [step]).length = front ++ [id] := by
      rw [orderSplit, List.length_append, ← length, List.length_singleton, List.take_append,
        List.take_of_length_le (Nat.le_succ _)]
      simp
    rw [next]
    exact each front id back node step middle orderSplit (by simp [split, length]) live stands before
  · intro _ final after
    rw [whole] at after
    refine Run.readSlots_ends.imp ?_ ?_
    · rintro values _ ⟨rfl, read⟩
      rw [laysOut.outputs, List.forall₂_map_left_iff] at read
      exact ⟨after, read⟩
    · rintro _ rfl
      exact last _ after

end Dataflow

end ArrayGraph
