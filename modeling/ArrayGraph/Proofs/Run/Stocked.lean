import ArrayGraph.Proofs.Dataflow.Invariant
import ArrayGraph.Proofs.Numbering
import ArrayGraph.Proofs.Run.Progress

/-!
# Runs find what they read

A run that is given as many arguments as it takes never comes to an empty slot and never to a slot
that is not there, whatever its values are, whatever host functions do and whatever earlier runs have
left behind. It can only fail because a container that it reads has been released, or because an
operation fails.

The invariant is that slots hold what the steps still to be taken will read and not write. Roots are
loaded before the first step; each step finds its inputs, stores its results, and empties no slot that
is read later.
-/

namespace ArrayGraph

variable {α : Type}

/-- A loop gets to its end with what every round keeps, or one of its rounds fails. -/
theorem forM_cases {ε σ κ : Type} {items : List κ} {round : κ → EStateM ε σ PUnit} {state : σ}
    (holds : List κ → List κ → σ → Prop) (fails : ε → Prop)
    (each : ∀ front item rest state, items = front ++ item :: rest → holds front (item :: rest) state →
      (∃ final, round item state = .ok () final ∧ holds (front ++ [item]) rest final) ∨
        ∃ failure final, round item state = .error failure final ∧ fails failure)
    (start : holds [] items state) :
    (∃ final, items.forM round state = .ok () final ∧ holds items [] final) ∨
      ∃ failure final, items.forM round state = .error failure final ∧ fails failure := by
  have loop : ∀ todo done state, items = done ++ todo → holds done todo state →
      (∃ final, todo.forM round state = .ok () final ∧ holds items [] final) ∨
        ∃ failure final, todo.forM round state = .error failure final ∧ fails failure := by
    intro todo
    induction todo with
    | nil =>
      intro done state split start
      rw [List.append_nil] at split
      exact Or.inl ⟨state, rfl, split ▸ start⟩
    | cons item rest ih =>
      intro done state split start
      change (∃ final, (round item >>= fun _ => rest.forM round) state = _ ∧ _) ∨
        ∃ failure final, (round item >>= fun _ => rest.forM round) state = _ ∧ _
      rcases each done item rest state split start with ⟨next, ran, kept⟩ | ⟨failure, final, failed, why⟩
      · rw [bind_of_ok ran]
        exact ih (done ++ [item]) next (by simp [split]) kept
      · rw [bind_of_error failed]
        exact Or.inr ⟨failure, final, rfl, why⟩
  exact loop items [] state rfl start

namespace Op

variable [Arithmetic α] {op : Op α} {inputs outputs : List Value} {spare : Option Value}
  {memory after : Memory α}

/-- An operation that succeeds has as many results as it says, even if it is a host function. -/
theorem Attempts.length (attempts : op.Attempts inputs spare memory (.ok outputs after)) :
    outputs.length = op.resultCount := by
  have single : (∀ function, op ≠ .host function) → op.resultCount = 1 := by
    intro known
    cases op with
    | host function => exact absurd rfl (known function)
    | _ => rfl
  have performed : Ends (op.perform inputs) memory
      (fun outputs _ => outputs.length = op.resultCount) fun _ => True := by
    refine perform_ends_of trivial (fun known _ _ _ => ?_) fun _ _ => ?_
    · exact Ends.intro (fun _ _ _ => (single known).symm) fun _ _ _ => trivial
    · exact Ends.intro (fun _ _ _ => ⟨trivial, fun count => count⟩) fun _ _ _ => trivial
  rcases attempts with ran | ran
  · exact performed.of_ok ran
  · refine (performPlanned_ends_of trivial (fun function same _ _ => ?_) performed).of_ok ran
    exact Ends.intro (fun _ _ _ => (single (by simp [same])).symm) fun _ _ _ => trivial

end Op

namespace Schedule

variable [Arithmetic α] {schedule : Schedule α} {start : Memory α} {failure : Failure RunError}

/-- The reasons for which a run can fail that is given as many arguments as it takes: a container that
it reads has been released, or an operation that it has got to has failed. -/
inductive Blames (schedule : Schedule α) (start : Memory α) : Failure RunError → Prop
  | container {container : ContainerId} (listed : container ∈ schedule.containers)
      (released : (start.container container).value = none) :
      Blames schedule start (.error (.container (.released (start.container container).name)))
  | op {step : Step α} (member : step ∈ schedule.steps) {inputs : List Value} {spare : Option Value}
      {before after : Memory α} {cause : Failure OpError}
      (attempted : step.op.Attempts inputs spare before (.error cause after)) :
      Blames schedule start (cause.map (RunError.op step.node step.op.name))

theorem Blames.not_emptySlot (blames : schedule.Blames start failure) (slot : Nat) :
    failure ≠ .error (.emptySlot slot) := by
  cases blames with
  | container => simp
  | @op _ _ _ _ _ _ cause => cases cause <;> simp [Failure.map]

end Schedule

namespace Run

variable [Arithmetic α] {schedule : Schedule α} {arguments : List Value} {start : Memory α}
  {state : RunState α}

/-- Filling a root slot succeeds unless a container has been released. -/
theorem loadRoot_cases (arguments : List Value) {slot : Nat} {source : Source} (member : (slot, source) ∈ schedule.roots)
    (memory : state.memory = start) (known : slot < state.slots.size)
    (given : ∀ index, source = .argument index → index < arguments.length) :
    (∃ value, loadRoot arguments (slot, source) state =
      .ok () { state with slots := state.slots.setIfInBounds slot (some value) }) ∨
    ∃ failure, loadRoot arguments (slot, source) state = .error failure state ∧
      schedule.Blames start failure := by
  cases found : source.value? state.memory arguments with
  | some value => exact Or.inl ⟨value, loadRoot_of_value found known⟩
  | none =>
    cases source with
    | argument index =>
      exact absurd (List.getElem?_eq_none_iff.mp found) (Nat.not_le.mpr (given index rfl))
    | constant value => cases found
    | shared container =>
      refine Or.inr ⟨_, loadRoot_of_released found arguments slot, ?_⟩
      subst memory
      exact .container (List.mem_filterMap.mpr ⟨_, member, rfl⟩) found

/-- A run that is given as many arguments as it takes fills all root slots, unless a container has been
released. -/
theorem load_cases (sound : schedule.Sound) (count : arguments.length = schedule.arity)
    (indices : ∀ slot index, (slot, .argument index) ∈ schedule.roots → index < schedule.arity)
    {slots : Array (Option Value)} (size : slots.size = schedule.slotCount) :
    (∃ loaded, load schedule arguments ⟨start, slots, [], []⟩ = .ok () loaded ∧
      loaded.slots.size = schedule.slotCount ∧
        ∀ slot, schedule.IsRoot slot → ∃ value, loaded.slots[slot]? = some (some value)) ∨
    ∃ failure final, load schedule arguments ⟨start, slots, [], []⟩ = .error failure final ∧
      schedule.Blames start failure := by
  rw [load_of_count count]
  refine (forM_cases (fun done _ (state : RunState α) => state.memory = start ∧
      state.slots.size = schedule.slotCount ∧ ∀ slot source, (slot, source) ∈ done →
        ∃ value, state.slots[slot]? = some (some value)) (schedule.Blames start) ?_
    ⟨rfl, size, by simp⟩).imp_left ?_
  · rintro done ⟨slot, source⟩ rest state split ⟨memory, size, filled⟩
    have member : (slot, source) ∈ schedule.roots := by simp [split]
    have known : slot < state.slots.size := size ▸ sound.roots_known slot source member
    rcases loadRoot_cases arguments member memory known
      (fun index same => count ▸ indices slot index (same ▸ member)) with
        ⟨value, loaded⟩ | ⟨failure, failed, blames⟩
    · refine Or.inl ⟨_, loaded, memory, by simpa using size, ?_⟩
      intro other source' listed
      by_cases same : slot = other
      · subst same
        exact ⟨value, by simp [known]⟩
      · have earlier : (other, source') ∈ done := by
          rcases List.mem_append.mp listed with earlier | here
          · exact earlier
          · cases List.mem_singleton.mp here
            exact absurd rfl same
        rcases filled other source' earlier with ⟨content, held⟩
        exact ⟨content, by rwa [Array.getElem?_setIfInBounds_ne same]⟩
    · exact Or.inr ⟨failure, state, failed, blames⟩
  · rintro ⟨loaded, ran, _, size, filled⟩
    exact ⟨loaded, ran, size, fun slot ⟨source, member⟩ => filled slot source member⟩

end Run

namespace Executable

variable [Arithmetic α] {executable linked : Executable α} {heldOutside : BufferId → Bool}
  {arguments : List Value} {start : Memory α} {state : RunState α} {step : Step α}
  {front rest : List (Step α)}

theorem attempts_apply (executable : Executable α) {op : Op α} {inputs : List Value}
    {spare : Option Value} {memory : Memory α}
    {outcome : EStateM.Result (Failure OpError) (Memory α) (List Value)}
    (ran : executable.apply op inputs spare memory = outcome) :
    op.Attempts inputs spare memory outcome := by
  rcases executable with ⟨_, linker, _, _⟩
  cases linker with
  | perform => exact Or.inl ran
  | plan => exact Or.inr ran

/-- A step that finds what it reads leaves the others what they read, or its operation fails. -/
theorem step_cases (sound : executable.schedule.Sound)
    (split : executable.schedule.steps = front ++ step :: rest)
    (stocked : executable.schedule.Stocked (step :: rest) state.slots) :
    (∃ final, executable.step heldOutside step state = .ok () final ∧
      executable.schedule.Stocked rest final.slots) ∨
    ∃ failure final, executable.step heldOutside step state = .error failure final ∧
      executable.schedule.Blames start failure := by
  have member : step ∈ executable.schedule.steps := split ▸ by simp
  have known : ∀ slot ∈ step.outputs, slot < state.slots.size :=
    stocked.size ▸ sound.written_known member
  have freed : ∀ slot ∈ step.frees, slot < state.slots.size :=
    stocked.size ▸ sound.freed_known member
  rcases stocked.inputs sound split with ⟨inputs, read⟩
  rcases spare_of_known executable heldOutside inputs known with
    ⟨spare, slots, offered, size, kept, _⟩
  rw [step_eq]
  cases applied : executable.apply step.op inputs spare
      ({ state with slots } : RunState α).memory with
  | error cause after =>
    have stopped : executable.produce heldOutside step state =
        .error (cause.map (RunError.op step.node step.op.name)) { state with slots, memory := after } := by
      unfold Executable.produce
      rw [bind_of_ok (Run.readSlots read), bind_of_ok offered]
      exact bind_of_error (Run.onMemory_of_error applied)
    exact Or.inr ⟨_, _, bind_of_error stopped, .op member (attempts_apply executable applied)⟩
  | ok outputs after =>
    have produced : executable.produce heldOutside step state =
        .ok (inputs, outputs) { state with slots, memory := after } := by
      unfold Executable.produce
      rw [bind_of_ok (Run.readSlots read), bind_of_ok offered]
      exact bind_of_ok (Run.onMemory_of_ok applied)
    rw [bind_of_ok produced]
    rcases conclude_of_known executable { state with slots, memory := after } inputs outputs
      (by simpa [size] using known) (by simpa [size] using freed) with
        ⟨final, concluded, _, stored, _⟩
    refine Or.inl ⟨final, concluded, ?_⟩
    rw [stored]
    refine stocked.store sound split (size.trans stocked.size) (fun slot unwritten => ?_)
      ((attempts_apply executable applied).length.trans (sound.results step member).symm)
      fun _ freed => executable.mem_frees_of_mem_freed freed
    exact (kept slot).resolve_right fun emptied => unwritten emptied.1

/-- Steps that find what they read are all taken and give the outputs, or one of their operations
fails. -/
theorem steps_cases (sound : executable.schedule.Sound)
    (stocked : executable.schedule.Stocked executable.schedule.steps state.slots) :
    (∃ values final, Run.steps executable.schedule (executable.step heldOutside) state =
      .ok values final) ∨
    ∃ failure final, Run.steps executable.schedule (executable.step heldOutside) state =
      .error failure final ∧ executable.schedule.Blames start failure := by
  unfold Run.steps
  rcases forM_cases (fun _ rest (state : RunState α) => executable.schedule.Stocked rest state.slots)
    (executable.schedule.Blames start) (fun _ _ _ _ split stocked => step_cases sound split stocked)
    stocked with ⟨final, ran, stocked⟩ | ⟨failure, final, failed, blames⟩
  · rcases stocked.outputs with ⟨values, read⟩
    exact Or.inl ⟨values, final, (bind_of_ok ran).trans (Run.readSlots read)⟩
  · exact Or.inr ⟨failure, final, bind_of_error failed, blames⟩

/-- A run is loading and taking all steps, from the slots that it starts with. -/
theorem outcome_of_run (executable : Executable α) (heldOutside : BufferId → Bool)
    (arguments : List Value) (start : Memory α) :
    ((executable.run heldOutside arguments start).result,
      (executable.run heldOutside arguments start).memory,
      (executable.run heldOutside arguments start).executed) =
      match (Run.load executable.schedule arguments >>= fun _ =>
        Run.steps executable.schedule (executable.step heldOutside))
          ⟨start, executable.startSlots, [], []⟩ with
      | .ok values final => (Except.ok values, final.memory, final.executed)
      | .error failure final => (Except.error failure, final.memory, final.executed) := by
  rcases executable with ⟨schedule, linker, options, slots⟩
  unfold run
  cases linker with
  | perform =>
    simp only [step, startSlots]
    split <;> simp_all
  | plan =>
    simp only [step, startSlots]
    split
    · rename_i failed
      rw [bind_of_error failed]
    · rename_i loaded
      rw [bind_of_ok loaded]
      split <;> simp_all

theorem result_of_run (executable : Executable α) (heldOutside : BufferId → Bool)
    (arguments : List Value) (start : Memory α) :
    (executable.run heldOutside arguments start).result =
      match (Run.load executable.schedule arguments >>= fun _ =>
        Run.steps executable.schedule (executable.step heldOutside))
          ⟨start, executable.startSlots, [], []⟩ with
      | .ok values _ => Except.ok values
      | .error failure _ => Except.error failure := by
  have same := congrArg (·.1) (outcome_of_run executable heldOutside arguments start)
  dsimp only at same
  rw [same]
  split <;> rfl

/-- A run that is given as many arguments as it takes either succeeds or has a reason to fail. -/
theorem blames_of_run (sound : executable.schedule.Sound)
    (sourced : ∀ slot, (∃ step ∈ executable.schedule.steps, slot ∈ step.inputs) ∨
      slot ∈ executable.schedule.outputs → executable.schedule.IsRoot slot ∨
        ∃ step ∈ executable.schedule.steps, slot ∈ step.outputs)
    (indices : ∀ slot index, (slot, .argument index) ∈ executable.schedule.roots →
      index < executable.schedule.arity)
    (size : executable.startSlots.size = executable.schedule.slotCount)
    (count : arguments.length = executable.schedule.arity) {failure : Failure RunError}
    (failed : (executable.run heldOutside arguments start).result = Except.error failure) :
    executable.schedule.Blames start failure := by
  rw [result_of_run] at failed
  rcases Run.load_cases sound count indices size with
    ⟨loaded, ran, size, filled⟩ | ⟨failure', final, stopped, blames⟩
  · have stocked : executable.schedule.Stocked executable.schedule.steps loaded.slots := by
      refine ⟨size, fun slot needed unwritten => ?_⟩
      rcases sourced slot needed with root | ⟨step, member, output⟩
      · exact filled slot root
      · exact absurd output (unwritten step member)
    rw [bind_of_ok ran] at failed
    rcases steps_cases sound stocked with ⟨values, final, ran⟩ | ⟨failure', final, stopped, blames⟩
    · rw [ran] at failed
      cases failed
    · rw [stopped] at failed
      cases failed
      exact blames
  · rw [bind_of_error stopped] at failed
    cases failed
    exact blames

/-- The states that an executable comes into by runs, whatever they are given and whatever comes of
them. -/
inductive Used (linked : Executable α) : Executable α → Prop
  | linked : Used linked linked
  | run {executable : Executable α} (before : Used linked executable) (heldOutside : BufferId → Bool)
      (arguments : List Value) (memory : Memory α) :
      Used linked (executable.run heldOutside arguments memory).executable

theorem Used.kept (used : linked.Used executable) :
    executable = { linked with slots := executable.slots } := by
  induction used with
  | linked => rfl
  | run before heldOutside arguments memory ih =>
    rw [run_kept, ih]

/-- A run keeps the number of slots. -/
theorem size_run (size : executable.startSlots.size = executable.schedule.slotCount) :
    (executable.run heldOutside arguments start).executable.startSlots.size =
      executable.schedule.slotCount := by
  rw [run_kept]
  cases linker : executable.linker with
  | perform => simp [startSlots]
  | plan =>
    have kept : executable.slots.size = executable.schedule.slotCount := by
      simpa [startSlots, linker] using size
    have ran := planned_run linker heldOutside arguments start
    simp only [startSlots]
    revert ran
    generalize (executable.run heldOutside arguments start).result = result
    generalize (executable.run heldOutside arguments start).executable.slots = slots
    generalize (executable.run heldOutside arguments start).memory = memory
    intro ran
    have taken : ∀ {loaded : RunState α},
        loaded.slots.size = executable.schedule.slotCount →
          Ends (Run.steps executable.schedule (executable.step heldOutside)) loaded
            (fun _ final => final.slots.size = executable.schedule.slotCount)
            (fun final => final.slots.size = executable.schedule.slotCount) := by
      intro loaded size
      refine Run.steps_keep (fun _ state => state.slots.size = executable.schedule.slotCount)
        (fun _ _ _ _ _ same => ?_) (fun _ same => same) size
      exact (step_keeps linker same).imp (fun _ _ ends => ends.1) fun _ same => same
    cases ran with
    | unloaded failed => exact ((Run.load_idles _ _ _).of_error failed).size.trans kept
    | stopped ready failed =>
      have size := ((Run.load_idles _ _ _).of_ok ready).size.trans kept
      exact (size_slotsAfter _ _).trans ((taken size).of_error failed)
    | finished ready ran =>
      have size := ((Run.load_idles _ _ _).of_ok ready).size.trans kept
      exact (size_slotsAfter _ _).trans ((taken size).of_ok ran)

variable {graph : Dataflow α} {orderings : Orderings} {linker : Linker} {options : LinkOptions}
  {log : List LogEntry}

/-- However an executable has been used, it has a slot for every number of its schedule. -/
theorem Used.size (link : Executable.link linker options graph orderings = Except.ok (linked, log))
    (used : linked.Used executable) :
    executable.startSlots.size = executable.schedule.slotCount := by
  induction used with
  | linked =>
    rcases link_eq_ok link with ⟨_, rfl, _, empty⟩
    cases planned : linked.linker with
    | perform => simp [startSlots, planned]
    | plan => simp [startSlots, planned, empty planned]
  | run before heldOutside arguments memory ih =>
    rw [size_run ih, run_kept]

end Executable

namespace Schedule

section Capture

variable [Arithmetic α] {source : Graph α} {graph : Dataflow α} {inputs outputs : List VarId}
  {requireDependence : Bool} {orderings : Orderings} {order : List NodeId}

/-- The schedule of a captured graph whose inputs are declared once is well formed, under whatever
orderings it has an order. So no run on as many arguments as there are inputs comes to an empty slot or
to one that is not there, whichever linker is used and however the executable has been used before. -/
theorem wellFormed_of_capture (built : source.Built)
    (captured : Dataflow.capture source inputs outputs requireDependence = Except.ok graph)
    (distinct : inputs.Nodup) (ordered : graph.order orderings = Except.ok order) :
    ∃ schedule, ofGraph graph orderings = Except.ok schedule ∧
      (∃ slotOf, schedule.Assigns graph order slotOf) ∧ schedule.Ordered ∧
      ∀ linker options, ∃ linked log,
        Executable.link linker options graph orderings = Except.ok (linked, log) ∧
        linked.schedule = schedule ∧
        ∀ executable, linked.Used executable → ∀ heldOutside arguments start,
          arguments.length = inputs.length → ∀ failure,
            (executable.run heldOutside arguments start).result = Except.error failure →
              schedule.Blames start failure ∧ ∀ slot, failure ≠ .error (.emptySlot slot) := by
  have wellFormed := (Dataflow.formed_of_capture built captured).toWellFormed
  have closed := Dataflow.closed_of_capture captured
  have respects := Dataflow.respects_of_order ordered
  have sameInputs : graph.inputs = inputs := by
    rcases Dataflow.capture_eq_ok captured with ⟨rfl, _⟩
    rfl
  have declaredOnce : graph.inputs.Nodup := sameInputs ▸ distinct
  have exists_schedule : ∃ schedule, ofGraph graph orderings = Except.ok schedule :=
    ⟨_, Checked.bind_eq_ok_iff.mpr ⟨order, ordered, rfl⟩⟩
  rcases exists_schedule with ⟨schedule, laid⟩
  rcases laysOut_of_ofGraph declaredOnce laid with ⟨order', vars, ordered', laysOut⟩
  cases ordered.symm.trans ordered'
  have sound := laysOut.sound wellFormed declaredOnce respects
  have inOrder : schedule.Ordered := ⟨laysOut.writesFirst wellFormed closed respects.topological,
    laysOut.outputs_written wellFormed closed respects.topological, freesLast_of_ofGraph laid⟩
  refine ⟨schedule, laid, ⟨_, laysOut.assigns respects.topological⟩, inOrder, ?_⟩
  intro linker options
  have exists_link : ∃ linked log,
      Executable.link linker options graph orderings = Except.ok (linked, log) := by
    unfold Executable.link
    rw [laid]
    cases linker <;> exact ⟨_, _, rfl⟩
  rcases exists_link with ⟨linked, log, link⟩
  have same : linked.schedule = schedule :=
    Except.ok.inj ((Executable.link_eq_ok link).1.symm.trans laid)
  refine ⟨linked, log, link, same, ?_⟩
  intro executable used heldOutside arguments start count failure failed
  have same : executable.schedule = schedule := by rw [used.kept, same]
  have blames := Executable.blames_of_run (same ▸ sound) ?_ ?_ (used.size link) ?_ failed
  · rw [same] at blames
    exact ⟨blames, blames.not_emptySlot⟩
  · rw [same]
    exact laysOut.sourced wellFormed closed respects.topological
  · rw [same]
    exact laysOut.lt_arity
  · rw [same, laysOut.arity, sameInputs, count]

end Capture

open Dataflow

/-- The second of two steps frees what the first has computed, and a plan that collects empties it. -/
theorem wellFormed_of_capture_capturedExponential :
    capture negatedExponential [⟨0⟩] [⟨2⟩] true = Except.ok capturedExponential ∧
    ([⟨0⟩] : List VarId).Nodup ∧
    capturedExponential.order ⟨[]⟩ = Except.ok [⟨0⟩, ⟨1⟩] ∧
    ∃ schedule, ofGraph capturedExponential ⟨[]⟩ = Except.ok schedule ∧
      (∃ slotOf, schedule.Assigns capturedExponential [⟨0⟩, ⟨1⟩] slotOf) ∧ schedule.Ordered ∧
      ∀ linker options, ∃ linked log,
        Executable.link linker options capturedExponential ⟨[]⟩ = Except.ok (linked, log) ∧
        linked.schedule = schedule ∧
        ∀ executable, linked.Used executable → ∀ heldOutside arguments start,
          arguments.length = 1 → ∀ failure,
            (executable.run heldOutside arguments start).result = Except.error failure →
              schedule.Blames start failure ∧ ∀ slot, failure ≠ .error (.emptySlot slot) := by
  have captured : capture negatedExponential [⟨0⟩] [⟨2⟩] true = Except.ok capturedExponential := by
    cbv
  have ordered : capturedExponential.order ⟨[]⟩ = Except.ok [⟨0⟩, ⟨1⟩] := by cbv
  exact ⟨captured, by decide, ordered,
    wellFormed_of_capture built_negatedExponential captured (by decide) ordered⟩

/-- The same graph with its input declared twice. -/
def declaredTwice : Dataflow Float := { capturedExponential with inputs := [⟨0⟩, ⟨0⟩] }

/-- An input that is declared twice is read from a slot that nothing fills. -/
theorem emptySlot_of_capture_declaredTwice :
    capture negatedExponential [⟨0⟩, ⟨0⟩] [⟨2⟩] true = Except.ok declaredTwice ∧
    declaredTwice.order ⟨[]⟩ = Except.ok [⟨0⟩, ⟨1⟩] ∧
    ∃ schedule, ofGraph declaredTwice ⟨[]⟩ = Except.ok schedule ∧
      (∀ slotOf, ¬schedule.Assigns declaredTwice [⟨0⟩, ⟨1⟩] slotOf) ∧
      ∃ linked log, Executable.link .perform ⟨true, false⟩ declaredTwice ⟨[]⟩ =
          Except.ok (linked, log) ∧
        (linked.run (fun _ => true) [⟨.float64, [2], ⟨0⟩⟩, ⟨.float64, [2], ⟨0⟩⟩]
          ⟨#[#[1, 2]], #[]⟩).result = Except.error (.error (.emptySlot 1)) := by
  refine ⟨by cbv, by cbv, _, rfl, ?_, _, _, rfl, rfl⟩
  intro slotOf assigns
  have read : [1] = [slotOf ⟨0⟩] := by
    cases assigns.steps with
    | cons first _ =>
      rcases first with ⟨node, live, _, _, inputs, _⟩
      cases live
      exact inputs
  rcases assigns.inputs ⟨0⟩ (by decide) with ⟨index, _, loaded⟩
  have member := (loaded (.argument index)).mpr rfl
  rw [← List.singleton_inj.mp read] at member
  cases List.mem_singleton.mp member

end Schedule

end ArrayGraph
