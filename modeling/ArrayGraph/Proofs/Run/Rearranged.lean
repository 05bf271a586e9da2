import ArrayGraph.Proofs.Dataflow.Alike
import ArrayGraph.Proofs.Run.Slots

/-!
# Runs over rearranged slots

The same values may come to an executable in another order, for instance because its inputs are
declared in another order. Executables that differ in nothing but the places of their inputs do the
same thing with values in their places: they perform the same operations on the same values, leave the
same memory and tell of the same events.
-/

namespace ArrayGraph

variable {α β γ δ ε κ : Type}

theorem idxOf_map [DecidableEq β] [DecidableEq γ] {f : β → γ} (injective : Function.Injective f)
    (items : List β) (item : β) : (items.map f).idxOf (f item) = items.idxOf item := by
  induction items with
  | nil => rfl
  | cons head rest ih => simp [List.idxOf_cons, injective.beq_eq, ih]

/-- A step over slots in other places. -/
def Step.relocate (π : Equiv.Perm Nat) (step : Step α) : Step α :=
  { step with
    inputs := step.inputs.map π
    outputs := step.outputs.map π
    frees := step.frees.map π }

/-- The root slots of the first arguments. -/
def Schedule.argumentRoots (arity : Nat) : List (Nat × Source) :=
  (List.range arity).map fun index => (index, .argument index)

namespace SlotTable

/-- Tables that give the same slots to variables, up to a permutation of those that arguments are put
into. -/
structure Alike (σ : VarId → VarId) (π : Equiv.Perm Nat) (arity : Nat) (table table' : SlotTable) :
    Prop where
  slot : ∀ id, table'.slots.lookup (σ id) = (table.slots.lookup id).map π
  length : table'.slots.length = table.slots.length
  enough : arity ≤ table.slots.length
  roots : table'.roots = table.roots
  rest : ∃ rest, table.roots = Schedule.argumentRoots arity ++ rest ∧
    ∀ entry ∈ rest, arity ≤ entry.1 ∧ ∀ index, entry.2 ≠ .argument index

/-- The table of declared inputs that are all different. -/
theorem declare_eq (graph : Dataflow α) (distinct : graph.inputs.Nodup) :
    graph.inputs.zipIdx.foldl (fun table (id, index) => table.declare id index) empty =
      ⟨graph.inputs.zipIdx, Schedule.argumentRoots graph.inputs.length⟩ := by
  have sources : graph.inputs.zipIdx.filterMap (fun (var, slot) =>
      (graph.source? var).map fun source => (slot, source)) =
        Schedule.argumentRoots graph.inputs.length := by
    rw [Schedule.argumentRoots, List.range_eq_range', ← List.zipIdx_map_snd, List.map_map,
      ← List.filterMap_eq_map']
    refine List.filterMap_congr fun entry member => ?_
    have found := List.mem_zipIdx_iff_getElem?.mp member
    rcases List.getElem?_eq_some_iff.mp found with ⟨within, same⟩
    have place := distinct.idxOf_getElem _ within
    rw [same] at place
    simp [Dataflow.source?, List.mem_of_getElem? found, place]
  have numbers := numbers_declare distinct (List.nil_append graph.inputs).symm numbers_empty
  generalize List.foldl _ empty _ = table at numbers ⊢
  rcases table with ⟨slots, roots⟩
  rw [SlotTable.mk.injEq, ← sources]
  exact ⟨numbers.slots, numbers.roots⟩

variable {σ : VarId → VarId} {π : Equiv.Perm Nat} {arity : Nat} {table table' : SlotTable}
  {graph other : Dataflow α}

theorem alike_declare (alike : graph.Alike σ π other) :
    Alike σ π graph.inputs.length
      (graph.inputs.zipIdx.foldl (fun table (id, index) => table.declare id index) empty)
      (other.inputs.zipIdx.foldl (fun table (id, index) => table.declare id index) empty) := by
  rw [declare_eq graph alike.distinct, declare_eq other alike.distinct_other]
  have length : other.inputs.length = graph.inputs.length := by
    rw [alike.inputs.length, List.length_map]
  refine ⟨fun id => ?_, ?_, ?_, ?_, [], ?_, ?_⟩
  · rw [lookup_zipIdx, lookup_zipIdx]
    have listed : σ id ∈ other.inputs ↔ id ∈ graph.inputs := alike.mem_inputs_iff
    by_cases member : id ∈ graph.inputs
    · rw [if_pos member, if_pos (listed.mpr member),
        alike.inputs.idxOf alike.distinct_other (alike.exchanges.mem_map_iff.mpr member)]
      simp [idxOf_map alike.exchanges.injective]
    · rw [if_neg member, if_neg (mt listed.mp member)]
      rfl
  · simpa using length
  · simp
  · rw [length]
  · rw [List.append_nil]
  · exact fun entry none => nomatch none

theorem Alike.slotOf (tables : Alike σ π arity table table') (alike : graph.Alike σ π other)
    (back : ∀ slot, arity ≤ slot → π slot = slot) (id : VarId) :
    (SlotTable.slotOf other table' (σ id)).1 = π (SlotTable.slotOf graph table id).1 ∧
      Alike σ π arity (SlotTable.slotOf graph table id).2
        (SlotTable.slotOf other table' (σ id)).2 := by
  unfold SlotTable.slotOf
  rw [tables.slot]
  cases found : table.slots.lookup id with
  | some slot => exact ⟨rfl, tables⟩
  | none =>
    simp only [Option.map_none, tables.length, alike.kind_eq, tables.roots]
    refine ⟨(back _ tables.enough).symm, fun id' => ?_, ?_, ?_, rfl, ?_⟩
    · rw [List.lookup_append, List.lookup_append, tables.slot, lookup_cons_ite, lookup_cons_ite,
        Option.map_or]
      simp only [alike.exchanges.eq_iff, List.lookup_nil]
      split
      · rw [Option.map_some, back _ tables.enough]
      · rfl
    · simp [tables.length]
    · simpa using Nat.le_succ_of_le tables.enough
    · rcases tables.rest with ⟨rest, roots, apart⟩
      refine ⟨rest ++ _, by rw [roots, List.append_assoc], fun entry member => ?_⟩
      rcases List.mem_append.mp member with member | member
      · exact apart entry member
      · rcases Option.map_eq_some_iff.mp (Option.mem_toList.mp member) with ⟨source, isRoot, rfl⟩
        refine ⟨tables.enough, fun index same => ?_⟩
        subst same
        cases kind : (graph.var id).kind <;> simp [rootSource?, kind] at isRoot

theorem Alike.slotsOf (tables : Alike σ π arity table table') (alike : graph.Alike σ π other)
    (back : ∀ slot, arity ≤ slot → π slot = slot) (ids : List VarId) :
    (SlotTable.slotsOf other table' (ids.map σ)).1 = (SlotTable.slotsOf graph table ids).1.map π ∧
      Alike σ π arity (SlotTable.slotsOf graph table ids).2
        (SlotTable.slotsOf other table' (ids.map σ)).2 := by
  induction ids generalizing table table' with
  | nil => exact ⟨rfl, tables⟩
  | cons id rest ih =>
    have first := tables.slotOf alike back id
    have others := ih first.2
    simp only [List.map_cons, SlotTable.slotsOf, first.1, others.1]
    exact ⟨trivial, others.2⟩

end SlotTable

namespace Schedule

variable {σ : VarId → VarId} {π : Equiv.Perm Nat} {arity : Nat} {table table' : SlotTable}
  {graph other : Dataflow α}

theorem alike_layOut (alike : graph.Alike σ π other) (back : ∀ slot, arity ≤ slot → π slot = slot)
    (tables : SlotTable.Alike σ π arity table table') (nodes : List (NodeId × Node α)) :
    (layOut other table' (nodes.map fun (id, node) => (id, node.rename σ))).1 =
        (layOut graph table nodes).1.map (Step.relocate π) ∧
      SlotTable.Alike σ π arity (layOut graph table nodes).2
        (layOut other table' (nodes.map fun (id, node) => (id, node.rename σ))).2 := by
  induction nodes generalizing table table' with
  | nil => exact ⟨rfl, tables⟩
  | cons entry rest ih =>
    rcases entry with ⟨id, node⟩
    have inputs := tables.slotsOf alike back node.inputs
    have outputs := inputs.2.slotsOf alike back node.outputs
    have others := ih outputs.2
    simp only [List.map_cons, layOut, Node.rename_op, Node.rename_inputs, Node.rename_outputs,
      inputs.1, outputs.1, others.1]
    exact ⟨rfl, others.2⟩

theorem markFrees_relocate (π : Equiv.Perm Nat) (outputs : List Nat) (steps : List (Step α)) :
    markFrees (outputs.map π) (steps.map (Step.relocate π)) =
      (markFrees outputs steps).map (Step.relocate π) := by
  induction steps with
  | nil => rfl
  | cons step rest ih =>
    have member : ∀ (slots : List Nat) (slot : Nat), π slot ∈ slots.map π ↔ slot ∈ slots :=
      fun slots slot => List.mem_map_of_injective π.injective
    simp only [List.map_cons, markFrees, ih, Step.relocate, eraseDups_map π.injective,
      List.filter_map, Function.comp_def, member, List.any_map]

/-- Schedules that differ in nothing but the places of the inputs. -/
structure Alike (π : Equiv.Perm Nat) (schedule schedule' : Schedule α) : Prop where
  slotCount : schedule'.slotCount = schedule.slotCount
  arity : schedule'.arity = schedule.arity
  roots : schedule'.roots = schedule.roots
  steps : schedule'.steps = schedule.steps.map (Step.relocate π)
  outputs : schedule'.outputs = schedule.outputs.map π
  enough : schedule.arity ≤ schedule.slotCount
  rest : ∃ rest, schedule.roots = argumentRoots schedule.arity ++ rest ∧
    ∀ entry ∈ rest, schedule.arity ≤ entry.1 ∧ ∀ index, entry.2 ≠ .argument index
  back : ∀ slot, schedule.arity ≤ slot → π slot = slot

theorem Alike.isRoot_iff {schedule schedule' : Schedule α} (alike : schedule.Alike π schedule')
    (slot : Nat) :
    π slot ∈ schedule.roots.map (·.1) ↔ slot ∈ schedule.roots.map (·.1) := by
  by_cases within : slot < schedule.arity
  · have isRoot : ∀ slot < schedule.arity, slot ∈ schedule.roots.map (·.1) := by
      intro slot within
      rcases alike.rest with ⟨rest, roots, -⟩
      simp [roots, argumentRoots, within]
    exact iff_of_true (isRoot _ ((lt_iff_of_fixed alike.back slot).mpr within)) (isRoot _ within)
  · rw [alike.back slot (Nat.le_of_not_lt within)]

theorem Alike.empty_slots {schedule schedule' : Schedule α} (alike : schedule.Alike π schedule')
    (slot : Nat) :
    (Array.replicate schedule'.slotCount (none : Option Value))[π slot]? =
      (Array.replicate schedule.slotCount none)[slot]? := by
  have known : π slot < schedule.slotCount ↔ slot < schedule.slotCount :=
    lt_iff_of_fixed (fun place after => alike.back place (Nat.le_trans alike.enough after)) slot
  simp only [alike.slotCount, Array.getElem?_replicate, known]

/-- Graphs that differ by an exchange of variables and in the order of inputs have schedules that
differ in the places of the inputs. -/
theorem alike_ofGraph (alike : graph.Alike σ π other) {orderings orderings' : Orderings}
    (same : orderings.Same orderings') :
    (ofGraph graph orderings).Agree (Alike π) (ofGraph other orderings') := by
  have length : other.inputs.length = graph.inputs.length := by
    rw [alike.inputs.length, List.length_map]
  have back : ∀ slot, graph.inputs.length ≤ slot → π slot = slot := fun slot after =>
    alike.inputs.back slot (by simpa using after)
  refine (alike.order_alike same).bind ?_
  rintro order _ rfl
  have nodes : order.filterMap (fun id => (other.node? id).map fun node => (id, node)) =
      (order.filterMap fun id => (graph.node? id).map fun node => (id, node)).map
        fun (id, node) => (id, node.rename σ) := by
    rw [List.map_filterMap]
    refine List.filterMap_congr fun id _ => ?_
    rw [alike.node?_eq]
    cases graph.node? id <;> rfl
  have declared := SlotTable.alike_declare alike
  have steps := alike_layOut alike back declared
    (order.filterMap fun id => (graph.node? id).map fun node => (id, node))
  have outputs := steps.2.slotsOf alike back graph.outputs
  simp only [nodes, alike.outputs, steps.1, outputs.1]
  exact .ok
    { slotCount := outputs.2.length
      arity := length
      roots := outputs.2.roots
      steps := by simp only [markFrees_relocate]
      outputs := rfl
      enough := outputs.2.enough
      rest := outputs.2.rest
      back := back }

end Schedule

/-- States of runs that differ in the places of values. There are slots for all arguments. -/
structure RunState.Alike (π : Equiv.Perm Nat) (arity : Nat) (state state' : RunState α) : Prop where
  enough : arity ≤ state.slots.size
  memory : state'.memory = state.memory
  size : state'.slots.size = state.slots.size
  slots : ∀ slot, state'.slots[π slot]? = state.slots[slot]?
  events : state'.events = state.events
  executed : state'.executed = state.executed

/-- Errors that are the same, or both of an empty slot. -/
def RunError.Alike (error error' : RunError) : Prop :=
  error' = error ∨ ∃ slot slot', error = .emptySlot slot ∧ error' = .emptySlot slot'

theorem RunError.Alike.refl (error : RunError) : error.Alike error := Or.inl rfl

namespace Run

variable {π : Equiv.Perm Nat} {arity : Nat} {related : β → γ → Prop}

/-- Runs that go the same way over slots in other places. -/
abbrev Alike (π : Equiv.Perm Nat) (arity : Nat) (related : β → γ → Prop) :
    Run α β → Run α γ → Prop :=
  Parallel (RunState.Alike π arity) (Failure.Alike RunError.Alike) related

theorem known_iff {state state' : RunState α} (alike : state.Alike π arity state') (slot : Nat) :
    π slot < state'.slots.size ↔ slot < state.slots.size := by
  rw [← not_iff_not, Nat.not_lt, Nat.not_lt, ← Array.getElem?_eq_none_iff,
    ← Array.getElem?_eq_none_iff, alike.slots]

theorem alike_set {state state' : RunState α} (alike : state.Alike π arity state') (slot : Nat)
    (value : Option Value) :
    RunState.Alike π arity { state with slots := state.slots.setIfInBounds slot value }
      { state' with slots := state'.slots.setIfInBounds (π slot) value } where
  enough := by simpa using alike.enough
  memory := alike.memory
  size := by simp [alike.size]
  slots := by
    intro other
    rw [Array.getElem?_setIfInBounds, Array.getElem?_setIfInBounds, alike.slots]
    simp only [π.injective.eq_iff, known_iff alike]
  events := alike.events
  executed := alike.executed

theorem alike_setSlot (slot : Nat) (value : Option Value) :
    Alike (α := α) π arity Eq (setSlot slot value) (setSlot (π slot) value) := by
  refine Parallel.get.bind fun state state' alike => ?_
  simp only [known_iff alike]
  split
  · exact fun _ _ _ => .ok rfl (alike_set alike slot value)
  · exact .throw (.fault _ _)

theorem alike_slot? (slot : Nat) : Alike (α := α) π arity Eq (slot? slot) (slot? (π slot)) := by
  refine Parallel.get.bind fun state state' alike => ?_
  rw [alike.slots]
  cases state.slots[slot]? with
  | some content => exact .pure rfl
  | none => exact .throw (.fault _ _)

theorem alike_readSlot (slot : Nat) : Alike (α := α) π arity Eq (readSlot slot) (readSlot (π slot)) := by
  refine (alike_slot? slot).bind ?_
  rintro content _ rfl
  cases content with
  | some value => exact .pure rfl
  | none => exact .throw (.error (Or.inr ⟨slot, π slot, rfl, rfl⟩))

theorem alike_readSlots (slots : List Nat) :
    Alike (α := α) π arity Eq (slots.mapM readSlot) ((slots.map π).mapM readSlot) := by
  have each : Alike (α := α) π arity (List.Forall₂ Eq) (slots.mapM readSlot)
      ((slots.map π).mapM readSlot) := by
    refine .mapM (paired_map π slots) ?_
    rintro slot _ ⟨rfl, -⟩
    exact alike_readSlot slot
  exact each.imp fun values values' same => List.forall₂_eq_eq_eq ▸ same

theorem alike_onMemory (wrap : ε → RunError) (action : Action α ε β) :
    Alike π arity Eq (onMemory wrap action) (onMemory wrap action) := by
  intro state state' alike
  unfold onMemory
  rw [alike.memory]
  cases action state.memory with
  | ok value memory =>
    exact .ok rfl ⟨alike.enough, rfl, alike.size, alike.slots, alike.events, alike.executed⟩
  | error failure memory =>
    exact .error (.refl RunError.Alike.refl _)
      ⟨alike.enough, rfl, alike.size, alike.slots, alike.events, alike.executed⟩

theorem alike_store (step : Step α) (outputs : List Value) :
    Alike (α := α) π arity Eq (store step outputs) (store (step.relocate π) outputs) := by
  unfold store Step.relocate
  rw [List.zip_map_left]
  refine .forM (paired_map _ _) ?_
  rintro ⟨slot, value⟩ _ ⟨rfl, -⟩
  exact alike_setSlot slot (some value)

section Steps

variable [Arithmetic α]

theorem alike_report (step : Step α) (inputs outputs : List Value) :
    Alike (α := α) π arity Eq (report step inputs outputs) (report (step.relocate π) inputs outputs) := by
  refine .modify fun state state' alike =>
    ⟨alike.enough, alike.memory, alike.size, alike.slots, ?_, alike.executed⟩
  simp only [alike.events, alike.memory]
  rfl

theorem alike_count (step : Step α) : Alike (α := α) π arity Eq (count step) (count (step.relocate π)) := by
  refine .modify fun state state' alike =>
    ⟨alike.enough, alike.memory, alike.size, alike.slots, alike.events, ?_⟩
  simp only [alike.executed]
  rfl

theorem alike_conclude (monitored : Bool) (step : Step α) (inputs outputs : List Value) :
    Alike (α := α) π arity Eq (conclude monitored step inputs outputs)
      (conclude monitored (step.relocate π) inputs outputs) := by
  have last : Alike (α := α) π arity Eq (do store step outputs; count step)
      (do store (step.relocate π) outputs; count (step.relocate π)) :=
    (alike_store step outputs).bind fun _ _ _ => alike_count step
  unfold conclude
  split
  · exact (alike_report step inputs outputs).bind fun _ _ _ => last
  · exact last

theorem alike_interpretStep (monitored : Bool) (step : Step α) :
    Alike (α := α) π arity Eq (interpretStep monitored step) (interpretStep monitored (step.relocate π)) := by
  refine (alike_readSlots step.inputs).bind ?_
  rintro inputs _ rfl
  refine (alike_onMemory (RunError.op step.node step.op.name) (step.op.perform inputs)).bind ?_
  rintro outputs _ rfl
  exact alike_conclude monitored step inputs outputs

omit [Arithmetic α] in
theorem any_slots_eq {state state' : RunState α} (alike : state.Alike π arity state')
    (test : Option Value → Bool) : state'.slots.any test = state.slots.any test := by
  have among : ∀ slots : Array (Option Value),
      slots.any test = true ↔
        ∃ (slot : Nat) (content : Option Value), slots[slot]? = some content ∧ test content := by
    intro slots
    simp only [Array.any_eq_true, Array.getElem?_eq_some_iff]
    constructor
    · rintro ⟨slot, within, holds⟩
      exact ⟨slot, _, ⟨within, rfl⟩, holds⟩
    · rintro ⟨slot, _, ⟨within, rfl⟩, holds⟩
      exact ⟨slot, within, holds⟩
  rw [Bool.eq_iff_iff, among, among]
  constructor
  · rintro ⟨slot, content, found, holds⟩
    refine ⟨π.symm slot, content, ?_, holds⟩
    rw [← alike.slots, Equiv.apply_symm_apply, found]
  · rintro ⟨slot, content, found, holds⟩
    exact ⟨π slot, content, by rw [alike.slots, found], holds⟩

omit [Arithmetic α] in
/-- The same leftovers are taken. -/
theorem alike_takeLeftover (heldOutside : BufferId → Bool) (step : Step α) (inputs : List Value) :
    Alike (α := α) π arity Eq (takeLeftover heldOutside step inputs)
      (takeLeftover heldOutside (step.relocate π) inputs) := by
  unfold takeLeftover
  rw [Step.relocate, List.head?_map]
  cases step.outputs.head? with
  | none => exact .pure rfl
  | some slot =>
    refine (alike_slot? slot).bind ?_
    rintro content _ rfl
    cases content with
    | none => exact .pure rfl
    | some value =>
      refine (alike_setSlot slot none).bind fun _ _ _ => ?_
      refine Parallel.get.bind fun state state' alike => ?_
      simp only [any_slots_eq alike]
      exact .pure rfl

omit [Arithmetic α] in
theorem alike_offer (options : LinkOptions) (heldOutside : BufferId → Bool) (step : Step α)
    (inputs : List Value) : Alike (α := α) π arity Eq (offer options heldOutside step inputs)
      (offer options heldOutside (step.relocate π) inputs) := by
  unfold offer
  split
  · exact .pure rfl
  · exact alike_takeLeftover heldOutside step inputs

theorem alike_concludePlanned (options : LinkOptions) (step : Step α)
    (inputs outputs : List Value) : Alike (α := α) π arity Eq
      (concludePlanned options step inputs outputs)
      (concludePlanned options (step.relocate π) inputs outputs) := by
  have frees : Alike (α := α) π arity Eq (step.frees.forM fun slot => setSlot slot none)
      ((step.relocate π).frees.forM fun slot => setSlot slot none) := by
    refine .forM (paired_map π step.frees) ?_
    rintro slot _ ⟨rfl, -⟩
    exact alike_setSlot slot none
  have stored : Alike (α := α) π arity Eq (store step outputs) (store (step.relocate π) outputs) :=
    alike_store step outputs
  have counted : Alike (α := α) π arity Eq (count step) (count (step.relocate π)) := alike_count step
  unfold concludePlanned
  split <;> split
  · exact (alike_report step inputs outputs).bind fun _ _ _ => stored.bind fun _ _ _ =>
      frees.bind fun _ _ _ => counted
  · exact stored.bind fun _ _ _ => frees.bind fun _ _ _ => counted
  · exact (alike_report step inputs outputs).bind fun _ _ _ => stored.bind fun _ _ _ => counted
  · exact stored.bind fun _ _ _ => counted

theorem alike_planStep (options : LinkOptions) (heldOutside : BufferId → Bool) (step : Step α) :
    Alike (α := α) π arity Eq (planStep options heldOutside step)
      (planStep options heldOutside (step.relocate π)) := by
  rw [planStep_eq, planStep_eq]
  refine (alike_readSlots step.inputs).bind ?_
  rintro inputs _ rfl
  refine (alike_offer options heldOutside step inputs).bind ?_
  rintro leftover _ rfl
  refine (alike_onMemory (RunError.op step.node step.op.name)
    (step.op.performPlanned inputs leftover)).bind ?_
  rintro outputs _ rfl
  exact alike_concludePlanned options step inputs outputs

omit [Arithmetic α] in
theorem alike_steps {schedule schedule' : Schedule α} (alike : schedule.Alike π schedule')
    {step : Step α → Run α Unit}
    (each : ∀ item, Alike (α := α) π arity Eq (step item) (step (item.relocate π))) :
    Alike (α := α) π arity Eq (steps schedule step) (steps schedule' step) := by
  unfold steps
  rw [alike.steps, alike.outputs]
  have all : Alike (α := α) π arity Eq (schedule.steps.forM step)
      ((schedule.steps.map (Step.relocate π)).forM step) := by
    refine .forM (paired_map _ schedule.steps) ?_
    rintro item _ ⟨rfl, -⟩
    exact each item
  exact all.bind fun _ _ _ => alike_readSlots schedule.outputs

end Steps

section Loading

variable {schedule schedule' : Schedule α} {arguments arguments' : List Value}

/-- Loading puts the arguments into the first slots. -/
theorem load_arguments (arguments : List Value) {state : RunState α} {count : Nat}
    (enough : count ≤ state.slots.size) :
    ∃ slots, (Schedule.argumentRoots count).forM (loadRoot arguments) state =
        .ok () { state with slots } ∧ slots.size = state.slots.size ∧
      ∀ slot : Nat, slots[slot]? =
        if slot < count then some arguments[slot]? else state.slots[slot]? := by
  induction count with
  | zero => exact ⟨state.slots, rfl, rfl, fun slot => by simp⟩
  | succ count ih =>
    rcases ih (Nat.le_of_succ_le enough) with ⟨slots, ran, size, filled⟩
    have last : (Schedule.argumentRoots (count + 1)) =
        Schedule.argumentRoots count ++ [(count, .argument count)] := by
      simp [Schedule.argumentRoots, List.range_succ]
    have known : count < slots.size := size ▸ enough
    refine ⟨slots.setIfInBounds count arguments[count]?, ?_, by simpa using size, fun slot => ?_⟩
    · rw [last, forM_append_of_ok ran]
      exact bind_of_ok (setSlot_of_lt known)
    · rw [Array.getElem?_setIfInBounds, filled]
      by_cases same : count = slot
      · subst same
        simp [known]
      · have next : slot < count + 1 ↔ slot < count := by omega
        simp [same, next]

theorem alike_loadRoot (slot : Nat) (source : Source) (fixed : π slot = slot)
    (apart : ∀ index, source ≠ .argument index) : Alike (α := α) π arity Eq
      (loadRoot arguments (slot, source)) (loadRoot arguments' (slot, source)) := by
  have filled : ∀ value, Alike (α := α) π arity Eq (setSlot slot value) (setSlot slot value) := by
    intro value
    have moved : Alike (α := α) π arity Eq (setSlot slot value) (setSlot (π slot) value) :=
      alike_setSlot slot value
    rwa [fixed] at moved
  cases source with
  | argument index => exact absurd rfl (apart index)
  | constant value => exact filled (some value)
  | shared container =>
    refine (alike_onMemory _ _).bind ?_
    rintro value _ rfl
    exact filled (some value)

/-- Loading the same arguments in other places fills the same slots in these places. -/
theorem alike_load (alike : schedule.Alike π schedule')
    (arranges : Arranges π arguments arguments') :
    Alike (α := α) π schedule.arity Eq (load schedule arguments) (load schedule' arguments') := by
  intro state state' states
  by_cases count : arguments.length = schedule.arity
  · rcases alike.rest with ⟨rest, roots, apart⟩
    rcases load_arguments arguments states.enough with ⟨slots, ran, size, filled⟩
    have enough' : schedule.arity ≤ state'.slots.size := states.size ▸ states.enough
    rcases load_arguments arguments' enough' with ⟨slots', ran', size', filled'⟩
    rw [load_of_count count, load_of_count (by rw [arranges.length, count, alike.arity]), alike.roots,
      roots, forM_append_of_ok ran, forM_append_of_ok ran']
    have others : Alike (α := α) π schedule.arity Eq (rest.forM (loadRoot arguments))
        (rest.forM (loadRoot arguments')) := by
      refine .forM (paired_self rest) ?_
      rintro _ ⟨slot, source⟩ ⟨rfl, member⟩
      have isApart := apart _ member
      exact alike_loadRoot slot source (alike.back slot isApart.1) isApart.2
    refine others _ _ ⟨by rw [size]; exact states.enough, states.memory, by rw [size, size', states.size],
      fun slot => ?_, states.events, states.executed⟩
    have within := arranges.lt_iff slot
    rw [count] at within
    rw [filled, filled', states.slots, arranges.item]
    simp only [within]
  · have refused : ∀ (schedule : Schedule α) (arguments : List Value) (state : RunState α),
        arguments.length ≠ schedule.arity → load schedule arguments state =
          .error (Failure.error (.inputCount schedule.arity arguments.length)) state := by
      intro schedule arguments state other
      unfold load
      rw [if_pos other]
      rfl
    rw [refused _ _ _ count, refused _ _ _ (by rwa [arranges.length, alike.arity]), alike.arity,
      arranges.length]
    exact .error (.error (.refl _)) states

end Loading

end Run

/-- Executables that differ in nothing but the places of the inputs. -/
structure Executable.Alike (π : Equiv.Perm Nat) (executable executable' : Executable α) : Prop where
  schedule : executable.schedule.Alike π executable'.schedule
  linker : executable'.linker = executable.linker
  options : executable'.options = executable.options
  size : executable'.slots.size = executable.slots.size
  slots : ∀ slot, executable'.slots[π slot]? = executable.slots[slot]?
  /-- Planned execution has slots for all arguments. -/
  enough : executable.linker = .plan → executable.schedule.arity ≤ executable.slots.size

/-- Outcomes of runs that differ in the places of values. -/
structure RunOutcome.Alike (π : Equiv.Perm Nat) (outcome outcome' : RunOutcome α) : Prop where
  result : outcome.result.Alike RunError.Alike Eq outcome'.result
  executable : outcome.executable.Alike π outcome'.executable
  memory : outcome'.memory = outcome.memory
  events : outcome'.events = outcome.events
  executed : outcome'.executed = outcome.executed

namespace Executable

variable {π : Equiv.Perm Nat} {executable executable' : Executable α}

theorem Alike.slotsAfter (alike : executable.Alike π executable') {slots slots' : Array (Option Value)}
    (same : ∀ slot, slots'[π slot]? = slots[slot]?) (failed : Bool) (slot : Nat) :
    (executable'.slotsAfter slots' failed)[π slot]? = (executable.slotsAfter slots failed)[slot]? := by
  rw [slotsAfter_eq, slotsAfter_eq, alike.options, alike.schedule.roots]
  split
  · rw [Array.getElem?_map, Array.getElem?_map, same]
  · have known : π slot < slots'.size ↔ slot < slots.size := by
      rw [← not_iff_not, Nat.not_lt, Nat.not_lt, ← Array.getElem?_eq_none_iff,
        ← Array.getElem?_eq_none_iff, same]
    rw [Run.getElem?_clear, Run.getElem?_clear, same]
    simp only [alike.schedule.isRoot_iff, known]

/-- The same executables with other slots in the same places. -/
theorem Alike.withSlots (alike : executable.Alike π executable') {slots slots' : Array (Option Value)}
    (size : slots'.size = slots.size) (same : ∀ slot, slots'[π slot]? = slots[slot]?)
    (enough : executable.linker = .plan → executable.schedule.arity ≤ slots.size) :
    Alike π { executable with slots } { executable' with slots := slots' } :=
  ⟨alike.schedule, alike.linker, alike.options, size, same, enough⟩

theorem Alike.afterRun (alike : executable.Alike π executable') {state state' : RunState α}
    (states : state.Alike π executable.schedule.arity state') (failed : Bool) :
    Alike π { executable with slots := executable.slotsAfter state.slots failed }
      { executable' with slots := executable'.slotsAfter state'.slots failed } :=
  alike.withSlots (by rw [size_slotsAfter, size_slotsAfter, states.size])
    (alike.slotsAfter states.slots failed)
    fun _ => by rw [size_slotsAfter]; exact states.enough

variable [Arithmetic α]

/-- Linking graphs that differ by an exchange of variables and in the order of inputs gives
executables that differ in the places of the inputs. -/
theorem alike_link {σ : VarId → VarId} {graph other : Dataflow α} (alike : graph.Alike σ π other)
    {orderings orderings' : Orderings} (same : orderings.Same orderings') (linker : Linker)
    (options : LinkOptions) :
    (link linker options graph orderings).Agree (fun linked linked' => linked.1.Alike π linked'.1)
      (link linker options other orderings') := by
  refine (Schedule.alike_ofGraph alike same).bind ?_
  intro schedule schedule' schedules
  cases linker with
  | perform => exact .ok ⟨schedules, rfl, rfl, rfl, fun slot => by simp, fun plan => nomatch plan⟩
  | plan =>
    exact .ok ⟨schedules, rfl, rfl, by simp [schedules.slotCount], schedules.empty_slots,
      fun _ => by simpa using schedules.enough⟩

/-- Running executables that differ in the places of the inputs on the same arguments in these places
comes to the same. -/
theorem Alike.run (alike : executable.Alike π executable') (heldOutside : BufferId → Bool)
    {arguments arguments' : List Value} (arranges : Arranges π arguments arguments')
    (memory : Memory α) :
    (executable.run heldOutside arguments memory).Alike π
      (executable'.run heldOutside arguments' memory) := by
  rcases executable with ⟨schedule, linker, options, slots⟩
  rcases executable' with ⟨schedule', linker', options', slots'⟩
  obtain rfl : linker' = linker := alike.linker
  obtain rfl : options' = options := alike.options
  have schedules : schedule.Alike π schedule' := alike.schedule
  have loads := Run.alike_load schedules arranges
  unfold Executable.run
  cases linker' with
  | perform =>
    have start : RunState.Alike π schedule.arity
        ⟨memory, Array.replicate schedule.slotCount none, [], []⟩
        ⟨memory, Array.replicate schedule'.slotCount none, [], []⟩ :=
      ⟨by simpa using schedules.enough, rfl, by simp [schedules.slotCount], schedules.empty_slots, rfl,
        rfl⟩
    have whole := loads.bind fun _ _ _ =>
      Run.alike_steps schedules (Run.alike_interpretStep options'.monitored)
    dsimp only
    rcases (whole _ _ start).cases with ⟨values, _, _, _, ran, ran', rfl, left⟩ |
      ⟨failure, failure', _, _, ran, ran', same, left⟩
    · rw [ran, ran']
      exact ⟨.ok rfl, alike, left.memory, left.events, left.executed⟩
    · rw [ran, ran']
      exact ⟨.error same, alike, left.memory, left.events, left.executed⟩
  | plan =>
    have start : RunState.Alike π schedule.arity ⟨memory, slots, [], []⟩ ⟨memory, slots', [], []⟩ :=
      ⟨alike.enough rfl, rfl, alike.size, alike.slots, rfl, rfl⟩
    have runs : Run.Alike (α := α) π schedule.arity Eq
        (Run.steps schedule (Run.planStep options' heldOutside))
        (Run.steps schedule' (Run.planStep options' heldOutside)) :=
      Run.alike_steps schedules (Run.alike_planStep options' heldOutside)
    dsimp only
    rcases (loads _ _ start).cases with ⟨_, _, loaded, loaded', ready, ready', -, left⟩ |
      ⟨failure, failure', _, _, ran, ran', same, left⟩
    · rw [ready, ready']
      dsimp only
      rcases (runs _ _ left).cases with ⟨values, _, _, _, ran, ran', rfl, left⟩ |
        ⟨failure, failure', _, _, ran, ran', same, left⟩
      · rw [ran, ran']
        exact ⟨.ok rfl, alike.afterRun left false, left.memory, left.events, left.executed⟩
      · rw [ran, ran']
        exact ⟨.error same, alike.afterRun left true, left.memory, left.events, left.executed⟩
    · rw [ran, ran']
      exact ⟨.error same, alike.withSlots left.size left.slots fun _ => left.enough, left.memory,
        left.events, left.executed⟩

end Executable

end ArrayGraph
