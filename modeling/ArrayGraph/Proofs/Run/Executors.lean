import ArrayGraph.Proofs.Run.Planned

/-!
# Both executors, whole runs

A run of a planned executable ends as the run of an interpreted one does, whatever earlier runs have
left in its slots, as long as nothing that is related across the two memories escapes the question
who holds a buffer: it must be held outside or be one of the arguments.
-/

namespace ArrayGraph

variable {α : Type} [Arithmetic α]

/-- Results of two runs: related values, or the same failure. -/
def ResultsAlike (rename : Renaming) :
    Checked RunError (List Value) → Checked RunError (List Value) → Prop
  | Except.ok values, Except.ok values' => List.Forall₂ rename.Relates values values'
  | Except.error failure, Except.error failure' => failure = failure'
  | _, _ => False

theorem ResultsAlike.cases {rename : Renaming} {left right : Checked RunError (List Value)}
    (alike : ResultsAlike rename left right) :
    (∃ values values', left = Except.ok values ∧ right = Except.ok values' ∧
      List.Forall₂ rename.Relates values values') ∨
    ∃ failure, left = Except.error failure ∧ right = Except.error failure := by
  cases left with
  | ok values =>
    cases right with
    | ok values' => exact Or.inl ⟨values, values', rfl, rfl, alike⟩
    | error failure' => exact alike.elim
  | error failure =>
    cases right with
    | ok values' => exact alike.elim
    | error failure' =>
      have same : failure = failure' := alike
      exact Or.inr ⟨failure, rfl, same ▸ rfl⟩

/-- Two runs that cannot be told apart. -/
structure RunsAlike (rename larger : Renaming) (left right : RunOutcome α) : Prop where
  keeps : ∀ a b, rename a b → larger a b
  alike : left.memory.Alike larger right.memory
  results : ResultsAlike larger left.result right.result
  events : left.events = right.events
  executed : left.executed = right.executed

namespace Executable

variable {graph : Dataflow α} {orderings : Orderings}

/-- Linking lays out the graph and fills no slot. -/
theorem link_eq_ok {linker : Linker} {options : LinkOptions} {linked : Executable α}
    {log : List LogEntry}
    (answer : link linker options graph orderings = Except.ok (linked, log)) :
    Schedule.ofGraph graph orderings = Except.ok linked.schedule ∧ linked.linker = linker ∧
      linked.options = options ∧
      (linker = .plan → linked.slots = Array.replicate linked.schedule.slotCount none) := by
  unfold link at answer
  rw [Checked.bind_eq_ok_iff] at answer
  rcases answer with ⟨schedule, laid, answer⟩
  cases linker with
  | perform =>
    cases answer
    exact ⟨laid, rfl, rfl, by simp⟩
  | plan =>
    cases answer
    exact ⟨laid, rfl, rfl, fun _ => rfl⟩

theorem link_empty {linker : Linker} {options : LinkOptions} {linked : Executable α}
    {log : List LogEntry} (answer : link linker options graph orderings = Except.ok (linked, log))
    (slot : Nat) (value : Value) : linked.slots[slot]? ≠ some (some value) := by
  unfold link at answer
  rw [Checked.bind_eq_ok_iff] at answer
  rcases answer with ⟨schedule, _, answer⟩
  cases linker with
  | perform =>
    cases answer
    simp
  | plan =>
    cases answer
    simp [Array.getElem?_replicate]

/-- What one linker links, every linker links. -/
theorem exists_link {linker : Linker} {options : LinkOptions} {linked : Executable α}
    {log : List LogEntry}
    (answer : link linker options graph orderings = Except.ok (linked, log)) (linker' : Linker)
    (options' : LinkOptions) :
    ∃ linked' log', link linker' options' graph orderings = Except.ok (linked', log') := by
  have laid := (link_eq_ok answer).1
  unfold link
  rw [laid]
  cases linker' with
  | perform => exact ⟨_, _, rfl⟩
  | plan => exact ⟨_, _, rfl⟩

variable {pinned : BufferId → Prop} {heldOutside : BufferId → Bool} {rename : Renaming}
  {left right : Memory α} {arguments arguments' : List Value}

omit [Arithmetic α] in
theorem idle_slotsAfter (planned : Executable α) {slots : Array (Option Value)} {memory : Memory α}
    (idle : planned.schedule.Idle slots memory) :
    planned.schedule.Idle (planned.slotsAfter slots false) memory := by
  rw [slotsAfter_eq]
  split
  · exact Schedule.idle_of_empty (by simpa using idle.size) (by simp)
  · exact idle.clear (planned.schedule.roots.map Prod.fst)

omit [Arithmetic α] in
theorem idle_of_failed (planned : Executable α) {slots : Array (Option Value)} {memory : Memory α}
    (size : slots.size = planned.schedule.slotCount) :
    planned.schedule.Idle (planned.slotsAfter slots true) memory := by
  unfold slotsAfter
  rw [if_pos (by simp)]
  exact Schedule.idle_of_empty (by simpa using size) (by simp)

/-- A planned executable runs as an interpreted one does. -/
theorem run_alike (interpreted planned : Executable α) (heldOutside' : BufferId → Bool)
    (sameSchedule : planned.schedule = interpreted.schedule)
    (sameMonitor : planned.options.monitored = interpreted.options.monitored)
    (interprets : interpreted.linker = .perform) (plans : planned.linker = .plan)
    (sound : planned.schedule.Sound)
    (parametric : ∀ step ∈ planned.schedule.steps, step.op.Parametric pinned)
    (constants : ∀ value ∈ planned.schedule.constants, pinned value.buffer)
    (alike : left.Alike rename right) (held : ∀ buffer, pinned buffer → rename buffer buffer)
    (given : List.Forall₂ rename.Relates arguments arguments')
    (reach : ∀ a b, rename a b → heldOutside b = true ∨ ∃ value ∈ arguments', value.buffer = b)
    (idle : planned.schedule.Idle planned.slots right) :
    (interpreted.run heldOutside' arguments left).executable = interpreted ∧
    ∃ larger slots, RunsAlike rename larger (interpreted.run heldOutside' arguments left)
        (planned.run heldOutside arguments' right) ∧
      (planned.run heldOutside arguments' right).executable = { planned with slots } ∧
      planned.schedule.Idle slots (planned.run heldOutside arguments' right).memory := by
  rcases interpreted with ⟨schedule, _, options', slots'⟩
  rcases planned with ⟨schedule', _, options, slots⟩
  simp only at sameSchedule sameMonitor interprets plans sound parametric constants idle ⊢
  subst sameSchedule interprets plans
  have loads := @Run.coupled_load _ schedule' rename
    ⟨left, Array.replicate schedule'.slotCount none, [], []⟩ ⟨right, slots, [], []⟩ arguments
    arguments' sound alike (fun value constant => held _ (constants value constant)) given (by simp)
    idle.size
  unfold run
  dsimp only
  rcases loads.cases with ⟨_, _, state, state', ran, ran', loaded, count⟩ |
    ⟨failure, state, state', ran, ran', done, loaded⟩
  · rw [bind_of_ok ran, ran']
    dsimp only
    have inStep := @inStep_of_loaded _ schedule' pinned heldOutside options.collect rename
      ⟨left, Array.replicate schedule'.slotCount none, [], []⟩ ⟨right, slots, [], []⟩ state state'
      arguments' sound alike held rfl idle reach rfl rfl loaded count
    have runs := inStep.coupled_run sound parametric
    rw [sameMonitor] at runs
    rcases runs.cases with ⟨values, values', last, last', ran, ran', larger, keeps, inStep', same⟩ |
      ⟨failure, last, last', ran, ran', ⟨larger, alike', keeps⟩, size, events, executed⟩
    · rw [ran, ran']
      exact ⟨rfl, larger, _, ⟨keeps, inStep'.alike, same, inStep'.events, inStep'.executed⟩, rfl,
        idle_slotsAfter ⟨schedule', .plan, options, slots⟩ inStep'.idle⟩
    · rw [ran, ran']
      exact ⟨rfl, larger, _, ⟨keeps, alike', rfl, events, executed⟩, rfl,
        idle_of_failed ⟨schedule', .plan, options, slots⟩ size⟩
  · rw [bind_of_error ran, ran']
    have alike' : state.memory.Alike rename state'.memory := by
      rw [loaded.left_memory, loaded.right_memory]
      exact alike
    refine ⟨rfl, rename, state'.slots, ⟨fun _ _ pair => pair, alike', rfl, ?_, ?_⟩, rfl,
      idle.load sound alike loaded⟩
    · exact loaded.left_told.1.trans loaded.right_told.1.symm
    · exact loaded.left_told.2.trans loaded.right_told.2.symm

end Executable

end ArrayGraph
