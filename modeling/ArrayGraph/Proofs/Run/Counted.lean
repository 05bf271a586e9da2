import ArrayGraph.Proofs.Run.Stocked

/-!
# What the nodes that have been run may write to

A run counts a node once its step is done with. A step fails before it has results, and then it has
written nothing, since results always find their slots and an operation that fails writes nothing. So
however a run ends, it has written to no buffers but those that the counted nodes may write to.
-/

namespace ArrayGraph

variable {α : Type} [Arithmetic α]

namespace Executable

variable {executable : Executable α} {heldOutside : BufferId → Bool} {arguments : List Value}
  {start : Memory α} {state : RunState α} {step : Step α}

/-- A step that is done with is counted, and one that fails has written nothing. -/
theorem step_counts (heldOutside : BufferId → Bool) (quiet : step.op.Quiet)
    (known : ∀ slot ∈ step.outputs, slot < state.slots.size)
    (freed : ∀ slot ∈ step.frees, slot < state.slots.size) :
    Ends (executable.step heldOutside step) state
      (fun _ final => final.slots.size = state.slots.size ∧
        final.executed = state.executed ++ [(step.node, step.op.name)])
      (fun final => state.memory.Keeps final.memory ∧ final.executed = state.executed) := by
  have produced : Ends (executable.produce heldOutside step) state
      (fun _ middle => middle.slots.size = state.slots.size ∧ middle.executed = state.executed)
      (fun final => state.memory.Keeps final.memory ∧ final.executed = state.executed) := by
    unfold produce
    refine (Run.readSlots_ends.imp (fun _ _ holds => holds)
      fun _ same => same ▸ ⟨.refl _, rfl⟩).bind ?_
    rintro inputs state ⟨rfl, _⟩
    rcases spare_of_known executable heldOutside inputs known with ⟨spare, slots, offered, size, _⟩
    refine Ends.after offered ?_
    unfold Ends
    cases applied : executable.apply step.op inputs spare
        ({ state with slots } : RunState α).memory with
    | ok outputs memory =>
      rw [bind_of_ok (Run.onMemory_of_ok applied)]
      exact ⟨size, rfl⟩
    | error failure memory =>
      rw [bind_of_error (Run.onMemory_of_error applied)]
      exact ⟨(attempts_apply executable applied).keeps quiet, rfl⟩
  refine Ends.congr (congrFun (step_eq executable heldOutside step) state) (produced.bind ?_)
  rintro ⟨inputs, outputs⟩ middle ⟨size, executed⟩
  rcases conclude_of_known executable middle inputs outputs (size ▸ known) (size ▸ freed) with
    ⟨final, concluded, _, stored, counted⟩
  unfold Ends
  rw [concluded]
  refine ⟨?_, executed ▸ counted⟩
  rw [stored, Run.size_clear, size_fill, size]

/-- What holds of the memory and the counted nodes however loading and the steps end, holds of them
after the run. -/
theorem counted_of_run (holds : Memory α → List (NodeId × String) → Prop)
    (ends : Ends (Run.load executable.schedule arguments >>= fun _ =>
      Run.steps executable.schedule (executable.step heldOutside))
        ⟨start, executable.startSlots, [], []⟩ (fun _ final => holds final.memory final.executed)
        (fun final => holds final.memory final.executed)) :
    holds (executable.run heldOutside arguments start).memory
      (executable.run heldOutside arguments start).executed := by
  have same := congrArg (·.2) (outcome_of_run executable heldOutside arguments start)
  unfold Ends at ends
  split at ends <;> rename_i ended <;> rw [ended] at same
  all_goals
    rcases Prod.mk.inj same with ⟨memory, executed⟩
    rw [memory, executed]
    exact ends

end Executable

namespace Dataflow

variable {graph : Dataflow α} {order : List NodeId} {vars : List VarId} {executable : Executable α}
  {heldOutside : BufferId → Bool} {arguments : List Value} {start : Memory α}

/-- A state of a run has kept to the buffers that its counted nodes may write to. -/
def Accounted (graph : Dataflow α) (heldOutside : BufferId → Bool) (start : Memory α)
    (arguments : List Value) (state : RunState α) : Prop :=
  graph.Framed (state.executed.map (·.1)) heldOutside start arguments state.memory

variable (wellFormed : graph.WellFormed) (closed : graph.Closed) (safe : graph.Safe order)
  (laysOut : executable.schedule.LaysOut graph order vars) (sound : executable.schedule.Sound)
  (quiet : ∀ id node, graph.node? id = some node → node.op.Quiet)
include wellFormed closed safe laysOut sound quiet

theorem accounted_of_steps {loaded : RunState α}
    (lodged : graph.Lodged heldOutside start arguments vars [] loaded)
    (size : loaded.slots.size = executable.schedule.slotCount) (first : loaded.executed = []) :
    Ends (Run.steps executable.schedule (executable.step heldOutside)) loaded
      (fun _ final => graph.Accounted heldOutside start arguments final)
      (graph.Accounted heldOutside start arguments) := by
  have accounted : ∀ {front state}, graph.Framed front heldOutside start arguments state.memory →
      state.executed.map (·.1) = front → graph.Accounted heldOutside start arguments state :=
    fun framed counted => by rwa [Accounted, counted]
  refine (steps_ends laysOut (fun front state => graph.Lodged heldOutside start arguments vars front state ∧
    state.slots.size = executable.schedule.slotCount ∧ state.executed.map (·.1) = front) _ ?_ ?_ ?_).imp
    (fun _ _ ended => accounted ended.1.1.framed ended.1.2.2) fun _ accounted => accounted
  · intro front id back node step state split stepped live stands ⟨lodged, size, counted⟩
    have member : step ∈ executable.schedule.steps := List.mem_of_getElem? stepped
    have calm := quiet id node live
    have counts := executable.step_counts heldOutside (stands.op ▸ calm)
      (size ▸ sound.written_known member) (size ▸ sound.freed_known member)
    refine ((lodged.advance wellFormed safe live stands closed split calm).and counts).imp ?_ ?_
    · rintro _ final ⟨lodged, sameSize, counted'⟩
      exact ⟨lodged, sameSize.trans size, by simp [counted', counted, stands.named]⟩
    · rintro final ⟨_, keeps, counted'⟩
      exact accounted (lodged.framed.trans keeps.but fun _ _ touched => touched)
        (counted' ▸ counted)
  · exact fun final ⟨lodged, _, counted⟩ => accounted lodged.framed counted
  · exact ⟨lodged, size, by simp [first]⟩

/-- However a run ends, it has kept to the buffers that the nodes it has run may write to. -/
theorem framed_of_run (size : executable.startSlots.size = executable.schedule.slotCount)
    (heldOutside : BufferId → Bool) (arguments : List Value) (start : Memory α) :
    graph.Framed ((executable.run heldOutside arguments start).executed.map (·.1)) heldOutside start
      arguments (executable.run heldOutside arguments start).memory := by
  have load : Ends (Run.load executable.schedule arguments) ⟨start, executable.startSlots, [], []⟩
      (fun _ loaded => graph.Lodged heldOutside start arguments vars [] loaded ∧
        Run.Idles ⟨start, executable.startSlots, [], []⟩ loaded)
      (graph.Accounted heldOutside start arguments) := by
    refine ((lodged_of_load wellFormed safe laysOut rfl).and (Run.load_idles _ _ _)).imp
      (fun _ _ loaded => loaded) ?_
    rintro final ⟨_, idles⟩
    rw [Accounted, idles.memory, idles.executed]
    exact (Memory.Keeps.refl start).but
  apply Executable.counted_of_run fun memory executed =>
    graph.Framed (executed.map (·.1)) heldOutside start arguments memory
  refine load.bind fun _ loaded ⟨lodged, idles⟩ => ?_
  exact accounted_of_steps wellFormed closed safe laysOut sound quiet lodged (idles.size.trans size)
    idles.executed

end Dataflow

end ArrayGraph
