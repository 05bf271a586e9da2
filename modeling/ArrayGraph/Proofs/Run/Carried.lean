import ArrayGraph.Proofs.Run.Sharing
import ArrayGraph.Proofs.Run.Stocked

/-!
# What executables carry from run to run

Whatever comes of a run, it takes no buffer away, and it leaves values on existing buffers in slots
that are loaded or written. So a run that gets to its end shows that all that its graph reads is a root
or is computed, for nothing else can have filled the slots that it has read.

Of host functions it is assumed that they put their results into new buffers, a different one for each.
They may write to whatever they like.
-/

namespace ArrayGraph

variable {α : Type}

/-- A host function takes no buffer away and gives its results in new buffers, a different one for each
of them. -/
structure HostFunction.Allocates (function : HostFunction α) : Prop where
  ok : ∀ inputs memory outputs after, function.run inputs memory = .ok outputs after →
    memory.buffers.size ≤ after.buffers.size ∧ memory.Fresh after outputs
  error : ∀ inputs memory failure after, function.run inputs memory = .error failure after →
    memory.buffers.size ≤ after.buffers.size

namespace Op

variable {op : Op α} {inputs outputs : List Value} {spare : Option Value} {memory after : Memory α}

/-- The host functions of an operation give their results in new buffers. -/
def Allocates (op : Op α) : Prop := ∀ function, op = .host function → function.Allocates

/-- Where results are: an output that lives in an input is on the buffer of that input, any other one is
on a new buffer or the spare one, and no two of them are on the same buffer. -/
structure Lands (op : Op α) (inputs : List Value) (spare : Option Value) (memory : Memory α)
    (outputs : List Value) (after : Memory α) : Prop where
  size : memory.buffers.size ≤ after.buffers.size
  settles : Settles outputs after
  lodger : ∀ index value input, outputs[index]? = some value →
    (op.viewMap ++ op.destroyMap).lookup index = some input →
      ∃ source, inputs[input]? = some source ∧ source.buffer = value.buffer
  owner : ∀ index value, outputs[index]? = some value →
    (op.viewMap ++ op.destroyMap).lookup index = none →
      memory.buffers.size ≤ value.buffer.index ∨ ∃ other ∈ spare, other.buffer = value.buffer

variable [Arithmetic α]

theorem Attempts.host {function : HostFunction α}
    {outcome : EStateM.Result (Failure OpError) (Memory α) (List Value)}
    (attempts : (Op.host function : Op α).Attempts inputs spare memory outcome) :
    (Op.host function : Op α).perform inputs memory = outcome := by
  rcases attempts with ran | ran
  · exact ran
  · exact ran

/-- To perform a host function is to run it. -/
theorem perform_host_ends {function : HostFunction α} (allocates : function.Allocates) :
    Ends ((Op.host function : Op α).perform inputs) memory
      (fun outputs after => memory.buffers.size ≤ after.buffers.size ∧ memory.Fresh after outputs)
      (fun after => memory.buffers.size ≤ after.buffers.size) := by
  refine perform_ends_of (Nat.le_refl _) (fun table => absurd rfl (table function)) ?_
  rintro _ ⟨⟩
  refine (Ends.intro (allocates.ok inputs memory) (allocates.error inputs memory)).imp ?_
    fun _ size => size
  exact fun outputs after ran => ⟨ran.1, fun _ => ran⟩

theorem Attempts.lands (attempts : op.Attempts inputs spare memory (.ok outputs after))
    (allocates : op.Allocates) (known : ∀ value ∈ inputs, memory.Knows value)
    (spared : ∀ value ∈ spare, memory.Knows value) : op.Lands inputs spare memory outputs after := by
  by_cases table : ∀ function, op ≠ .host function
  · have fresh : op.Fresh := fun function same => absurd same (table function)
    have places := attempts.places fresh.quiet
    exact ⟨places.keeps.size, attempts.settles fresh known spared, places.lodger, places.owner⟩
  · push Not at table
    rcases table with ⟨function, rfl⟩
    rcases (perform_host_ends (allocates function rfl)).of_ok attempts.host with ⟨size, fresh⟩
    refine ⟨size, ⟨fresh.known, fresh.distinct⟩, by simp [viewMap, destroyMap], ?_⟩
    exact fun index value found _ => Or.inl (fresh.new value (List.mem_of_getElem? found))

theorem Attempts.lands_of_slots (attempts : op.Attempts inputs spare memory (.ok outputs after))
    (allocates : op.Allocates) {slots : Array (Option Value)} (known : memory.KnowsSlots slots)
    {keys : List Nat}
    (read : List.Forall₂ (fun slot value => slots[slot]? = some (some value)) keys inputs)
    (origin : ∀ value ∈ spare, ∃ slot : Nat, slots[slot]? = some (some value)) :
    op.Lands inputs spare memory outputs after := by
  refine attempts.lands allocates (fun value member => ?_) fun value member => ?_
  · rcases forall₂_mem_right read member with ⟨slot, _, held⟩
    exact known slot value held
  · rcases origin value member with ⟨slot, held⟩
    exact known slot value held

theorem Attempts.size_of_error {failure : Failure OpError}
    (attempts : op.Attempts inputs spare memory (.error failure after)) (allocates : op.Allocates) :
    memory.buffers.size ≤ after.buffers.size := by
  by_cases table : ∀ function, op ≠ .host function
  · have quiet : op.Quiet := fun function same => absurd same (table function)
    exact (attempts.keeps quiet).size
  · push Not at table
    rcases table with ⟨function, rfl⟩
    exact (perform_host_ends (allocates function rfl)).of_error attempts.host

end Op

namespace Schedule

/-- A slot that is filled before the first step, or that some step fills. -/
def Fills (schedule : Schedule α) (slot : Nat) : Prop :=
  schedule.IsRoot slot ∨ ∃ step ∈ schedule.steps, slot ∈ step.outputs

/-- Slots with values on buffers that exist, in places that are filled at all. -/
structure Tidy (schedule : Schedule α) (memory : Memory α) (slots : Array (Option Value)) : Prop where
  known : memory.KnowsSlots slots
  filled : ∀ (slot : Nat) (value : Value), slots[slot]? = some (some value) → schedule.Fills slot

theorem Tidy.within {schedule : Schedule α} {before after : Memory α}
    {slots others : Array (Option Value)} (tidy : schedule.Tidy before others)
    (within : Run.Within slots others) (size : before.buffers.size ≤ after.buffers.size) :
    schedule.Tidy after slots :=
  ⟨tidy.known.within within size, fun slot value held => tidy.filled slot value (within slot value held)⟩

/-- The values that a run is given are on buffers that exist. -/
def Given (schedule : Schedule α) (arguments : List Value) (memory : Memory α) : Prop :=
  ∀ slot source value, (slot, source) ∈ schedule.roots →
    source.value? memory arguments = some value → memory.Knows value

end Schedule

namespace Executable

variable [Arithmetic α] {executable linked : Executable α} {heldOutside : BufferId → Bool}
  {arguments : List Value} {start : Memory α} {state : RunState α} {step : Step α}

/-- What a run keeps: no buffer is taken away and slots stay tidy. -/
structure Carries (executable : Executable α) (start : Memory α) (state : RunState α) : Prop where
  size : start.buffers.size ≤ state.memory.buffers.size
  tidy : executable.schedule.Tidy state.memory state.slots

theorem Carries.advance (carries : executable.Carries start state)
    (member : step ∈ executable.schedule.steps) (allocates : step.op.Allocates) :
    Ends (executable.step heldOutside step) state (fun _ final => executable.Carries start final)
      (fun final => start.buffers.size ≤ final.memory.buffers.size) := by
  have lands : ∀ {inputs outputs spare middle after},
      Run.Offers heldOutside step state inputs spare middle →
        step.op.Attempts inputs spare middle.memory (.ok outputs after) →
          step.op.Lands inputs spare state.memory outputs after := by
    intro inputs outputs spare middle after offers ran
    rw [offers.narrows.memory] at ran
    refine ran.lands_of_slots allocates carries.tidy.known offers.read fun value offered => ?_
    rcases offers.origin value offered with ⟨slot, _, held⟩
    exact ⟨slot, held⟩
  refine step_ends.imp ?_ ?_
  · rintro _ final ⟨offers, ran, filled⟩
    have lands := lands offers ran
    have before := carries.tidy.within offers.narrows.slots lands.size
    refine ⟨Nat.le_trans carries.size lands.size, fun slot value held => ?_, fun slot value held => ?_⟩
    · rcases getElem?_fill_cases (filled slot value held) with entry | ⟨_, kept⟩
      · exact lands.settles.1 value (List.of_mem_zip entry).2
      · exact before.known slot value kept
    · rcases getElem?_fill_cases (filled slot value held) with entry | ⟨_, kept⟩
      · exact Or.inr ⟨step, member, (List.of_mem_zip entry).1⟩
      · exact before.filled slot value kept
  · intro final halts
    generalize final.memory = after at halts
    cases halts with
    | idle => exact carries.size
    | failed offers ran =>
      rw [offers.narrows.memory] at ran
      exact Nat.le_trans carries.size (ran.size_of_error allocates)
    | unstored offers ran => exact Nat.le_trans carries.size (lands offers ran).size

theorem Carries.steps (carries : executable.Carries start state)
    (allocates : ∀ step ∈ executable.schedule.steps, step.op.Allocates) :
    Ends (Run.steps executable.schedule (executable.step heldOutside)) state
      (fun _ final => executable.Carries start final)
      (fun final => start.buffers.size ≤ final.memory.buffers.size) := by
  refine Run.steps_keep (fun _ state => executable.Carries start state) ?_
    (fun _ ended => ended.size) carries
  intro done step rest state split carries
  have member : step ∈ executable.schedule.steps := by simp [split]
  exact carries.advance member (allocates step member)

omit [Arithmetic α] in
theorem carries_of_load {slots : Array (Option Value)}
    (tidy : executable.schedule.Tidy start slots)
    (given : executable.schedule.Given arguments start)
    (sources : ∀ slot source source', (slot, source) ∈ executable.schedule.roots →
      (slot, source') ∈ executable.schedule.roots → source = source') :
    Ends (Run.load executable.schedule arguments) ⟨start, slots, [], []⟩
      (fun _ final => executable.Carries start final)
      (fun final => executable.Carries start final) := by
  have carries : ∀ {final}, Run.Loads executable.schedule arguments ⟨start, slots, [], []⟩ final →
      executable.Carries start final := by
    intro final loads
    refine ⟨by rw [loads.memory], fun slot value held => ?_, fun slot value held => ?_⟩
    · rw [loads.memory]
      rcases loads.origin slot value held with stale | ⟨source, listed, found⟩
      · exact tidy.known slot value stale
      · exact given slot source value listed found
    · rcases loads.origin slot value held with stale | ⟨source, listed, _⟩
      · exact tidy.filled slot value stale
      · exact Or.inl ⟨source, listed⟩
  exact (Run.load_ends sources).imp (fun _ _ loaded => carries loaded.1) fun _ => carries

omit [Arithmetic α] in
theorem tidy_startSlots (tidy : executable.schedule.Tidy start executable.slots) :
    executable.schedule.Tidy start executable.startSlots := by
  refine tidy.within ?_ (Nat.le_refl _)
  unfold Executable.startSlots
  cases executable.linker with
  | perform => exact within_none (by simp)
  | plan => exact .refl _

/-- A run leaves tidy slots behind, however it ends. -/
theorem tidy_run (tidy : executable.schedule.Tidy start executable.slots)
    (given : executable.schedule.Given arguments start)
    (sources : ∀ slot source source', (slot, source) ∈ executable.schedule.roots →
      (slot, source') ∈ executable.schedule.roots → source = source')
    (allocates : ∀ step ∈ executable.schedule.steps, step.op.Allocates) :
    executable.schedule.Tidy (executable.run heldOutside arguments start).memory
      (executable.run heldOutside arguments start).executable.slots := by
  have ran := ran_run executable heldOutside arguments start
  revert ran
  generalize (executable.run heldOutside arguments start).result = result
  generalize (executable.run heldOutside arguments start).executable.slots = left
  generalize (executable.run heldOutside arguments start).memory = memory
  intro ran
  have load : ∀ {slots}, Run.Within slots executable.slots →
      Ends (Run.load executable.schedule arguments) ⟨start, slots, [], []⟩
        (fun _ final => executable.Carries start final)
        (fun final => executable.Carries start final) :=
    fun initial => carries_of_load (tidy.within initial (Nat.le_refl _)) given sources
  -- What is left behind has been there before the run or at its end.
  have kept : ∀ {final : RunState α}, executable.Carries start final →
      Run.Within left executable.slots ∨ Run.Within left final.slots →
        executable.schedule.Tidy final.memory left := by
    rintro final carries (before | after)
    · exact tidy.within before carries.size
    · exact carries.tidy.within after (Nat.le_refl _)
  cases ran with
  | unloaded initial failed within => exact kept ((load initial).of_error failed) within
  | stopped initial ready failed within =>
    exact tidy.within within ((((load initial).of_ok ready).steps allocates).of_error failed)
  | finished initial ready ran within =>
    exact kept ((((load initial).of_ok ready).steps allocates).of_ok ran) within

/-- The states that a linked executable can come into: runs on values that exist may have gone before,
whatever came of them, and between runs anything may have been done that takes no buffer away. -/
inductive Carried (linked : Executable α) : Executable α → Memory α → Prop
  | linked (memory : Memory α) : Carried linked linked memory
  | run {executable : Executable α} {memory : Memory α} (before : Carried linked executable memory)
      (heldOutside : BufferId → Bool) (arguments : List Value)
      (given : executable.schedule.Given arguments memory) :
      Carried linked (executable.run heldOutside arguments memory).executable
        (executable.run heldOutside arguments memory).memory
  | elsewhere {executable : Executable α} {memory after : Memory α}
      (before : Carried linked executable memory)
      (size : memory.buffers.size ≤ after.buffers.size) : Carried linked executable after

theorem Carried.used (carried : linked.Carried executable start) : linked.Used executable := by
  induction carried with
  | linked => exact .linked
  | run before heldOutside arguments _ ih => exact ih.run heldOutside arguments _
  | elsewhere _ _ ih => exact ih

theorem Carried.tidy (carried : linked.Carried executable start)
    (empty : ∀ (slot : Nat) (value : Value), linked.slots[slot]? ≠ some (some value))
    (sources : ∀ slot source source', (slot, source) ∈ linked.schedule.roots →
      (slot, source') ∈ linked.schedule.roots → source = source')
    (allocates : ∀ step ∈ linked.schedule.steps, step.op.Allocates) :
    linked.schedule.Tidy start executable.slots := by
  induction carried with
  | linked => exact ⟨fun slot value held => absurd held (empty slot value),
      fun slot value held => absurd held (empty slot value)⟩
  | @run executable memory before heldOutside arguments given ih =>
    have same : executable.schedule = linked.schedule := by rw [before.used.kept]
    have after : executable.schedule.Tidy (executable.run heldOutside arguments memory).memory
        (executable.run heldOutside arguments memory).executable.slots :=
      tidy_run (same ▸ ih) given (same ▸ sources) (same ▸ allocates)
    exact same ▸ after
  | elsewhere _ size ih => exact ih.within (fun _ _ held => held) size

/-- The steps of a run that gets to its end have read nothing that is not filled by the run. -/
theorem fills_of_steps (filled : ∀ (slot : Nat) (value : Value),
      state.slots[slot]? = some (some value) → executable.schedule.Fills slot) :
    Ends (Run.steps executable.schedule (executable.step heldOutside)) state
      (fun _ _ => ∀ slot, (∃ step ∈ executable.schedule.steps, slot ∈ step.inputs) ∨
        slot ∈ executable.schedule.outputs → executable.schedule.Fills slot) fun _ => True := by
  have held : ∀ {slots : Array (Option Value)} {keys : List Nat} {values : List Value},
      (∀ (slot : Nat) (value : Value), slots[slot]? = some (some value) →
        executable.schedule.Fills slot) →
      List.Forall₂ (fun slot value => slots[slot]? = some (some value)) keys values →
        ∀ slot ∈ keys, executable.schedule.Fills slot := by
    intro slots keys values filled read slot listed
    rcases forall₂_mem_right read.flip listed with ⟨value, _, found⟩
    exact filled slot value found
  unfold Run.steps
  refine Ends.bind (Ends.forM (fun done (state : RunState α) => (∀ (slot : Nat) (value : Value),
      state.slots[slot]? = some (some value) → executable.schedule.Fills slot) ∧
    ∀ step ∈ done, ∀ slot ∈ step.inputs, executable.schedule.Fills slot) ⟨filled, by simp⟩ ?_) ?_
  · rintro done step rest state split ⟨filled, read⟩
    have member : step ∈ executable.schedule.steps := by simp [split]
    refine step_ends.imp ?_ fun _ _ => trivial
    intro _ final moves
    refine ⟨moves.filled_in (fun slot output => Or.inr ⟨step, member, output⟩) filled, ?_⟩
    rcases moves with ⟨offers, _, _⟩
    intro other otherMem slot input
    rcases List.mem_append.mp otherMem with earlier | here
    · exact read other earlier slot input
    · cases List.mem_singleton.mp here
      exact held filled offers.read slot input
  · rintro _ final ⟨filled, read⟩
    refine Run.readSlots_ends.imp ?_ fun _ _ => trivial
    rintro values _ ⟨rfl, found⟩ slot (⟨step, member, input⟩ | output)
    · exact read step member slot input
    · exact held filled found slot output

end Executable

namespace Dataflow

variable {graph : Dataflow α} {schedule : Schedule α} {order : List NodeId} {vars : List VarId}
  {var : VarId}

theorem source?_cases {source : Source} (found : graph.source? var = some source) :
    var ∈ graph.inputs ∨ (∃ value, (graph.var var).kind = .constant value) ∨
      ∃ container, (graph.var var).kind = .shared container := by
  unfold source? at found
  split at found
  · exact Or.inl ‹_›
  · cases kind : (graph.var var).kind <;> simp_all [SlotTable.rootSource?]

/-- A graph all of whose variables that are read have slots that are filled is closed. -/
theorem closed_of_fills [Arithmetic α] (wellFormed : graph.WellFormed)
    (topological : graph.Topological order) (laysOut : schedule.LaysOut graph order vars)
    (fills : ∀ slot, (∃ step ∈ schedule.steps, slot ∈ step.inputs) ∨ slot ∈ schedule.outputs →
      schedule.Fills slot) : graph.Closed := by
  intro var read
  have listed : var ∈ vars := (laysOut.mem_iff_handles topological).mpr (Or.inr (Or.inl read))
  have needed : (∃ step ∈ schedule.steps, vars.idxOf var ∈ step.inputs) ∨
      vars.idxOf var ∈ schedule.outputs := by
    rcases read with output | ⟨id, node, live, input⟩
    · exact Or.inr (laysOut.outputs ▸ List.mem_map_of_mem output)
    · rcases laysOut.exists_stands topological live with ⟨step, member, stands⟩
      exact Or.inl ⟨step, member, stands.inputs ▸ List.mem_map_of_mem input⟩
  rcases fills _ needed with ⟨source, root⟩ | ⟨step, member, output⟩
  · rcases laysOut.mem_roots.mp root with ⟨other, _, found, same⟩
    cases (List.idxOf_inj listed).mp same
    rcases source?_cases found with declared | constant | shared
    · exact Or.inl declared
    · exact Or.inr (Or.inl constant)
    · exact Or.inr (Or.inr (Or.inl shared))
  · rcases forall₂_mem_right laysOut.steps member with ⟨id, _, node, live, stands⟩
    exact Or.inr (Or.inr (Or.inr ⟨id, (wellFormed.mem_outputs_iff (wellFormed.read_known var read)
      live).mp (stands.mem_outputs_iff.mp output)⟩))

end Dataflow

end ArrayGraph
