import ArrayGraph.Proofs.Run.Executors
import ArrayGraph.Proofs.Run.Interpreted

/-!
# Runs of validated graphs

A graph that passes the alias analysis, linked with the orderings that the analysis asks for, runs as
plain evaluation says, whichever linker is chosen and whatever runs went before. For interpreted
execution this is the comparison with evaluation. Planned execution is compared with interpreted
execution on the same memory: whatever is held outside, and the arguments, stand for themselves.
-/

namespace ArrayGraph

variable {α : Type}

theorem Linker.eq_perform {linker : Linker} (other : linker ≠ .plan) : linker = .perform := by
  cases linker with
  | perform => rfl
  | plan => exact absurd rfl other

/-- What a run relies on: every handle is on a buffer that exists, and whoever answers the question
who holds a buffer knows of the containers and of the constants. -/
structure Executable.Trusts (executable : Executable α) (heldOutside : BufferId → Bool)
    (arguments : List Value) (memory : Memory α) : Prop where
  arguments : ∀ value ∈ arguments, memory.Knows value
  containers : ∀ container ∈ memory.containers.toList, ∀ value, container.value = some value →
    memory.Knows value ∧ heldOutside value.buffer = true
  constants : ∀ value ∈ executable.schedule.constants,
    memory.Knows value ∧ heldOutside value.buffer = true

/-- Buffers that a run is to leave alone stand for themselves. -/
def Renaming.trusted (heldOutside : BufferId → Bool) (arguments : List Value) (memory : Memory α) :
    Renaming := fun a b => a = b ∧ a.index < memory.buffers.size ∧
  (heldOutside a = true ∨ ∃ value ∈ arguments, value.buffer = a)

namespace Executable

variable {executable linked : Executable α} {heldOutside : BufferId → Bool} {arguments : List Value}
  {memory : Memory α}

theorem Trusts.alike (trusts : executable.Trusts heldOutside arguments memory) :
    memory.Alike (Renaming.trusted heldOutside arguments memory) memory where
  functional a b b' pair pair' := pair.1.symm.trans pair'.1
  injective a a' b pair pair' := pair.1.trans pair'.1.symm
  known a b pair := ⟨pair.2.1, pair.1 ▸ pair.2.1⟩
  read a b pair := by rw [pair.1]
  containers := by
    rw [List.forall₂_same]
    intro container member
    refine ⟨rfl, rfl, ?_⟩
    cases held : container.value with
    | none => exact Option.Rel.none
    | some value =>
      rcases trusts.containers container member value held with ⟨known, outside⟩
      exact Option.Rel.some ⟨rfl, rfl, rfl, known, Or.inl outside⟩

/-- What a root slot is filled with is on a buffer that exists. Unless it is an argument, it is held
outside. -/
theorem Trusts.source (trusts : executable.Trusts heldOutside arguments memory) {slot : Nat}
    {source : Source} {value : Value} (listed : (slot, source) ∈ executable.schedule.roots)
    (given : source.value? memory arguments = some value) :
    memory.Knows value ∧ (heldOutside value.buffer = true ∨
      ∃ argument ∈ arguments, argument.buffer = value.buffer) := by
  cases source with
  | argument index =>
    have member : value ∈ arguments := List.mem_of_getElem? given
    exact ⟨trusts.arguments value member, Or.inr ⟨value, member, rfl⟩⟩
  | constant constant =>
    cases given
    have member : value ∈ executable.schedule.constants :=
      List.mem_filterMap.mpr ⟨(slot, .constant value), listed, rfl⟩
    rcases trusts.constants value member with ⟨known, outside⟩
    exact ⟨known, Or.inl outside⟩
  | shared container =>
    change (memory.container container).value = some value at given
    have member : memory.container container ∈ memory.containers.toList := by
      unfold Memory.container at given ⊢
      cases held : memory.containers[container.index]? with
      | none =>
        rw [held] at given
        cases given
      | some content => exact Array.mem_toList_iff.mpr (Array.mem_of_getElem? held)
    rcases trusts.containers _ member value given with ⟨known, outside⟩
    exact ⟨known, Or.inl outside⟩

theorem Trusts.relates_arguments (trusts : executable.Trusts heldOutside arguments memory) :
    List.Forall₂ (Renaming.trusted heldOutside arguments memory).Relates arguments arguments := by
  rw [List.forall₂_same]
  intro value given
  exact ⟨rfl, rfl, rfl, trusts.arguments value given, Or.inr ⟨value, given, rfl⟩⟩

variable [Arithmetic α]

/-- A planned run does what an interpreted run on the same memory does. -/
theorem Trusts.run_alike (trusts : executable.Trusts heldOutside arguments memory)
    (plans : executable.linker = .plan) (sound : executable.schedule.Sound)
    (parametric : ∀ step ∈ executable.schedule.steps, ∀ pinned, step.op.Parametric pinned)
    (idle : executable.schedule.Idle executable.slots memory) :
    ∃ larger slots, RunsAlike (Renaming.trusted heldOutside arguments memory) larger
        (run { executable with linker := .perform } heldOutside arguments memory)
        (executable.run heldOutside arguments memory) ∧
      (executable.run heldOutside arguments memory).executable = { executable with slots } ∧
      executable.schedule.Idle slots (executable.run heldOutside arguments memory).memory := by
  let pinned : BufferId → Prop := fun buffer =>
    ∃ value ∈ executable.schedule.constants, value.buffer = buffer
  have held : ∀ buffer, pinned buffer →
      Renaming.trusted heldOutside arguments memory buffer buffer := by
    rintro buffer ⟨value, constant, rfl⟩
    rcases trusts.constants value constant with ⟨known, outside⟩
    exact ⟨rfl, known, Or.inl outside⟩
  exact (Executable.run_alike { executable with linker := .perform } executable heldOutside rfl rfl
    rfl plans sound (fun step member => parametric step member pinned)
    (fun value constant => ⟨value, constant, rfl⟩) trusts.alike held trusts.relates_arguments
    (fun a b pair => pair.1 ▸ pair.2.2) idle).2

/-- The states that a linked executable can come into: runs may have gone before, and between runs
anything may have been written, as long as no buffer has changed its size. -/
inductive Reached (linked : Executable α) : Executable α → Memory α → Prop
  | linked (memory : Memory α) : Reached linked linked memory
  | run {executable : Executable α} {memory : Memory α} (before : Reached linked executable memory)
      (heldOutside : BufferId → Bool) (arguments : List Value)
      (trusts : executable.Trusts heldOutside arguments memory) :
      Reached linked (executable.run heldOutside arguments memory).executable
        (executable.run heldOutside arguments memory).memory
  | elsewhere {executable : Executable α} {memory after : Memory α}
      (before : Reached linked executable memory)
      (size : memory.buffers.size ≤ after.buffers.size)
      (kept : ∀ buffer : BufferId, buffer.index < memory.buffers.size →
        (after.read buffer).size = (memory.read buffer).size) : Reached linked executable after

theorem interpreted_kept (executable : Executable α) (interprets : executable.linker = .perform)
    (heldOutside : BufferId → Bool) (arguments : List Value) (memory : Memory α) :
    (executable.run heldOutside arguments memory).executable = executable := by
  rcases executable with ⟨schedule, _, options, slots⟩
  subst interprets
  unfold Executable.run
  dsimp only
  split <;> rfl

/-- Runs change nothing of an executable but its slots, and these are always fit for another run. -/
theorem Reached.idle (reached : linked.Reached executable memory) (sound : linked.schedule.Sound)
    (parametric : ∀ step ∈ linked.schedule.steps, ∀ pinned, step.op.Parametric pinned)
    (empty : linked.linker = .plan →
      linked.slots = Array.replicate linked.schedule.slotCount none) :
    ∃ slots, executable = { linked with slots } ∧
      (linked.linker = .plan → linked.schedule.Idle slots memory) := by
  induction reached with
  | linked memory =>
    refine ⟨linked.slots, rfl, fun plans => ?_⟩
    rw [empty plans]
    exact Schedule.idle_of_empty (by simp) (by simp [Array.getElem?_replicate])
  | @run executable memory _ heldOutside arguments trusts ih =>
    rcases ih with ⟨slots, rfl, idle⟩
    by_cases plans : linked.linker = .plan
    · rcases trusts.run_alike plans sound parametric (idle plans) with ⟨_, slots', _, same, idle'⟩
      exact ⟨slots', same, fun _ => idle'⟩
    · refine ⟨slots, ?_, fun plans' => absurd plans' plans⟩
      exact interpreted_kept { linked with slots } (Linker.eq_perform plans) heldOutside arguments
        memory
  | elsewhere _ size kept ih =>
    rcases ih with ⟨slots, rfl, idle⟩
    exact ⟨slots, rfl, fun plans => (idle plans).later size kept⟩

end Executable

namespace Dataflow

variable [Arithmetic α] {graph : Dataflow α} {hosts : Meaning α} {start : Memory α}
  {arguments : List Value} {schedule : Schedule α} {order : List NodeId} {vars : List VarId}

/-- What came of a run is what plain evaluation says: it succeeds if every live node can be evaluated
and not otherwise, it gives the arrays that the outputs evaluate to, and in any case the buffers of
protected roots hold what they held before. -/
structure RunsPurely (graph : Dataflow α) (hosts : Meaning α) (start : Memory α)
    (arguments : List Value) (outcome : RunOutcome α) : Prop where
  succeeds : (∃ values, outcome.result = Except.ok values) ↔
    graph.AllEvaluate hosts (graph.rootTensor? start arguments)
  delivers : ∀ values, outcome.result = Except.ok values →
    graph.Delivers hosts (graph.rootTensor? start arguments) outcome.memory values
  protected_kept : ∀ root, graph.Supplies root → graph.isProtected root → ∀ value,
    graph.rootValue? start arguments root = some value →
      outcome.memory.read value.buffer = start.read value.buffer

/-- Linking a validated graph with the orderings of the analysis finds a safe order. -/
theorem safe_of_validate (wellFormed : graph.WellFormed) {orderings : Orderings}
    (validated : graph.validate = Except.ok orderings)
    (ordered : graph.order orderings = Except.ok order) : graph.Safe order := by
  rcases wellFormed.validate_eq_ok validated with ⟨clear, before, _⟩
  exact (safe_iff_respects clear before).mpr (respects_of_order ordered)

omit [Arithmetic α] in
/-- The operations that a run performs are those of the graph, and they cannot tell buffers apart if
they are functions of contents. -/
theorem parametric_of_computes (laysOut : schedule.LaysOut graph order vars)
    (computes : ∀ id node, graph.node? id = some node → node.op.Computes hosts) :
    ∀ step ∈ schedule.steps, ∀ pinned, step.op.Parametric pinned := by
  intro step member pinned function same
  rcases forall₂_mem_right laysOut.steps member with ⟨id, _, node, live, stands⟩
  exact (computes id node live function (stands.op ▸ same)).parametric pinned

/-- The handle that a root has in a run is on a buffer that the run is to leave alone. -/
theorem trusted_of_rootValue? {executable : Executable α} {heldOutside : BufferId → Bool}
    (wellFormed : graph.WellFormed) (safe : graph.Safe order)
    (laysOut : executable.schedule.LaysOut graph order vars)
    (trusts : executable.Trusts heldOutside arguments start) {root : VarId} {value : Value}
    (supplies : graph.Supplies root) (found : graph.rootValue? start arguments root = some value) :
    Renaming.trusted heldOutside arguments start value.buffer value.buffer := by
  rcases Option.bind_eq_some_iff.mp found with ⟨source, sourced, given⟩
  have listed : root ∈ vars :=
    Available.listed wellFormed safe.topological laysOut
      (Or.inl supplies : graph.Available [] root)
  have loaded := laysOut.mem_roots.mpr ⟨root, listed, sourced, rfl⟩
  exact ⟨rfl, trusts.source loaded given⟩

/-- A run that cannot be told apart from one that is evaluation is evaluation itself. -/
theorem RunsPurely.of_alike {left right : RunOutcome α} {rename larger : Renaming}
    (pure : graph.RunsPurely hosts start arguments left) (runs : RunsAlike rename larger left right)
    (roots : ∀ root, graph.Supplies root → ∀ value, graph.rootValue? start arguments root = some value →
      rename value.buffer value.buffer) :
    graph.RunsPurely hosts start arguments right := by
  have kept : ∀ root, graph.Supplies root → graph.isProtected root → ∀ value,
      graph.rootValue? start arguments root = some value →
        right.memory.read value.buffer = start.read value.buffer := by
    intro root supplies guarded value found
    rw [← runs.alike.read _ _ (runs.keeps _ _ (roots root supplies value found))]
    exact pure.protected_kept root supplies guarded value found
  rcases runs.results.cases with ⟨values, values', ok, ok', related⟩ | ⟨failure, failed, failed'⟩
  · refine ⟨⟨fun _ => pure.succeeds.mp ⟨values, ok⟩, fun _ => ⟨values', ok'⟩⟩, ?_, kept⟩
    intro given same
    rw [ok'] at same
    cases same
    refine (forall₂_comp (pure.delivers values ok) related).imp ?_
    rintro var value' ⟨value, ⟨_, conforms, evaluates⟩, same⟩
    rw [← runs.alike.tensor same]
    exact ⟨(runs.alike.known _ _ same.buffer).2, conforms, evaluates⟩
  · refine ⟨⟨?_, ?_⟩, ?_, kept⟩
    · rintro ⟨values, same⟩
      rw [failed'] at same
      cases same
    · intro evaluate
      rcases pure.succeeds.mpr evaluate with ⟨values, same⟩
      rw [failed] at same
      cases same
    · intro values same
      rw [failed'] at same
      cases same

section Linked

variable (wellFormed : graph.WellFormed) (closed : graph.Closed) (safe : graph.Safe order)
  (computes : ∀ id node, graph.node? id = some node → node.op.Computes hosts)
  (supplied : graph.Supplied start arguments)
include wellFormed closed safe computes supplied

/-- An interpreted run is evaluation. -/
theorem interpreted_runsPurely (executable : Executable α)
    (laysOut : executable.schedule.LaysOut graph order vars)
    (interprets : executable.linker = .perform) (heldOutside : BufferId → Bool) :
    graph.RunsPurely hosts start arguments (executable.run heldOutside arguments start) := by
  rcases executable with ⟨schedule, _, options, slots⟩
  subst interprets
  unfold Executable.run
  dsimp only
  rcases interpret wellFormed closed safe laysOut computes supplied options.monitored with
    ⟨values, after, ran, evaluate, delivers, undisturbed⟩ |
    ⟨failure, after, ran, fails, undisturbed⟩
  · rw [ran]
    refine ⟨⟨fun _ => evaluate, fun _ => ⟨values, rfl⟩⟩, ?_, ?_⟩
    · intro values' same
      cases same
      exact delivers
    · exact fun root supplies guarded value found =>
        undisturbed.protected safe supplied supplies guarded found
  · rw [ran]
    refine ⟨⟨?_, fun evaluate => absurd evaluate fails⟩, ?_, ?_⟩
    · rintro ⟨values, same⟩
      cases same
    · intro values same
      cases same
    · exact fun root supplies guarded value found =>
        undisturbed.protected safe supplied supplies guarded found

/-- A planned run is evaluation, whatever earlier runs have left in the slots. -/
theorem planned_runsPurely {executable : Executable α} {heldOutside : BufferId → Bool}
    (laysOut : executable.schedule.LaysOut graph order vars) (sound : executable.schedule.Sound)
    (plans : executable.linker = .plan)
    (trusts : executable.Trusts heldOutside arguments start)
    (idle : executable.schedule.Idle executable.slots start) :
    graph.RunsPurely hosts start arguments (executable.run heldOutside arguments start) := by
  rcases trusts.run_alike plans sound (parametric_of_computes laysOut computes) idle with
    ⟨larger, _, runs, _, _⟩
  have laysOut' : Schedule.LaysOut (Executable.schedule { executable with linker := .perform }) graph
      order vars := laysOut
  refine (interpreted_runsPurely wellFormed closed safe computes supplied _ laysOut' rfl
    heldOutside).of_alike runs ?_
  exact fun root supplies value found =>
    trusted_of_rootValue? wellFormed safe laysOut trusts supplies found

/-- A run of an executable that has been linked is evaluation, with either linker and after any number
of earlier runs. -/
theorem runsPurely_of_reached {linked executable : Executable α}
    (laysOut : linked.schedule.LaysOut graph order vars) (sound : linked.schedule.Sound)
    (empty : linked.linker = .plan → linked.slots = Array.replicate linked.schedule.slotCount none)
    (reached : linked.Reached executable start) {heldOutside : BufferId → Bool}
    (trusts : executable.Trusts heldOutside arguments start) :
    graph.RunsPurely hosts start arguments (executable.run heldOutside arguments start) := by
  rcases reached.idle sound (parametric_of_computes laysOut computes) empty with ⟨slots, rfl, idle⟩
  by_cases plans : linked.linker = .plan
  · exact planned_runsPurely wellFormed closed safe computes supplied laysOut sound plans trusts
      (idle plans)
  · have interprets : linked.linker = .perform := Linker.eq_perform plans
    exact interpreted_runsPurely wellFormed closed safe computes supplied { linked with slots } laysOut
      interprets heldOutside

end Linked

/-- Running a validated graph in place is evaluation, with either linker and after any number of earlier
runs. -/
theorem runsPurely_of_validate (wellFormed : graph.WellFormed) (distinct : graph.inputs.Nodup)
    (closed : graph.Closed) {orderings : Orderings} (validated : graph.validate = Except.ok orderings)
    {linker : Linker} {options : LinkOptions} {linked : Executable α} {log : List LogEntry}
    (link : Executable.link linker options graph orderings = Except.ok (linked, log))
    (computes : ∀ id node, graph.node? id = some node → node.op.Computes hosts)
    {executable : Executable α} {memory : Memory α} (reached : linked.Reached executable memory)
    {heldOutside : BufferId → Bool} (trusts : executable.Trusts heldOutside arguments memory)
    (supplied : graph.Supplied memory arguments) :
    graph.RunsPurely hosts memory arguments (executable.run heldOutside arguments memory) := by
  rcases Executable.link_eq_ok link with ⟨laid, rfl, rfl, empty⟩
  rcases Schedule.laysOut_of_ofGraph distinct laid with ⟨order, vars, ordered, laysOut⟩
  have safe := safe_of_validate wellFormed validated ordered
  have sound := laysOut.sound wellFormed distinct (respects_of_order ordered)
  exact runsPurely_of_reached wellFormed closed safe computes supplied laysOut sound empty reached trusts

/-- A planned run that sums a vector and then negates it in place. -/
theorem runsPurely_negatedAfterSum :
    ∃ linked log, Executable.link .plan ⟨false, true⟩ negatedAfterSum ⟨[(⟨1⟩, [⟨0⟩])]⟩ =
        Except.ok (linked, log) ∧
      negatedAfterSum.RunsPurely (fun _ _ => Checked.abort (.noSuchOperand 0)) ⟨#[#[2, 5]], #[]⟩
        [⟨.float64, [2], ⟨0⟩⟩]
        (linked.run (fun _ => false) [⟨.float64, [2], ⟨0⟩⟩] ⟨#[#[2, 5]], #[]⟩) := by
  rcases (⟨_, _, rfl, rfl⟩ : ∃ linked log, Executable.link .plan ⟨false, true⟩ negatedAfterSum
    ⟨[(⟨1⟩, [⟨0⟩])]⟩ = Except.ok (linked, log) ∧ linked.schedule.constants = []) with
    ⟨linked, log, link, noConstants⟩
  have listed : ∀ var ∈ negatedAfterSum.inputs ++ negatedAfterSum.readVars,
      negatedAfterSum.source? var ≠ none → var = ⟨0⟩ := by decide
  have onlyRoot : ∀ var, negatedAfterSum.Supplies var → var = ⟨0⟩ := by
    rintro var ⟨used, sourced⟩
    exact listed var (List.mem_append.mpr (used.imp_right mem_readVars.mpr)) sourced
  refine ⟨linked, log, link, runsPurely_of_validate (by decide) (by decide) (by decide) rfl link ?_
    (Executable.Reached.linked _) ⟨?_, ?_, ?_⟩ ⟨rfl, ?_, ?_⟩⟩
  · have noHosts : ∀ entry ∈ negatedAfterSum.liveNodes, entry.2.op.isPlanned := by decide
    intro id node live function same
    have planned := noHosts (id, node) (mem_liveNodes.mpr live)
    simp [same, Op.isPlanned] at planned
  · simp [Memory.Knows]
  · simp
  · simp [noConstants]
  · intro var supplies
    cases onlyRoot var supplies
    exact ⟨_, rfl, by simp [Memory.Knows], rfl, rfl, rfl⟩
  · intro var other supplies supplies' different
    exact absurd ((onlyRoot var supplies).trans (onlyRoot other supplies').symm) different

end Dataflow

end ArrayGraph
