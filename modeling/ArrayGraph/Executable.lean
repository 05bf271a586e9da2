import ArrayGraph.Log
import ArrayGraph.Profile
import ArrayGraph.Schedule

/-!
# Executables

An executable runs a schedule. Interpreted execution starts every run with empty slots and performs
each operation as it stands. Planned execution keeps its slots: it either empties each one after its
last reader, or keeps intermediate values between runs and lets an operation write its next result
into the value left from the last run, provided that nobody else holds that value's buffer.
-/

namespace ArrayGraph

/-- Why a run failed. -/
inductive RunError where
  | inputCount (expected given : Nat)
  | op (node : NodeId) (name : String) (cause : OpError)
  | container (cause : ContainerError)
  /-- A slot was read that nothing had been written to. -/
  | emptySlot (slot : Nat)
deriving DecidableEq, Repr

/-- The text of an error. -/
def RunError.message : RunError → String
  | .inputCount expected given => s!"expected {expected} input values, got {given}"
  | .op node name cause => s!"{name} (node {node.text}) failed: {cause.message}"
  | .container cause => cause.message
  | .emptySlot slot => s!"slot {slot} was read before it was written"

/-- The ways to execute a schedule. -/
inductive Linker where
  | perform
  | plan
deriving DecidableEq, Repr, Inhabited

namespace Linker

def name : Linker → String
  | .perform => "perform"
  | .plan => "plan"

/-- The linker with a given name. -/
def ofName? (text : String) : Option Linker := [Linker.perform, .plan].find? (·.name = text)

end Linker

/-- How an executable is to behave. -/
structure LinkOptions where
  /-- Whether planned execution empties slots after their last reader. -/
  collect : Bool
  /-- Whether a run tells of every node. -/
  monitored : Bool
deriving DecidableEq, Repr, Inhabited

/-- What a run tells of a node: the arrays it read and computed, as they are once it has run. -/
structure NodeEvent (α : Type) where
  node : NodeId
  op : String
  inputs : List (Tensor α)
  outputs : List (Tensor α)

/-- A schedule that can be run. -/
structure Executable (α : Type) where
  schedule : Schedule α
  linker : Linker
  options : LinkOptions
  /-- The slots of planned execution as the last run left them. -/
  slots : Array (Option Value)

/-- The state of a run. -/
structure RunState (α : Type) where
  memory : Memory α
  slots : Array (Option Value)
  events : List (NodeEvent α)
  /-- The nodes that have been run. -/
  executed : List (NodeId × String)

/-- A computation within a run. -/
abbrev Run (α β : Type) := EStateM (Failure RunError) (RunState α) β

namespace Run

variable {α β ε : Type}

/-- Runs a computation on the memory. -/
def onMemory (wrap : ε → RunError) (action : Action α ε β) : Run α β := fun state =>
  match action state.memory with
  | .ok value memory => .ok value { state with memory }
  | .error failure memory => .error (failure.map wrap) { state with memory }

/-- Puts a value into a slot, or empties it. -/
def setSlot (slot : Nat) (value : Option Value) : Run α Unit := do
  let state ← get
  if slot < state.slots.size then
    set { state with slots := state.slots.setIfInBounds slot value }
  else throw (Failure.fault (.noSuchSlot slot))

/-- The value in a slot, if there is one. -/
def slot? (slot : Nat) : Run α (Option Value) := do
  match (← get).slots[slot]? with
  | some content => pure content
  | none => throw (Failure.fault (.noSuchSlot slot))

/-- The value in a slot, which must not be empty. -/
def readSlot (slot : Nat) : Run α Value := do
  match ← slot? slot with
  | some value => pure value
  | none => throw (Failure.error (.emptySlot slot))

/-- Fills the root slots. -/
def load (schedule : Schedule α) (arguments : List Value) : Run α Unit := do
  if arguments.length ≠ schedule.arity then
    throw (Failure.error (.inputCount schedule.arity arguments.length))
  schedule.roots.forM fun (slot, source) => do
    match source with
    | .argument index => setSlot slot arguments[index]?
    | .constant value => setSlot slot (some value)
    | .shared container =>
      setSlot slot (some (← onMemory RunError.container (Container.getValue container true)))

/-- Puts the outputs of a step into their slots. -/
def store (step : Step α) (outputs : List Value) : Run α Unit :=
  (step.outputs.zip outputs).forM fun (slot, value) => setSlot slot (some value)

/-- Tells of a node that has been run. -/
def report [Arithmetic α] (step : Step α) (inputs outputs : List Value) : Run α Unit :=
  modify fun state =>
    let event : NodeEvent α :=
      ⟨step.node, step.op.name, inputs.map state.memory.tensor, outputs.map state.memory.tensor⟩
    { state with events := state.events ++ [event] }

/-- Notes that a node has been run. -/
def count [Arithmetic α] (step : Step α) : Run α Unit :=
  modify fun state => { state with executed := state.executed ++ [(step.node, step.op.name)] }

/-- Runs a step by performing its operation. -/
def interpretStep [Arithmetic α] (monitored : Bool) (step : Step α) : Run α Unit := do
  let inputs ← step.inputs.mapM readSlot
  let outputs ← onMemory (RunError.op step.node step.op.name) (step.op.perform inputs)
  if monitored then report step inputs outputs
  store step outputs
  count step

/-- Takes the value that the last run left for the first output of a step. It is kept only if
nobody else holds its buffer: no other slot, none of the step's own inputs, and no one outside. -/
def takeLeftover (heldOutside : BufferId → Bool) (step : Step α) (inputs : List Value) :
    Run α (Option Value) := do
  match step.outputs.head? with
  | none => pure none
  | some slot =>
    match ← slot? slot with
    | none => pure none
    | some value =>
      setSlot slot none
      let inSlots := (← get).slots.any fun content =>
        match content with
        | some other => other.buffer = value.buffer
        | none => false
      let read := inputs.any fun input => input.buffer = value.buffer
      pure (if inSlots || read || heldOutside value.buffer then none else some value)

/-- Runs a step as planned. -/
def planStep [Arithmetic α] (options : LinkOptions) (heldOutside : BufferId → Bool)
    (step : Step α) : Run α Unit := do
  let inputs ← step.inputs.mapM readSlot
  let leftover ← if options.collect then pure none else takeLeftover heldOutside step inputs
  let outputs ← onMemory (RunError.op step.node step.op.name)
    (step.op.performPlanned inputs leftover)
  if options.monitored then report step inputs outputs
  store step outputs
  if options.collect then step.frees.forM fun slot => setSlot slot none
  count step

/-- Runs all steps of a schedule and reads the outputs. -/
def steps (schedule : Schedule α) (step : Step α → Run α Unit) : Run α (List Value) := do
  schedule.steps.forM step
  schedule.outputs.mapM readSlot

end Run

/-- What came of a run. -/
structure RunOutcome (α : Type) where
  result : Checked RunError (List Value)
  /-- The executable after the run. -/
  executable : Executable α
  memory : Memory α
  events : List (NodeEvent α)
  executed : List (NodeId × String)

namespace Executable

variable {α : Type} [Arithmetic α]

omit [Arithmetic α] in
/-- The buffers in the slots of an executable, one entry for each slot that holds it. -/
def heldBuffers (executable : Executable α) : List BufferId :=
  executable.slots.toList.filterMap fun content => content.map (·.buffer)

/-- Links a graph under extra orderings. Planned execution logs the nodes that have no form of their
own for it. -/
def link (linker : Linker) (options : LinkOptions) (graph : Dataflow α) (orderings : Orderings) :
    Checked GraphError (Executable α × List LogEntry) := do
  let schedule ← Schedule.ofGraph graph orderings
  match linker with
  | .perform => Except.ok (⟨schedule, linker, options, #[]⟩, [])
  | .plan =>
    let log := (schedule.steps.filter fun step => !step.op.isPlanned).map fun step =>
      LogEntry.mk .debug s!"{step.op.name} has no plan thunk, falling back to perform"
    Except.ok (⟨schedule, linker, options, Array.replicate schedule.slotCount none⟩, log)

omit [Arithmetic α] in
/-- The slots that a planned run leaves behind: root slots are emptied, and all others too if the
executable collects or the run failed. -/
def slotsAfter (executable : Executable α) (slots : Array (Option Value)) (failed : Bool) :
    Array (Option Value) :=
  if executable.options.collect || failed then slots.map fun _ => none
  else
    executable.schedule.roots.foldl (fun cleared (slot, _) => cleared.setIfInBounds slot none) slots

/-- Runs an executable on arguments. `heldOutside` tells which buffers are held by anyone but the
slots of this executable. -/
def run (executable : Executable α) (heldOutside : BufferId → Bool) (arguments : List Value)
    (memory : Memory α) : RunOutcome α :=
  let schedule := executable.schedule
  let outcome (result : Checked RunError (List Value)) (slots : Array (Option Value))
      (state : RunState α) : RunOutcome α :=
    ⟨result, { executable with slots }, state.memory, state.events, state.executed⟩
  match executable.linker with
  | .perform =>
    let start : RunState α := ⟨memory, Array.replicate schedule.slotCount none, [], []⟩
    let whole : Run α (List Value) := do
      Run.load schedule arguments
      Run.steps schedule (Run.interpretStep executable.options.monitored)
    match whole start with
    | .ok values state => outcome (Except.ok values) executable.slots state
    | .error failure state => outcome (Except.error failure) executable.slots state
  | .plan =>
    match Run.load schedule arguments ⟨memory, executable.slots, [], []⟩ with
    | .error failure state => outcome (Except.error failure) state.slots state
    | .ok _ loaded =>
      match Run.steps schedule (Run.planStep executable.options heldOutside) loaded with
      | .ok values state =>
        outcome (Except.ok values) (executable.slotsAfter state.slots false) state
      | .error failure state =>
        outcome (Except.error failure) (executable.slotsAfter state.slots true) state

end Executable

end ArrayGraph
