import ArrayGraph.Alias

/-!
# Schedules

A schedule is a dataflow graph laid out for execution: its nodes in order, over numbered slots that
hold values during a run. Root slots are filled before the first step, and each step knows the
slots that no later step reads.
-/

namespace ArrayGraph

/-- What a root slot is filled with. -/
inductive Source where
  /-- The argument at a position. -/
  | argument (index : Nat)
  | constant (value : Value)
  /-- The value in a container, which is borrowed. -/
  | shared (container : ContainerId)
deriving DecidableEq, Repr

/-- One node laid out for execution. -/
structure Step (α : Type) where
  node : NodeId
  op : Op α
  inputs : List Nat
  outputs : List Nat
  /-- The slots that this step reads and no later one does, graph outputs excepted. -/
  frees : List Nat

/-- A graph laid out for execution. -/
structure Schedule (α : Type) where
  slotCount : Nat
  /-- How many arguments a run takes. -/
  arity : Nat
  roots : List (Nat × Source)
  steps : List (Step α)
  outputs : List Nat

/-- The slots given to variables so far, and the sources of root slots. -/
structure SlotTable where
  slots : List (VarId × Nat)
  roots : List (Nat × Source)

namespace SlotTable

/-- No slots. -/
def empty : SlotTable := ⟨[], []⟩

/-- Gives a declared input the next slot. An input that is declared again moves to the slot whose
number is next, and nothing fills that slot for it. -/
def declare (table : SlotTable) (id : VarId) (index : Nat) : SlotTable :=
  let slot := table.slots.length
  if (table.slots.lookup id).isSome then
    { table with
      slots := table.slots.map fun (other, known) =>
        if other = id then (other, slot) else (other, known) }
  else ⟨table.slots ++ [(id, slot)], table.roots ++ [(slot, .argument index)]⟩

/-- The source of a variable that was not declared as an input, if it is a root. -/
def rootSource? : VarKind → Option Source
  | .constant value => some (.constant value)
  | .shared container => some (.shared container)
  | .input | .output _ _ => none

/-- The slot of a variable, which is given the next one if it has none yet. -/
def slotOf {α : Type} (graph : Dataflow α) (table : SlotTable) (id : VarId) : Nat × SlotTable :=
  match table.slots.lookup id with
  | some slot => (slot, table)
  | none =>
    let slot := table.slots.length
    let source := (rootSource? (graph.var id).kind).map fun source => (slot, source)
    (slot, ⟨table.slots ++ [(id, slot)], table.roots ++ source.toList⟩)

/-- The slots of a list of variables, from the first to the last. -/
def slotsOf {α : Type} (graph : Dataflow α) : SlotTable → List VarId → List Nat × SlotTable
  | table, [] => ([], table)
  | table, id :: rest =>
    let (slot, extended) := slotOf graph table id
    let (slots, final) := slotsOf graph extended rest
    (slot :: slots, final)

end SlotTable

namespace Schedule

variable {α : Type}

/-- Lays out nodes in a given order. The slots that a step frees are found afterwards. -/
def layOut (graph : Dataflow α) : SlotTable → List (NodeId × Node α) → List (Step α) × SlotTable
  | table, [] => ([], table)
  | table, (id, node) :: rest =>
    let (inputs, afterInputs) := SlotTable.slotsOf graph table node.inputs
    let (outputs, afterOutputs) := SlotTable.slotsOf graph afterInputs node.outputs
    let (steps, final) := layOut graph afterOutputs rest
    (⟨id, node.op, inputs, outputs, []⟩ :: steps, final)

/-- Notes for each step the slots that it is the last to read, other than those of outputs. -/
def markFrees (outputs : List Nat) : List (Step α) → List (Step α)
  | [] => []
  | step :: rest =>
    let frees := step.inputs.eraseDups.filter fun slot =>
      slot ∉ outputs && !rest.any (slot ∈ ·.inputs)
    { step with frees } :: markFrees outputs rest

/-- The schedule of a graph under extra orderings. -/
def ofGraph (graph : Dataflow α) (orderings : Orderings) : Checked GraphError (Schedule α) := do
  let order ← graph.order orderings
  let nodes := order.filterMap fun id => (graph.node? id).map fun node => (id, node)
  let declared := graph.inputs.zipIdx.foldl (fun table (id, index) => table.declare id index)
    SlotTable.empty
  let (steps, afterSteps) := layOut graph declared nodes
  let (outputs, final) := SlotTable.slotsOf graph afterSteps graph.outputs
  Except.ok
    { slotCount := final.slots.length
      arity := graph.inputs.length
      roots := final.roots
      steps := markFrees outputs steps
      outputs }

/-- The constants that a schedule holds on to. -/
def constants (schedule : Schedule α) : List Value :=
  schedule.roots.filterMap fun (_, source) =>
    match source with
    | .constant value => some value
    | _ => none

/-- The containers that a schedule reads. -/
def containers (schedule : Schedule α) : List ContainerId :=
  schedule.roots.filterMap fun (_, source) =>
    match source with
    | .shared container => some container
    | _ => none

end Schedule

end ArrayGraph
