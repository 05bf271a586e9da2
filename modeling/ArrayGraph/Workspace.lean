import ArrayGraph.Function.Call

/-!
# Workspaces

A workspace is one memory with everything that has been made in it: a symbolic graph, and named
values, containers, operations, dataflow graphs, executables and functions. It is the place where
the question whether a buffer is still held can be answered, because all handles are in sight:
values by name, containers that can still be reached, constants in graphs and schedules, and the
slots that planned executables keep.
-/

namespace ArrayGraph

/-- Things by name. -/
abbrev Slots (β : Type) := List (String × β)

namespace Slots

variable {β : Type}

/-- Puts a thing under a name, in the place of one that is there. -/
def put (slots : Slots β) (name : String) (thing : β) : Slots β :=
  (name, thing) :: slots.filter fun (other, _) => other ≠ name

/-- Removes what is under a name. -/
def remove (slots : Slots β) (name : String) : Slots β :=
  slots.filter fun (other, _) => other ≠ name

/-- The things in a list of slots. -/
def things (slots : Slots β) : List β := slots.map fun (_, thing) => thing

/-- The slots in the order of their names. -/
def sorted (slots : Slots β) : Slots β := slots.mergeSort fun (left, _) (right, _) => left ≤ right

end Slots

/-- One memory and what has been made in it. -/
structure Workspace (α : Type) where
  memory : Memory α
  graph : Graph α
  values : Slots Value
  containers : Slots ContainerId
  ops : Slots (Op α)
  dataflows : Slots (Dataflow α)
  executables : Slots (Executable α)
  functions : Slots (Function α)

namespace Workspace

variable {α : Type}

/-- The workspace in which nothing has been made. -/
def empty : Workspace α := ⟨Memory.empty, Graph.empty, [], [], [], [], [], []⟩

def setMemory (workspace : Workspace α) (memory : Memory α) : Workspace α :=
  { workspace with memory }

def setGraph (workspace : Workspace α) (graph : Graph α) : Workspace α :=
  { workspace with graph }

def putValue (workspace : Workspace α) (name : String) (value : Value) : Workspace α :=
  { workspace with values := workspace.values.put name value }

def removeValue (workspace : Workspace α) (name : String) : Workspace α :=
  { workspace with values := workspace.values.remove name }

def putContainer (workspace : Workspace α) (name : String) (id : ContainerId) : Workspace α :=
  { workspace with containers := workspace.containers.put name id }

def putOp (workspace : Workspace α) (name : String) (op : Op α) : Workspace α :=
  { workspace with ops := workspace.ops.put name op }

def putDataflow (workspace : Workspace α) (name : String) (graph : Dataflow α) : Workspace α :=
  { workspace with dataflows := workspace.dataflows.put name graph }

def putExecutable (workspace : Workspace α) (name : String) (executable : Executable α) :
    Workspace α :=
  { workspace with executables := workspace.executables.put name executable }

def putFunction (workspace : Workspace α) (name : String) (function : Function α) :
    Workspace α :=
  { workspace with functions := workspace.functions.put name function }

def removeFunction (workspace : Workspace α) (name : String) : Workspace α :=
  { workspace with functions := workspace.functions.remove name }

/-- Puts values under names, as far as there are both. -/
def putValues (workspace : Workspace α) (names : List String) (values : List Value) :
    Workspace α :=
  (names.zip values).foldl (fun extended (name, value) => extended.putValue name value) workspace

/-- The named containers with their values, in the order of their names. -/
def containerValues (workspace : Workspace α) : Slots (Option Value) :=
  workspace.containers.sorted.map fun (name, id) => (name, (workspace.memory.container id).value)

/-- For each of a list of values, the position of the first one that shares its buffer. -/
def aliasClasses (values : List Value) : List Nat :=
  let buffers := values.map (·.buffer)
  buffers.map buffers.idxOf

/-- The constants among variables. -/
def constantsIn (vars : Array Variable) : List Value :=
  vars.toList.filterMap Variable.constant?

/-- The containers that variables stand for. -/
def containersIn (vars : Array Variable) : List ContainerId :=
  vars.toList.filterMap Variable.container?

/-- All variables of the graphs in a workspace. -/
def vars (workspace : Workspace α) : List (Array Variable) :=
  workspace.graph.vars :: workspace.dataflows.things.map (·.vars) ++
    workspace.functions.things.map (·.graph.vars)

/-- All executables, those of functions included. -/
def allExecutables (workspace : Workspace α) : List (Executable α) :=
  workspace.executables.things ++ workspace.functions.things.map (·.executable)

/-- The containers that can still be reached. -/
def reachableContainers (workspace : Workspace α) : List ContainerId :=
  (workspace.containers.things ++ workspace.vars.flatMap containersIn ++
    workspace.allExecutables.flatMap (·.schedule.containers)).eraseDups

/-- The buffers in sight, one entry for each handle on them. -/
def handles (workspace : Workspace α) : List BufferId :=
  let values := workspace.values.things ++
    workspace.reachableContainers.filterMap (fun id => (workspace.memory.container id).value) ++
    workspace.vars.flatMap constantsIn ++
    workspace.allExecutables.flatMap (·.schedule.constants)
  values.map (·.buffer) ++ workspace.allExecutables.flatMap (·.heldBuffers)

/-- How many handles there are on a buffer. -/
def handleCount (workspace : Workspace α) (buffer : BufferId) : Nat :=
  workspace.handles.count buffer

/-- Whether there is a handle on a buffer in the workspace or among some values. -/
def holds (workspace : Workspace α) (values : List Value) : BufferId → Bool :=
  let held := workspace.handles ++ values.map (·.buffer)
  fun buffer => buffer ∈ held

/-- Runs an executable of the workspace on arguments that the caller keeps. -/
def run [Arithmetic α] (workspace : Workspace α) (name : String) (executable : Executable α)
    (arguments : List Value) : RunOutcome α × Workspace α :=
  let idle : Executable α := { executable with slots := #[] }
  let others := workspace.putExecutable name idle
  let outcome := executable.run (others.holds arguments) arguments workspace.memory
  (outcome,
    (workspace.setMemory outcome.memory).putExecutable name outcome.executable)

/-- Calls a function of the workspace on arguments that the caller keeps. -/
def call [Arithmetic α] (workspace : Workspace α) (name : String) (function : Function α)
    (arguments : List Value) : CallOutcome α × Workspace α :=
  let idle : Function α :=
    { function with executable := { function.executable with slots := #[] } }
  let others := workspace.putFunction name idle
  let outcome := function.call (others.holds arguments) arguments workspace.memory
  (outcome,
    (workspace.setMemory outcome.memory).putFunction name outcome.function)

end Workspace

end ArrayGraph
