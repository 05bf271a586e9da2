import ArrayGraph.Container
import ArrayGraph.Op.Perform

/-!
# Symbolic graphs

A symbolic graph is built by naming inputs, constants and shared variables and applying operations
to variables that are already there. Variables and nodes are only ever added, so a node reads
variables that are older than its outputs. What a function needs of a graph is captured from it as
a dataflow graph.
-/

namespace ArrayGraph

/-- The identity of a variable in a graph. -/
structure VarId where
  index : Nat
deriving DecidableEq, Repr, Inhabited

/-- The identity of a node in a graph. -/
structure NodeId where
  index : Nat
deriving DecidableEq, Repr, Inhabited

/-- The text of a variable's identity. -/
def VarId.text (id : VarId) : String := s!"VarId({id.index})"

/-- The text of a node's identity. -/
def NodeId.text (id : NodeId) : String := s!"NodeId({id.index})"

/-- Where the value of a variable comes from. -/
inductive VarKind where
  /-- The caller. -/
  | input
  /-- A shared container, as it is when a function is called. -/
  | shared (container : ContainerId)
  | constant (value : Value)
  /-- An output of a node. -/
  | output (node : NodeId) (index : Nat)
deriving DecidableEq, Repr, Inhabited

/-- A variable of a graph. -/
structure Variable where
  type : ArrayType
  kind : VarKind
  name : Option String
deriving DecidableEq, Repr, Inhabited

namespace Variable

/-- The node and the output that a variable is, unless it is a root. -/
def producer? (var : Variable) : Option (NodeId × Nat) :=
  match var.kind with
  | .output node index => some (node, index)
  | _ => none

/-- Whether no node computes the variable. -/
def isRoot (var : Variable) : Bool := var.producer?.isNone

/-- The value of a constant. -/
def constant? (var : Variable) : Option Value :=
  match var.kind with
  | .constant value => some value
  | _ => none

/-- The container of a shared variable. -/
def container? (var : Variable) : Option ContainerId :=
  match var.kind with
  | .shared container => some container
  | _ => none

end Variable

/-- An operation with the variables it reads and those it computes. -/
structure Node (α : Type) where
  op : Op α
  inputs : List VarId
  outputs : List VarId

/-- A graph under construction. -/
structure Graph (α : Type) where
  vars : Array Variable
  nodes : Array (Node α)

namespace Graph

variable {α : Type}

/-- The graph without variables and nodes. -/
def empty : Graph α := ⟨#[], #[]⟩

/-- The variable with an identifier, which must be one of the graph. -/
def getVar {ε : Type} (graph : Graph α) (id : VarId) : Checked ε Variable :=
  Checked.orFault graph.vars[id.index]? (.noSuchVariable id.index)

/-- The node with an identifier, which must be one of the graph. -/
def getNode {ε : Type} (graph : Graph α) (id : NodeId) : Checked ε (Node α) :=
  Checked.orFault graph.nodes[id.index]? (.noSuchNode id.index)

/-- The graph with a further root variable, and the identifier of that variable. -/
def addRoot (graph : Graph α) (type : ArrayType) (kind : VarKind) (name : Option String) :
    VarId × Graph α :=
  (⟨graph.vars.size⟩, { graph with vars := graph.vars.push ⟨type, kind, name⟩ })

/-- Adds an input with a name. -/
def addInput (graph : Graph α) (type : ArrayType) (name : String) : VarId × Graph α :=
  graph.addRoot type .input (some name)

/-- Adds a constant, which keeps the value's own buffer. -/
def addConstant (graph : Graph α) (value : Value) : VarId × Graph α :=
  graph.addRoot value.type (.constant value) none

/-- Adds a variable for the contents of a container. Every call makes another variable. -/
def addShared (graph : Graph α) (memory : Memory α) (container : ContainerId) :
    VarId × Graph α :=
  let held := memory.container container
  graph.addRoot held.type (.shared container) (some held.name)

/-- The variables that the outputs of a new node become, of the given types. -/
def outputVariables (node : NodeId) (types : List ArrayType) : List Variable :=
  types.zipIdx.map fun (type, index) => ⟨type, .output node index, none⟩

/-- Adds a node that applies an operation to variables. Gives the new variables. -/
def apply [Arithmetic α] (graph : Graph α) (op : Op α) (inputs : List VarId) :
    Checked OpError (List VarId × Graph α) := do
  let vars ← inputs.mapM (graph.getVar ·)
  let types ← op.inferTypes (vars.map (·.type))
  let node : NodeId := ⟨graph.nodes.size⟩
  let outputs := (List.range types.length).map fun index => VarId.mk (graph.vars.size + index)
  Except.ok (outputs,
    { vars := graph.vars ++ outputVariables node types
      nodes := graph.nodes.push ⟨op, inputs, outputs⟩ })

/-- The only one of a list of outputs. -/
def single [Arithmetic α] (op : Op α) (outputs : List VarId) : Checked OpError VarId :=
  match outputs with
  | [output] => Except.ok output
  | _ => Checked.raise (.outputCount op.name 1 outputs.length)

/-- Adds a node that applies an operation with one output. If the operation has another number of
outputs that is an error, but the node is added all the same. -/
def applySingle [Arithmetic α] (graph : Graph α) (op : Op α) (inputs : List VarId) :
    Checked OpError VarId × Graph α :=
  match graph.apply op inputs with
  | Except.ok (outputs, extended) => (single op outputs, extended)
  | Except.error failure => (Except.error failure, graph)

end Graph

end ArrayGraph
