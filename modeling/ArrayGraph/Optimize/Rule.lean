import ArrayGraph.Log
import ArrayGraph.Reuse
import ArrayGraph.Optimize.Tags

/-!
# Rules

A rule changes a dataflow graph and keeps what it computes. A local rule looks at one node and may
name other variables for its outputs; putting them in place is not its business. A global rule
changes the graph itself. Rules see the memory, because they look at constants and may add new
ones.
-/

namespace ArrayGraph

/-- Why a graph could not be optimized. -/
inductive OptimizeError where
  | duplicateStage (name : String)
  | graph (cause : GraphError)
  | alias (cause : AliasError)
deriving DecidableEq, Repr

/-- The text of an error. -/
def OptimizeError.message : OptimizeError → String
  | .duplicateStage name => s!"a stage named {Text.quoted name} is already registered"
  | .graph cause => cause.message
  | .alias cause => cause.message

/-- A graph being changed, with the memory its constants live in and the log so far. -/
structure Editing (α : Type) where
  graph : Dataflow α
  memory : Memory α
  log : List LogEntry

/-- A computation that changes a graph. What it changed before it failed stays changed. -/
abbrev Edit (α ε β : Type) := EStateM (Failure ε) (Editing α) β

namespace Edit

variable {α ε δ β : Type}

/-- The graph as it is. -/
def graph : Edit α ε (Dataflow α) := return (← get).graph

/-- Puts another graph in place. -/
def setGraph (graph : Dataflow α) : Edit α ε Unit := modify fun editing => { editing with graph }

/-- Runs a computation that changes nothing. -/
def ofChecked (computation : Checked ε β) : Edit α ε β :=
  match computation with
  | Except.ok value => pure value
  | Except.error failure => throw failure

/-- Changes the type of errors. -/
def mapError (f : ε → δ) (edit : Edit α ε β) : Edit α δ β := fun editing =>
  match edit editing with
  | .ok value after => .ok value after
  | .error failure after => .error (failure.map f) after

/-- Runs a computation on the memory. -/
def onMemory (action : Action α ε β) : Edit α ε β := fun editing =>
  match action editing.memory with
  | .ok value memory => .ok value { editing with memory }
  | .error failure memory => .error failure { editing with memory }

/-- Adds an entry to the log. -/
def log (level : LogLevel) (text : String) : Edit α ε Unit :=
  modify fun editing => { editing with log := editing.log ++ [⟨level, text⟩] }

/-- Adds a constant to the graph. -/
def addConstant (value : Value) : Edit α ε VarId := do
  let (id, extended) := (← graph).addConstant value
  setGraph extended
  pure id

/-- Adds a node with one output to the graph. -/
def addNodeSingle [Arithmetic α] (op : Op α) (inputs : List VarId) :
    Edit α GraphError VarId := do
  let (output, extended) := (← graph).addNodeSingle op inputs
  setGraph extended
  ofChecked output

/-- Removes the nodes that no output depends on. -/
def prune : Edit α ε Unit := do setGraph (← graph).prune

/-- Replaces variables by others, all of them or none. A graph with destructive nodes must stay
valid; if it would not, nothing is replaced and the answer is false. -/
def replaceValidated [Arithmetic α] (pairs : List (VarId × VarId)) :
    Edit α GraphError Bool := do
  let current ← graph
  let replaced ← ofChecked (current.replaceAll pairs)
  if current.hasDestroyers then
    match replaced.validate with
    | Except.ok _ =>
      setGraph replaced
      pure true
    | Except.error (Failure.error _) => pure false
    | Except.error (Failure.fault broken) => throw (Failure.fault broken)
  else
    setGraph replaced
    pure true

end Edit

/-- What a rule does. -/
inductive RuleAction (α : Type) where
  /-- Names replacements for the outputs of a node, if the rule applies to it. -/
  | onNode (apply : NodeId → Edit α GraphError (Option (List VarId)))
  /-- Changes the graph, and says whether it did. -/
  | onGraph (apply : Edit α OptimizeError Bool)

/-- A rule with its name and tags. -/
structure Rule (α : Type) where
  name : String
  tags : TagSet
  action : RuleAction α

namespace Rule

variable {α : Type}

/-- Whether a rule looks at single nodes. -/
def isLocal (rule : Rule α) : Bool :=
  match rule.action with
  | .onNode _ => true
  | .onGraph _ => false

/-- What a query can select a rule by: its tags and its name. -/
def labels (rule : Rule α) : TagSet := rule.tags.insertAll [rule.name]

/-- The text of a rule. -/
def text (rule : Rule α) : String :=
  let kind := if rule.isLocal then "local" else "global"
  s!"Rewrite({kind} {rule.name}, {rule.tags.text})"

end Rule

end ArrayGraph
