import ArrayGraph.Dataflow.Capture
import ArrayGraph.Function.Error

/-!
# Signatures

A function takes its declared inputs as arguments. Every shared container that it reads or updates
is an input too, which is filled from the container. Several variables may stand for one container;
one of them becomes the input and the others are its aliases.
-/

namespace ArrayGraph

/-- A declared input. -/
structure InputSpec where
  var : VarId
  name : Option String
  /-- The function may overwrite the argument. -/
  mutable : Bool
  /-- Arguments must have the element type of the input. -/
  strict : Bool
  /-- Outputs may share the argument's storage. -/
  borrow : Bool
  /-- What is written back after each call, for a shared container. -/
  update : Option VarId
deriving DecidableEq, Repr, Inhabited

/-- A declared output. -/
structure OutputSpec where
  var : VarId
  /-- The result may share storage with an input or another output. -/
  borrow : Bool
deriving DecidableEq, Repr, Inhabited

/-- An explicit argument of a function. -/
structure Argument where
  var : VarId
  name : Option String
  type : ArrayType
  mutable : Bool
  strict : Bool
  borrow : Bool
deriving DecidableEq, Repr, Inhabited

/-- A container that a function reads or updates. -/
structure SharedSlot where
  var : VarId
  container : ContainerId
  borrow : Bool
  update : Option VarId
deriving DecidableEq, Repr, Inhabited

/-- How a function is called: explicit arguments first, then containers. -/
structure Signature where
  arguments : List Argument
  shared : List SharedSlot
  /-- Variables that stand for a container of which another variable is the input. -/
  aliases : List (VarId × VarId)
  outputs : List OutputSpec
deriving DecidableEq, Repr, Inhabited

namespace Graph

variable {α ε : Type}

/-- The variables that a variable is computed from in one step. -/
def operands (graph : Graph α) (id : VarId) : List VarId :=
  match graph.vars[id.index]?.bind Variable.producer? with
  | some (node, _) =>
    match graph.nodes[node.index]? with
    | some content => content.inputs
    | none => []
  | none => []

/-- The roots that some variables are or depend on, by rising identifier. -/
def rootsOf (graph : Graph α) (vars : List VarId) : Checked ε (List VarId) := do
  vars.forM fun id => discard (graph.getVar id)
  let reached := closure graph.operands graph.vars.size vars
  let all := (List.range graph.vars.size).map VarId.mk
  Except.ok (all.filter fun id =>
    id ∈ reached && (graph.vars[id.index]?.bind Variable.producer?).isNone)

end Graph

namespace Signature

variable {α : Type}

/-- Adds a declared input to a signature. Each variable and each container can be declared once. -/
def declare (graph : Graph α) (declared : List VarId) (signature : Signature) (index : Nat)
    (input : InputSpec) : Checked FunctionError Signature :=
  if input.var ∈ declared then Checked.raise (.duplicateInput index input.var)
  else do
    let var ← graph.getVar input.var
    match var.kind with
    | .input =>
      if input.update.isSome then Checked.raise (.updateOnNonShared input.var)
      else
        let argument : Argument :=
          ⟨input.var, input.name <|> var.name, var.type, input.mutable, input.strict, input.borrow⟩
        Except.ok { signature with arguments := signature.arguments ++ [argument] }
    | .shared container =>
      if signature.shared.any (·.container = container) then
        Checked.raise (.duplicateInput index input.var)
      else
        let slot : SharedSlot := ⟨input.var, container, input.borrow, input.update⟩
        Except.ok { signature with shared := signature.shared ++ [slot] }
    | .constant _ | .output _ _ => Checked.raise (.invalidInput index input.var)

/-- Adds declared inputs to a signature, from a position on. -/
def declareAll (graph : Graph α) :
    Nat → List VarId → List InputSpec → Signature → Checked FunctionError Signature
  | _, _, [], signature => Except.ok signature
  | index, declared, input :: rest, signature => do
    let extended ← declare graph declared signature index input
    declareAll graph (index + 1) (input.var :: declared) rest extended

/-- Adds an update to a signature. A container can have one update. -/
def addUpdate (memory : Memory α) (graph : Graph α) (signature : Signature)
    (update : VarId × VarId) : Checked FunctionError Signature := do
  let (target, expression) := update
  match (← graph.getVar target).kind with
  | .shared container =>
    match signature.shared.find? (·.container = container) with
    | some slot =>
      if slot.update.isSome then
        Checked.raise (.duplicateUpdate (memory.container container).name)
      else
        Except.ok
          { signature with
            shared := signature.shared.map fun other =>
              if other.container = container then { other with update := some expression }
              else other }
    | none =>
      let slot : SharedSlot := ⟨target, container, false, some expression⟩
      Except.ok { signature with shared := signature.shared ++ [slot] }
  | _ => Checked.raise (.updateOnNonShared target)

/-- Adds a root that the function reads: a container that is not known yet, or an alias of one that
is. -/
def addRead (graph : Graph α) (signature : Signature) (id : VarId) :
    Checked FunctionError Signature := do
  match (← graph.getVar id).kind with
  | .shared container =>
    match signature.shared.find? (·.container = container) with
    | some slot =>
      if slot.var = id then Except.ok signature
      else Except.ok { signature with aliases := signature.aliases ++ [(id, slot.var)] }
    | none =>
      let slot : SharedSlot := ⟨id, container, false, none⟩
      Except.ok { signature with shared := signature.shared ++ [slot] }
  | _ => Except.ok signature

/-- Checks a container of a signature: it must not be released, and its update must be of its
element type and rank. -/
def checkShared (memory : Memory α) (graph : Graph α) (slot : SharedSlot) :
    Checked FunctionError Unit := do
  let container := memory.container slot.container
  if container.isReleased then Checked.raise (.container (.released container.name))
  else
    match slot.update with
    | none => Except.ok ()
    | some expression =>
      let found := (← graph.getVar expression).type
      if found.element = container.type.element && found.rank = container.type.rank then
        Except.ok ()
      else Checked.raise (.updateTypeMismatch container.name container.type found)

/-- The signature of a function with declared inputs, outputs and updates. -/
def collect (memory : Memory α) (graph : Graph α) (inputs : List InputSpec)
    (outputs : List OutputSpec) (updates : List (VarId × VarId)) :
    Checked FunctionError Signature := do
  let declared ← declareAll graph 0 [] inputs ⟨[], [], [], outputs⟩
  let updated ← updates.foldlM (addUpdate memory graph) declared
  let reads ← graph.rootsOf (outputs.map (·.var) ++ updated.shared.filterMap (·.update))
  let signature ← reads.foldlM (addRead graph) updated
  signature.shared.forM (checkShared memory graph)
  Except.ok signature

/-- The inputs of the graph: arguments, then containers. -/
def inputVars (signature : Signature) : List VarId :=
  signature.arguments.map (·.var) ++ signature.shared.map (·.var)

/-- The containers that are updated, with what they are updated to. -/
def updated (signature : Signature) : List (SharedSlot × VarId) :=
  signature.shared.filterMap fun slot => slot.update.map fun expression => (slot, expression)

/-- The outputs of the graph: results, then updates. -/
def outputVars (signature : Signature) : List VarId :=
  signature.outputs.map (·.var) ++ signature.updated.map fun (_, expression) => expression

/-- What the caller agrees to for the inputs. -/
def inputContracts (signature : Signature) : List InputContract :=
  signature.arguments.map (fun argument => ⟨argument.var, argument.borrow, false⟩) ++
    signature.shared.map fun slot => ⟨slot.var, slot.borrow, slot.update.isSome⟩

/-- What the caller agrees to for the outputs. -/
def outputContracts (signature : Signature) : List OutputContract :=
  signature.outputs.map (fun output => ⟨output.borrow, none⟩) ++
    signature.updated.map fun (slot, _) => ⟨false, some slot.var⟩

/-- Which inputs the function may overwrite. -/
def writable (signature : Signature) : List Bool :=
  signature.arguments.map (·.mutable) ++ signature.shared.map (·.update.isSome)

end Signature

end ArrayGraph
