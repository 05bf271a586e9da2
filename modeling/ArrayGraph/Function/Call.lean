import ArrayGraph.Function.Compile

/-!
# Calling functions

A call brings its arguments to the types of the inputs, reads the containers, runs the executable
and writes updates back. Inputs that the function may overwrite are copied first if they share a
buffer with another input.
-/

namespace ArrayGraph

variable {α : Type}

/-- The value that an argument becomes: itself if its element type is the one of the input, a cast
copy if it can be widened and the input is not strict. -/
def Argument.coerce [Arithmetic α] (argument : Argument) (index : Nat) (value : Value) :
    Action α FunctionError Value :=
  let mismatch : Action α FunctionError Value :=
    Action.raise (.argumentType index argument.type value.type)
  if !argument.type.acceptsShape value.shape then mismatch
  else if value.element = argument.type.element then pure value
  else if !argument.strict && value.element.castsSafelyTo argument.type.element then
    value.cast argument.type.element
  else mismatch

/-- What came of a call. -/
structure CallOutcome (α : Type) where
  result : Checked FunctionError (List Value)
  /-- The function after the call. -/
  function : Function α
  memory : Memory α
  log : List LogEntry
  events : List (NodeEvent α)

namespace Function

/-- Copies the input at a position if another input shares its buffer. -/
def separateInput (inputs : List Value) (index : Nat) : Compilation α (List Value) := do
  match inputs[index]? with
  | none => pure inputs
  | some value =>
    let aliased := inputs.zipIdx.any fun (other, position) =>
      position ≠ index && value.sharesBuffer other
    if aliased then
      Compilation.log .debug s!"copying input {index} apart from an input sharing its storage"
      let copy ← Compilation.onMemory id value.copy
      pure (inputs.set index copy)
    else pure inputs

/-- Gives every writable input a buffer of its own. -/
def separateInputs (inputs : List Value) (writable : List Bool) : Compilation α (List Value) :=
  (Dataflow.positions writable true).foldlM separateInput inputs

/-- The inputs of the executable for a call: the arguments as the signature asks for them, and the
values in the containers. -/
def prepare [Arithmetic α] (signature : Signature) (arguments : List Value) :
    Compilation α (List Value) := do
  if arguments.length ≠ signature.arguments.length then
    throw (Failure.error (.argumentCount signature.arguments.length arguments.length))
  let coerced ← ((signature.arguments.zip arguments).zipIdx).mapM
    fun ((argument, value), index) => Compilation.onMemory id (argument.coerce index value)
  let read ← signature.shared.mapM fun slot =>
    Compilation.onMemory FunctionError.container (Container.getValue slot.container true)
  separateInputs (coerced ++ read) signature.writable

/-- Puts the values of updates into their containers. -/
def writeBack (signature : Signature) (values : List Value) : Compilation α Unit :=
  (signature.updated.zip values).forM fun ((slot, _), value) =>
    Compilation.onMemory FunctionError.container (Container.setValue slot.container value true)

/-- Counts the nodes that a run has executed. -/
def countNodes (function : Function α) (executed : List (NodeId × String)) : Function α :=
  { function with
    profile := function.profile.map fun profile =>
      profile.recordNodes (executed.map fun (node, op) => (node.index, op)) }

/-- Calls a function. `heldOutside` tells which buffers are held by anyone but the slots of the
function's executable. -/
def call [Arithmetic α] (function : Function α) (heldOutside : BufferId → Bool)
    (arguments : List Value) (memory : Memory α) : CallOutcome α :=
  match prepare function.signature arguments ⟨memory, []⟩ with
  | .error failure state => ⟨Except.error failure, function, state.memory, state.log, []⟩
  | .ok inputs prepared =>
    let outcome := function.executable.run heldOutside inputs prepared.memory
    let after :=
      { function with executable := outcome.executable }.countNodes outcome.executed
    match outcome.result with
    | Except.error failure =>
      ⟨Except.error (failure.map FunctionError.run), after, outcome.memory, prepared.log,
        outcome.events⟩
    | Except.ok outputs =>
      let count := function.signature.outputs.length
      let written := writeBack function.signature (outputs.drop count)
        ⟨outcome.memory, prepared.log⟩
      match written with
      | .error failure state =>
        ⟨Except.error failure, after, state.memory, state.log, outcome.events⟩
      | .ok _ state =>
        let counted := { after with profile := after.profile.map (·.recordCall 0) }
        ⟨Except.ok (outputs.take count), counted, state.memory, state.log, outcome.events⟩

end Function

end ArrayGraph
