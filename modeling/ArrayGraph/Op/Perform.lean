import ArrayGraph.Op.Compute

/-!
# Performing operations

To perform an operation is to compute its result from the contents of its inputs and to put the
result where the operation says: into a new buffer, over the input that it overwrites, or nowhere at
all if it is a view. All elements are read before anything is written, so an input that occurs
twice, or is overwritten by the result, is always seen as it was before.
-/

namespace ArrayGraph.Op

variable {α : Type} [Arithmetic α]

omit [Arithmetic α] in
/-- Writes a result over a value of the same shape and element type, or fails with an error. -/
def writeOver (target : Value) (result : Tensor α) (mismatch : OpError) :
    Action α OpError Value := do
  if target.shape = result.shape && target.element = result.element &&
      ((← get).contents target).size = result.data.size then
    modify (·.write target.buffer result.data)
    pure target
  else Action.raise mismatch

/-- Puts the result of an operation where it belongs. -/
def place (op : Op α) (inputs : List Value) (result : Tensor α) : Action α OpError Value := do
  match op, inputs with
  | .elementwise _ (some position), _ =>
    let target ← Action.ofChecked (Checked.orFault inputs[position]? (.noSuchOperand position))
    writeOver target result (.inPlaceType op.name target.type result.type)
  | .reshape _, input :: _ | .view, input :: _ => pure { input with shape := result.shape }
  | _, _ => Value.store result.element result.shape result.data

/-- Applies an operation to values. -/
def perform (op : Op α) (inputs : List Value) : Action α OpError (List Value) := do
  if inputs.length ≠ op.arity then
    Action.raise (.arity op.name op.arity inputs.length)
  else
    match op with
    | .host function =>
      let outputs ← function.run inputs
      if outputs.length = function.outputTypes.length then pure outputs
      else Action.raise (.outputCount function.name function.outputTypes.length outputs.length)
    | _ =>
      let result ← Action.ofChecked (op.compute (inputs.map (← get).tensor))
      pure [← op.place inputs result]

omit [Arithmetic α] in
/-- Whether an operation has a form of its own for planned execution. Host functions have none. -/
def isPlanned : Op α → Bool
  | .host _ => false
  | _ => true

omit [Arithmetic α] in
/-- Puts a result into a value left over from an earlier run if it has the same shape and element
type, and else into a new buffer. -/
def placeInto (leftover : Option Value) (result : Tensor α) : Action α OpError Value :=
  match leftover with
  | some target =>
    if target.shape = result.shape && target.element = result.element then
      writeOver target result (.badElementCount target.shape result.data.size)
    else Value.store result.element result.shape result.data
  | none => Value.store result.element result.shape result.data

/-- Applies an operation as planned execution does. An elementwise operation that overwrites nothing
takes its inputs as they are, without counting them, and may write its result into a `leftover`
value. The caller offers a value only if its buffer is held by no one else. -/
def performPlanned (op : Op α) (inputs : List Value) (leftover : Option Value) :
    Action α OpError (List Value) := do
  match op with
  | .elementwise _ none =>
    let result ← Action.ofChecked (op.compute (inputs.map (← get).tensor))
    pure [← placeInto leftover result]
  | _ => op.perform inputs

end ArrayGraph.Op
