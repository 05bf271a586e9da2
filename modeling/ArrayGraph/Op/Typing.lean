import ArrayGraph.Op.Basic

/-!
# Typing of operations

The types of an operation's outputs follow from those of its inputs. Inputs without dimensions
stretch to the shape of the others, and the other inputs must agree on every dimension that is
known.
-/

namespace ArrayGraph

variable {α : Type}

/-- The shape that the inputs with dimensions agree on, as the type of one of them or of several
unified; none if all inputs are scalars. -/
def ScalarFunction.commonType (name : String) (result : ElementType)
    (inputs : List ArrayType) : Checked OpError (Option ArrayType) :=
  (inputs.filter fun type => !type.isScalar).foldlM (fun known type =>
    match known with
    | none => Except.ok (some type)
    | some previous =>
      match previous.unifyShape? type with
      | some shape => Except.ok (some ⟨result, shape⟩)
      | none => Checked.raise (.typeConflict name previous type)) none

/-- The type of the output of a scalar function. -/
def ScalarFunction.outputType (function : ScalarFunction) (name : String)
    (inputs : List ArrayType) : Checked OpError ArrayType := do
  let result := function.resultElement (ElementType.upcastAll (inputs.map (·.element)))
  match ← commonType name result inputs with
  | some type => Except.ok (type.withElement result)
  | none => Except.ok (ArrayType.scalar result)

/-- Checks the inputs of a host function against the types it declares, from a position on. -/
def HostFunction.checkInputs (name : String) :
    Nat → List ArrayType → List ArrayType → Checked OpError Unit
  | index, expected :: restExpected, found :: restFound =>
    if expected.element = found.element && (expected.unifyShape? found).isSome then
      checkInputs name (index + 1) restExpected restFound
    else Checked.raise (.inputType name index expected found)
  | _, _, _ => Except.ok ()

/-- The types of an operation's outputs. -/
def Op.inferTypes [Arithmetic α] (op : Op α) (inputs : List ArrayType) :
    Checked OpError (List ArrayType) := do
  if inputs.length ≠ op.arity then
    Checked.raise (.arity op.name op.arity inputs.length)
  else
    match op, inputs with
    | .elementwise function target, _ =>
      let output ← function.outputType op.name inputs
      match target with
      | none => Except.ok [output]
      | some position =>
        let overwritten ← Checked.orFault inputs[position]? (.noSuchOperand position)
        if overwritten = output then Except.ok [output]
        else Checked.raise (.inPlaceType op.name overwritten output)
    | .sum, input :: _ => Except.ok [ArrayType.scalar (input.element.upcast .int64)]
    | .reshape shape, input :: _ =>
      if let some count ← input.knownCount then
        if count ≠ (← elementCount shape) then Checked.raise (.badReshape input shape)
      Except.ok [ArrayType.ofShape input.element shape]
    | .view, input :: _ | .copy, input :: _ | .fill _, input :: _ => Except.ok [input]
    | .cast element, input :: _ => Except.ok [input.withElement element]
    | .host function, _ =>
      HostFunction.checkInputs function.name 0 function.inputTypes inputs
      Except.ok function.outputTypes
    -- All other operations have one input, which the first test has seen to.
    | _, [] => Checked.abort (.noSuchOperand 0)

end ArrayGraph
