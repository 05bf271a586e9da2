import ArrayGraph.Op.Typing

/-!
# What operations compute

An operation of the table is a function of the contents of its inputs, whatever buffers they are
in. This file gives that function; where its result is put is a matter of performing the operation.
A target to overwrite makes no difference here.
-/

namespace ArrayGraph

variable {α : Type}

namespace ScalarFunction

/-- The shape of a result: that of the first operand with dimensions. The others must have the same
shape or none. -/
def commonShape (name : String) (operands : List (Tensor α)) : Checked OpError (List Nat) :=
  match (operands.map (·.shape)).filter (fun shape => !shape.isEmpty) with
  | [] => Except.ok []
  | shape :: rest =>
    if rest.all (· = shape) then Except.ok shape
    else Checked.raise (.incompatibleShapes name (operands.map (·.shape)))

/-- The element of an operand that goes into an element of the result. A single element goes into
all of them. -/
def operandAt (operand : Tensor α) (index : Nat) : Checked OpError α :=
  let position := if operand.data.size = 1 then 0 else index
  Checked.orFault operand.data[position]? (.noSuchElement position)

variable [Arithmetic α]

/-- One element of the result, before it is brought to an element type. -/
def elementAt (function : ScalarFunction) (operands : List (Tensor α)) (index : Nat) :
    Checked OpError α := do
  let arguments ← operands.mapM (operandAt · index)
  Checked.orFault (function.evaluate? arguments) (.noSuchOperand arguments.length)

/-- The array of the values of a scalar function. Operands beyond its arity only take part in
finding the shape and the element type. -/
def compute (function : ScalarFunction) (name : String) (operands : List (Tensor α)) :
    Checked OpError (Tensor α) := do
  let element := function.resultElement (ElementType.upcastAll (operands.map (·.element)))
  let shape ← commonShape name operands
  let count ← elementCount shape
  let data ← (List.range count).mapM (function.elementAt operands)
  Except.ok ⟨element, shape, (data.map element.normalize).toArray⟩

end ScalarFunction

namespace Tensor

/-- The sum of all elements, from the first to the last. -/
def total [Arithmetic α] (tensor : Tensor α) : α :=
  tensor.data.foldl (· + ·) Arithmetic.sumStart

/-- The narrowest type of an array. -/
def type (tensor : Tensor α) : ArrayType := ArrayType.ofShape tensor.element tensor.shape

/-- The same elements under another shape, which must ask for as many. -/
def reshape (tensor : Tensor α) (shape : List Nat) : Checked OpError (Tensor α) := do
  if (← elementCount shape) = tensor.data.size then Except.ok { tensor with shape }
  else Checked.raise (.badReshape tensor.type shape)

/-- The elements brought to an element type. -/
def cast [Arithmetic α] (tensor : Tensor α) (element : ElementType) : Tensor α :=
  ⟨element, tensor.shape, tensor.data.map element.normalize⟩

/-- An array of the same element type and shape with one number everywhere. -/
def fill [Arithmetic α] (tensor : Tensor α) (number : α) : Checked OpError (Tensor α) := do
  let count ← elementCount tensor.shape
  Except.ok
    { tensor with data := Array.replicate count (tensor.element.normalize number) }

end Tensor

/-- The array that an operation of the table computes. Host functions are not in the table. -/
def Op.compute [Arithmetic α] (op : Op α) (operands : List (Tensor α)) :
    Checked OpError (Tensor α) :=
  match op, operands with
  | .elementwise function _, _ => function.compute op.name operands
  | .sum, operand :: _ =>
    let element := operand.element.upcast .int64
    Except.ok ⟨element, [], #[element.normalize operand.total]⟩
  | .reshape shape, operand :: _ => operand.reshape shape
  | .view, operand :: _ | .copy, operand :: _ => Except.ok operand
  | .fill number, operand :: _ => operand.fill number
  | .cast element, operand :: _ => Except.ok (operand.cast element)
  | .host _, _ | _, [] => Checked.abort (.noSuchOperand 0)

end ArrayGraph
