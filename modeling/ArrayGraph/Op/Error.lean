import ArrayGraph.ArrayType

/-!
# Errors of array operations
-/

namespace ArrayGraph

/-- Why an operation on arrays, or on the types of arrays, was refused. -/
inductive OpError where
  /-- The operation was given a wrong number of inputs. -/
  | arity (op : String) (expected given : Nat)
  /-- Two input types cannot describe arrays of one shape. -/
  | typeConflict (op : String) (left right : ArrayType)
  /-- The inputs have different shapes and none of the odd ones is a scalar. -/
  | incompatibleShapes (op : String) (shapes : List (List Nat))
  /-- An operation cannot write its result over the input it was meant to overwrite. -/
  | inPlaceType (op : String) (input output : ArrayType)
  /-- An array cannot be seen under a shape with another number of elements. -/
  | badReshape (source : ArrayType) (target : List Nat)
  /-- A shape and a number of elements do not fit together. -/
  | badElementCount (shape : List Nat) (count : Nat)
  | indexOutOfBounds (index count : Nat)
  /-- An input does not have the type that a host function declares for it. -/
  | inputType (op : String) (index : Nat) (expected found : ArrayType)
  /-- An operation has another number of outputs than was asked for. -/
  | outputCount (op : String) (expected produced : Nat)
  /-- A host function refused its inputs. -/
  | custom (reason : String)
deriving DecidableEq, Repr

namespace OpError

/-- The text of an error. -/
def message : OpError → String
  | .arity op expected given => s!"{op} expects {expected} inputs but was given {given}"
  | .typeConflict op left right =>
    s!"{op} cannot combine inputs of types {left.text} and {right.text}"
  | .incompatibleShapes op shapes => s!"{op} cannot combine arrays of shapes {Text.shapes shapes}"
  | .inPlaceType op input output =>
    s!"{op} cannot overwrite an input of type {input.text} with an output of type {output.text}"
  | .badReshape source target =>
    s!"cannot reshape an array of type {source.text} to shape {Text.shape target}"
  | .badElementCount shape count => s!"shape {Text.shape shape} does not describe {count} elements"
  | .indexOutOfBounds index count =>
    s!"index {index} out of bounds for an array of {count} elements"
  | .inputType op index expected found =>
    s!"input {index} of {op} must have type {expected.text}, found {found.text}"
  | .outputCount op expected produced =>
    s!"{op} produced {produced} outputs, expected {expected}"
  | .custom reason => reason

end OpError

end ArrayGraph
