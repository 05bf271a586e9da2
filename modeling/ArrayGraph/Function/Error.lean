import ArrayGraph.Mode

/-!
# Errors of functions
-/

namespace ArrayGraph

/-- Why a function could not be compiled or called. -/
inductive FunctionError where
  | duplicateInput (index : Nat) (var : VarId)
  /-- A declared input is a constant or is computed by a node. -/
  | invalidInput (index : Nat) (var : VarId)
  | updateOnNonShared (var : VarId)
  | updateTypeMismatch (name : String) (expected found : ArrayType)
  | duplicateUpdate (name : String)
  | unusedInput (index : Nat) (name : Option String)
  | argumentCount (expected given : Nat)
  | argumentType (index : Nat) (expected found : ArrayType)
  | container (cause : ContainerError)
  | graph (cause : GraphError)
  | optimize (cause : OptimizeError)
  | alias (cause : AliasError)
  | mode (cause : ModeError)
  | run (cause : RunError)
deriving DecidableEq, Repr

namespace FunctionError

/-- What is said of an input that no output depends on. -/
def unusedMessage (index : Nat) (name : Option String) : String :=
  let known := match name with
    | some text => " " ++ Text.quoted text
    | none => ""
  s!"input {index}{known} is not used to compute any output"

/-- The text of an error. -/
def message : FunctionError → String
  | .duplicateInput index var => s!"input {index} ({var.text}) is declared twice"
  | .invalidInput index var =>
    s!"input {index} ({var.text}) is neither a graph input nor a shared value"
  | .updateOnNonShared var => s!"{var.text} has an update but is not a shared value"
  | .updateTypeMismatch name expected found =>
    s!"shared value {Text.quoted name} has type {expected.text} but its update has type " ++
      found.text
  | .duplicateUpdate name => s!"shared value {Text.quoted name} has more than one update"
  | .unusedInput index name => unusedMessage index name
  | .argumentCount expected given =>
    s!"the function takes {expected} arguments but {given} were given"
  | .argumentType index expected found =>
    s!"argument {index} should have type {expected.text} but has type {found.text}"
  | .container cause => cause.message
  | .graph cause => cause.message
  | .optimize cause => cause.message
  | .alias cause => cause.message
  | .mode cause => cause.message
  | .run cause => cause.message

end FunctionError

end ArrayGraph
