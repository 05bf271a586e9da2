import ArrayGraph.Value

/-!
# Shared containers

A container holds a value across calls. Its type fixes the element type and the number of
dimensions; the dimensions themselves may change with every value it is given. A released
container is empty for good, and reading it or writing to it is an error.
-/

namespace ArrayGraph

/-- Why a container refused to be read or written. -/
inductive ContainerError where
  | released (name : String)
  | typeMismatch (name : String) (expected found : ArrayType)
deriving DecidableEq, Repr

/-- The text of an error. -/
def ContainerError.message : ContainerError → String
  | .released name => s!"shared value {Text.quoted name} has been released"
  | .typeMismatch name expected found =>
    s!"shared value {Text.quoted name} has type {expected.text}, cannot hold a value of type " ++
      found.text

namespace Memory

variable {α : Type}

/-- The container with an identifier. -/
def container (memory : Memory α) (id : ContainerId) : Container :=
  memory.containers[id.index]?.getD default

/-- The memory with another value in a container. -/
def setContainer (memory : Memory α) (id : ContainerId) (value : Option Value) : Memory α :=
  { memory with
    containers := memory.containers.modify id.index fun container => { container with value } }

end Memory

namespace Container

variable {α ε : Type}

/-- A new container that holds a value, in the value's own buffer. -/
def create (name : String) (value : Value) : Action α ε ContainerId := fun memory =>
  let type := ArrayType.ofRank value.element value.shape.length
  .ok ⟨memory.containers.size⟩
    { memory with containers := memory.containers.push ⟨name, type, some value⟩ }

/-- The value in a container: the value itself if it is borrowed, and else a copy of it. -/
def getValue (id : ContainerId) (borrow : Bool) : Action α ContainerError Value := do
  let container := (← get).container id
  match container.value with
  | some value => if borrow then pure value else value.copy
  | none => Action.raise (.released container.name)

/-- Whether a container can hold a value. -/
def accepts (container : Container) (value : Value) : Bool :=
  value.element = container.type.element && container.type.acceptsShape value.shape

/-- Puts a value into a container: the value itself if it is borrowed, and else a copy of it. -/
def setValue (id : ContainerId) (value : Value) (borrow : Bool) :
    Action α ContainerError Unit := do
  let container := (← get).container id
  if container.value.isNone then Action.raise (.released container.name)
  else if !container.accepts value then
    Action.raise (.typeMismatch container.name container.type value.type)
  else
    let held ← if borrow then pure value else value.copy
    modify (·.setContainer id (some held))

/-- Empties a container for good. -/
def release (id : ContainerId) : Action α ε Unit := modify (·.setContainer id none)

/-- Whether a container has been released. -/
def isReleased (container : Container) : Bool := container.value.isNone

/-- The text of a container: its name and its type. -/
def text (container : Container) : String :=
  s!"SharedValue({container.name}: {container.type.text})"

end Container

end ArrayGraph
