import ArrayGraph.Op.Error
import ArrayGraph.Arithmetic

/-!
# Memory

A value is a handle: an element type, a shape and the identifier of a buffer. Two values with one
buffer are aliases, and a write through one is seen through the other. The memory maps buffer
identifiers to elements, and container identifiers to the shared containers that outlive calls.
Buffers are only ever added. Whether a buffer is still held by someone is not recorded here: it is
a question about the handles that exist, and whoever asks it lists them.
-/

namespace ArrayGraph

/-- The identity of a buffer. -/
structure BufferId where
  index : Nat
deriving DecidableEq, Repr, Inhabited

/-- The identity of a shared container. -/
structure ContainerId where
  index : Nat
deriving DecidableEq, Repr, Inhabited

/-- A handle on an array. -/
structure Value where
  element : ElementType
  shape : List Nat
  buffer : BufferId
deriving DecidableEq, Repr, Inhabited

/-- The contents of an array, apart from where they are stored. -/
structure Tensor (α : Type) where
  element : ElementType
  shape : List Nat
  data : Array α

/-- A named place for one value, of a fixed element type and rank. It is empty once released. -/
structure Container where
  name : String
  type : ArrayType
  value : Option Value
deriving DecidableEq, Repr, Inhabited

/-- All buffers and all containers. -/
structure Memory (α : Type) where
  buffers : Array (Array α)
  containers : Array Container

/-- A computation on the memory that answers or fails. What it wrote before it failed stays. -/
abbrev Action (α ε β : Type) := EStateM (Failure ε) (Memory α) β

namespace Memory

variable {α : Type}

/-- The memory without buffers and containers. -/
def empty : Memory α := ⟨#[], #[]⟩

/-- The elements of a buffer. -/
def read (memory : Memory α) (buffer : BufferId) : Array α :=
  memory.buffers[buffer.index]?.getD #[]

/-- The memory with a further buffer, and the identifier of that buffer. -/
def allocate (memory : Memory α) (data : Array α) : BufferId × Memory α :=
  (⟨memory.buffers.size⟩, { memory with buffers := memory.buffers.push data })

/-- The memory with other elements in a buffer. -/
def write (memory : Memory α) (buffer : BufferId) (data : Array α) : Memory α :=
  { memory with buffers := memory.buffers.setIfInBounds buffer.index data }

/-- The elements that a value stands for. -/
def contents (memory : Memory α) (value : Value) : Array α := memory.read value.buffer

/-- The array that a value stands for. -/
def tensor (memory : Memory α) (value : Value) : Tensor α :=
  ⟨value.element, value.shape, memory.contents value⟩

/-- A new buffer holds what it was made with. -/
@[simp]
theorem read_allocate_self (memory : Memory α) (data : Array α) :
    (memory.allocate data).2.read (memory.allocate data).1 = data := by
  simp [allocate, read]

/-- A new buffer leaves the others as they were. -/
theorem read_allocate_of_lt (memory : Memory α) (data : Array α) {buffer : BufferId}
    (known : buffer.index < memory.buffers.size) :
    (memory.allocate data).2.read buffer = memory.read buffer := by
  simp [allocate, read, Array.getElem?_push, Nat.ne_of_lt known]

/-- A new buffer was not there before. -/
theorem allocate_fresh (memory : Memory α) (data : Array α) :
    (memory.allocate data).1.index = memory.buffers.size := rfl

@[simp]
theorem size_allocate (memory : Memory α) (data : Array α) :
    (memory.allocate data).2.buffers.size = memory.buffers.size + 1 := by
  simp [allocate]

@[simp]
theorem size_write (memory : Memory α) (buffer : BufferId) (data : Array α) :
    (memory.write buffer data).buffers.size = memory.buffers.size := by
  simp [write]

/-- A buffer holds what was written to it last. -/
theorem read_write_self (memory : Memory α) (data : Array α) {buffer : BufferId}
    (known : buffer.index < memory.buffers.size) :
    (memory.write buffer data).read buffer = data := by
  simp [write, read, known]

/-- A write to a buffer leaves the others as they were. -/
theorem read_write_of_ne (memory : Memory α) (data : Array α) {buffer other : BufferId}
    (different : other ≠ buffer) : (memory.write buffer data).read other = memory.read other := by
  have apart : buffer.index ≠ other.index := by
    intro same
    apply different
    cases other
    cases buffer
    simp_all
  simp [write, read, apart]

end Memory

namespace Action

variable {α ε δ β : Type}

/-- Fails with an error. -/
def raise (cause : ε) : Action α ε β := throw (Failure.error cause)

/-- Runs a computation that does not touch the memory. -/
def ofChecked (computation : Checked ε β) : Action α ε β :=
  match computation with
  | Except.ok value => pure value
  | Except.error failure => throw failure

/-- Changes the type of errors. -/
def mapError (f : ε → δ) (action : Action α ε β) : Action α δ β := fun memory =>
  match action memory with
  | .ok value after => .ok value after
  | .error failure after => .error (failure.map f) after

end Action

end ArrayGraph
