import ArrayGraph.Memory

/-!
# Values

How values come to be, are read, written and compared. Every write brings the elements to the
value's element type, so the elements of a buffer are always ones of the type its handles show.
-/

namespace ArrayGraph

variable {α ε : Type}

namespace Value

/-- The narrowest type of a value. -/
def type (value : Value) : ArrayType := ArrayType.ofShape value.element value.shape

/-- Whether two values have one buffer. -/
def sharesBuffer (left right : Value) : Bool := left.buffer = right.buffer

/-- A value in a buffer of its own that holds the given elements as they are. -/
def store (element : ElementType) (shape : List Nat) (data : Array α) : Action α ε Value :=
  fun memory =>
    let (buffer, after) := memory.allocate data
    .ok ⟨element, shape, buffer⟩ after

/-- A value in a buffer of its own that holds as many elements as its shape asks for. -/
def create [Arithmetic α] (element : ElementType) (shape : List Nat) (data : Array α) :
    Action α OpError Value := do
  let expected ← Action.ofChecked (elementCount shape)
  if expected ≠ data.size then Action.raise (.badElementCount shape data.size)
  else store element shape (data.map element.normalize)

/-- A value without dimensions. -/
def scalar [Arithmetic α] (element : ElementType) (x : α) : Action α ε Value :=
  store element [] #[element.normalize x]

/-- A value with one dimension, of floats. -/
def vector (data : Array α) : Action α ε Value := store .float64 [data.size] data

/-- A value all of whose elements are one number. -/
def filled [Arithmetic α] (element : ElementType) (shape : List Nat) (x : α) :
    Action α ε Value := do
  let count ← Action.ofChecked (elementCount shape)
  store element shape (Array.replicate count (element.normalize x))

/-- A value with the same elements in a buffer of its own. -/
def copy (value : Value) : Action α ε Value := do
  store value.element value.shape ((← get).contents value)

/-- A value with the elements brought to another element type, in a buffer of its own. -/
def cast [Arithmetic α] (value : Value) (element : ElementType) : Action α ε Value := do
  store element value.shape (((← get).contents value).map element.normalize)

/-- The value's own buffer seen under another shape. -/
def view (value : Value) (shape : List Nat) : Action α OpError Value := do
  let count ← Action.ofChecked (elementCount shape)
  let size := ((← get).contents value).size
  if count ≠ size then Action.raise (.badElementCount shape size)
  else pure { value with shape }

/-- The element at a position. -/
def get? (memory : Memory α) (value : Value) (index : Nat) : Option α :=
  (memory.contents value)[index]?

/-- The element of a value that has one only. -/
def item? (memory : Memory α) (value : Value) : Option α :=
  match (memory.contents value).toList with
  | [x] => some x
  | _ => none

/-- Writes one element. -/
def set [Arithmetic α] (value : Value) (index : Nat) (x : α) : Action α OpError Unit := do
  let data := (← get).contents value
  if index < data.size then
    modify (·.write value.buffer (data.setIfInBounds index (value.element.normalize x)))
  else Action.raise (.indexOutOfBounds index data.size)

/-- Writes all elements. The buffer stays the same one. -/
def overwrite [Arithmetic α] (value : Value) (data : Array α) : Action α OpError Unit := do
  if ((← get).contents value).size ≠ data.size then
    Action.raise (.badElementCount value.shape data.size)
  else modify (·.write value.buffer (data.map value.element.normalize))

/-- Whether two values are equal element by element, in the sense of the element arithmetic. -/
def equal [BEq α] (memory : Memory α) (left right : Value) : Bool :=
  left.element = right.element && left.shape = right.shape &&
    (memory.contents left).toList == (memory.contents right).toList

end Value

/-- Whether two numbers differ by no more than a tolerance, taken relative to one plus the second
number. A NaN is close to a NaN only. -/
def isClose (tolerance x y : Float) : Bool :=
  if x != x || y != y then x != x && y != y
  else x == y || Float.abs (x - y) ≤ tolerance * (1.0 + Float.abs y)

/-- Whether two values of one shape are close element by element. -/
def Value.allClose (memory : Memory Float) (tolerance : Float) (left right : Value) : Bool :=
  left.shape = right.shape &&
    ((memory.contents left).toList.zip (memory.contents right).toList).all fun (x, y) =>
      isClose tolerance x y

/-- The listing of a value: its element type, its shape and its elements. -/
def Value.listing (memory : Memory Float) (value : Value) : String :=
  value.element.name ++ Text.shape value.shape ++
    Text.bracketed ((memory.contents value).toList.map NumberFormat.listing.write)

end ArrayGraph
