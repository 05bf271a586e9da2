import ArrayGraph.Failure
import ArrayGraph.Text

/-!
# Element types and array types

An element type orders the three kinds of element so that the larger of two is the one that holds
both. An array type is an element type with a shape in which some dimensions may be unknown until
a function is called. Two shapes that must describe the same array are unified dimension by
dimension, a known dimension winning over an unknown one.
-/

namespace ArrayGraph

/-- The kinds of element, from the narrowest to the widest. -/
inductive ElementType where
  | bool
  | int64
  | float64
deriving DecidableEq, Repr, Inhabited

namespace ElementType

/-- The position of a kind of element in the order of widening. -/
def rank : ElementType → Nat
  | .bool => 0
  | .int64 => 1
  | .float64 => 2

/-- The narrowest kind that holds elements of both kinds. -/
def upcast (left right : ElementType) : ElementType :=
  if left.rank ≤ right.rank then right else left

/-- Whether every element of the first kind is one of the second. -/
def castsSafelyTo (source target : ElementType) : Bool := source.rank ≤ target.rank

/-- The narrowest kind that holds elements of every kind in a list. -/
def upcastAll (types : List ElementType) : ElementType := types.foldl upcast .bool

/-- The name of a kind of element. -/
def name : ElementType → String
  | .bool => "bool"
  | .int64 => "int64"
  | .float64 => "float64"

@[simp]
theorem upcast_self (type : ElementType) : type.upcast type = type := by simp [upcast]

theorem upcast_comm (left right : ElementType) : left.upcast right = right.upcast left := by
  cases left <;> cases right <;> rfl

/-- The kind of element with a given name. -/
def ofName? (text : String) : Option ElementType :=
  [ElementType.bool, .int64, .float64].find? (·.name = text)

end ElementType

/-- Two to the sixty-fourth: numbers of elements must stay below it. -/
def sizeLimit : Nat := 1 <<< 64

/-- How many elements an array of a shape has, provided that no product of its leading dimensions
exceeds 64 bits. -/
def elementCount? (shape : List Nat) : Option Nat :=
  shape.foldlM (fun count dimension =>
    let product := count * dimension
    if product < sizeLimit then some product else none) 1

/-- How many elements an array of a shape has. -/
def elementCount {ε : Type} (shape : List Nat) : Checked ε Nat :=
  Checked.orFault (elementCount? shape) .sizeOverflow

/-- What is known of an array before it exists. -/
structure ArrayType where
  element : ElementType
  /-- The dimensions; one that is missing is unknown until a call. -/
  shape : List (Option Nat)
deriving DecidableEq, Repr, Inhabited

namespace ArrayType

/-- The type of arrays without dimensions. -/
def scalar (element : ElementType) : ArrayType := ⟨element, []⟩

/-- The type of arrays of a number of unknown dimensions. -/
def ofRank (element : ElementType) (rank : Nat) : ArrayType :=
  ⟨element, List.replicate rank none⟩

/-- The type of arrays of a known shape. -/
def ofShape (element : ElementType) (shape : List Nat) : ArrayType :=
  ⟨element, shape.map some⟩

/-- The same shape with another kind of element. -/
def withElement (type : ArrayType) (element : ElementType) : ArrayType :=
  { type with element }

/-- How many dimensions arrays of the type have. -/
def rank (type : ArrayType) : Nat := type.shape.length

/-- Whether arrays of the type have no dimensions. -/
def isScalar (type : ArrayType) : Bool := type.shape.isEmpty

/-- Whether a concrete shape fits the type: each known dimension is met. -/
def acceptsShape (type : ArrayType) (shape : List Nat) : Bool :=
  type.shape.length == shape.length &&
    (type.shape.zip shape).all fun (expected, actual) =>
      match expected with
      | some dimension => dimension == actual
      | none => true

/-- The dimension that two descriptions of one dimension agree on, if they do. -/
def unifyDimension? : Option Nat → Option Nat → Option (Option Nat)
  | some left, some right => if left = right then some (some left) else none
  | some left, none => some (some left)
  | none, right => some right

/-- A unified dimension is met by exactly the sizes that meet both descriptions. -/
theorem fits_unifyDimension?_iff {left right unified : Option Nat} {size : Nat}
    (agree : unifyDimension? left right = some unified) :
    (unified = none ∨ unified = some size) ↔
      (left = none ∨ left = some size) ∧ (right = none ∨ right = some size) := by
  cases left with
  | none =>
    simp only [unifyDimension?, Option.some.injEq] at agree
    simp [agree]
  | some first =>
    cases right with
    | none =>
      simp only [unifyDimension?, Option.some.injEq] at agree
      simp [← agree]
    | some second =>
      simp only [unifyDimension?] at agree
      split at agree
      · next same =>
        simp only [Option.some.injEq] at agree
        simp [← agree, same]
      · cases agree

/-- The shape that two descriptions of one array agree on, if they do. -/
def unifyShape? (left right : ArrayType) : Option (List (Option Nat)) :=
  if left.rank = right.rank then
    (left.shape.zip right.shape).mapM fun (a, b) => unifyDimension? a b
  else none

/-- How many elements arrays of the type have, if all dimensions are known. The product is formed
from the left and stops at the first unknown dimension. -/
def knownCount {ε : Type} (type : ArrayType) : Checked ε (Option Nat) :=
  go 1 type.shape
where
  go (count : Nat) : List (Option Nat) → Checked ε (Option Nat)
    | [] => .ok (some count)
    | none :: _ => .ok none
    | some dimension :: rest =>
      if count * dimension < sizeLimit then go (count * dimension) rest
      else Checked.abort .sizeOverflow

/-- The text of a type, as in `float64[2, ?]`. -/
def text (type : ArrayType) : String :=
  type.element.name ++ Text.bracketed (type.shape.map fun dimension =>
    match dimension with
    | some size => toString size
    | none => "?")

end ArrayType

end ArrayGraph
