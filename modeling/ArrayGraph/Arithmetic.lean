import ArrayGraph.ArrayType
import ArrayGraph.Number.Text
import ArrayGraph.Number.Elementary

/-!
# Element arithmetic

Arrays hold elements of one carrier, whatever their element type: a truth value is zero or one,
an integer is a number without a fraction. The library only uses the operations of
`Arithmetic`, so all of it holds for any carrier with them; programs run on 64-bit floats. Nothing
is assumed of the operations here. Where a result needs a law (a sum with zero, say), the law is a
hypothesis of that result.
-/

namespace ArrayGraph

/-- The operations on elements. The equality test is the one of the carrier's own arithmetic: on
floats both zeros are equal and a NaN differs from itself. -/
class Arithmetic (α : Type) extends Zero α, One α, Add α, Sub α, Mul α, Div α, Neg α, BEq α where
  /-- What a sum starts from. -/
  sumStart : α
  exp : α → α
  log : α → α
  log1p : α → α
  /-- The part before the point. -/
  trunc : α → α
  /-- Whether two elements are represented alike, so that no operation can tell them apart. -/
  identical : α → α → Bool
  /-- The text of an element. -/
  write : α → String

instance : Arithmetic Float where
  zero := 0.0
  one := 1.0
  sumStart := -0.0
  exp := Elementary.exp
  log := Elementary.log
  log1p := Elementary.log1p
  trunc := Binary64.trunc
  identical x y := x.toBits == y.toBits
  write := NumberFormat.plain.write

/-- The element of a kind that stands for a number: a truth value is one unless the number is zero,
an integer is the part before the point. -/
def ElementType.normalize {α : Type} [Arithmetic α] (type : ElementType) (x : α) : α :=
  match type with
  | .bool => if x == 0 then 0 else 1
  | .int64 => Arithmetic.trunc x
  | .float64 => x

end ArrayGraph
