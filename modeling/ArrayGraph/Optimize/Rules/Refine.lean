import ArrayGraph.Optimize.Rules.Simplify

/-!
# Refining rules

Rules that choose a better operation for the same result: the logarithm of one plus a number, the
logarithm of an exponential, a square for a product with itself, and a product for a division by a
constant.
-/

namespace ArrayGraph.Rule

variable {α : Type} [Arithmetic α]

/-- The operand of a sum whose other operand is uniformly one. -/
def besideOne? (memory : Memory α) (graph : Dataflow α) (operands : List VarId) : Option VarId :=
  match operands with
  | [left, right] =>
    if graph.isUniformly memory left 1 then some right
    else if graph.isUniformly memory right 1 then some left
    else none
  | _ => none

/-- The logarithm of one plus a number is computed as such. -/
def log1p : Rule α where
  name := "log1p"
  tags := .ofList ["stabilize", "fast_run", "stable"]
  action := .onNode fun id => do
    let editing ← get
    let operand? := do
      let operand ← (← editing.graph.elementwiseOperands? id .log).head?
      besideOne? editing.memory editing.graph (← editing.graph.producerOperands? operand .add)
    match operand? with
    | some operand => Edit.offerNode id (.ofFunction .log1p) [operand]
    | none => pure none

/-- The logarithm of an exponential is the exponent. -/
def logExp : Rule α where
  name := "log_exp"
  tags := .ofList ["stabilize", "fast_run", "stable"]
  action := .onNode fun id => do pure (nestedOperand? (← Edit.graph) id .log .exp)

/-- A product of equal operands is a square. -/
def mulSelf : Rule α where
  name := "mul_self"
  tags := .ofList ["specialize", "fast_run"]
  action := .onNode fun id => do
    match (← Edit.graph).elementwiseOperands? id .mul with
    | some [left, right] =>
      if left = right then Edit.offerNode id (.ofFunction .sqr) [left] else pure none
    | _ => pure none

/-- The number that a constant without dimensions holds. -/
def scalarConstant? (memory : Memory α) (graph : Dataflow α) (id : VarId) : Option α := do
  let value ← (graph.var id).constant?
  if value.shape.isEmpty then value.item? memory else none

/-- A division by a constant other than zero is a product with its reciprocal. The two can differ in
the last place. -/
def divByConstant : Rule α where
  name := "div_by_constant"
  tags := .ofList ["specialize", "fast_run", "unstable"]
  action := .onNode fun id => do
    let editing ← get
    match editing.graph.elementwiseOperands? id .div with
    | some [dividend, divisor] =>
      match scalarConstant? editing.memory editing.graph divisor with
      | some number =>
        if number == 0 then pure none
        else
          let reciprocal ← Edit.onMemory (Value.scalar .float64 (1 / number))
          let factor ← Edit.addConstant reciprocal
          Edit.offerNode id (.ofFunction .mul) [dividend, factor]
      | none => pure none
    | _ => pure none

end ArrayGraph.Rule
