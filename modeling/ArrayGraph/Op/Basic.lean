import ArrayGraph.Value

/-!
# Operations

An operation is one of a fixed table, or a function that the host program supplies. Beside its
name and its number of inputs each declares what the alias analysis needs to know: which inputs it
overwrites, and which outputs are views of inputs. The analysis looks at these declarations only,
never at what an operation computes.
-/

namespace ArrayGraph

/-- A function of one or two numbers that is applied element by element. -/
inductive ScalarFunction where
  | add
  | sub
  | mul
  | div
  | neg
  | exp
  | log
  | log1p
  | sqr
deriving DecidableEq, Repr, Inhabited

namespace ScalarFunction

def arity : ScalarFunction → Nat
  | .add | .sub | .mul | .div => 2
  | .neg | .exp | .log | .log1p | .sqr => 1

def name : ScalarFunction → String
  | .add => "add"
  | .sub => "sub"
  | .mul => "mul"
  | .div => "true_div"
  | .neg => "neg"
  | .exp => "exp"
  | .log => "log"
  | .log1p => "log1p"
  | .sqr => "sqr"

/-- All functions of the table. -/
def all : List ScalarFunction := [.add, .sub, .mul, .div, .neg, .exp, .log, .log1p, .sqr]

/-- The function with a given name. -/
def ofName? (text : String) : Option ScalarFunction := all.find? (·.name = text)

/-- The element type of the result, given the widest element type of the operands. Division and the
elementary functions leave the integers; the others make integers of truth values. -/
def resultElement (function : ScalarFunction) (operands : ElementType) : ElementType :=
  match function with
  | .div | .exp | .log | .log1p => .float64
  | .add | .sub | .mul | .neg | .sqr => operands.upcast .int64

/-- The value at a list of numbers. Numbers beyond the arity are ignored; with too few there is no
value. -/
def evaluate? {α : Type} [Arithmetic α] : ScalarFunction → List α → Option α
  | .add, x :: y :: _ => some (x + y)
  | .sub, x :: y :: _ => some (x - y)
  | .mul, x :: y :: _ => some (x * y)
  | .div, x :: y :: _ => some (x / y)
  | .neg, x :: _ => some (-x)
  | .exp, x :: _ => some (Arithmetic.exp x)
  | .log, x :: _ => some (Arithmetic.log x)
  | .log1p, x :: _ => some (Arithmetic.log1p x)
  | .sqr, x :: _ => some (x * x)
  | _, _ => none

end ScalarFunction

/-- A function of the host program, with the types it declares. Two of them are the same only if
they are the same function of the host, which is what `identity` stands for. -/
structure HostFunction (α : Type) where
  name : String
  inputTypes : List ArrayType
  outputTypes : List ArrayType
  identity : Nat
  run : List Value → Action α OpError (List Value)

/-- An operation on arrays. -/
inductive Op (α : Type) where
  /-- A scalar function applied element by element. With a target, the result is written over that
  input. -/
  | elementwise (function : ScalarFunction) (target : Option Nat)
  /-- The sum of all elements, without dimensions. -/
  | sum
  /-- The input's buffer under another shape. -/
  | reshape (shape : List Nat)
  /-- The input itself. -/
  | view
  /-- The input's elements in a new buffer. -/
  | copy
  /-- An array like the input with one number everywhere. -/
  | fill (number : α)
  | cast (element : ElementType)
  | host (function : HostFunction α)

namespace Op

variable {α : Type}

/-- A scalar function that overwrites nothing. -/
def ofFunction (function : ScalarFunction) : Op α := .elementwise function none

/-- Whether two operations are the same one. Numbers to fill with are compared by the element
arithmetic. -/
def beq [BEq α] : Op α → Op α → Bool
  | .elementwise function target, .elementwise function' target' =>
    function = function' && target = target'
  | .sum, .sum | .view, .view | .copy, .copy => true
  | .reshape shape, .reshape shape' => shape = shape'
  | .fill number, .fill number' => number == number'
  | .cast element, .cast element' => element = element'
  | .host function, .host function' =>
    function.name = function'.name && function.inputTypes = function'.inputTypes &&
      function.outputTypes = function'.outputTypes && function.identity = function'.identity
  | _, _ => false

instance [BEq α] : BEq (Op α) := ⟨beq⟩

/-- The name of an operation, with its parameters in braces. -/
def name [Arithmetic α] : Op α → String
  | .elementwise function none => function.name
  | .elementwise function (some target) =>
    function.name ++ Text.braced [s!"inplace={target}"]
  | .sum => "sum"
  | .reshape shape => "reshape" ++ Text.braced [Text.shape shape]
  | .view => "view_op"
  | .copy => "deep_copy"
  | .fill number => "fill" ++ Text.braced [Arithmetic.write number]
  | .cast element => "cast" ++ Text.braced [element.name]
  | .host function => function.name

/-- How many inputs an operation takes. -/
def arity : Op α → Nat
  | .elementwise function _ => function.arity
  | .sum | .reshape _ | .view | .copy | .fill _ | .cast _ => 1
  | .host function => function.inputTypes.length

/-- The pairs of an output and the input whose buffer it is written into. -/
def destroyMap : Op α → List (Nat × Nat)
  | .elementwise _ (some target) => [(0, target)]
  | _ => []

/-- The pairs of an output and the input that it is a view of. -/
def viewMap : Op α → List (Nat × Nat)
  | .reshape _ | .view => [(0, 0)]
  | _ => []

/-- Whether an operation overwrites an input. -/
def isDestructive (op : Op α) : Bool := !op.destroyMap.isEmpty

/-- Whether an operation only gives another handle on an input. -/
def isPureView (op : Op α) : Bool := !op.viewMap.isEmpty && !op.isDestructive

/-- The inputs that an operation could overwrite as far as types go: those of its output's type. -/
def reuseCandidates (op : Op α) (inputs outputs : List ArrayType) : List Nat :=
  match op, outputs with
  | .elementwise _ none, output :: _ =>
    (List.range inputs.length).filter fun index => inputs[index]? = some output
  | _, _ => []

/-- The form of an operation that overwrites an input, if there is one. -/
def destructiveVariant? (op : Op α) (input : Nat) : Option (Op α) :=
  match op with
  | .elementwise function none =>
    if input < function.arity then some (.elementwise function (some input)) else none
  | _ => none

end Op

end ArrayGraph
