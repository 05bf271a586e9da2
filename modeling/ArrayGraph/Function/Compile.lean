import ArrayGraph.Function.Signature

/-!
# Compiling functions

A function is compiled in steps: its signature is worked out, its part of the graph captured and
optimized, outputs that would hand out foreign storage are protected, and the result is linked. The
first thing that goes wrong ends it.
-/

namespace ArrayGraph

/-- What to do about an argument that no output depends on. -/
inductive UnusedInput where
  | raise
  | warn
  | ignore
deriving DecidableEq, Repr, Inhabited

/-- Options of a compilation. -/
structure CompileOptions where
  onUnusedInput : UnusedInput
  /-- Every output must depend on an input. -/
  requireDependence : Bool
  /-- The graph may have destructive nodes from the start. -/
  acceptInPlace : Bool
  /-- Replaces the budget of every repeated stage. -/
  budget : Option Nat
  profile : Bool
deriving DecidableEq, Repr, Inhabited

/-- What to compile, and how. -/
structure FunctionSpec where
  inputs : List InputSpec
  outputs : List OutputSpec
  /-- Containers with what they are updated to. -/
  updates : List (VarId × VarId)
  mode : ModeSpec
  options : CompileOptions
  link : LinkOptions

/-- A compiled function. -/
structure Function (α : Type) where
  executable : Executable α
  signature : Signature
  graph : Dataflow α
  report : OptimizeReport
  profile : Option Profile

/-- The rules and modes that compilations draw on. -/
structure Compiler (α : Type) where
  modes : ModeRegistry
  rules : Database α

/-- The memory and the log so far. -/
structure Logged (α : Type) where
  memory : Memory α
  log : List LogEntry

/-- A compilation or a call under way. -/
abbrev Compilation (α β : Type) := EStateM (Failure FunctionError) (Logged α) β

namespace Compilation

variable {α β ε : Type}

/-- Runs a computation that changes nothing. -/
def ofChecked (wrap : ε → FunctionError) (computation : Checked ε β) : Compilation α β :=
  match computation with
  | Except.ok value => pure value
  | Except.error failure => throw (failure.map wrap)

/-- Adds an entry to the log. -/
def log (level : LogLevel) (text : String) : Compilation α Unit :=
  modify fun state => { state with log := state.log ++ [⟨level, text⟩] }

/-- Runs a computation on the memory. -/
def onMemory (wrap : ε → FunctionError) (action : Action α ε β) : Compilation α β := fun state =>
  match action state.memory with
  | .ok value memory => .ok value { state with memory }
  | .error failure memory => .error (failure.map wrap) { state with memory }

/-- Changes a graph. -/
def onGraph (wrap : ε → FunctionError) (edit : Edit α ε β) (graph : Dataflow α) :
    Compilation α (β × Dataflow α) := fun state =>
  match edit ⟨graph, state.memory, state.log⟩ with
  | .ok value after => .ok (value, after.graph) ⟨after.memory, after.log⟩
  | .error failure after => .error (failure.map wrap) ⟨after.memory, after.log⟩

/-- Looks for arguments that no output depends on. -/
def checkUnused (policy : UnusedInput) (signature : Signature) (graph : Dataflow α) :
    Compilation α Unit :=
  let used := graph.outputs.flatMap graph.rootAncestors
  signature.arguments.zipIdx.forM fun (argument, index) => do
    if argument.var ∉ used then
      match policy with
      | .raise => throw (Failure.error (.unusedInput index argument.name))
      | .warn => log .warn (FunctionError.unusedMessage index argument.name)
      | .ignore => pure ()

/-- Guards what a function may not overwrite: arguments that are not mutable, and containers that
are not updated. -/
def guardInputs (signature : Signature) (graph : Dataflow α) : Dataflow α :=
  let arguments := (signature.arguments.filter (!·.mutable)).map (·.var)
  let shared := (signature.shared.filter (·.update.isNone)).map (·.var)
  (arguments ++ shared).foldl Dataflow.guard graph

/-- The part of a symbolic graph that a function with a given signature computes, in which every
container is one variable. -/
def captureGraph (graph : Graph α) (signature : Signature) (requireDependence : Bool) :
    Checked GraphError (Dataflow α) := do
  let captured ← Dataflow.capture graph signature.inputVars signature.outputVars requireDependence
  captured.replaceAll signature.aliases

end Compilation

namespace Compiler

variable {α : Type} [Arithmetic α]

/-- The standard rules and modes. -/
def standard : Compiler α := ⟨ModeRegistry.standard, Database.standard⟩

/-- Compiles a function of a symbolic graph. -/
def compile (compiler : Compiler α) (graph : Graph α) (spec : FunctionSpec) :
    Compilation α (Function α) := do
  let options := spec.options
  let mode ← Compilation.ofChecked FunctionError.mode (compiler.modes.resolve spec.mode)
  let signature ← Compilation.ofChecked id
    (Signature.collect (← get).memory graph spec.inputs spec.outputs spec.updates)
  let captured ← Compilation.ofChecked FunctionError.graph
    (Compilation.captureGraph graph signature options.requireDependence)
  Compilation.checkUnused options.onUnusedInput signature captured
  let guarded := Compilation.guardInputs signature captured
  if !options.acceptInPlace then
    Compilation.ofChecked FunctionError.alias guarded.checkNoInPlace
  let ((report, _), optimized) ← Compilation.onGraph FunctionError.optimize
    (Edit.optimize compiler.rules mode.optimizer options.budget) guarded
  let (copies, final) ← Compilation.ofChecked FunctionError.graph
    (optimized.protectOutputs signature.inputContracts signature.outputContracts)
  let orderings ← Compilation.ofChecked FunctionError.alias final.validate
  Compilation.log .debug
    s!"compiled graph ({copies} protective copies):\n{final.text (← get).memory}"
  let (executable, linkLog) ← Compilation.ofChecked FunctionError.graph
    (Executable.link mode.linker spec.link final orderings)
  linkLog.forM fun entry => Compilation.log entry.level entry.text
  let profile := if mode.profile || options.profile then some Profile.empty else none
  pure ⟨executable, signature, final, report, profile⟩

end Compiler

end ArrayGraph
